import PactumCodex.Drafts.Rows

/-!
# What `accept_invite` does

When no other transaction is open, `accept_invite` either leaves drafts and
invitations as they are, or marks one pending invitation as accepted and fills
the slot that waits for it (`acceptInvite_ensures`).  Conversely it succeeds
whenever there is such a slot and nothing fails (`acceptInvite_succeeds`).

## What is found and what is written

`AcceptPlan` collects what the transaction has to find: the invitation with the
token, which is pending, and the draft with a slot that refers to it.
`Accepted` is the effect of carrying the plan out.  Between the two stands
`InTx id writes w w'`: the one open transaction was started in `w` and has
buffered `writes`, so that nothing is visible before the commit.

The body of the transaction is verified once, for any property that its
statements keep (`acceptInTx_keeps`).  Run alone the property is `InTx`; with other
calls in between it is that the locked rows are untouched.

## Success

The proof of success goes the other way: it constructs the execution.  Each
statement of the only open transaction can be executed (`reaches_txQuery`), and
the commit cannot fail because the writes keep all keys
(`TxWrite.apply_isSome`).
-/

namespace PactumCodex

open Interaction Relational Handlers.Invite

/-! ## Slots -/

/-- The slot waits for the invitation. -/
def Handlers.Invite.DraftPartyEntry.awaits (inviteId : Uuid) (slot : DraftPartyEntry) : Bool :=
  slot.pubkey = none ∧ slot.inviteId = some inviteId

/-- The invitations that slots refer to. -/
def inviteIds (slots : List DraftPartyEntry) : List Uuid := slots.filterMap DraftPartyEntry.inviteId

/-- A slot that refers to an invitation has no wallet yet. -/
def Unresolved (slots : List DraftPartyEntry) : Prop :=
  ∀ slot ∈ slots, slot.inviteId.isSome → slot.pubkey = none

/-- Resolving a slot replaces one that refers to the invitation. -/
theorem resolvePartySlotPubkey_eq_some {inviteId : Uuid} {pubkey : String}
    {slots slots' : List DraftPartyEntry}
    (h : resolvePartySlotPubkey inviteId pubkey slots = some slots') :
    ∃ before slot after, slots = before ++ slot :: after ∧ slot.inviteId = some inviteId ∧
      (∀ other ∈ before, other.inviteId ≠ some inviteId) ∧
      slots' = before ++ ⟨some pubkey, none⟩ :: after := by
  induction slots generalizing slots' with
  | nil => simp [resolvePartySlotPubkey] at h
  | cons slot slots ih =>
      unfold resolvePartySlotPubkey at h
      split at h
      · rename_i hslot
        exact ⟨[], slot, slots, rfl, hslot, by simp, (Option.some.inj h).symm⟩
      · rename_i hslot
        obtain ⟨rest, hrest, rfl⟩ := Option.map_eq_some_iff.mp h
        obtain ⟨before, found, after, rfl, hfound, hbefore, rfl⟩ := ih hrest
        exact ⟨slot :: before, found, after, rfl, hfound,
          List.forall_mem_cons.mpr ⟨hslot, hbefore⟩, rfl⟩

/-- A slot is found if some slot refers to the invitation. -/
theorem resolvePartySlotPubkey_isSome {inviteId : Uuid} (pubkey : String)
    {slots : List DraftPartyEntry} (h : inviteId ∈ inviteIds slots) :
    (resolvePartySlotPubkey inviteId pubkey slots).isSome := by
  induction slots with
  | nil => simp [inviteIds] at h
  | cons slot slots ih =>
      unfold resolvePartySlotPubkey
      split
      · rfl
      · rename_i hslot
        have hrest : inviteId ∈ inviteIds slots := by
          obtain ⟨other, hmem, hother⟩ := List.mem_filterMap.mp h
          rcases List.mem_cons.mp hmem with rfl | hmem
          · exact absurd hother hslot
          · exact List.mem_filterMap.mpr ⟨other, hmem, hother⟩
        rw [Option.isSome_map]
        exact ih hrest

/-! ## Drafts and invitations -/

/-- Drafts and invitations are unchanged. -/
structure SameDrafts (w w' : World) : Prop where
  drafts : w'.db.drafts = w.db.drafts
  invitations : w'.db.invitations = w.db.invitations
  accounts : w'.db.contacts = w.db.contacts ∧ w'.db.wallets = w.db.wallets
  txs : w'.txs = w.txs
  uuids : ∀ id ∈ w.uuids, id ∈ w'.uuids

theorem SameDrafts.refl (w : World) : SameDrafts w w := ⟨rfl, rfl, ⟨rfl, rfl⟩, rfl, fun _ h => h⟩

theorem SameDrafts.trans {w₁ w₂ w₃ : World} (h₁ : SameDrafts w₁ w₂) (h₂ : SameDrafts w₂ w₃) :
    SameDrafts w₁ w₃ :=
  ⟨h₂.drafts.trans h₁.drafts, h₂.invitations.trans h₁.invitations,
    ⟨h₂.accounts.1.trans h₁.accounts.1, h₂.accounts.2.trans h₁.accounts.2⟩,
    h₂.txs.trans h₁.txs, fun id h => h₂.uuids id (h₁.uuids id h)⟩

/-- The operation has nothing to do with drafts, invitations or transactions. -/
def Op.leavesDrafts : Op → Bool
  | .sql (.draft _) => false
  | .sql (.invitation _) => false
  | op => !op.inTransaction

theorem sameDrafts_step {step : BackendStep} (h : step.Valid perform)
    (hop : step.op.leavesDrafts = true) : SameDrafts step.pre step.post := by
  have htx : step.op.inTransaction = false := by
    unfold Op.leavesDrafts at hop
    split at hop <;> simp_all
  have hcommits : ¬ ∃ writes, CommitsWrites step writes := by
    rintro ⟨writes, ⟨id, hcommit⟩, -⟩
    rw [hcommit] at htx
    cases htx
  have hdrafts : step.post.db.drafts = step.pre.db.drafts := by
    obtain hsame | ⟨s, out, hexecutes, -⟩ | hcommit := (stored_step h).1
    · exact hsame
    · rw [hexecutes] at hop
      cases hop
    · exact absurd hcommit hcommits
  have hinvitations : step.post.db.invitations = step.pre.db.invitations := by
    obtain hsame | ⟨s, out, hexecutes, -⟩ | hcommit := (stored_step h).2
    · exact hsame
    · rw [hexecutes] at hop
      cases hop
    · exact absurd hcommit hcommits
  exact ⟨hdrafts, hinvitations, accounts_step h, txs_step h htx, uuids_step h⟩

theorem sameDrafts_of_perform {op : Op} {ans : op.Ans} {w w' : World}
    (h : perform op ans w = some w') (hop : op.leavesDrafts = true) : SameDrafts w w' := by
  have hvalid : Step.Valid perform (⟨w, op, ans, w'⟩ : BackendStep) := h
  exact sameDrafts_step hvalid hop

/-- A program of such operations leaves drafts and invitations alone. -/
theorem ensures_sameDrafts {α : Type} {p : Backend α} {w : World}
    (hp : p.Issues fun op => op.leavesDrafts = true) :
    Ensures perform p w fun _ w' => SameDrafts w w' := by
  intro steps a w' hrun
  have hissued := Stops.issued hp hrun.stops
  exact (hrun.chain.invariant (SameDrafts w) (SameDrafts.refl w) fun step hmem hvalid hpre =>
    hpre.trans (sameDrafts_step hvalid (hissued step hmem))).1

theorem enqueueNotification_leavesDrafts (eventType : String) (pda : Option String)
    (recipient : String) : (enqueueNotification eventType pda recipient).run.Issues
      fun op => op.leavesDrafts = true := by
  unfold enqueueNotification
  refine issues_run_bind (issues_ask.mpr rfl) fun _ => ?_
  exact issues_run_bind (issues_query.mpr rfl) fun _ => trivial

theorem notifyReady_leavesDrafts (draftId : Uuid) (creatorPubkey : String) :
    (notifyReady draftId creatorPubkey).run.Issues fun op => op.leavesDrafts = true := by
  unfold notifyReady
  refine issues_run_bind (issues_query.mpr rfl) fun userId => ?_
  cases userId with
  | none => trivial
  | some userId =>
      refine issues_run_bind (issues_ask.mpr rfl) fun delivered => ?_
      cases delivered with
      | true => trivial
      | false => exact enqueueNotification_leavesDrafts ..

/-- Telling the creator after the commit changes neither drafts nor invitations. -/
theorem notifyAccepted_leavesDrafts (acceptance : Acceptance) :
    (if acceptance.allResolved then notifyReady acceptance.draftId acceptance.creatorPubkey
      else pure () : Handler Unit).run.Issues fun op => op.leavesDrafts = true := by
  split
  · exact notifyReady_leavesDrafts ..
  · trivial

/-! ## The transaction -/

/-- The draft with its new slots, ready if all of them have a wallet. -/
def Draft.resolve (slots : List DraftPartyEntry) (now : ℤ) (draft : Draft) : Draft :=
  if allPubkeysResolved slots then
    { draft with partySlots := slotsToValue slots, status := .readyToSubmit, readyAt := some now }
  else { draft with partySlots := slotsToValue slots }

theorem slotsWrite_apply (slots : List DraftPartyEntry) (now : ℤ) (draftId : Uuid) (db : Db) :
    (slotsWrite slots now draftId).apply db =
      (commit (updateWhere (·.id = draftId) (Draft.resolve slots now) db.drafts.rows)).map
        fun drafts => { db with drafts } := by
  unfold slotsWrite Draft.resolve
  split <;> rfl

/-- What `accept_invite` has to find: a pending invitation with the token, and a slot of its draft
that refers to it. -/
structure AcceptPlan (auth : AuthUserWithWallet) (token : String) (w : World)
    (invitation : Invitation) (draft : Draft) (slots slots' : List DraftPartyEntry) : Prop where
  found : w.db.invitation? token = some invitation
  pending : invitation.status = .pending
  owner : w.db.draft? invitation.draftId = some draft
  decoded : slotsFromValue draft.partySlots = some slots
  resolved : resolvePartySlotPubkey invitation.id auth.pubkey slots = some slots'

/-- The effect of `accept_invite`: the invitation is accepted, and the slot gets the wallet. -/
structure Accepted (w w' : World) (invitation : Invitation) (slots' : List DraftPartyEntry)
    (now : ℤ) : Prop where
  invitations : w'.db.invitations.rows = updateWhere (·.id = invitation.id)
    ({ · with status := .accepted }) w.db.invitations.rows
  drafts : w'.db.drafts.rows = updateWhere (·.id = invitation.draftId) (Draft.resolve slots' now)
    w.db.drafts.rows

/-- In `w'` a single transaction is open, which was started in `w` and has buffered `writes`. -/
structure InTx (id : ℕ) (writes : List TxWrite) (w w' : World) : Prop where
  db : w'.db = w.db
  uuids : w'.uuids = w.uuids
  txs : ∃ tx, w'.txs = [tx] ∧ tx.id = id ∧ tx.writes = writes

section Transaction

variable {id : ℕ} {writes : List TxWrite} {w w₁ w₂ : World}

theorem setTx_txs {tx tx' : Tx} (htxs : w.txs = [tx]) (hid : tx'.id = tx.id) :
    (w.setTx tx').txs = [tx'] := by
  simp [World.setTx, htxs, hid]

theorem InTx.performTx {s : TxStmt} {out : s.Out} (h : InTx id writes w w₁)
    (hperform : performTx id s out w₁ = some w₂) :
    InTx id (writes ++ s.writes) w w₂ ∧ s.Returns w.db out := by
  obtain ⟨hdb, huuids, tx, htxs, rfl, rfl⟩ := h
  obtain ⟨tx₁, tx', hfind, rfl, hid, hwrites, hreturns⟩ := performTx_effect hperform
  obtain rfl : tx = tx₁ := by simpa [htxs] using hfind
  exact ⟨⟨hdb, huuids, tx', setTx_txs htxs hid, hid, hwrites⟩, hdb ▸ hreturns⟩

/-- A postcondition for success and one for errors. -/
def Outcome {α : Type} (ok : α → World → Prop) (error : World → Prop) :
    Except AppError α → World → Prop
  | .ok a, w => ok a w
  | .error _, w => error w

/-- A statement of a transaction fails or has its effect. -/
theorem ensures_txQuery_of {id : ℕ} {s : TxStmt} {w : World} {ok : s.Out → World → Prop}
    {error : World → Prop} (hok : ∀ out w', performTx id s out w = some w' → ok out w')
    (herror : error w) : Ensures perform (txQuery id s).run w (Outcome ok error) := by
  refine ensures_orFail (ensures_issue fun answer w' hperform => ?_)
  cases answer with
  | ok out => exact hok out w' hperform
  | error f =>
      obtain rfl : w = w' := Option.some.inj hperform
      exact herror

/-- A statement of the transaction fails or buffers its writes. -/
theorem ensures_txQuery {s : TxStmt} (h : InTx id writes w w₁) :
    Ensures perform (txQuery id s).run w₁ (Outcome
      (fun out w₂ => InTx id (writes ++ s.writes) w w₂ ∧ s.Returns w.db out)
      (InTx id writes w)) := by
  exact ensures_txQuery_of (fun _ _ hperform => h.performTx hperform) h

/-- A transaction that is dropped leaves no trace. -/
theorem InTx.dropTx (h : InTx id writes w w₁) (hw : w.txs = []) :
    SameDrafts w (w₁.dropTx id) := by
  obtain ⟨hdb, huuids, tx, htxs, rfl, -⟩ := h
  refine ⟨?_, ?_, ?_, ?_, ?_⟩
  · rw [World.dropTx, hdb]
  · rw [World.dropTx, hdb]
  · rw [World.dropTx, hdb]
    exact ⟨rfl, rfl⟩
  · simp [World.dropTx, htxs, hw]
  · simp [World.dropTx, huuids]

/-- A commit applies the buffered writes. -/
theorem InTx.commit (h : InTx id writes w w₁) (hcommit : performCommit id w₁ = some w₂) :
    writes.foldlM TxWrite.apply w.db = some w₂.db ∧ w₂.txs = [] ∧ w₂.uuids = w.uuids := by
  obtain ⟨hdb, huuids, tx, htxs, rfl, rfl⟩ := h
  obtain ⟨tx', db, hfind, hwrites, rfl⟩ := performCommit_eq_some.mp hcommit
  obtain rfl : tx = tx' := by simpa [htxs] using hfind
  exact ⟨hdb ▸ hwrites, by simp [htxs], huuids⟩

theorem accepted_of_writes {invitation : Invitation} {slots' : List DraftPartyEntry} {now : ℤ}
    (h : [.acceptInvitation invitation.id, slotsWrite slots' now invitation.draftId].foldlM
      TxWrite.apply w.db = some w₂.db) : Accepted w w₂ invitation slots' now := by
  simp only [List.foldlM_cons, List.foldlM_nil, Option.bind_eq_bind, Option.bind_eq_some_iff,
    Option.pure_def, Option.some.injEq, exists_eq_right] at h
  obtain ⟨db, haccept, hresolve⟩ := h
  rw [slotsWrite_apply] at hresolve
  obtain ⟨invitations, hinvitations, rfl⟩ := Option.map_eq_some_iff.mp haccept
  obtain ⟨drafts, hdrafts, hdb⟩ := Option.map_eq_some_iff.mp hresolve
  refine ⟨?_, ?_⟩
  · rw [← hdb]
    exact rows_of_commit hinvitations
  · rw [← hdb]
    exact rows_of_commit hdrafts

end Transaction

/-- The transaction has found what it needs and has buffered its two writes. -/
def ReadyToCommit (auth : AuthUserWithWallet) (token : String) (now : ℤ) (id : ℕ) (w w' : World) :
    Prop :=
  ∃ invitation draft slots slots', AcceptPlan auth token w invitation draft slots slots' ∧
    InTx id [.acceptInvitation invitation.id, slotsWrite slots' now invitation.draftId] w w'

/-- Whatever is kept by the statements of the transaction: it buffers the two writes, or fails with
some of them. -/
theorem acceptInTx_keeps {auth : AuthUserWithWallet} {token : String} {now : ℤ} {id : ℕ}
    {w w₁ : World}
    {Kept : List TxWrite → World → Prop}
    (hquery : ∀ (s : TxStmt) writes w₁, Kept writes w₁ → Ensures perform (txQuery id s).run w₁
      (Outcome (fun out w₂ => Kept (writes ++ s.writes) w₂ ∧ s.Returns w.db out) (Kept writes)))
    (h : Kept [] w₁) :
    Ensures perform (acceptInTx auth token now id).run w₁ (Outcome
      (fun _ w₂ => ∃ invitation draft slots slots', AcceptPlan auth token w invitation draft slots
          slots' ∧
        Kept [.acceptInvitation invitation.id, slotsWrite slots' now invitation.draftId] w₂)
      (fun w₂ => ∃ writes, Kept writes w₂)) := by
  unfold acceptInTx
  refine ensures_run_bind (hquery _ _ _ h) ?_ fun e w₂ h₂ => ⟨_, h₂⟩
  rintro found w₂ ⟨h₂, hfound⟩
  refine ensures_okOr_bind ?_ ⟨_, h₂⟩
  rintro invite rfl
  -- the invitation is found, and the validation lets only pending ones pass
  obtain ⟨invitation, hinvitation, rfl⟩ := Option.map_eq_some_iff.mp hfound.symm
  refine ensures_ofExcept_bind (fun _ hvalid => ?_) fun _ _ => ⟨_, h₂⟩
  have hpending : invitation.status = .pending := by
    by_contra hstatus
    simp [validatePendingInvitation, hstatus] at hvalid
  refine ensures_run_bind (hquery _ _ _ h₂) ?_ fun e w₃ h₃ => ⟨_, h₃⟩
  rintro found w₃ ⟨h₃, hfound⟩
  refine ensures_okOr_bind ?_ ⟨_, h₃⟩
  rintro row rfl
  -- the draft is found, and one of its slots refers to the invitation
  obtain ⟨draft, hdraft, rfl⟩ := Option.map_eq_some_iff.mp hfound.symm
  refine ensures_okOr_bind (fun slots hslots => ?_) ⟨_, h₃⟩
  refine ensures_okOr_bind (fun slots' hslots' => ?_) ⟨_, h₃⟩
  refine ensures_run_bind (hquery _ _ _ h₃) ?_ fun e w₄ h₄ => ⟨_, h₄⟩
  rintro _ w₄ ⟨h₄, -⟩
  refine ensures_run_bind (hquery _ _ _ h₄) ?_ fun e w₅ h₅ => ⟨_, h₅⟩
  rintro _ w₅ ⟨h₅, -⟩
  exact ensures_ret ⟨invitation, draft, slots, slots',
    ⟨hinvitation, hpending, hdraft, hslots, hslots'⟩, h₅⟩

/-- The transaction buffers the two writes, or fails with some of them. -/
theorem acceptInTx_ensures {auth : AuthUserWithWallet} {token : String} {now : ℤ} {id : ℕ}
    {w w₁ : World} (h : InTx id [] w w₁) :
    Ensures perform (acceptInTx auth token now id).run w₁ (Outcome
      (fun _ => ReadyToCommit auth token now id w) (fun w₂ => ∃ writes, InTx id writes w w₂)) :=
  @acceptInTx_keeps auth token now id w w₁ (fun writes => InTx id writes w)
    (fun _ _ _ h => ensures_txQuery h) h

/-- An error of the transaction undoes it. -/
theorem ensures_rollbackOnError {α : Type} {id : ℕ} {body : Handler α} {w w₁ : World}
    {Ψ : α → World → Prop} (hw : w.txs = [])
    (h : Ensures perform body.run w₁ (Outcome Ψ fun w₂ => ∃ writes, InTx id writes w w₂)) :
    Ensures perform (rollbackOnError id body).run w₁ (Outcome Ψ (SameDrafts w)) := by
  refine ensures_bind (h.mono fun r w₂ hr => ?_)
  cases r with
  | ok a => exact ensures_ret hr
  | error e =>
      obtain ⟨writes, h₂⟩ := hr
      refine ensures_bind (ensures_issue fun _ w₃ hrollback => ensures_ret ?_)
      obtain rfl : w₂.dropTx id = w₃ := Option.some.inj hrollback
      exact h₂.dropTx hw

/-- **Specification of `accept_invite`.**  Run alone, it leaves no transaction open, and either
changes neither drafts nor invitations, or accepts a pending invitation and fills its slot. -/
theorem acceptInvite_ensures {auth : AuthUserWithWallet} {token : String} {w : World}
    (hw : w.txs = []) :
    Ensures perform (acceptInvite auth token).run w fun r w' =>
      w'.txs = [] ∧ (∀ id ∈ w.uuids, id ∈ w'.uuids) ∧
        (SameDrafts w w' ∧ r ≠ .ok () ∨ ∃ invitation draft slots slots' now,
          AcceptPlan auth token w invitation draft slots slots' ∧
            Accepted w w' invitation slots' now) := by
  -- a call that fails has changed nothing
  have hfailed : ∀ {w'} {e : AppError}, SameDrafts w w' → w'.txs = [] ∧
      (∀ id ∈ w.uuids, id ∈ w'.uuids) ∧ (SameDrafts w w' ∧ Except.error e ≠ Except.ok () ∨
        ∃ invitation draft slots slots' now, AcceptPlan auth token w invitation draft slots slots' ∧
          Accepted w w' invitation slots' now) :=
    fun hsame => ⟨hsame.txs.trans hw, hsame.uuids, Or.inl ⟨hsame, by simp⟩⟩
  unfold acceptInvite
  refine ensures_ask_bind fun now w₁ hnow => ?_
  obtain rfl : w = w₁ := Option.some.inj hnow
  refine ensures_run_bind (Ψ := Outcome (fun id => InTx id [] w) (SameDrafts w))
    (ensures_orFail (ensures_issue fun answer w₂ hbegin => ?_)) ?_ fun e w₂ h₂ => hfailed h₂
  · cases answer with
    | ok id =>
        obtain ⟨rfl, rfl⟩ := provided_eq_some.mp hbegin
        exact ⟨rfl, rfl, ⟨w.nextTx, [], [], []⟩, by simp [hw], rfl, rfl⟩
    | error f =>
        obtain rfl : w = w₂ := Option.some.inj hbegin
        exact SameDrafts.refl w
  intro id w₂ h₂
  refine ensures_run_bind (ensures_rollbackOnError hw (acceptInTx_ensures h₂)) ?_
    fun e w₃ h₃ => hfailed h₃
  rintro acceptance w₃ ⟨invitation, draft, slots, slots', hplan, h₃⟩
  refine ensures_run_bind (Ψ := Outcome (fun _ w₄ => w₄.txs = [] ∧ w₄.uuids = w.uuids ∧
      Accepted w w₄ invitation slots' now) (SameDrafts w))
    (ensures_orFail (ensures_issue fun answer w₄ hcommit => ?_)) ?_ fun e w₄ h₄ => hfailed h₄
  · cases answer with
    | ok _ =>
        obtain ⟨hwrites, htxs, huuids⟩ := h₃.commit hcommit
        exact ⟨htxs, huuids, accepted_of_writes hwrites⟩
    | error f =>
        -- a commit that fails rolls back
        obtain rfl : w₃.dropTx id = w₄ := Option.some.inj hcommit
        exact h₃.dropTx hw
  rintro _ w₄ ⟨htxs, huuids, haccepted⟩
  have hnotify := ensures_sameDrafts (w := w₄) (notifyAccepted_leavesDrafts acceptance)
  refine hnotify.mono fun r w₅ h₅ => ⟨h₅.txs.trans htxs, ?_, Or.inr ?_⟩
  · exact fun id hid => h₅.uuids id (huuids ▸ hid)
  · refine ⟨invitation, draft, slots, slots', now, hplan, ?_, ?_⟩
    · rw [h₅.invitations]
      exact haccepted.invitations
    · rw [h₅.drafts]
      exact haccepted.drafts

/-! ## Success -/

/-- The writes of a transaction keep all keys, so they can always be applied. -/
theorem TxWrite.apply_isSome (write : TxWrite) (db : Db) : (write.apply db).isSome := by
  have hdrafts : ∀ f : Draft → Draft, (∀ draft, (f draft).id = draft.id) → ∀ p : Draft → Bool,
      (commit (updateWhere p f db.drafts.rows) : Option (Table Draft DraftsValid)).isSome := by
    intro f hf p
    rw [commit_of_valid]
    · rfl
    · rw [DraftsValid, map_updateWhere hf]
      exact db.drafts.valid
  cases write with
  | acceptInvitation id =>
      rw [apply, Option.isSome_map, commit_of_valid]
      · rfl
      · rw [InvitationsValid, map_updateWhere, map_updateWhere]
        · exact db.invitations.valid
        · exact fun _ => rfl
        · exact fun _ => rfl
  | resolveReady partySlots readyAt id =>
      rw [apply, Option.isSome_map]
      apply hdrafts
      exact fun _ => rfl
  | resolve partySlots id =>
      rw [apply, Option.isSome_map]
      apply hdrafts
      exact fun _ => rfl

theorem foldlM_apply_isSome (writes : List TxWrite) (db : Db) :
    (writes.foldlM TxWrite.apply db).isSome := by
  induction writes generalizing db with
  | nil => rfl
  | cons write writes ih =>
      obtain ⟨db₁, hwrite⟩ := Option.isSome_iff_exists.mp (TxWrite.apply_isSome write db)
      rw [List.foldlM_cons, hwrite]
      exact ih db₁

section Success

variable {id : ℕ} {writes : List TxWrite} {w w₁ : World}

/-- A statement of the only transaction is not blocked. -/
theorem reaches_txQuery {s : TxStmt} {out : s.Out} (h : InTx id writes w w₁)
    (hout : s.Returns w.db out) :
    Reaches perform (txQuery id s).run w₁ fun r w₂ =>
      r = .ok out ∧ InTx id (writes ++ s.writes) w w₂ := by
  suffices hperform : ∃ w₂, performTx id s out w₁ = some w₂ by
    obtain ⟨w₂, hperform⟩ := hperform
    exact reaches_orFail (reaches_issue (.ok out) hperform
      ⟨out, rfl, rfl, (h.performTx hperform).1⟩)
  obtain ⟨hdb, -, tx, htxs, rfl, -⟩ := h
  have hfind : w₁.txs.find? (·.id = tx.id) = some tx := by simp [htxs]
  unfold PactumCodex.performTx
  simp only [hfind]
  cases s with
  | lockInvitation token =>
      refine ⟨_, if_pos ⟨?_, ?_⟩⟩
      · rw [hdb]
        exact hout
      · simp [htxs]
  | lockDraft draftId =>
      refine ⟨_, if_pos ⟨?_, ?_⟩⟩
      · rw [hdb]
        exact hout
      · simp [htxs]
  | write change => exact ⟨_, rfl⟩

theorem reaches_commit (h : InTx id writes w w₁) :
    Reaches perform (Handler.orFail .internalError (.issue (Op.commit id))).run w₁
      fun r _ => r = .ok () := by
  obtain ⟨hdb, -, tx, htxs, rfl, -⟩ := h
  obtain ⟨db, hwrites⟩ := Option.isSome_iff_exists.mp (foldlM_apply_isSome tx.writes w₁.db)
  have hfind : w₁.txs.find? (·.id = tx.id) = some tx := by simp [htxs]
  have hcommit := performCommit_eq_some.mpr ⟨tx, db, hfind, hwrites, rfl⟩
  exact reaches_orFail (reaches_issue (.ok ()) hcommit ⟨(), rfl, rfl⟩)

theorem notifyReady_reaches (draftId : Uuid) (creatorPubkey : String) (w : World) :
    Reaches perform (notifyReady draftId creatorPubkey).run w fun r _ => r = .ok () := by
  let user := (lookup Wallet.pubkey creatorPubkey w.db.wallets.rows).map Wallet.userId
  have hquery : performSql (.account (.userOf creatorPubkey)) user w =
    some { w with uuids := w.uuids } := by
    refine performSql_eq_some.mpr ⟨rfl, by simp [Stmt.generated], w.db, ?_, rfl⟩
    exact provided_eq_some.mpr ⟨rfl, rfl⟩
  unfold notifyReady
  refine reaches_run_bind
    (reaches_orFail (reaches_issue (.ok user) hquery ⟨user, rfl, user, rfl, ?_⟩))
  cases user with
  | none => exact reaches_ret rfl
  | some userId =>
      -- the event is delivered, so nothing is queued
      refine reaches_run_bind (reaches_bind (reaches_issue true rfl (reaches_ret ⟨true, rfl, ?_⟩)))
      exact reaches_ret rfl

end Success

theorem acceptInTx_reaches {auth : AuthUserWithWallet} {token : String} {w w₁ : World} {id : ℕ}
    {invitation : Invitation} {draft : Draft} {slots slots' : List DraftPartyEntry} {now : ℤ}
    (h₁ : InTx id [] w w₁) (hplan : AcceptPlan auth token w invitation draft slots slots')
    (hnow : now ≤ invitation.expiresAt) :
    Reaches perform (acceptInTx auth token now id).run w₁ fun r w₂ =>
      (∃ acceptance, r = .ok acceptance) ∧ ∃ writes, InTx id writes w w₂ := by
  have hvalid : validatePendingInvitation invitation.status invitation.expiresAt now = .ok () := by
    unfold validatePendingInvitation
    rw [hplan.pending, if_neg]
    simpa using hnow
  have hinvite : TxStmt.Returns w.db (.lockInvitation token)
      (some ⟨invitation.id, invitation.draftId, invitation.status, invitation.expiresAt⟩) := by
    show some _ = (w.db.invitation? token).map _
    rw [hplan.found]
    rfl
  have howner : TxStmt.Returns w.db (.lockDraft invitation.draftId)
      (some ⟨draft.partySlots, draft.creatorPubkey⟩) := by
    show some _ = (w.db.draft? invitation.draftId).map _
    rw [hplan.owner]
    rfl
  -- the statements of the body in their order, each with the answer above
  unfold acceptInTx
  obtain ⟨steps, r, w₂, hrun, rfl, h₂⟩ := reaches_txQuery h₁ hinvite
  refine reaches_run_bind ⟨steps, _, w₂, hrun, _, rfl, ?_⟩
  refine reaches_okOr_bind rfl (reaches_ofExcept_bind hvalid ?_)
  obtain ⟨steps, r, w₃, hrun, rfl, h₃⟩ := reaches_txQuery h₂ howner
  refine reaches_run_bind ⟨steps, _, w₃, hrun, _, rfl, ?_⟩
  refine reaches_okOr_bind rfl (reaches_okOr_bind hplan.decoded
    (reaches_okOr_bind hplan.resolved ?_))
  have hwrite : ∀ change : TxWrite, TxStmt.Returns w.db (.write change) () := fun _ => trivial
  obtain ⟨steps, r, w₄, hrun, rfl, h₄⟩ :=
    reaches_txQuery h₃ (hwrite (.acceptInvitation invitation.id))
  refine reaches_run_bind ⟨steps, _, w₄, hrun, _, rfl, ?_⟩
  obtain ⟨steps, r, w₅, hrun, rfl, h₅⟩ :=
    reaches_txQuery h₄ (hwrite (slotsWrite slots' now invitation.draftId))
  refine reaches_run_bind ⟨steps, _, w₅, hrun, _, rfl, ?_⟩
  exact reaches_ret ⟨⟨_, rfl⟩, _, h₅⟩

/-- **Success of `accept_invite`.**  Whoever presents the token of a pending invitation in time can
get the slot that refers to it. -/
theorem acceptInvite_succeeds {auth : AuthUserWithWallet} {token : String} {w : World}
    {invitation : Invitation} {draft : Draft} {slots slots' : List DraftPartyEntry} {now : ℤ}
    (hw : w.txs = []) (hplan : AcceptPlan auth token w invitation draft slots slots')
    (hnow : now ≤ invitation.expiresAt) :
    ∃ steps w', Runs perform (acceptInvite auth token).run w (⟨w, .utcNow, now, w⟩ :: steps)
      (.ok ()) w' := by
  let w₁ : World := { w with txs := [⟨w.nextTx, [], [], []⟩], nextTx := w.nextTx + 1 }
  have h₁ : InTx w.nextTx [] w w₁ := ⟨rfl, rfl, ⟨w.nextTx, [], [], []⟩, rfl, rfl, rfl⟩
  have hbegin : perform .begin (.ok w.nextTx) w = some w₁ := by
    refine provided_eq_some.mpr ⟨rfl, ?_⟩
    rw [hw]
  have htx := acceptInTx_reaches h₁ hplan hnow
  have hreaches : Reaches perform (do
      let tx ← Handler.orFail .internalError (.issue Op.begin)
      let acceptance ← rollbackOnError tx (acceptInTx auth token now tx)
      Handler.orFail .internalError (.issue (Op.commit tx))
      if acceptance.allResolved then notifyReady acceptance.draftId acceptance.creatorPubkey :
        Handler Unit).run w fun r _ => r = .ok () := by
    refine reaches_run_bind (reaches_orFail (reaches_issue (.ok w.nextTx) hbegin
      ⟨_, rfl, w.nextTx, rfl, ?_⟩))
    obtain ⟨steps, r, w₂, hrun, ⟨acceptance, rfl⟩, writes, h₂⟩ := htx
    refine reaches_run_bind (reaches_bind ⟨steps, _, w₂, hrun, reaches_ret ⟨acceptance, rfl, ?_⟩⟩)
    obtain ⟨steps, r, w₃, hrun, rfl⟩ := reaches_commit h₂
    refine reaches_run_bind ⟨steps, _, w₃, hrun, (), rfl, ?_⟩
    -- whether everybody has accepted now decides if the creator is told
    split
    · exact notifyReady_reaches ..
    · exact reaches_ret rfl
  obtain ⟨steps, r, w', hrun, rfl⟩ := hreaches
  refine ⟨steps, w', runs_bind_ok.mpr ⟨now, w, [_], steps, rfl, ?_, hrun⟩⟩
  exact runs_ask_ok.mpr ⟨rfl, rfl⟩

end PactumCodex
