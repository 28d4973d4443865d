import PactumCodex.Drafts.Links
import PactumCodex.Drafts.Locks

/-!
# Concurrent acceptances

Any number of calls of `accept_invite` are interleaved.  Each one selects its
invitation and then the draft `FOR UPDATE`, rewrites the slots as it has read
them, and commits.  Since the rows stay locked until the commit, they are then
still as they were read: a commit has the effect of an acceptance that runs
alone (`acceptInvite_secures`).  So no commit undoes another one.

## One call

`AcceptCall.Secures` is the contract of a call.  It relies on the other calls to
respect its transaction, which they do because they hold none of its locks, and
it guarantees that a commit accepts the invitation as if it ran alone while every
other step leaves drafts and invitations as they are.  `Prepared` is what it
carries between the locks and the commit: the locked rows are those it has read,
and the buffered writes are computed from them.

## Any number of calls

By the ownership rule the guarantees hold in every interleaving
(`Acceptances.guarantee`).  The rest is about commits only.

* A commit gives one slot to one wallet and leaves the other slots alone
  (`AcceptCall.Guarantees.commit`).
* An accepted invitation is not accepted again (`tokens_nodup`).
* A slot that is given away is kept until the end (`GetsSlot.kept`), since the slots
  refer to different invitations.
* The draft becomes ready with the commit that gives away its last open slot
  (`AcceptCall.Guarantees.ready_iff`).

`acceptances_serialized` puts these together.
-/

namespace PactumCodex

open Interaction Relational Handlers.Invite

/-! ## Calls and their steps -/

/-- A call of `accept_invite`. -/
structure AcceptCall where
  auth : AuthUserWithWallet
  token : String

/-- The operation is a commit that succeeds. -/
def Op.commits : (op : Op) → op.Ans → Bool
  | .commit _, .ok _ => true
  | _, _ => false

/-- A commit accepts the invitation as if it ran alone, other steps change neither drafts nor
invitations. -/
def AcceptCall.Guarantees (call : AcceptCall) (step : BackendStep) : Prop :=
  if step.op.commits step.ans then ∃ invitation draft slots slots' now,
    AcceptPlan call.auth call.token step.pre invitation draft slots slots' ∧
      Accepted step.pre step.post invitation slots' now
  else step.post.db.drafts = step.pre.db.drafts ∧ step.post.db.invitations = step.pre.db.invitations

/-- The transaction has been started. -/
def Started (w : World) (id : ℕ) : Prop := id < w.nextTx

/-- The program of a call, holding the given transaction, respects the transactions of others. -/
abbrev AcceptCall.Secures (call : AcceptCall) {α : Type} (p : Backend α) (held : Option ℕ)
    (w : World) (Φ : α → Option ℕ → World → Prop) : Prop :=
  Interaction.Secures perform Locked Started Untouched call.Guarantees p held w Φ

section Secures

variable {call : AcceptCall} {α β : Type} {id : ℕ} {held : Option ℕ} {w w₁ w₂ : World} {tx : Tx}

/-- A step that changes neither drafts nor transactions. -/
theorem respects_of_leavesDrafts {op : Op} {answer : op.Ans} (hop : op.leavesDrafts = true)
    (hlocked : Locked w₁) (hperform : perform op answer w₁ = some w₂) :
    Respects Locked Started Untouched call.Guarantees held ⟨w₁, op, answer, w₂⟩ := by
  have hsame := sameDrafts_of_perform hperform hop
  have hvalid : Step.Valid perform (⟨w₁, op, answer, w₂⟩ : BackendStep) := hperform
  have hcommits : op.commits answer = false := by
    unfold Op.commits
    split
    · cases hop
    · rfl
  refine ⟨?_, hlocked.same hsame.txs (nextTx_step hvalid), fun other _ _ => ?_⟩
  · unfold AcceptCall.Guarantees
    rw [if_neg (by simp [hcommits])]
    exact ⟨hsame.drafts, hsame.invitations⟩
  · exact untouched_of_sameDrafts hsame

/-- A step of the transaction that leaves the database alone. -/
theorem respects_of_silent {op : Op} {answer : op.Ans} (hcommits : op.commits answer = false)
    (hdb : w₂.db = w₁.db) (hlocked : Locked w₂)
    (hothers : ∀ other, other ≠ id → Untouched other w₁ w₂) :
    Respects Locked Started Untouched call.Guarantees (some id) ⟨w₁, op, answer, w₂⟩ := by
  refine ⟨?_, hlocked, fun other _ hne => hothers other fun hsame => hne (congrArg some hsame.symm)⟩
  unfold AcceptCall.Guarantees
  rw [if_neg (by simp [hcommits])]
  show w₂.db.drafts = w₁.db.drafts ∧ w₂.db.invitations = w₁.db.invitations
  rw [hdb]
  exact ⟨rfl, rfl⟩

/-- The program still holds its transaction, and returns with `Ψ` unless it fails. -/
def Holds (id : ℕ) (Ψ : α → World → Prop) : Except AppError α → Option ℕ → World → Prop
  | .ok a, held, w => held = some id ∧ Ψ a w
  | .error _, held, _ => held = some id

theorem secures_holds_bind {x : Handler α} {f : α → Handler β} {Ψ : α → World → Prop}
    {Ψ' : β → World → Prop} (hx : call.Secures x.run held w (Holds id Ψ))
    (hf : ∀ a w', Ψ a w' → call.Secures (f a).run (some id) w' (Holds id Ψ')) :
    call.Secures (x >>= f).run held w (Holds id Ψ') := by
  refine secures_run_bind (hx.mono fun r held' w' hr => ?_)
  cases r with
  | ok a =>
      obtain ⟨rfl, ha⟩ := hr
      exact hf a w' ha
  | error e => exact hr

theorem secures_okOr_bind {e : AppError} {o : Option α} {f : α → Handler β}
    {Ψ : β → World → Prop}
    (hf : ∀ a, o = some a → call.Secures (f a).run (some id) w (Holds id Ψ)) :
    call.Secures (Handler.okOr e o >>= f).run (some id) w (Holds id Ψ) := by
  cases o with
  | none => exact secures_run_bind (show Holds id Ψ (.error e) (some id) w from rfl)
  | some a => exact secures_run_bind (hf a rfl)

theorem secures_ofExcept_bind {r : Except AppError α} {f : α → Handler β}
    {Ψ : β → World → Prop} (hf : ∀ a, r = .ok a → call.Secures (f a).run (some id) w (Holds id Ψ)) :
    call.Secures (Handler.ofExcept r >>= f).run (some id) w (Holds id Ψ) := by
  cases r with
  | error e => exact secures_run_bind (show Holds id Ψ (.error e) (some id) w from rfl)
  | ok a => exact secures_run_bind (hf a rfl)

/-- A statement of the transaction reads the rows as they are, or fails. -/
theorem secures_txQuery {s : TxStmt} (htx : w.tx? id = some tx) (hcovered : s.Covered tx) :
    call.Secures (txQuery id s).run (some id) w (Holds id fun out w₂ => ∃ w₁, Untouched id w w₁ ∧
      s.Returns w₁.db out ∧ w₂.db = w₁.db ∧ w₂.tx? id = some (s.extend w₁.db tx)) := by
  refine secures_bind (secures_issue fun w₁ hrely hlocked answer w₂ hperform => ?_)
  have huntouched := hrely id rfl
  cases answer with
  | error f =>
      obtain rfl : w₁ = w₂ := Option.some.inj hperform
      have hrefl : ∀ other, other ≠ id → Untouched other w₁ w₁ :=
        fun other _ => Untouched.refl other w₁
      exact ⟨respects_of_silent rfl rfl hlocked hrefl, some id, .keep, rfl⟩
  | ok out =>
      have htx₁ := huntouched.tx tx htx
      obtain ⟨rfl, hreturns, hlocked₂⟩ := hlocked.performTx htx₁ hcovered hperform
      have hid : (s.extend w₁.db tx).id = id := (s.extend_id w₁.db tx).trans (hlocked.mem htx₁).2
      refine ⟨respects_of_silent rfl rfl hlocked₂ fun other hne => untouched_setTx hid hne,
        some id, .keep, rfl, w₁, huntouched, hreturns, rfl, ?_⟩
      exact tx?_setTx_self htx₁ hid

/-! ## The transaction -/

/-- The rows that were found and locked are still the same. -/
theorem AcceptPlan.untouched {auth : AuthUserWithWallet} {token : String} {invitation : Invitation}
    {draft : Draft} {slots slots' : List DraftPartyEntry}
    (h : AcceptPlan auth token w invitation draft slots slots') (huntouched : Untouched id w w₁)
    (htx : w.tx? id = some tx) (hinvitation : invitation.id ∈ tx.invitations)
    (hdraft : draft.id ∈ tx.drafts) : AcceptPlan auth token w₁ invitation draft slots slots' :=
  ⟨huntouched.invitation tx htx token invitation h.found hinvitation, h.pending,
    huntouched.draft tx htx invitation.draftId draft h.owner hdraft, h.decoded, h.resolved⟩

/-- The transaction has locked what it needs and has buffered the given writes. -/
structure Prepared (call : AcceptCall) (id : ℕ) (w : World) (invitation : Invitation)
    (draft : Draft) (slots slots' : List DraftPartyEntry) (writes : List TxWrite) : Prop where
  plan : AcceptPlan call.auth call.token w invitation draft slots slots'
  buffered : ∃ tx, w.tx? id = some tx ∧ invitation.id ∈ tx.invitations ∧ draft.id ∈ tx.drafts ∧
    tx.writes = writes

theorem Prepared.untouched {invitation : Invitation} {draft : Draft}
    {slots slots' : List DraftPartyEntry} {writes : List TxWrite}
    (h : Prepared call id w invitation draft slots slots' writes) (huntouched : Untouched id w w₁) :
    Prepared call id w₁ invitation draft slots slots' writes := by
  obtain ⟨hplan, tx, htx, hinvitation, hdraft, hwrites⟩ := h
  exact ⟨hplan.untouched huntouched htx hinvitation hdraft, tx, huntouched.tx tx htx, hinvitation,
    hdraft, hwrites⟩

/-- The transaction buffers a further write of the rows that it has locked. -/
theorem Prepared.secures_write {invitation : Invitation} {draft : Draft}
    {slots slots' : List DraftPartyEntry} {writes : List TxWrite} {change : TxWrite}
    (h : Prepared call id w invitation draft slots slots' writes)
    (hcovered : ∀ tx : Tx, invitation.id ∈ tx.invitations → draft.id ∈ tx.drafts →
      change.Covered tx) :
    call.Secures (txQuery id (.write change)).run (some id) w (Holds id fun _ w' =>
      Prepared call id w' invitation draft slots slots' (writes ++ [change])) := by
  obtain ⟨tx, htx, hinvitation, hdraft, hwrites⟩ := h.buffered
  have hcovered : TxStmt.Covered tx (.write change) := hcovered tx hinvitation hdraft
  refine (secures_txQuery htx hcovered).mono fun r held w₂ hr => ?_
  cases r with
  | error e => exact hr
  | ok out =>
      obtain ⟨rfl, w₁, huntouched, -, hdb, htx₂⟩ := hr
      obtain ⟨hfound, hpending, howner, hdecoded, hresolved⟩ := (h.untouched huntouched).plan
      refine ⟨rfl, ⟨hdb ▸ hfound, hpending, hdb ▸ howner, hdecoded, hresolved⟩, _, htx₂,
        hinvitation,
        hdraft, ?_⟩
      rw [← hwrites]
      rfl

theorem slotsWrite_covered {slots : List DraftPartyEntry} {now : ℤ} {draftId : Uuid}
    (h : draftId ∈ tx.drafts) : (slotsWrite slots now draftId).Covered tx := by
  unfold slotsWrite
  split
  · exact h
  · exact h

/-- The transaction locks the invitation, then the draft, and buffers its writes, or fails. -/
theorem acceptInTx_secures {now : ℤ} (htx : w.tx? id = some ⟨id, [], [], []⟩) :
    call.Secures (acceptInTx call.auth call.token now id).run (some id) w
      (Holds id fun acceptance w' => ∃ invitation draft slots slots',
        acceptance = ⟨invitation.draftId, draft.creatorPubkey, allPubkeysResolved slots'⟩ ∧
        Prepared call id w' invitation draft slots slots'
          [.acceptInvitation invitation.id, slotsWrite slots' now invitation.draftId]) := by
  unfold acceptInTx
  have hlock : TxStmt.Covered ⟨id, [], [], []⟩ (.lockInvitation call.token) := trivial
  refine secures_holds_bind (secures_txQuery htx hlock) ?_
  rintro found w₂ ⟨w₁, -, hfound, hdb₂, htx₂⟩
  refine secures_okOr_bind ?_
  rintro invite rfl
  obtain ⟨invitation, hinvitation, rfl⟩ := Option.map_eq_some_iff.mp hfound.symm
  refine secures_ofExcept_bind fun _ hvalid => ?_
  have hpending : invitation.status = .pending := by
    by_contra hstatus
    simp [validatePendingInvitation, hstatus] at hvalid
  have hlocked : invitation.id ∈
      (TxStmt.extend w₁.db ⟨id, [], [], []⟩ (.lockInvitation call.token)).invitations := by
    simp [TxStmt.extend, hinvitation]
  rw [← hdb₂] at hinvitation
  -- the draft is read while the invitation is locked
  have hlockDraft : TxStmt.Covered
    (TxStmt.extend w₁.db ⟨id, [], [], []⟩ (.lockInvitation call.token))
    (.lockDraft invitation.draftId) := trivial
  refine secures_holds_bind (secures_txQuery htx₂ hlockDraft) ?_
  rintro found w₄ ⟨w₃, huntouched₃, hfound, hdb₄, htx₄⟩
  refine secures_okOr_bind ?_
  rintro row rfl
  obtain ⟨draft, hdraft, rfl⟩ := Option.map_eq_some_iff.mp hfound.symm
  refine secures_okOr_bind fun slots hslots => secures_okOr_bind fun slots' hslots' => ?_
  have hid : draft.id = invitation.draftId := (Db.draft?_eq_some.mp hdraft).2
  have hprepared : Prepared call id w₄ invitation draft slots slots' [] := by
    refine ⟨⟨?_, hpending, ?_, hslots, hslots'⟩, _, htx₄, hlocked, ?_, rfl⟩
    · rw [hdb₄]
      exact huntouched₃.invitation _ htx₂ _ _ hinvitation hlocked
    · rw [hdb₄]
      exact hdraft
    · simp [TxStmt.extend, hdraft]
  refine secures_holds_bind (hprepared.secures_write fun _ hmem _ => hmem) fun _ w₅ hprepared₅ => ?_
  refine secures_holds_bind (hprepared₅.secures_write fun _ _ hmem => ?_) fun _ w₆ hprepared₆ => ?_
  · exact slotsWrite_covered (hid ▸ hmem)
  · exact ⟨rfl, invitation, draft, slots, slots', rfl, hprepared₆⟩

/-- An error drops the transaction. -/
theorem secures_rollbackOnError {body : Handler α} {Ψ : α → World → Prop}
    (h : call.Secures body.run (some id) w (Holds id Ψ)) :
    call.Secures (rollbackOnError id body).run (some id) w fun r held w' =>
      (∃ a, r = .ok a ∧ held = some id ∧ Ψ a w') ∨ ∃ e, r = .error e ∧ held = none := by
  refine secures_bind (h.mono fun r held w' hr => ?_)
  cases r with
  | ok a => exact Or.inl ⟨a, rfl, hr⟩
  | error e =>
      obtain rfl : held = some id := hr
      refine secures_bind (secures_issue fun w₁ _ hlocked _ w₂ hrollback => ?_)
      obtain rfl : w₁.dropTx id = w₂ := Option.some.inj hrollback
      refine ⟨respects_of_silent rfl rfl (hlocked.release rfl rfl) fun other hne =>
        untouched_dropTx hne, none, .release, Or.inr ⟨e, rfl, rfl⟩⟩

/-- Begin a transaction, or fail. -/
theorem secures_begin (w : World) :
    call.Secures (Handler.orFail .internalError (.issue Op.begin)).run none w fun r held w' =>
      (∃ id, r = .ok id ∧ held = some id ∧ w'.tx? id = some ⟨id, [], [], []⟩) ∨
        ∃ e, r = .error e ∧ held = none := by
  refine secures_bind (secures_issue fun w₁ _ hlocked answer w₂ hbegin => ?_)
  cases answer with
  | error f =>
      obtain rfl : w₁ = w₂ := Option.some.inj hbegin
      exact ⟨⟨⟨rfl, rfl⟩, hlocked, fun other _ _ => Untouched.refl other w₁⟩, none, .keep,
        Or.inr ⟨_, rfl, rfl⟩⟩
  | ok id =>
      obtain ⟨rfl, rfl⟩ := provided_eq_some.mp hbegin
      refine ⟨⟨⟨rfl, rfl⟩, hlocked.begin rfl rfl, fun other hother _ => ?_⟩, some w₁.nextTx,
        .acquire _ (Nat.lt_irrefl _) (Nat.lt_succ_self _), Or.inl ⟨w₁.nextTx, rfl, rfl, ?_⟩⟩
      · exact untouched_begin rfl rfl hother
      · simp [World.tx?, lookup]

/-- Commit the transaction, with the effect of an acceptance that runs alone, or drop it. -/
theorem Prepared.secures_commit {invitation : Invitation} {draft : Draft}
    {slots slots' : List DraftPartyEntry} {now : ℤ}
    (h : Prepared call id w invitation draft slots slots'
      [.acceptInvitation invitation.id, slotsWrite slots' now invitation.draftId]) :
    call.Secures (Handler.orFail .internalError (.issue (Op.commit id))).run (some id) w
      fun _ held _ => held = none := by
  refine secures_bind (secures_issue fun w₁ hrely hlocked answer w₂ hcommit => ?_)
  cases answer with
  | error f =>
      obtain rfl : w₁.dropTx id = w₂ := Option.some.inj hcommit
      exact ⟨respects_of_silent rfl rfl (hlocked.release rfl rfl) fun other hne =>
        untouched_dropTx hne, none, .release, rfl⟩
  | ok _ =>
      obtain ⟨hplan, tx, htx, -, -, hbuffered⟩ := h.untouched (hrely id rfl)
      obtain ⟨hwrites, hlocked₂, hothers⟩ := hlocked.commit htx hcommit
      rw [hbuffered] at hwrites
      refine ⟨⟨?_, hlocked₂, fun other _ hne => ?_⟩, none, .release, rfl⟩
      · exact ⟨invitation, draft, slots, slots', now, hplan, accepted_of_writes hwrites⟩
      · exact hothers other fun hsame => hne (congrArg some hsame.symm)

/-- **Acceptances in every environment.**  While others respect its transaction, a commit of
`accept_invite` has the effect that it has alone, and all other steps leave drafts and invitations
as they are. -/
theorem acceptInvite_secures (call : AcceptCall) (w : World) :
    call.Secures (acceptInvite call.auth call.token).run none w fun _ _ _ => True := by
  unfold acceptInvite
  refine secures_run_bind (secures_bind (secures_issue fun w₁ _ hlocked now w₂ hnow => ?_))
  refine ⟨respects_of_leavesDrafts rfl hlocked hnow, none, .keep, ?_⟩
  refine secures_run_bind ((secures_begin w₂).mono ?_)
  rintro _ _ w₃ (⟨id, rfl, rfl, htx⟩ | ⟨e, rfl, rfl⟩)
  · refine secures_run_bind ((secures_rollbackOnError (acceptInTx_secures htx)).mono ?_)
    rintro _ _ w₄ (⟨acceptance, rfl, rfl, invitation, draft, slots, slots', -, hprepared⟩ |
      ⟨e, rfl, rfl⟩)
    · refine secures_run_bind (hprepared.secures_commit.mono ?_)
      rintro r _ w₅ rfl
      cases r with
      | error e => trivial
      | ok _ =>
          -- the creator is told after the commit
          refine secures_of_issues (notifyAccepted_leavesDrafts acceptance) ?_
          exact fun step hop hvalid hlocked => respects_of_leavesDrafts hop hlocked hvalid
    · trivial
  · trivial

end Secures

/-! ## Slots -/

/-- A slot is as it was, or was given to a wallet. -/
inductive Given : DraftPartyEntry → DraftPartyEntry → Prop
  | same (slot : DraftPartyEntry) : Given slot slot
  | given (old : Option String) (inviteId : Uuid) (pubkey : String) :
      Given ⟨old, some inviteId⟩ ⟨some pubkey, none⟩

theorem Given.trans {a b c : DraftPartyEntry} (hab : Given a b) (hbc : Given b c) : Given a c := by
  cases hab with
  | same => exact hbc
  | given old inviteId pubkey =>
      -- a slot that was given away refers to no invitation
      cases hbc with
      | same => exact .given old inviteId pubkey

theorem given_refl (slots : List DraftPartyEntry) : List.Forall₂ Given slots slots :=
  List.forall₂_same.mpr fun slot _ => .same slot

theorem given_trans {slots₁ slots₂ slots₃ : List DraftPartyEntry}
    (h₁ : List.Forall₂ Given slots₁ slots₂) (h₂ : List.Forall₂ Given slots₂ slots₃) :
    List.Forall₂ Given slots₁ slots₃ := by
  induction h₁ generalizing slots₃ with
  | nil => exact h₂
  | cons hab _ ih =>
      cases h₂ with
      | cons hbc hrest => exact .cons (hab.trans hbc) (ih hrest)

theorem given_slot {before after : List DraftPartyEntry} {slot : DraftPartyEntry} {inviteId : Uuid}
    (hslot : slot.inviteId = some inviteId) (pubkey : String) :
    List.Forall₂ Given (before ++ slot :: after) (before ++ ⟨some pubkey, none⟩ :: after) := by
  obtain ⟨old, id⟩ := slot
  subst hslot
  exact List.rel_append (given_refl before) (.cons (.given old inviteId pubkey) (given_refl after))

/-- In each place the slots are the same, or a slot was given. -/
theorem given_at {slots slots' : List DraftPartyEntry} (h : List.Forall₂ Given slots slots')
    (i : ℕ) : slots[i]? = slots'[i]? ∨ ∃ old inviteId pubkey,
      slots[i]? = some ⟨old, some inviteId⟩ ∧ slots'[i]? = some ⟨some pubkey, none⟩ := by
  induction h generalizing i with
  | nil => exact .inl rfl
  | cons hab _ ih =>
      cases i with
      | zero =>
          cases hab with
          | same => exact .inl rfl
          | given old inviteId pubkey => exact .inr ⟨old, inviteId, pubkey, rfl, rfl⟩
      | succ i => exact ih i

/-- Slots that refer to an invitation are as they were. -/
theorem getElem?_of_given {slots slots' : List DraftPartyEntry}
    (h : List.Forall₂ Given slots slots')
    {i : ℕ} {slot : DraftPartyEntry} (hget : slots'[i]? = some slot)
    (hslot : slot.inviteId ≠ none) :
    slots[i]? = some slot := by
  obtain hsame | ⟨old, inviteId, pubkey, -, hgiven⟩ := given_at h i
  · exact hsame.trans hget
  · obtain rfl := Option.some.inj (hgiven.symm.trans hget)
    exact absurd rfl hslot

/-- Slots that refer to no invitation stay. -/
theorem given_getElem? {slots slots' : List DraftPartyEntry} (h : List.Forall₂ Given slots slots')
    {i : ℕ} {slot : DraftPartyEntry} (hget : slots[i]? = some slot) (hslot : slot.inviteId = none) :
    slots'[i]? = some slot := by
  obtain hsame | ⟨old, inviteId, pubkey, hold, -⟩ := given_at h i
  · exact hsame.symm.trans hget
  · obtain rfl := Option.some.inj (hold.symm.trans hget)
    cases hslot

/-- If the slots refer to different invitations, no other slot refers to the same one. -/
theorem inviteId_ne_of_nodup {before after : List DraftPartyEntry} {slot : DraftPartyEntry}
    {inviteId : Uuid} (hnodup : (inviteIds (before ++ slot :: after)).Nodup)
    (hslot : slot.inviteId = some inviteId) :
    ∀ other ∈ before ++ after, other.inviteId ≠ some inviteId := by
  intro other hmem hother
  rw [inviteIds_append, inviteIds_cons, hslot, Option.toList_some, List.singleton_append,
    List.nodup_middle, List.nodup_cons, ← inviteIds_append] at hnodup
  exact hnodup.1 (mem_inviteIds.mpr ⟨other, hmem, hother⟩)

/-! ## Interleavings -/

/-- A step of one of the calls. -/
abbrev AcceptStep := Step (AcceptCall × Op) (TaggedAns AcceptCall Op.Ans) World

/-- The program of a call. -/
def AcceptCall.program (call : AcceptCall) :
    Program (AcceptCall × Op) (TaggedAns AcceptCall Op.Ans) Unit :=
  (Handler.logged (acceptInvite call.auth call.token)).tag call

/-- Any number of calls of `accept_invite`, interleaved in any way. -/
def Acceptances (w : World) (steps : List AcceptStep) (w' : World) : Prop :=
  ∃ threads, PoolRun (performTagged AcceptCall perform)
    (fun p => ∃ call : AcceptCall, p = call.program) ⟨w, []⟩ steps ⟨w', threads⟩

/-- The step is a commit that succeeds. -/
def Commits (step : AcceptStep) : Bool := step.op.2.commits step.ans

/-- The call accepts a pending invitation. -/
structure AcceptsInvitation (call : AcceptCall) (w w' : World) (invitation : Invitation) :
    Prop where
  found : w.db.invitation? call.token = some invitation
  pending : invitation.status = .pending
  accepted : w'.db.invitation? call.token = some { invitation with status := .accepted }

/-- The call gets the slot of the draft that refers to its invitation, and the other slots stay.
The draft becomes ready if no slot is open any more. -/
structure GetsSlot (call : AcceptCall) (draftId : Uuid) (w w' : World)
    (before : List DraftPartyEntry)
    (slot : DraftPartyEntry) (after : List DraftPartyEntry) : Prop where
  invitation : ∃ invitation, AcceptsInvitation call w w' invitation ∧ invitation.draftId = draftId ∧
    slot.inviteId = some invitation.id ∧
      ∀ other ∈ before ++ after, other.inviteId ≠ some invitation.id
  draft : ∃ draft draft', w.db.draft? draftId = some draft ∧ w'.db.draft? draftId = some draft' ∧
    slotsFromValue draft.partySlots = some (before ++ slot :: after) ∧
    slotsFromValue draft'.partySlots = some (before ++ ⟨some call.auth.pubkey, none⟩ :: after) ∧
    draft'.status = if allPubkeysResolved (before ++ ⟨some call.auth.pubkey, none⟩ :: after)
      then .readyToSubmit else draft.status

/-- The draft has the given slots, and they refer to different invitations. -/
def HasSlots (draftId : Uuid) (w : World) (slots : List DraftPartyEntry) : Prop :=
  ∃ draft, w.db.draft? draftId = some draft ∧ slotsFromValue draft.partySlots = some slots ∧
    (inviteIds slots).Nodup

theorem HasSlots.congr {draftId : Uuid} {w w' : World} {slots : List DraftPartyEntry}
    (h : HasSlots draftId w slots) (hsame : w'.db.draft? draftId = w.db.draft? draftId) :
    HasSlots draftId w' slots := by
  obtain ⟨draft, hdraft, hslots⟩ := h
  exact ⟨draft, hsame.trans hdraft, hslots⟩

/-- In every interleaving, commits have the effect that they have alone. -/
theorem Acceptances.guarantee {w w' : World} {steps : List AcceptStep} (hw : w.txs = [])
    (h : Acceptances w steps w') : ∀ step ∈ steps, step.op.1.Guarantees step.untag := by
  obtain ⟨threads, hrun⟩ := h
  have hstarted : ∀ (op : AcceptCall × Op) (answer : TaggedAns AcceptCall Op.Ans op) (w w' : World)
      (id : ℕ), performTagged AcceptCall perform op answer w = some w' → Started w id →
        Started w' id := by
    intro op answer w w' id hperform hid
    have hvalid : Step.Valid perform (⟨w, op.2, answer, w'⟩ : BackendStep) := hperform
    exact lt_of_lt_of_le hid (nextTx_step hvalid)
  have hentry : ∀ p, (∃ call : AcceptCall, p = call.program) → ∀ w,
      Secures (performTagged AcceptCall perform) Locked Started Untouched
        (fun step => step.op.1.Guarantees step.untag) p none w fun _ _ _ => True := by
    rintro p ⟨call, rfl⟩ w
    exact secures_tag (secures_bind ((acceptInvite_secures call w).mono fun _ _ _ _ => trivial))
  exact (hrun.secured (locked_of_nil hw) Untouched.trans Untouched.refl hstarted hentry).1

section Commit

variable {call : AcceptCall} {step : BackendStep} {draftId : Uuid} {slots : List DraftPartyEntry}

/-- Steps other than commits leave drafts and invitations alone. -/
theorem AcceptCall.Guarantees.quiet (h : call.Guarantees step)
    (hcommits : step.op.commits step.ans = false) :
    step.post.db.drafts = step.pre.db.drafts ∧
      step.post.db.invitations = step.pre.db.invitations := by
  unfold AcceptCall.Guarantees at h
  rwa [if_neg (by simp [hcommits])] at h

/-- The invitation with some token after an acceptance. -/
theorem Accepted.invitation? {w w' : World} {invitation : Invitation}
    {slots' : List DraftPartyEntry} {now : ℤ} (h : Accepted w w' invitation slots' now)
    (token : String) : w'.db.invitation? token = (w.db.invitation? token).map fun row =>
      if row.id = invitation.id then { row with status := .accepted } else row := by
  unfold Db.invitation?
  rw [h.invitations, lookup_updateWhere]
  · simp only [decide_eq_true_eq]
  · exact fun _ => rfl

theorem AcceptCall.Guarantees.committed (h : call.Guarantees step)
    (hcommits : step.op.commits step.ans = true) : ∃ invitation draft slots slots' now,
      AcceptPlan call.auth call.token step.pre invitation draft slots slots' ∧
        Accepted step.pre step.post invitation slots' now := by
  unfold AcceptCall.Guarantees at h
  rwa [if_pos hcommits] at h

theorem AcceptPlan.acceptsInvitation {w w' : World} {invitation : Invitation} {draft : Draft}
    {slots slots' : List DraftPartyEntry} {now : ℤ}
    (h : AcceptPlan call.auth call.token w invitation draft slots slots')
    (haccepted : Accepted w w' invitation slots' now) : AcceptsInvitation call w w' invitation := by
  refine ⟨h.found, h.pending, ?_⟩
  rw [haccepted.invitation?, h.found, Option.map_some, if_pos rfl]

/-- A commit accepts the invitation of its call, and touches the slots of its draft only. -/
theorem AcceptCall.Guarantees.commit (h : call.Guarantees step)
    (hcommits : step.op.commits step.ans = true) (hslots : HasSlots draftId step.pre slots) :
    ∃ invitation, AcceptsInvitation call step.pre step.post invitation ∧
      (invitation.draftId ≠ draftId ∧ step.post.db.draft? draftId = step.pre.db.draft? draftId ∨
        ∃ before slot after, slots = before ++ slot :: after ∧
          GetsSlot call draftId step.pre step.post before slot after) := by
  obtain ⟨invitation, draft, slots₁, slots', now, hplan, haccepted⟩ := h.committed hcommits
  have hinvitation := hplan.acceptsInvitation haccepted
  refine ⟨invitation, hinvitation, ?_⟩
  obtain ⟨draft₁, hdraft₁, hdecoded, hnodup⟩ := hslots
  have hpost := haccepted.draft? hdraft₁
  -- the accepted invitation is one of this draft, or of another
  by_cases howner : draftId = invitation.draftId
  · right
    subst howner
    obtain rfl : draft = draft₁ := Option.some.inj (hplan.owner.symm.trans hdraft₁)
    obtain rfl : slots₁ = slots := Option.some.inj (hplan.decoded.symm.trans hdecoded)
    obtain ⟨before, slot, after, rfl, hslot, hbefore, rfl⟩ :=
      resolvePartySlotPubkey_eq_some hplan.resolved
    rw [if_pos rfl] at hpost
    refine ⟨before, slot, after, rfl, ⟨invitation, hinvitation, rfl, hslot, ?_⟩, draft, _, hdraft₁,
      hpost, hdecoded, ?_, ?_⟩
    · exact inviteId_ne_of_nodup hnodup hslot
    · rw [Draft.resolve_partySlots, slotsFromValue_slotsToValue]
    · unfold Draft.resolve
      split <;> rfl
  · left
    rw [if_neg howner] at hpost
    exact ⟨fun hsame => howner hsame.symm, hpost.trans hdraft₁.symm⟩

/-- A step leaves the draft alone or gives away one of its slots. -/
theorem AcceptCall.Guarantees.draft (h : call.Guarantees step)
    (hslots : HasSlots draftId step.pre slots) :
    step.post.db.draft? draftId = step.pre.db.draft? draftId ∨
      ∃ before slot after, slots = before ++ slot :: after ∧
        GetsSlot call draftId step.pre step.post before slot after := by
  cases hcommits : step.op.commits step.ans with
  | false =>
      left
      rw [Db.draft?, (h.quiet hcommits).1]
      rfl
  | true =>
      obtain ⟨invitation, -, ⟨-, hsame⟩ | hgets⟩ := h.commit hcommits hslots
      · exact Or.inl hsame
      · exact Or.inr hgets

/-- Slots are only given away, and still refer to different invitations. -/
theorem AcceptCall.Guarantees.hasSlots (h : call.Guarantees step)
    (hslots : HasSlots draftId step.pre slots) :
    ∃ slots', HasSlots draftId step.post slots' ∧ List.Forall₂ Given slots slots' := by
  obtain hsame | ⟨before, slot, after, rfl, hgets⟩ := h.draft hslots
  · exact ⟨slots, hslots.congr hsame, given_refl slots⟩
  · obtain ⟨_, -, -, hnodup⟩ := hslots
    obtain ⟨⟨_, -, -, hslot, -⟩, draft, draft', -, hdraft', -, hfilled, -⟩ := hgets
    exact ⟨_, ⟨draft', hdraft', hfilled, hnodup.sublist (inviteIds_sublist ..)⟩, given_slot hslot _⟩

theorem allPubkeysResolved_iff (before after : List DraftPartyEntry) (pubkey : String) :
    allPubkeysResolved (before ++ ⟨some pubkey, none⟩ :: after) = true ↔
      ∀ other ∈ before ++ after, other.pubkey ≠ none := by
  simp only [allPubkeysResolved, List.all_append, List.all_cons, Option.isSome_some, Bool.true_and,
    Bool.and_eq_true, List.all_eq_true, Option.isSome_iff_ne_none, List.forall_mem_append]

/-- The draft becomes ready if the last open slot is given away. -/
theorem AcceptCall.Guarantees.ready_iff (h : call.Guarantees step)
    (hslots : HasSlots draftId step.pre slots) {draft : Draft}
    (hdraft : step.pre.db.draft? draftId = some draft) (hstatus : draft.status ≠ .readyToSubmit) :
    (∃ draft', step.post.db.draft? draftId = some draft' ∧ draft'.status = .readyToSubmit) ↔
      ∃ before slot after, GetsSlot call draftId step.pre step.post before slot after ∧
        ∀ other ∈ before ++ after, other.pubkey ≠ none := by
  constructor
  · rintro ⟨draft', hdraft', hready⟩
    obtain hsame | ⟨before, slot, after, -, hgets⟩ := h.draft hslots
    · rw [hsame, hdraft, Option.some.injEq] at hdraft'
      exact absurd (hdraft' ▸ hready) hstatus
    · refine ⟨before, slot, after, hgets, ?_⟩
      obtain ⟨draft₁, draft₂, hdraft₁, hdraft₂, -, -, hnew⟩ := hgets.draft
      obtain rfl : draft₁ = draft := Option.some.inj (hdraft₁.symm.trans hdraft)
      obtain rfl : draft₂ = draft' := Option.some.inj (hdraft₂.symm.trans hdraft')
      rw [← allPubkeysResolved_iff before after call.auth.pubkey]
      by_contra hopen
      rw [if_neg hopen] at hnew
      exact hstatus (hnew.symm.trans hready)
  · rintro ⟨before, slot, after, hgets, hall⟩
    obtain ⟨_, draft', -, hdraft', -, -, hnew⟩ := hgets.draft
    rw [if_pos ((allPubkeysResolved_iff before after call.auth.pubkey).mpr hall)] at hnew
    exact ⟨draft', hdraft', hnew⟩

/-- An invitation that has been accepted stays accepted. -/
theorem AcceptCall.Guarantees.accepted (h : call.Guarantees step) {token : String}
    (hpre : ∃ row, step.pre.db.invitation? token = some row ∧ row.status = .accepted) :
    ∃ row, step.post.db.invitation? token = some row ∧ row.status = .accepted := by
  obtain ⟨row, hrow, hstatus⟩ := hpre
  cases hcommits : step.op.commits step.ans with
  | false =>
      obtain ⟨-, hinvitations⟩ := h.quiet hcommits
      refine ⟨row, ?_, hstatus⟩
      rw [Db.invitation?, hinvitations]
      exact hrow
  | true =>
      obtain ⟨invitation, _, _, _, _, -, haccepted⟩ := h.committed hcommits
      refine ⟨_, by rw [haccepted.invitation?, hrow, Option.map_some], ?_⟩
      split
      · rfl
      · exact hstatus

end Commit

section Run

variable {w w' : World} {steps : List AcceptStep} {draftId : Uuid} {slots : List DraftPartyEntry}

/-- Along a run slots are only given away. -/
theorem hasSlots_run (hchain : Chain (performTagged AcceptCall perform) w steps w')
    (hguarantee : ∀ step ∈ steps, step.op.1.Guarantees step.untag)
    (hslots : HasSlots draftId w slots) :
    (∃ slots', HasSlots draftId w' slots' ∧ List.Forall₂ Given slots slots') ∧ ∀ step ∈ steps,
      ∃ slots', HasSlots draftId step.pre slots' ∧ List.Forall₂ Given slots slots' := by
  have hinv := hchain.invariant
    (fun w => ∃ slots', HasSlots draftId w slots' ∧ List.Forall₂ Given slots slots')
    ⟨slots, hslots, given_refl slots⟩ ?_
  · exact ⟨hinv.1, fun step hmem => (hinv.2 step hmem).1⟩
  · rintro step hmem - ⟨slots₁, hslots₁, hgiven₁⟩
    obtain ⟨slots₂, hslots₂, hgiven₂⟩ := (hguarantee step hmem).hasSlots hslots₁
    exact ⟨slots₂, hslots₂, given_trans hgiven₁ hgiven₂⟩

/-- No token is accepted twice. -/
theorem tokens_nodup (hchain : Chain (performTagged AcceptCall perform) w steps w')
    (hguarantee : ∀ step ∈ steps, step.op.1.Guarantees step.untag) :
    ((steps.filter Commits).map fun step => step.op.1.token).Nodup := by
  induction hchain with
  | nil => simp
  | @cons step steps w' hvalid hrest ih =>
      obtain ⟨hstep, hguarantee⟩ := List.forall_mem_cons.mp hguarantee
      by_cases hcommits : Commits step = true
      · rw [List.filter_cons_of_pos hcommits, List.map_cons, List.nodup_cons]
        refine ⟨fun hmem => ?_, ih hguarantee⟩
        -- from the first commit on the invitation is accepted
        obtain ⟨invitation, _, _, _, _, hplan, haccepted⟩ := hstep.committed hcommits
        have hinvariant := hrest.invariant
          (fun w => ∃ row, w.db.invitation? step.op.1.token = some row ∧ row.status = .accepted)
          ⟨_, (hplan.acceptsInvitation haccepted).accepted, rfl⟩
          fun later hlater _ => (hguarantee later hlater).accepted
        obtain ⟨later, hlater, htoken⟩ := List.mem_map.mp hmem
        obtain ⟨hlater, hlaterCommits⟩ := List.mem_filter.mp hlater
        obtain ⟨invitation', _, _, _, _, hplan', -⟩ :=
          (hguarantee later hlater).committed hlaterCommits
        obtain ⟨row, hrow, hstatus⟩ := (hinvariant.2 later hlater).1
        -- but the later one has found it pending
        have hfound : later.pre.db.invitation? later.op.1.token = some invitation' := hplan'.found
        rw [← htoken, hfound, Option.some.injEq] at hrow
        rw [← hrow, hplan'.pending] at hstatus
        cases hstatus
      · rw [List.filter_cons_of_neg hcommits]
        exact ih hguarantee

/-- What interleaved calls do to a draft that has the given slots at the beginning. -/
structure Serialized (draftId : Uuid) (slots : List DraftPartyEntry) (steps : List AcceptStep)
    (w' : World) : Prop where
  /-- Only commits change the draft or an invitation. -/
  quiet : ∀ step ∈ steps, Commits step = false →
    step.post.db.draft? draftId = step.pre.db.draft? draftId ∧
      step.post.db.invitations = step.pre.db.invitations
  /-- A commit accepts a pending invitation.  If it is one of the draft, its slot is given to the
  caller, and all other slots stay as they were before the commit. -/
  commits : ∀ step ∈ steps, Commits step = true →
    ∃ invitation, AcceptsInvitation step.op.1 step.pre step.post invitation ∧
      (invitation.draftId ≠ draftId ∧ step.post.db.draft? draftId = step.pre.db.draft? draftId ∨
        ∃ before slot after, GetsSlot step.op.1 draftId step.pre step.post before slot after)
  /-- The slot is one of those at the beginning, and its caller still has it at the end. -/
  kept : ∀ step ∈ steps, ∀ before slot after,
    GetsSlot step.op.1 draftId step.pre step.post before slot after →
      slots[before.length]? = some slot ∧ ∃ slots', HasSlots draftId w' slots' ∧
        slots'.length = slots.length ∧
        slots'[before.length]? = some ⟨some step.op.1.auth.pubkey, none⟩
  /-- No token is accepted twice. -/
  once : ((steps.filter Commits).map fun step => step.op.1.token).Nodup
  /-- The draft becomes ready with the commit that leaves no other slot without a wallet. -/
  ready : ∀ step ∈ steps, ∀ draft, step.pre.db.draft? draftId = some draft →
    draft.status ≠ .readyToSubmit →
      ((∃ draft', step.post.db.draft? draftId = some draft' ∧ draft'.status = .readyToSubmit) ↔
        ∃ before slot after, GetsSlot step.op.1 draftId step.pre step.post before slot after ∧
          ∀ other ∈ before ++ after, other.pubkey ≠ none)
  /-- If slots that refer to an invitation had no wallet, the slot was open until then. -/
  wasOpen : Unresolved slots → ∀ step ∈ steps, ∀ before slot after,
    GetsSlot step.op.1 draftId step.pre step.post before slot after → slot.pubkey = none

theorem HasSlots.unique {slots' : List DraftPartyEntry} {draft : Draft}
    (h : HasSlots draftId w slots)
    (hdraft : w.db.draft? draftId = some draft)
    (hslots : slotsFromValue draft.partySlots = some slots') : slots = slots' := by
  obtain ⟨draft₁, hdraft₁, hdecoded, -⟩ := h
  obtain rfl : draft₁ = draft := Option.some.inj (hdraft₁.symm.trans hdraft)
  exact Option.some.inj (hdecoded.symm.trans hslots)

/-- A slot that is given away is kept until the end. -/
theorem GetsSlot.kept {step : AcceptStep} {before after : List DraftPartyEntry}
    {slot : DraftPartyEntry}
    (hgets : GetsSlot step.op.1 draftId step.pre step.post before slot after)
    (hstep : step ∈ steps) (hchain : Chain (performTagged AcceptCall perform) w steps w')
    (hguarantee : ∀ step ∈ steps, step.op.1.Guarantees step.untag)
    (hslots : HasSlots draftId w slots) :
    slots[before.length]? = some slot ∧ ∃ slots', HasSlots draftId w' slots' ∧
      slots'.length = slots.length ∧
      slots'[before.length]? = some ⟨some step.op.1.auth.pubkey, none⟩ := by
  obtain ⟨⟨invitation, -, -, hslot, -⟩, draft, draft', hdraft, hdraft', hpre, hfilled, -⟩ := hgets
  obtain ⟨slots₁, hslots₁, hgiven₁⟩ := (hasSlots_run hchain hguarantee hslots).2 step hstep
  obtain rfl : slots₁ = before ++ slot :: after := hslots₁.unique hdraft hpre
  have hget : (before ++ slot :: after)[before.length]? = some slot := by simp
  refine ⟨getElem?_of_given hgiven₁ hget (by simp [hslot]), ?_⟩
  -- the rest of the run starts with the slot given away
  obtain ⟨first, rest, rfl⟩ := List.append_of_mem hstep
  obtain ⟨-, -, hrest⟩ := hchain.split
  have hlater : ∀ later ∈ rest, later.op.1.Guarantees later.untag :=
    fun later hmem => hguarantee later (List.mem_append_right _ (List.mem_cons_of_mem _ hmem))
  obtain ⟨slots₂, hslots₂, hgiven₂⟩ := (hguarantee step hstep).hasSlots hslots₁
  obtain rfl : slots₂ = before ++ ⟨some step.op.1.auth.pubkey, none⟩ :: after :=
    HasSlots.unique hslots₂ hdraft' hfilled
  obtain ⟨slots', hslots', hgiven'⟩ := (hasSlots_run hrest hlater hslots₂).1
  refine ⟨slots', hslots', ?_, given_getElem? hgiven' (by simp) rfl⟩
  exact (given_trans (given_trans hgiven₁ hgiven₂) hgiven').length_eq.symm

/-- **Concurrent acceptances.**  However the calls are interleaved, every acceptance that commits
gets its own slot and keeps it, the other slots stay as the others left them, no token is accepted
twice, and the draft becomes ready with the last open slot. -/
theorem acceptances_serialized (hw : w.txs = []) (hslots : HasSlots draftId w slots)
    (hrun : Acceptances w steps w') : Serialized draftId slots steps w' := by
  have hguarantee := hrun.guarantee hw
  obtain ⟨threads, hpool⟩ := hrun
  have hchain : Chain (performTagged AcceptCall perform) w steps w' := hpool.chain
  have hslotsAt := (hasSlots_run hchain hguarantee hslots).2
  refine ⟨fun step hstep hquiet => ?_, fun step hstep hcommits => ?_,
    fun step hstep before slot after hgets => hgets.kept hstep hchain hguarantee hslots,
    tokens_nodup hchain hguarantee, fun step hstep draft hdraft hstatus => ?_,
    fun hunresolved step hstep before slot after hgets => ?_⟩
  · obtain ⟨hdrafts, hinvitations⟩ := (hguarantee step hstep).quiet hquiet
    have hdrafts : step.post.db.drafts = step.pre.db.drafts := hdrafts
    refine ⟨?_, hinvitations⟩
    rw [Db.draft?, hdrafts]
    rfl
  · obtain ⟨slots₁, hslots₁, -⟩ := hslotsAt step hstep
    obtain ⟨invitation, haccepts, hcase⟩ := (hguarantee step hstep).commit hcommits hslots₁
    refine ⟨invitation, haccepts, hcase.imp_right ?_⟩
    rintro ⟨before, slot, after, -, hgets⟩
    exact ⟨before, slot, after, hgets⟩
  · obtain ⟨slots₁, hslots₁, -⟩ := hslotsAt step hstep
    exact (hguarantee step hstep).ready_iff hslots₁ hdraft hstatus
  · obtain ⟨hslot, -⟩ := hgets.kept hstep hchain hguarantee hslots
    obtain ⟨⟨invitation, -, -, hrefers, -⟩, -⟩ := hgets
    exact hunresolved slot (List.mem_of_getElem? hslot) (by simp [hrefers])

end Run

/-! ## Two acceptances -/

/-- A draft of which two parties are invited. -/
def twoInvitedSlots : List DraftPartyEntry := [⟨none, some 3⟩, ⟨none, some 4⟩]

def twoInvitedDb : Db :=
  { accountsDb with
    drafts := ⟨[{ sampleDraft with
      partySlots := slotsToValue twoInvitedSlots, status := .awaitingPartyWallets }], by decide⟩
    invitations := ⟨[InvitationStmt.newRow 3 2 [] [] [] "first" 100 0,
      InvitationStmt.newRow 4 2 [] [] [] "second" 100 0], by decide⟩ }

/-- Alice and Bob lock their invitations, then Alice the draft, and Bob waits for her commit. -/
def twoAcceptances : List (Move (AcceptCall × Op) (TaggedAns AcceptCall Op.Ans) World) :=
  [.start (AcceptCall.program ⟨alice, "first"⟩), .start (AcceptCall.program ⟨bob, "second"⟩)] ++
  [0, 1, 0, 1, 0, 1, 0, 0, 0, 0, 1, 1, 1, 1].map fun i => .run i fun op w => cooperate 0 op.2 w

theorem acceptances_serialized_twice :
    ∃ steps w', Acceptances (World.ofDb twoInvitedDb) steps w' ∧ (steps.filter Commits).length = 2 ∧
      Serialized 2 twoInvitedSlots steps w' := by
  have hreplay : (replay (performTagged AcceptCall perform) [] ⟨World.ofDb twoInvitedDb, []⟩
      twoAcceptances).any (fun result => (result.1.filter Commits).length = 2) = true := by
    decide +kernel
  obtain ⟨⟨steps, pool⟩, hreplay, htest⟩ := (Option.any_eq_true _ _).mp hreplay
  have hrun : Acceptances (World.ofDb twoInvitedDb) steps pool.world := by
    refine ⟨pool.threads, replay_run (fun p hp => ?_) .refl hreplay⟩
    simp only [twoAcceptances, List.mem_append, List.mem_cons, Move.start.injEq, List.not_mem_nil,
      or_false, List.mem_map, reduceCtorEq, and_false, exists_false] at hp
    rcases hp with rfl | rfl
    · exact ⟨_, rfl⟩
    · exact ⟨_, rfl⟩
  have hslots : HasSlots 2 (World.ofDb twoInvitedDb) twoInvitedSlots :=
    ⟨_, rfl, slotsFromValue_slotsToValue _, by decide⟩
  exact ⟨steps, pool.world, hrun, of_decide_eq_true htest, acceptances_serialized rfl hslots hrun⟩

end PactumCodex
