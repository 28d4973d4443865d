import PactumCodex.Agreements.Listener
import PactumCodex.Audit
import PactumCodex.Drafts.Isolation

/-!
# Notices that a draft is ready

The creator is told that a draft is ready after the transaction of
`accept_invite` has been committed, when the rows are no longer locked: other
programs have taken steps in between.  A notice is true nevertheless.  Once all
slots of a draft have a wallet, this stays so (`readyFor_step`), and a program
may rely on it (`Notices`), beside what it relies on for its locked rows.

## Strategy

`Truthful` is the guarantee of a step: if it tells somebody that a draft is ready,
then the draft is ready for this creator, or was discarded since.

* Up to the commit the program is the one that has been verified for its locked
  rows, and it tells nothing (`notices_of_secures`).
* The commit of the last acceptance makes the draft ready (`readyFor_accepted`,
  `Prepared.notices_commit`).
* After it the program relies on ready drafts staying ready, and on accounts being
  kept, until both notices are out (`notifyReady_notices`).

No other program tells anybody that a draft is ready (`Invocation.silent`).
-/

namespace PactumCodex

open Interaction Relational Handlers.Invite

/-! ## Ready drafts -/

/-- All slots of the draft have a wallet.  It is ready, unless the creator has discarded it. -/
def ReadyFor (draftId : Uuid) (creatorPubkey : String) (w : World) : Prop :=
  ∃ draft slots, w.db.draft? draftId = some draft ∧ draft.creatorPubkey = creatorPubkey ∧
    slotsFromValue draft.partySlots = some slots ∧ allPubkeysResolved slots = true ∧
    (draft.status = .readyToSubmit ∨ draft.status = .discarded)

section Step

variable {step : BackendStep} {draftId : Uuid} {creatorPubkey : String}

theorem allPubkeysResolved_filled {before after : List DraftPartyEntry} {slot : DraftPartyEntry}
    (h : allPubkeysResolved (before ++ slot :: after) = true) (pubkey : String) :
    allPubkeysResolved (before ++ ⟨some pubkey, none⟩ :: after) = true := by
  simp only [allPubkeysResolved, List.all_append, List.all_cons, Bool.and_eq_true] at h ⊢
  exact ⟨h.1, rfl, h.2.2⟩

/-- An acceptance leaves a draft ready, if it concerns the draft at all. -/
theorem readyFor_accepted {call : AcceptCall} {w w' : World} {invitation : Invitation}
    {draft : Draft}
    {slots slots' : List DraftPartyEntry} {now : ℤ}
    (hplan : AcceptPlan call.auth call.token w invitation draft slots slots')
    (haccepted : Accepted w w' invitation slots' now) (h : ReadyFor draftId creatorPubkey w) :
    ReadyFor draftId creatorPubkey w' := by
  obtain ⟨draft₁, slots₁, hdraft₁, hcreator, hslots₁, hall, hstatus⟩ := h
  have hpost := haccepted.draft? hdraft₁
  by_cases howner : draftId = invitation.draftId
  · subst howner
    obtain rfl : draft = draft₁ := Option.some.inj (hplan.owner.symm.trans hdraft₁)
    obtain rfl : slots = slots₁ := Option.some.inj (hplan.decoded.symm.trans hslots₁)
    obtain ⟨before, slot, after, rfl, -, -, rfl⟩ := resolvePartySlotPubkey_eq_some hplan.resolved
    have hall' := allPubkeysResolved_filled hall call.auth.pubkey
    rw [if_pos rfl, Draft.resolve, if_pos hall'] at hpost
    exact ⟨_, _, hpost, hcreator, slotsFromValue_slotsToValue _, hall', Or.inl rfl⟩
  · rw [if_neg howner] at hpost
    exact ⟨draft₁, slots₁, hpost, hcreator, hslots₁, hall, hstatus⟩

/-- **Step lemma.**  A draft that is ready stays so, unless its creator discards it. -/
theorem readyFor_step (hvalid : step.Valid perform) (hcommits : CommitsAlone step)
    (h : ReadyFor draftId creatorPubkey step.pre) : ReadyFor draftId creatorPubkey step.post := by
  obtain ⟨draft, slots, hdraft, hcreator, hslots, hall, hstatus⟩ := id h
  have hsame : step.post.db.drafts = step.pre.db.drafts →
    ReadyFor draftId creatorPubkey step.post := by
    intro hsame
    refine ⟨draft, slots, ?_, hcreator, hslots, hall, hstatus⟩
    rw [Db.draft?, hsame]
    exact hdraft
  obtain hdrafts | ⟨s, out, hexecutes, -⟩ | ⟨writes, hop, -⟩ := (stored_step hvalid).1
  · exact hsame hdrafts
  · obtain ⟨draft', hdraft', hkept, hslotsKept⟩ := draft?_step hvalid hdraft
    obtain ⟨hpartySlots, hstatus'⟩ := hslotsKept (by rw [hexecutes]; rfl)
    refine ⟨draft', slots, hdraft', hkept.creatorPubkey.trans hcreator, hpartySlots ▸ hslots, hall,
      ?_⟩
    rcases hstatus' with hkeeps | hdiscards
    · rwa [hkeeps]
    · exact Or.inr hdiscards
  · cases hdone : step.op.commits step.ans with
    | false => exact hsame (congrArg Db.drafts (db_of_failed_commit hvalid hop hdone))
    | true =>
        obtain ⟨call, hguarantee⟩ := hcommits hdone
        obtain ⟨invitation, _, _, _, _, hplan, haccepted⟩ := hguarantee.committed hdone
        exact readyFor_accepted hplan haccepted h

end Step

/-! ## Notices -/

/-- The wallet belongs to the user. -/
def World.Holder (w : World) (pubkey : String) (userId : Uuid) : Prop :=
  (lookup Wallet.pubkey pubkey w.db.wallets.rows).map Wallet.userId = some userId

theorem World.Holder.of_wallets {w w' : World} {pubkey : String} {userId : Uuid}
    (h : w.Holder pubkey userId) (hwallets : w'.db.wallets = w.db.wallets) :
    w'.Holder pubkey userId := by
  unfold World.Holder
  rwa [hwallets]

/-- The operation tells somebody that a draft is ready. -/
def Op.announcesReady : Op → Bool
  | .sendToUser _ (.draftReady _) => true
  | .sql (.notification s) => s.eventType = "DraftReadyToSubmit"
  | _ => false

/-- If the step tells somebody that a draft is ready, it is, and it is the creator who is told. -/
structure Truthful (step : BackendStep) : Prop where
  pushed : ∀ userId text, step.op = .sendToUser userId (.draftReady text) →
    ∃ draftId creatorPubkey, text = Uuid.toText draftId ∧ step.pre.Holder creatorPubkey userId ∧
      ReadyFor draftId creatorPubkey step.pre
  queued : ∀ s : NotificationStmt, step.op = .sql (.notification s) →
    s.eventType = "DraftReadyToSubmit" → ∃ draftId, s.agreementPda = some (Uuid.toText draftId) ∧
      ReadyFor draftId s.recipientPubkey step.pre

theorem truthful_of_silent {step : BackendStep} (h : step.op.announcesReady = false) :
    Truthful step := by
  refine ⟨fun userId text hop => ?_, fun s hop heventType => ?_⟩
  · rw [hop] at h
    cases h
  · rw [hop] at h
    exact absurd heventType (of_decide_eq_false h)

/-- What everybody leaves of drafts and accounts. -/
def ReadyKept (w w' : World) : Prop :=
  (∀ draftId creatorPubkey, ReadyFor draftId creatorPubkey w → ReadyFor draftId creatorPubkey w') ∧
    w'.db.wallets = w.db.wallets

theorem ReadyKept.refl (w : World) : ReadyKept w w := ⟨fun _ _ h => h, rfl⟩

theorem ReadyKept.trans {w₁ w₂ w₃ : World} (h : ReadyKept w₁ w₂) (h' : ReadyKept w₂ w₃) :
    ReadyKept w₁ w₃ :=
  ⟨fun draftId creatorPubkey hready => h'.1 _ _ (h.1 draftId creatorPubkey hready), h'.2.trans h.2⟩

theorem readyKept_step {step : BackendStep} (hvalid : step.Valid perform)
    (hcommits : CommitsAlone step) : ReadyKept step.pre step.post :=
  ⟨fun _ _ => readyFor_step hvalid hcommits, (accounts_step hvalid).2⟩

/-! ## The program of `accept_invite` -/

/-- The program takes steps that commit alone and tell the truth.  It relies on its locked rows, and
on drafts staying ready. -/
abbrev Notices {α : Type} (p : Backend α) (held : Option ℕ) (w : World)
    (Φ : α → Option ℕ → World → Prop) : Prop :=
  Secures perform Locked Started (fun id w w' => Untouched id w w' ∧ ReadyKept w w')
    (fun step => CommitsAlone step ∧ Truthful step) p held w Φ

section Accept

variable {α : Type} {call : AcceptCall} {held : Option ℕ} {w : World} {id : ℕ}

theorem commitsAlone_of_guarantees {step : BackendStep} (h : call.Guarantees step) :
    CommitsAlone step := fun _ => ⟨call, h⟩

/-- A step that respects the locked rows keeps drafts ready as well. -/
theorem respects_notices {step : BackendStep}
    (h : Respects Locked Started Untouched CommitsAlone held step) (hvalid : step.Valid perform)
    (htruthful : Truthful step) : Respects Locked Started
      (fun id w w' => Untouched id w w' ∧ ReadyKept w w')
      (fun step => CommitsAlone step ∧ Truthful step) held step :=
  ⟨⟨h.guarantee, htruthful⟩, h.inv,
    fun other hlive hne => ⟨h.others other hlive hne, readyKept_step hvalid h.guarantee⟩⟩

/-- What the program secures of its locked rows, as long as it tells nothing. -/
theorem notices_of_secures {p : Backend α} {Φ : α → Option ℕ → World → Prop}
    (h : call.Secures p held w Φ) (hp : p.Issues fun op => op.announcesReady = false) :
    Notices p held w Φ :=
  h.refine hp fun _ hsilent hvalid hguarantee =>
    ⟨⟨commitsAlone_of_guarantees hguarantee, truthful_of_silent hsilent⟩,
      readyKept_step hvalid (commitsAlone_of_guarantees hguarantee)⟩

/-- After the commit the draft is ready, if the transaction has given away the last slot. -/
theorem Prepared.notices_commit {invitation : Invitation} {draft : Draft}
    {slots slots' : List DraftPartyEntry} {now : ℤ}
    (h : Prepared call id w invitation draft slots slots'
      [.acceptInvitation invitation.id, slotsWrite slots' now invitation.draftId]) :
    Notices (Handler.orFail .internalError (.issue (Op.commit id))).run (some id) w
      fun r held w' => held = some id ∧ ∀ out, r = .ok out → allPubkeysResolved slots' = true →
        ReadyFor invitation.draftId draft.creatorPubkey w' := by
  refine secures_bind (secures_issue fun w₁ hrely hlocked answer w₂ hcommit => ?_)
  obtain ⟨hrespects, -⟩ :=
    h.secures_commit w₁ (fun id hid => (hrely id hid).1) hlocked answer w₂ hcommit
  have hstep : Respects Locked Started (fun id w w' => Untouched id w w' ∧ ReadyKept w w')
      (fun step => CommitsAlone step ∧ Truthful step) (some id) ⟨w₁, .commit id, answer, w₂⟩ := by
    refine respects_notices ?_ hcommit (truthful_of_silent rfl)
    exact ⟨commitsAlone_of_guarantees hrespects.guarantee, hrespects.inv, hrespects.others⟩
  refine ⟨hstep, some id, .keep, ?_⟩
  cases answer with
  | error f => exact ⟨rfl, nofun⟩
  | ok _ =>
      refine ⟨rfl, fun _ _ hall => ?_⟩
      obtain ⟨hplan, tx, htx, -, -, hbuffered⟩ := h.untouched (hrely id rfl).1
      obtain ⟨hwrites, -, -⟩ := hlocked.commit htx hcommit
      rw [hbuffered] at hwrites
      have hpost := (accepted_of_writes hwrites).draft? hplan.owner
      rw [if_pos rfl, Draft.resolve, if_pos hall] at hpost
      exact ⟨_, _, hpost, rfl, slotsFromValue_slotsToValue _, hall, Or.inl rfl⟩

/-- A step that changes neither drafts nor transactions. -/
theorem notices_quiet (call : AcceptCall) {op : Op} {answer : op.Ans} {w₁ w₂ : World}
    (hop : op.leavesDrafts = true) (hlocked : Locked w₁) (hperform : perform op answer w₁ = some w₂)
    (htruthful : Truthful ⟨w₁, op, answer, w₂⟩) : Respects Locked Started
      (fun id w w' => Untouched id w w' ∧ ReadyKept w w')
      (fun step => CommitsAlone step ∧ Truthful step) held ⟨w₁, op, answer, w₂⟩ := by
  have hrespects : Respects Locked Started Untouched call.Guarantees held ⟨w₁, op, answer, w₂⟩ :=
    respects_of_leavesDrafts hop hlocked hperform
  refine respects_notices ?_ hperform htruthful
  exact ⟨commitsAlone_of_guarantees hrespects.guarantee, hrespects.inv, hrespects.others⟩

theorem truthful_push {draftId userId : Uuid} {creatorPubkey : String} {w₁ w₂ : World}
    {delivered : Bool} (hholder : w₁.Holder creatorPubkey userId)
    (hready : ReadyFor draftId creatorPubkey w₁) :
    Truthful ⟨w₁, .sendToUser userId (.draftReady (Uuid.toText draftId)), delivered, w₂⟩ := by
  refine ⟨fun userId' text hop => ?_, nofun⟩
  simp only [Op.sendToUser.injEq, WsEvent.draftReady.injEq] at hop
  obtain ⟨rfl, rfl⟩ := hop
  exact ⟨draftId, creatorPubkey, rfl, hholder, hready⟩

theorem truthful_queue {draftId : Uuid} {creatorPubkey : String} {now : ℤ} {w₁ w₂ : World}
    {answer : Except Failure Uuid} (hready : ReadyFor draftId creatorPubkey w₁) :
    Truthful ⟨w₁, .sql (.notification ⟨"DraftReadyToSubmit", some (Uuid.toText draftId),
      creatorPubkey, now⟩), answer, w₂⟩ := by
  refine ⟨nofun, fun s hop _ => ?_⟩
  simp only [Op.sql.injEq, Stmt.notification.injEq] at hop
  subst hop
  exact ⟨draftId, rfl, hready⟩

/-- The notice is queued. -/
theorem enqueueReady_notices (call : AcceptCall) {draftId : Uuid} {creatorPubkey : String}
    (hready : ReadyFor draftId creatorPubkey w) :
    Notices (enqueueNotification "DraftReadyToSubmit" (some (Uuid.toText draftId))
      creatorPubkey).run
      (some id) w fun _ _ _ => True := by
  unfold enqueueNotification
  refine secures_run_bind (secures_bind (secures_issue fun w₁ hrely hlocked now w₂ hclock => ?_))
  have hready₁ := (hrely id rfl).2.1 _ _ hready
  obtain rfl : w₁ = w₂ := Option.some.inj hclock
  refine ⟨notices_quiet call rfl hlocked hclock (truthful_of_silent rfl), some id, .keep, ?_⟩
  refine secures_run_bind (secures_bind (secures_issue fun w₃ hrely hlocked queued w₄ hqueue => ?_))
  have hready₃ := (hrely id rfl).2.1 _ _ hready₁
  refine ⟨notices_quiet call rfl hlocked hqueue (truthful_queue hready₃), some id, .keep, ?_⟩
  cases queued <;> trivial

/-- The creator is told of a draft that is ready. -/
theorem notifyReady_notices (call : AcceptCall) {draftId : Uuid} {creatorPubkey : String}
    (hready : ReadyFor draftId creatorPubkey w) :
    Notices (notifyReady draftId creatorPubkey).run (some id) w fun _ _ _ => True := by
  unfold notifyReady
  refine secures_run_bind (secures_bind (secures_issue fun w₁ hrely hlocked found w₂ hlookup => ?_))
  -- between the commit and this step others have run; the draft is still ready
  have hready₁ := (hrely id rfl).2.1 _ _ hready
  refine ⟨notices_quiet call rfl hlocked hlookup (truthful_of_silent rfl), some id, .keep, ?_⟩
  cases found with
  | error f => trivial
  | ok holder =>
      obtain rfl := world_of_select rfl hlookup
      obtain ⟨-, -, _, hexec, -⟩ := performSql_eq_some.mp hlookup
      have hfound := (provided_eq_some.mp hexec).1
      cases holder with
      | none => trivial
      | some userId =>
          have hholder : w₂.Holder creatorPubkey userId := hfound.symm
          refine secures_run_bind (secures_bind
            (secures_issue fun w₃ hrely hlocked delivered w₄ hpush => ?_))
          obtain ⟨-, hkept⟩ := hrely id rfl
          have hready₃ := hkept.1 _ _ hready₁
          obtain rfl : w₃ = w₄ := Option.some.inj hpush
          refine ⟨notices_quiet call rfl hlocked hpush
            (truthful_push (hholder.of_wallets hkept.2) hready₃),
            some id, .keep, ?_⟩
          cases delivered with
          | true => trivial
          | false => exact enqueueReady_notices call hready₃

theorem acceptInTx_silent (auth : AuthUserWithWallet) (token : String) (now : ℤ) (tx : ℕ) :
    (rollbackOnError tx (acceptInTx auth token now tx)).run.Issues
      fun op => op.announcesReady = false := by
  refine issues_rollbackOnError ((acceptInTx_issues ..).mono fun op h => ?_) rfl
  obtain ⟨s, rfl⟩ := h
  rfl

/-- **Notices of an acceptance.** -/
theorem acceptInvite_notices (call : AcceptCall) (w : World) :
    Notices (acceptInvite call.auth call.token).run none w fun _ _ _ => True := by
  unfold acceptInvite
  refine secures_run_bind (secures_bind (secures_issue fun w₁ _ hlocked now w₂ hnow => ?_))
  refine ⟨notices_quiet call rfl hlocked hnow (truthful_of_silent rfl), none, .keep, ?_⟩
  have hbegin : call.Secures (Handler.orFail .internalError (.issue Op.begin)).run none w₂ _ :=
    secures_begin w₂
  refine secures_run_bind
    ((notices_of_secures hbegin (issues_orFail (issues_issue.mpr rfl))).mono ?_)
  rintro _ _ w₃ (⟨id, rfl, rfl, htx⟩ | ⟨e, rfl, rfl⟩)
  · refine secures_run_bind ((notices_of_secures (secures_rollbackOnError (acceptInTx_secures htx))
      (acceptInTx_silent ..)).mono ?_)
    rintro _ _ w₄ (⟨acceptance, rfl, rfl, invitation, draft, slots, slots', rfl, hprepared⟩ |
      ⟨e, rfl, rfl⟩)
    · refine secures_run_bind (hprepared.notices_commit.mono ?_)
      rintro r _ w₅ ⟨rfl, hready⟩
      cases r with
      | error e => trivial
      | ok out =>
          show Notices (ite _ _ _ : Handler Unit).run (some id) w₅ _
          split
          · exact notifyReady_notices call (hready out rfl ‹_›)
          · trivial
    · trivial
  · trivial

end Accept

/-! ## All programs -/

/-- The event listener announces agreements, not drafts. -/
theorem Op.Announces.silent {eventType agreementPda : String} {event : WsEvent} {op : Op}
    (h : op.Announces eventType event agreementPda) (heventType : eventType ≠ "DraftReadyToSubmit")
    (hevent : ∀ text, event ≠ .draftReady text) : op.announcesReady = false := by
  unfold Op.announcesReady
  split
  · exact absurd (h.sendToUser _ _ rfl).symm (hevent _)
  · rename_i s
    exact decide_eq_false fun hsame => heventType ((h.notification s rfl).1.symm.trans hsame)
  · rfl

theorem Op.silent_of_has {privileges : List Privilege} {op : Op} (h : op.Has privileges)
    (hpushes : Privilege.pushes ∉ privileges) (hnotifies : Privilege.notifies ∉ privileges) :
    op.announcesReady = false := by
  unfold Op.announcesReady
  split
  · rcases List.mem_cons.mp h with hreads | hmem
    · cases hreads
    · exact absurd hmem hpushes
  · rcases List.mem_cons.mp h with hreads | hmem
    · cases hreads
    · exact absurd hmem hnotifies
  · rfl

theorem handleCancellation_silent (event : ParsedEvent) (status : PartyStatus) :
    (handleCancellation event status).run.Issues fun op => op.announcesReady = false := by
  rw [handleCancellation_eq]
  refine issues_run_bind (issues_query.mpr rfl) fun _ => ?_
  refine (announceCancellation_announces event status).mono fun _ h => h.silent ?_ ?_
  · unfold cancellationEventType
    split <;> decide
  · unfold cancellationEvent
    split <;> nofun

theorem handleEvent_silent (event : ParsedEvent) :
    (handleEvent event).run.Issues fun op => op.announcesReady = false := by
  unfold handleEvent
  split
  · rw [handleCreateAgreement_eq]
    refine issues_run_bind ((insertParties_has ..).mono fun _ h => ?_) fun _ => ?_
    · exact Op.silent_of_has h (by decide) (by decide)
    · exact (announceCreation_announces event).mono fun _ h => h.silent (by decide) nofun
  · rw [handleSignAgreement_eq]
    refine issues_run_bind (issues_ask.mpr rfl) fun now => ?_
    refine issues_run_bind (issues_query.mpr rfl) fun result => ?_
    cases result with
    | none => trivial
    | some signer =>
        refine issues_run_bind (issues_query.mpr rfl) fun unsignedCount => ?_
        refine (announceSignature_announces event unsignedCount).mono fun _ h => h.silent ?_ ?_
        · split <;> decide
        · split <;> nofun
  · exact handleCancellation_silent event .cancelled
  · exact handleCancellation_silent event .expired
  · exact (handleVoteRevoke_announces event).mono fun _ h => h.silent (by decide) nofun

/-- Only `accept_invite` tells that a draft is ready. -/
theorem Invocation.silent (env : Env) (call : Invocation) :
    (∃ auth token, call = .acceptInvite auth token) ∨
      (call.program env).Issues fun op => op.announcesReady = false := by
  cases call with
  | acceptInvite auth token => exact Or.inl ⟨auth, token, rfl⟩
  | processNotification response =>
      right
      show (PactumCodex.processNotification env response).Issues _
      unfold PactumCodex.processNotification
      split
      · exact issues_logged (handleEvent_silent _)
      · trivial
  | _ =>
      right
      refine (Invocation.has env _).mono fun _ h => Op.silent_of_has h ?_ ?_
      · simp [Invocation.privileges]
      · simp [Invocation.privileges]

theorem Entry.notices {env : Env} {p : Backend Unit} (hp : Entry env p) (w : World) :
    Notices p none w fun _ _ _ => True := by
  obtain ⟨call, rfl⟩ := hp.invocation
  obtain ⟨auth, token, rfl⟩ | hsilent := call.silent env
  · exact secures_bind ((acceptInvite_notices ⟨auth, token⟩ w).mono fun _ _ _ _ => trivial)
  · refine (entry_secures hp w).refine hsilent fun step hop hvalid hcommits => ?_
    exact ⟨⟨hcommits, truthful_of_silent hop⟩, readyKept_step hvalid hcommits⟩

variable {env : Env} {w w' : World} {steps : List BackendStep}

theorem SystemRun.notices (hw : w.txs = []) (hrun : SystemRun env w steps w') :
    ∀ step ∈ steps, CommitsAlone step ∧ Truthful step := by
  obtain ⟨threads, hpool⟩ := hrun
  have hstarted : ∀ (op : Op) (answer : op.Ans) (w w' : World) (id : ℕ),
      perform op answer w = some w' → Started w id → Started w' id := by
    intro op answer w w' id hperform hid
    have hvalid : Step.Valid perform (⟨w, op, answer, w'⟩ : BackendStep) := hperform
    exact lt_of_lt_of_le hid (nextTx_step hvalid)
  refine (hpool.secured (locked_of_nil hw) ?_ ?_ hstarted fun _ hp w => Entry.notices hp w).1
  · rintro id w₁ w₂ w₃ ⟨huntouched, hkept⟩ ⟨huntouched', hkept'⟩
    exact ⟨huntouched.trans _ _ _ _ huntouched', hkept.trans hkept'⟩
  · exact fun id w => ⟨Untouched.refl id w, .refl w⟩

/-- **Ready notices.**  In every run of the backend, whoever is told that a draft is ready is its
creator, all slots of the draft have a wallet at that moment, and they keep it until the end. -/
theorem ready_notices_truthful (hw : w.txs = []) (hrun : SystemRun env w steps w') :
    ∀ step ∈ steps, Truthful step ∧ ReadyKept step.pre w' := by
  have hnotices := hrun.notices hw
  obtain ⟨threads, hpool⟩ := hrun
  have hchain : Chain perform w steps w' := hpool.chain
  intro step hmem
  refine ⟨(hnotices step hmem).2, ?_⟩
  obtain ⟨before, after, rfl⟩ := List.append_of_mem hmem
  obtain ⟨-, hvalid, hrest⟩ := hchain.split
  refine (hrest.invariant (ReadyKept step.pre) (readyKept_step hvalid (hnotices step hmem).1) ?_).1
  intro later hlater hvalid hkept
  have hcommits := (hnotices later (List.mem_append_right _ (List.mem_cons_of_mem _ hlater))).1
  exact hkept.trans (readyKept_step hvalid hcommits)

/-- Bob deletes his draft after it has become ready and before he is told so. -/
theorem ready_notices_truthful_discarded :
    ∃ steps w', SystemRun sampleEnv (World.ofDb twoInvitedDb) steps w' ∧
      steps.countP (fun step => step.op.announcesReady) = 2 ∧
      (w'.db.draft? 2).map Draft.status = some .discarded ∧
      ∀ step ∈ steps, Truthful step ∧ ReadyKept step.pre w' := by
  have hentry : ∀ p ∈ [Handler.logged (acceptInvite alice "first"),
      Handler.logged (acceptInvite bob "second"), Handler.logged (deleteDraft ⟨11, none⟩ 2)],
        Entry sampleEnv p := by
    refine List.forall_mem_cons.mpr
      ⟨.acceptInvite .., List.forall_mem_cons.mpr ⟨.acceptInvite .., ?_⟩⟩
    exact List.forall_mem_cons.mpr ⟨.deleteDraft .., by simp⟩
  obtain ⟨steps, w', hrun, htest⟩ := systemRun_of_replay (World.ofDb twoInvitedDb)
    (List.replicate 7 (0, cooperate 0) ++ List.replicate 7 (1, cooperate 0) ++
      List.replicate 3 (2, cooperate 0) ++ List.replicate 4 (1, cooperate 0))
    (fun steps w' => steps.countP (fun step => step.op.announcesReady) = 2 ∧
      (w'.db.draft? 2).map Draft.status = some .discarded)
    hentry (by decide +kernel)
  obtain ⟨hcount, hstatus⟩ := of_decide_eq_true htest
  exact ⟨steps, w', hrun, hcount, hstatus, ready_notices_truthful rfl hrun⟩

end PactumCodex
