import PactumCodex.Agreements.Listener
import PactumCodex.Lib.History

/-!
# Expiry workers and the event listener, interleaved

Any number of expiry cycles (of several servers, or of one that was restarted) run
together with the listener's handling of events.

## Phases

`ExpiryPhase` says where a cycle is in the expiry of an agreement: outside, from
the lock to the end of the submission, or about to give the lock back.  Its
submission section ends with the submission (`Inside`); a program that is stopped
leaves it.  The cycles and the handlers conform to the discipline `Allows`
(`ExpiryEntry.conforms`): a cycle submits only in the section it has locked and
unlocks only after a submission that failed, and outside of all sections rows are
inserted, closed or locked.

## Moves

`ExpiryMove` is what a step can do to the rows of one agreement and to the section
of the program that takes it.

* The lock is obtained if some row was pending, and then no row is pending.
* It is given back after a submission that failed; if the statement does not fail
  itself, no row is expiring afterwards.
* The listener closes rows, and other steps leave them as they are.

That every step of a conforming program is one of these (`expiryMove_of_allowed`)
is all that is needed of the statements: the results about locks are proved from
the moves.
-/

namespace PactumCodex

open Interaction Relational

/-! ## Phases -/

/-- Where a program is in the expiry of an agreement. -/
inductive ExpiryPhase : Type
  | outside
  /-- The lock is taken, `submit_expire_transaction` is called next. -/
  | locked (agreementPda : String)
  /-- In `submit_expire_transaction`, and no transaction was accepted yet. -/
  | submitting (agreementPda : String)
  /-- The RPC node accepted the transaction. -/
  | accepted (agreementPda : String)
  /-- The submission failed, the lock is given back next. -/
  | reverting (agreementPda : String)
  deriving DecidableEq, Repr

namespace ExpiryPhase

/-- The agreement whose submission section the program is in. -/
def inside : ExpiryPhase → Option String
  | outside => none
  | locked agreementPda => some agreementPda
  | submitting agreementPda => some agreementPda
  | accepted agreementPda => some agreementPda
  | reverting agreementPda => some agreementPda

/-- The phase after a transaction was accepted. -/
def accept : ExpiryPhase → ExpiryPhase
  | submitting agreementPda => accepted agreementPda
  | phase => phase

/-- How an operation changes the phase of the program that issues it. -/
def next (phase : ExpiryPhase) : (op : Op) → op.Ans → ExpiryPhase
  | .sql (.party (.lockForExpiry agreementPda)), .ok rowsAffected =>
      if 0 < rowsAffected then locked agreementPda else phase
  | .sql (.party (.unlockFromExpiry _)), _ => outside
  | .expireCall agreementPda _, _ => submitting agreementPda
  | .sendTransaction _, .ok _ => phase.accept
  | .expireReturn _ (.ok _), _ => outside
  | .expireReturn agreementPda (.error _), _ => reverting agreementPda
  | _, _ => phase

/-- The operations a program may issue in a phase; the rows of the agreements in `fixed` were all
inserted before. -/
def Allows (fixed : String → Prop) (phase : ExpiryPhase) : Op → Prop
  | .sql (.party (.insert _ agreementPda _ _)) => phase = outside ∧ ¬ fixed agreementPda
  | .sql (.party (.setStatus status _)) =>
      phase = outside ∧ (status = .cancelled ∨ status = .expired)
  | .sql (.party (.lockForExpiry _)) => phase = outside
  | .sql (.party (.unlockFromExpiry agreementPda)) => phase = reverting agreementPda
  | .expireCall agreementPda _ => phase = locked agreementPda
  | .sendTransaction _ => ∃ agreementPda, phase = submitting agreementPda
  | .expireReturn agreementPda (.ok _) => phase = accepted agreementPda
  | .expireReturn agreementPda (.error _) => phase = submitting agreementPda
  | _ => ∀ agreementPda, phase ≠ locked agreementPda

end ExpiryPhase

/-- An event of a history of the backend. -/
abbrev BackendEvent := Event Op Op.Ans World

/-- The phase a program is in after the events of a history. -/
abbrev expiryPhase (i : ℕ) (events : List BackendEvent) : ExpiryPhase :=
  phase ExpiryPhase.next (fun _ => .outside) .outside i events

/-- The program is between a lock that it obtained and the end of its submission. -/
def Inside (agreementPda : String) (events : List BackendEvent) (i : ℕ) : Prop :=
  (expiryPhase i events).inside = some agreementPda

instance decidableInside (agreementPda : String) (events : List BackendEvent) (i : ℕ) :
    Decidable (Inside agreementPda events i) :=
  inferInstanceAs (Decidable ((expiryPhase i events).inside = some agreementPda))

theorem inside_ran_self {agreementPda : String} {events : List BackendEvent} {i : ℕ}
    {step : BackendStep} : Inside agreementPda (events ++ [.ran i step]) i ↔
      ((expiryPhase i events).next step.op step.ans).inside = some agreementPda := by
  rw [Inside, expiryPhase, phase_ran, if_pos rfl]

theorem inside_ran_ne {agreementPda : String} {events : List BackendEvent} {i j : ℕ}
    {step : BackendStep} (h : i ≠ j) :
    Inside agreementPda (events ++ [.ran i step]) j ↔ Inside agreementPda events j := by
  rw [Inside, expiryPhase, phase_ran, if_neg h]
  rfl

/-- A program that is stopped leaves its section. -/
theorem inside_stopped {agreementPda : String} {events : List BackendEvent} {i j : ℕ} :
    Inside agreementPda (events ++ [.stopped i]) j ↔ i ≠ j ∧ Inside agreementPda events j := by
  by_cases hij : i = j
  · simp [Inside, hij, ExpiryPhase.inside]
  · simp [Inside, hij]

/-! ## Programs -/

/-- A cycle of an expiry worker, or the handling of an event; the parties of the agreements in
`fixed` are not created any more. -/
inductive ExpiryEntry (fixed : String → Prop) : Backend Unit → Prop
  | worker (env : Env) (vaultKey : Pubkey) :
      ExpiryEntry fixed (expireDueAgreements env vaultKey >>= fun _ => pure ())
  | listener (event : ParsedEvent) :
      (event.instruction = .createAgreement → ¬ fixed event.agreementPda) →
      ExpiryEntry fixed (Handler.logged (handleEvent event))

/-- Histories of expiry workers and the listener. -/
abbrev ExpiryHistory (fixed : String → Prop) (start : Pool Op Op.Ans World)
    (events : List BackendEvent) (pool : Pool Op Op.Ans World) : Prop :=
  History perform (ExpiryEntry fixed) start events pool

section Conformance

variable {fixed : String → Prop}

/-- The operations that a program outside of the section can issue. -/
def Op.ByListener (fixed : String → Prop) (op : Op) : Prop :=
  ExpiryPhase.Allows fixed .outside op ∧ ∀ answer, ExpiryPhase.next .outside op answer = .outside

theorem enqueueNotification_byListener (eventType : String) (agreementPda : Option String)
    (recipient : String) :
    (enqueueNotification eventType agreementPda recipient).run.Issues (Op.ByListener fixed) := by
  refine issues_run_bind (issues_ask.mpr ⟨nofun, fun _ => rfl⟩) fun now => ?_
  exact issues_run_bind (issues_query.mpr ⟨nofun, fun _ => rfl⟩) fun _ => trivial

theorem enqueueAll_byListener (eventType agreementPda : String) (parties : List String) :
    (enqueueAll eventType agreementPda parties).Issues (Op.ByListener fixed) := by
  induction parties with
  | nil => trivial
  | cons party parties ih =>
      exact Program.issues_bind (issues_logged (enqueueNotification_byListener ..)) fun _ => ih

theorem broadcast_byListener (event : WsEvent) (parties : List String) :
    (broadcast event parties).Issues (Op.ByListener fixed) := by
  induction parties with
  | nil => trivial
  | cons party parties ih =>
      refine Program.issues_bind ?_ fun userId => ?_
      · refine Program.issues_bind (issues_sql.mpr ⟨nofun, fun _ => rfl⟩) fun r => ?_
        cases r <;> trivial
      · cases userId with
        | none => exact ih
        | some userId =>
            exact Program.issues_bind (issues_issue.mpr ⟨nofun, fun _ => rfl⟩) fun _ => ih

theorem insertParties_byListener {agreementPda : String} (hfree : ¬ fixed agreementPda)
    (creator : String) (parties : List String) :
    (insertParties agreementPda creator parties).run.Issues (Op.ByListener fixed) := by
  induction parties with
  | nil => trivial
  | cons party parties ih =>
      refine issues_run_bind (issues_ask.mpr ⟨nofun, fun _ => rfl⟩) fun now => ?_
      exact issues_run_bind (issues_query.mpr ⟨⟨rfl, hfree⟩, fun _ => rfl⟩) fun _ => ih

theorem handleSignAgreement_byListener (event : ParsedEvent) :
    (handleSignAgreement event).run.Issues (Op.ByListener fixed) := by
  refine issues_run_bind (issues_ask.mpr ⟨nofun, fun _ => rfl⟩) fun now => ?_
  refine issues_run_bind (issues_query.mpr ⟨nofun, fun _ => rfl⟩) fun signed => ?_
  cases signed with
  | none => trivial
  | some party =>
      refine issues_run_bind (issues_query.mpr ⟨nofun, fun _ => rfl⟩) fun unsignedCount => ?_
      refine issues_run_bind (issues_run_lift (issues_logged (enqueueNotification_byListener ..)))
        fun _ => ?_
      refine issues_run_bind (issues_query.mpr ⟨nofun, fun _ => rfl⟩) fun parties => ?_
      exact issues_run_lift (broadcast_byListener ..)

theorem handleCancellation_byListener (event : ParsedEvent) {status : PartyStatus}
    (hstatus : status = .cancelled ∨ status = .expired) :
    (handleCancellation event status).run.Issues (Op.ByListener fixed) := by
  refine issues_run_bind (issues_query.mpr ⟨⟨rfl, hstatus⟩, fun _ => rfl⟩) fun _ => ?_
  refine issues_run_bind (issues_query.mpr ⟨nofun, fun _ => rfl⟩) fun parties => ?_
  refine issues_run_bind (issues_run_lift (enqueueAll_byListener ..)) fun _ => ?_
  refine issues_run_bind (issues_run_lift (broadcast_byListener ..)) fun _ => ?_
  refine issues_run_lift (issues_logged ?_)
  refine issues_run_bind (issues_query.mpr ⟨nofun, fun _ => rfl⟩) fun paymentId => ?_
  cases paymentId with
  | none => trivial
  | some id =>
      refine issues_run_bind (issues_ask.mpr ⟨nofun, fun _ => rfl⟩) fun now => ?_
      exact issues_query.mpr ⟨nofun, fun _ => rfl⟩

theorem handleEvent_byListener {event : ParsedEvent}
    (hfree : event.instruction = .createAgreement → ¬ fixed event.agreementPda) :
    (handleEvent event).run.Issues (Op.ByListener fixed) := by
  unfold handleEvent
  split
  · rename_i hcreate
    refine issues_run_bind (insertParties_byListener (hfree hcreate) ..) fun _ => ?_
    refine issues_run_bind (issues_run_lift (enqueueAll_byListener ..)) fun _ => ?_
    exact issues_run_lift (broadcast_byListener ..)
  · exact handleSignAgreement_byListener event
  · exact handleCancellation_byListener event (Or.inl rfl)
  · exact handleCancellation_byListener event (Or.inr rfl)
  · refine issues_run_bind (issues_run_lift (issues_logged (enqueueNotification_byListener ..)))
      fun _ => ?_
    refine issues_run_bind (issues_query.mpr ⟨nofun, fun _ => rfl⟩) fun parties => ?_
    exact issues_run_lift (broadcast_byListener ..)

/-- The operations of the submission that come before the transaction is sent. -/
def Op.Prepares (fixed : String → Prop) (phase : ExpiryPhase) (op : Op) : Prop :=
  phase.Allows fixed op ∧ ∀ answer, phase.next op answer = phase

theorem submitExpireTransaction_conforms (env : Env) (vaultKey : Pubkey)
    (agreementPda creatorPubkey : String) :
    Conforms ExpiryPhase.next (ExpiryPhase.Allows fixed)
      (submitExpireTransaction env vaultKey agreementPda creatorPubkey).run
        (.submitting agreementPda)
      fun r phase => phase = match r with
        | .ok _ => .accepted agreementPda
        | .error _ => .submitting agreementPda := by
  have hquiet : ∀ op, Op.Prepares fixed (.submitting agreementPda) op →
      ExpiryPhase.Allows fixed (.submitting agreementPda) op ∧
        ∀ answer, ExpiryPhase.next (.submitting agreementPda) op answer =
          .submitting agreementPda :=
    fun _ h => h
  refine conforms_quiet_run_bind issues_okOr hquiet (fun creator => ?_) fun _ => rfl
  refine conforms_quiet_run_bind issues_okOr hquiet (fun pda => ?_) fun _ => rfl
  refine conforms_quiet_run_bind ?_ hquiet (fun data => ?_) fun _ => rfl
  · refine issues_run_bind (issues_ask.mpr ⟨nofun, fun _ => rfl⟩) fun fetched => ?_
    exact issues_run_bind issues_okOr fun _ => issues_okOr
  refine conforms_quiet_run_bind issues_okOr hquiet (fun agreementId => ?_) fun _ => rfl
  refine conforms_quiet_run_bind ?_ hquiet (fun tx => ?_) fun _ => rfl
  · refine issues_run_bind (issues_orFail (issues_issue.mpr ⟨nofun, fun _ => rfl⟩)) fun _ => ?_
    exact issues_orFail (issues_issue.mpr ⟨nofun, fun _ => rfl⟩)
  -- the answer of the node is the result
  refine ⟨⟨agreementPda, rfl⟩, fun submitted => ?_⟩
  cases submitted with
  | ok signature => rfl
  | error e => rfl

theorem lockAgreementForExpiry_conforms (agreementPda : String) :
    Conforms ExpiryPhase.next (ExpiryPhase.Allows fixed) (lockAgreementForExpiry agreementPda)
      .outside fun r phase => phase = match r with
        | .ok true => .locked agreementPda
        | _ => .outside := by
  refine conforms_bind.mpr (conforms_issue.mpr ⟨rfl, fun answer => ?_⟩)
  cases answer with
  | error e => rfl
  | ok rowsAffected =>
      rw [conforms_pure]
      by_cases htaken : 0 < rowsAffected
      · simp [ExpiryPhase.next, htaken]
      · simp [ExpiryPhase.next, htaken]

theorem revertLock_conforms {agreementPda : String} {submitted : Except AppError String}
    {phase : ExpiryPhase} (hphase : phase = match submitted with
      | .ok _ => .accepted agreementPda
      | .error _ => .submitting agreementPda) :
    Conforms ExpiryPhase.next (ExpiryPhase.Allows fixed) (do
        Program.issue (Op.expireReturn agreementPda submitted)
        revertLock agreementPda submitted) phase fun _ phase => phase = .outside := by
  subst hphase
  cases submitted with
  | ok signature => exact ⟨rfl, fun _ => rfl⟩
  | error e => exact ⟨rfl, fun _ => ⟨rfl, fun _ => rfl⟩⟩

theorem expireAgreementRow_conforms (env : Env) (vaultKey : Pubkey)
    (agreementPda creatorPubkey : String) :
    Conforms ExpiryPhase.next (ExpiryPhase.Allows fixed)
      (expireAgreementRow env vaultKey agreementPda creatorPubkey) .outside
      fun _ phase => phase = .outside := by
  unfold expireAgreementRow
  refine conforms_bind.mpr ((lockAgreementForExpiry_conforms agreementPda).mono ?_)
  rintro (e | locked) phase rfl
  · rfl
  · cases locked with
    | false => rfl
    | true =>
        refine conforms_bind.mpr (conforms_issue.mpr ⟨rfl, fun _ => conforms_bind.mpr ?_⟩)
        exact (submitExpireTransaction_conforms env vaultKey agreementPda creatorPubkey).mono
          fun _ _ hphase => revertLock_conforms hphase

theorem expireAgreementRows_conforms (env : Env) (vaultKey : Pubkey)
    (rows : List (String × String)) :
    Conforms ExpiryPhase.next (ExpiryPhase.Allows fixed) (expireAgreementRows env vaultKey rows)
      .outside fun _ phase => phase = .outside := by
  induction rows with
  | nil => rfl
  | cons row rest ih =>
      obtain ⟨agreementPda, creatorPubkey⟩ := row
      refine conforms_bind.mpr ((expireAgreementRow_conforms ..).mono ?_)
      rintro _ phase rfl
      exact ih

/-- Workers and the listener keep to the discipline. -/
theorem ExpiryEntry.conforms {p : Backend Unit} (hp : ExpiryEntry fixed p) :
    Conforms ExpiryPhase.next (ExpiryPhase.Allows fixed) p .outside
      fun _ phase => phase = .outside := by
  cases hp with
  | worker env vaultKey =>
      refine conforms_bind.mpr ?_
      unfold expireDueAgreements
      refine conforms_bind.mpr (conforms_issue.mpr ⟨nofun, fun now => ?_⟩)
      refine conforms_bind.mpr (conforms_issue.mpr ⟨nofun, fun answer => ?_⟩)
      cases answer with
      | error e => rfl
      | ok rows =>
          refine conforms_bind.mpr ((expireAgreementRows_conforms env vaultKey rows).mono ?_)
          rintro _ phase rfl
          rfl
  | listener event hfree =>
      exact conforms_of_issues (issues_logged (handleEvent_byListener hfree)) fun _ h => h

/-- What the steps of a history preserve, with the phases they are allowed in. -/
theorem expiryHistory_invariant {w : World} {events : List BackendEvent}
    {pool : Pool Op Op.Ans World} (cond : List BackendEvent → BackendEvent → Prop)
    (Inv : List BackendEvent → World → Prop) (hinit : Inv [] w)
    (hran : ∀ past i (step : BackendStep), step.Valid perform →
      (expiryPhase i past).Allows fixed step.op → cond past (.ran i step) → Inv past step.pre →
      Inv (past ++ [.ran i step]) step.post)
    (hstopped : ∀ past i, cond past (.stopped i) → Inv past (worldAfter w past) →
      Inv (past ++ [.stopped i]) (worldAfter w past))
    (h : ExpiryHistory fixed ⟨w, []⟩ events pool) (hcond : Meets cond events) :
    Inv events pool.world := by
  have hentry : ∀ p, ExpiryEntry fixed p → Conforms ExpiryPhase.next (ExpiryPhase.Allows fixed) p
      .outside fun _ phase => phase = .outside := fun p hp => hp.conforms
  refine History.invariant ?_ hentry cond Inv hinit hran hstopped h hcond
  exact fun _ => rfl

/-- Only programs that were started can be in the section. -/
theorem lt_of_inside {w : World} {events : List BackendEvent} {pool : Pool Op Op.Ans World}
    {agreementPda : String} {i : ℕ} (h : ExpiryHistory fixed ⟨w, []⟩ events pool)
    (hi : Inside agreementPda events i) : i < pool.threads.length := by
  have hentry : ∀ p, ExpiryEntry fixed p → Conforms ExpiryPhase.next (ExpiryPhase.Allows fixed) p
      .outside fun _ phase => phase = .outside := fun p hp => hp.conforms
  by_contra hunused
  have hstart : expiryPhase i events = .outside := by
    refine (History.conforms ?_ hentry h i).2 (by omega)
    exact fun _ => rfl
  rw [Inside, hstart] at hi
  cases hi

end Conformance

/-! ## What a step can do -/

/-- The listener has ended the agreement. -/
def PartyStatus.Closed (status : PartyStatus) : Prop := status = .cancelled ∨ status = .expired

/-- What a step can do to the rows of an agreement and to the section of its program. -/
inductive ExpiryMove (fixed : String → Prop) (agreementPda : String) (phase : ExpiryPhase)
    (step : BackendStep) : Prop
  /-- Neither enters nor leaves the section; rows are closed or inserted at most. -/
  | quiet : ((phase.next step.op step.ans).inside = some agreementPda ↔
        phase.inside = some agreementPda) →
      (∀ row' ∈ step.post.partyRows agreementPda, row'.status.Closed ∨
        (row'.status = .pendingSignatures ∧ ¬ fixed agreementPda) ∨
        ∃ row ∈ step.pre.partyRows agreementPda, row.status = row'.status) →
      ExpiryMove fixed agreementPda phase step
  /-- Takes all pending rows. -/
  | locks : phase = .outside → phase.next step.op step.ans = .locked agreementPda →
      (∃ row ∈ step.pre.partyRows agreementPda, row.status = .pendingSignatures) →
      (∀ row' ∈ step.post.partyRows agreementPda, row'.status ≠ .pendingSignatures) →
      ExpiryMove fixed agreementPda phase step
  /-- Gives the rows back, or fails to. -/
  | unlocks : phase = .reverting agreementPda → phase.next step.op step.ans = .outside →
      step.op = .sql (.party (.unlockFromExpiry agreementPda)) →
      (stmtFailed step = true →
        step.post.partyRows agreementPda = step.pre.partyRows agreementPda) →
      (stmtFailed step = false →
        ∀ row' ∈ step.post.partyRows agreementPda, row'.status ≠ .expiring) →
      ExpiryMove fixed agreementPda phase step
  /-- Returns from an accepted submission. -/
  | finishes : phase = .accepted agreementPda → phase.next step.op step.ans = .outside →
      step.post.partyRows agreementPda = step.pre.partyRows agreementPda →
      ExpiryMove fixed agreementPda phase step

section Moves

variable {fixed : String → Prop} {agreementPda : String} {phase : ExpiryPhase} {step : BackendStep}

/-- A step that leaves the rows alone. -/
theorem ExpiryMove.of_same
    (hinside : (phase.next step.op step.ans).inside = some agreementPda ↔
      phase.inside = some agreementPda)
    (hrows : step.post.partyRows agreementPda = step.pre.partyRows agreementPda) :
    ExpiryMove fixed agreementPda phase step :=
  .quiet hinside fun row hrow => Or.inr (Or.inr ⟨row, hrows ▸ hrow, rfl⟩)

/-- A statement that maps over the rows and keeps or closes them. -/
theorem ExpiryMove.of_onRow {s : PartyStmt}
    (hinside : (phase.next step.op step.ans).inside = some agreementPda ↔
      phase.inside = some agreementPda)
    (hrows : step.post.partyRows agreementPda = (step.pre.partyRows agreementPda).map s.onRow)
    (hrow : ∀ row ∈ step.pre.partyRows agreementPda,
      (s.onRow row).status.Closed ∨ (s.onRow row).status = row.status) :
    ExpiryMove fixed agreementPda phase step := by
  refine .quiet hinside fun row' hmem => ?_
  rw [hrows] at hmem
  obtain ⟨row, hold, rfl⟩ := List.mem_map.mp hmem
  rcases hrow row hold with hclosed | hsame
  · exact Or.inl hclosed
  · exact Or.inr (Or.inr ⟨row, hold, hsame.symm⟩)

/-- An update that is about the rows of another agreement. -/
theorem onRow_of_ne {row : Party} {other : String} (hrow : row.agreementPda = agreementPda)
    (hother : other ≠ agreementPda) :
    (PartyStmt.lockForExpiry other).onRow row = row ∧
      (PartyStmt.unlockFromExpiry other).onRow row = row := by
  constructor
  · exact if_neg fun h => hother (h.1.symm.trans hrow)
  · exact if_neg fun h => hother (h.1.symm.trans hrow)

/-- The lock leaves no pending row, and giving it back no expiring one. -/
theorem onRow_of_own {row : Party} (hrow : row.agreementPda = agreementPda) :
    ((PartyStmt.lockForExpiry agreementPda).onRow row).status ≠ .pendingSignatures ∧
      ((PartyStmt.unlockFromExpiry agreementPda).onRow row).status ≠ .expiring := by
  simp only [PartyStmt.onRow, hrow, true_and]
  constructor
  · split
    · intro hpending
      cases hpending
    · assumption
  · split
    · intro hexpiring
      cases hexpiring
    · assumption

theorem lockForExpiry_move {other : String} {w w' : World} {rowsAffected : ℕ}
    (hvalid : Step.Valid perform
      (⟨w, .sql (.party (.lockForExpiry other)), .ok rowsAffected, w'⟩ : BackendStep))
    (hphase : phase = .outside) :
    ExpiryMove fixed agreementPda phase
      ⟨w, .sql (.party (.lockForExpiry other)), .ok rowsAffected, w'⟩ := by
  subst hphase
  have hrows := partyRows_of_executes agreementPda hvalid rfl
  obtain ⟨parties, hexec, -⟩ := Option.map_eq_some_iff.mp (exec_of_executes hvalid rfl)
  simp only [PartyStmt.exec, Option.ite_none_right_eq_some] at hexec
  obtain ⟨hcount, -⟩ := hexec
  by_cases hpda : other = agreementPda
  · subst hpda
    by_cases htaken : 0 < rowsAffected
    · -- some row was pending, and now none is
      refine .locks rfl (if_pos htaken) ?_ fun row' hmem hpending => ?_
      · rw [hcount, List.countP_pos_iff] at htaken
        obtain ⟨row, hmem, hmatched⟩ := htaken
        simp only [decide_eq_true_eq] at hmatched
        exact ⟨row, mem_partyRows.mpr ⟨hmem, hmatched.1⟩, hmatched.2⟩
      · rw [hrows] at hmem
        obtain ⟨row, hold, rfl⟩ := List.mem_map.mp hmem
        exact (onRow_of_own (mem_partyRows.mp hold).2).1 hpending
    · -- no row was pending
      have hnone : ∀ row ∈ w.partyRows other, row.status ≠ .pendingSignatures := by
        intro row hmem hpending
        obtain ⟨hmem, hown⟩ := mem_partyRows.mp hmem
        refine htaken (hcount ▸ List.countP_pos_iff.mpr ⟨row, hmem, ?_⟩)
        simp [hown, hpending]
      have hsame : ExpiryPhase.next .outside (.sql (.party (.lockForExpiry other)))
          (.ok rowsAffected) = .outside := if_neg htaken
      refine .of_onRow (by rw [hsame]) hrows fun row hmem => Or.inr ?_
      rw [PartyStmt.onRow, if_neg fun h => hnone row hmem h.2]
  · refine .of_onRow ?_ hrows fun row hmem => Or.inr ?_
    · by_cases htaken : 0 < rowsAffected
      · simp [ExpiryPhase.next, ExpiryPhase.inside, htaken, hpda]
      · simp [ExpiryPhase.next, ExpiryPhase.inside, htaken]
    · rw [(onRow_of_ne (mem_partyRows.mp hmem).2 hpda).1]

theorem unlockFromExpiry_move {other : String} {w w' : World} {answer : Except Failure Unit}
    (hvalid : Step.Valid perform
      (⟨w, .sql (.party (.unlockFromExpiry other)), answer, w'⟩ : BackendStep))
    (hphase : phase = .reverting other) :
    ExpiryMove fixed agreementPda phase
      ⟨w, .sql (.party (.unlockFromExpiry other)), answer, w'⟩ := by
  subst hphase
  by_cases hpda : other = agreementPda
  · subst hpda
    -- a statement that fails leaves the lock where it is
    cases answer with
    | error e =>
        have hsame : w'.partyRows other = w.partyRows other :=
          congrArg (World.partyRows · _) (Option.some.inj hvalid).symm
        exact .unlocks rfl rfl rfl (fun _ => hsame) nofun
    | ok _ =>
        refine .unlocks rfl rfl rfl nofun fun _ row' hmem hexpiring => ?_
        rw [partyRows_of_executes other hvalid rfl] at hmem
        obtain ⟨row, hold, rfl⟩ := List.mem_map.mp hmem
        exact (onRow_of_own (mem_partyRows.mp hold).2).2 hexpiring
  · have hinside : (ExpiryPhase.next (.reverting other) (.sql (.party (.unlockFromExpiry other)))
        answer).inside = some agreementPda ↔
          (ExpiryPhase.reverting other).inside = some agreementPda := by
      simp [ExpiryPhase.next, ExpiryPhase.inside, hpda]
    cases answer with
    | error e =>
        exact .of_same hinside (congrArg (World.partyRows · _) (Option.some.inj hvalid).symm)
    | ok _ =>
        refine .of_onRow hinside (partyRows_of_executes agreementPda hvalid rfl) fun row hmem => ?_
        rw [(onRow_of_ne (mem_partyRows.mp hmem).2 hpda).2]
        exact Or.inr rfl

theorem insertParty_move {partyPubkey other creatorPubkey : String} {now : ℤ} {w w' : World}
    (hvalid : Step.Valid perform
      (⟨w, .sql (.party (.insert partyPubkey other creatorPubkey now)), .ok (), w'⟩ : BackendStep))
    (hfree : ¬ fixed other) :
    ExpiryMove fixed agreementPda phase
      ⟨w, .sql (.party (.insert partyPubkey other creatorPubkey now)), .ok (), w'⟩ := by
  have hrows := partyRows_of_executes agreementPda hvalid rfl
  obtain ⟨extra, hextra, hnew, hother⟩ :=
    onRows_insert agreementPda partyPubkey other creatorPubkey now (w.partyRows agreementPda)
  rw [hextra] at hrows
  refine .quiet Iff.rfl fun row' hmem => Or.inr ?_
  rw [hrows] at hmem
  rcases List.mem_append.mp hmem with hold | hadded
  · exact Or.inr ⟨row', hold, rfl⟩
  · refine Or.inl ⟨(hnew row' hadded).2.1, fun hfixed => ?_⟩
    by_cases hpda : other = agreementPda
    · exact hfree (hpda ▸ hfixed)
    · rw [hother hpda] at hadded
      cases hadded

/-- A statement on party rows is executed. -/
theorem partyStmt_move {s : PartyStmt} {out : s.Out} {w w' : World}
    (hvalid : Step.Valid perform (⟨w, .sql (.party s), .ok out, w'⟩ : BackendStep))
    (hallowed : phase.Allows fixed (.sql (.party s))) :
    ExpiryMove fixed agreementPda phase ⟨w, .sql (.party s), .ok out, w'⟩ := by
  have hrows := partyRows_of_executes agreementPda hvalid rfl
  cases s with
  | insert partyPubkey other creatorPubkey now => exact insertParty_move hvalid hallowed.2
  | sign now other signer =>
      refine .of_onRow Iff.rfl hrows fun row _ => Or.inr ?_
      simp only [PartyStmt.onRow]
      split <;> rfl
  | setStatus status other =>
      refine .of_onRow Iff.rfl hrows fun row _ => ?_
      simp only [PartyStmt.onRow]
      split
      · exact Or.inl hallowed.2
      · exact Or.inr rfl
  | lockForExpiry other => exact lockForExpiry_move hvalid hallowed
  | unlockFromExpiry other => exact unlockFromExpiry_move hvalid hallowed
  | unsignedCount | partiesOf | due => exact .of_onRow Iff.rfl hrows fun row _ => Or.inr rfl

/-- A statement on party rows fails. -/
theorem partyStmt_move_failed {s : PartyStmt} {e : Failure} {w w' : World}
    (hvalid : Step.Valid perform (⟨w, .sql (.party s), .error e, w'⟩ : BackendStep))
    (hallowed : phase.Allows fixed (.sql (.party s))) :
    ExpiryMove fixed agreementPda phase ⟨w, .sql (.party s), .error e, w'⟩ := by
  have hsame : w'.partyRows agreementPda = w.partyRows agreementPda :=
    congrArg (World.partyRows · _) (Option.some.inj hvalid).symm
  cases s with
  | unlockFromExpiry other => exact unlockFromExpiry_move hvalid hallowed
  | _ => exact .of_same Iff.rfl hsame

/-- **Moves.**  Every step of a conforming program is one of the moves. -/
theorem expiryMove_of_allowed (hvalid : step.Valid perform)
    (hallowed : phase.Allows fixed step.op) : ExpiryMove fixed agreementPda phase step := by
  obtain ⟨w, op, answer, w'⟩ := step
  have hrows := partyRows_of_not_writes agreementPda hvalid
  cases op with
  | sql s =>
      cases s with
      | party s =>
          cases answer with
          | ok out => exact partyStmt_move hvalid hallowed
          | error e => exact partyStmt_move_failed hvalid hallowed
      | _ => exact .of_same Iff.rfl (hrows rfl)
  | expireCall other creator =>
      obtain rfl : phase = .locked other := hallowed
      exact .of_same Iff.rfl (hrows rfl)
  | sendTransaction tx =>
      obtain ⟨other, rfl⟩ : ∃ other, phase = .submitting other := hallowed
      cases answer with
      | ok signature => exact .of_same Iff.rfl (hrows rfl)
      | error e => exact .of_same Iff.rfl (hrows rfl)
  | expireReturn other result =>
      cases result with
      | error e =>
          obtain rfl : phase = .submitting other := hallowed
          exact .of_same Iff.rfl (hrows rfl)
      | ok signature =>
          obtain rfl : phase = .accepted other := hallowed
          -- the program leaves the section with the rows still 'expiring'
          by_cases hpda : other = agreementPda
          · exact .finishes (congrArg _ hpda) rfl (hrows rfl)
          · refine .of_same ?_ (hrows rfl)
            simp [ExpiryPhase.next, ExpiryPhase.inside, hpda]
  | _ => exact .of_same Iff.rfl (hrows rfl)

end Moves

/-! ## Example histories -/

/-- A test of the steps of a history, and whether programs may be stopped. -/
def eventTest (ofStep : BackendStep → Bool) (ofStop : Bool) : BackendEvent → Bool
  | .ran _ step => ofStep step
  | .stopped _ => ofStop

/-- A schedule of workers and events is a history. -/
theorem expiryHistory_of_record (fixed : String → Prop) (w : World)
    (moves : List (Move Op Op.Ans World))
    (test : List BackendEvent → Pool Op Op.Ans World → Bool)
    (hentry : ∀ p, .start p ∈ moves → ExpiryEntry fixed p)
    (h : (record perform [] ⟨w, []⟩ moves).any
      (fun result => test result.1 result.2) = true) :
    ∃ events pool, ExpiryHistory fixed ⟨w, []⟩ events pool ∧ test events pool = true :=
  exists_history_of_record test hentry h

/-- A cycle of an expiry worker. -/
def expiryCycle : Backend Unit :=
  expireDueAgreements sampleEnv (Vector.replicate 32 0) >>= fun _ => pure ()

theorem expiryCycle_entry (fixed : String → Prop) : ExpiryEntry fixed expiryCycle := .worker ..

/-- An agreement with the given rows that is past its deadline at time 1. -/
def dueDb (parties : List (String × Option ℤ)) : Db :=
  { Db.empty with
    parties := (commit (parties.map fun party =>
      ⟨party.1, "A", bobKey, .pendingSignatures, party.2, 0, 0, "Agreement"⟩)).getD
        Db.empty.parties }

end PactumCodex
