import PactumCodex.Agreements.PartyRows
import PactumCodex.Workers.EventListener

/-!
# Events handled by the listener

`Listens w history w'`: the listener has received the events of `history` one
after the other and carried out the steps recorded with each.  Any statement may
have failed; `handle_event` then ends early, which is only logged.

The handlers are taken apart here once: what each of them writes to the party
rows, and which steps announce something (a queued notification or a WebSocket
event).

* Each handler is a part that writes rows and a part that announces
  (`handleSignAgreement_eq` and the like), and the second part writes no rows.
* `EventEffect` is what the handling of an event does to the rows of an agreement.
  `handleEvent_partyRows`: the event has this effect, or a statement fails and the
  rows stay as they are.
* A creation is the exception, since its rows are inserted one by one: if it fails
  some of them may be there, and an `INSERT` has failed (`insertParties_fails`).
-/

namespace PactumCodex

open Interaction Relational

/-- The events received, each with the steps of its handling. -/
inductive Listens : World → List (ParsedEvent × List BackendStep) → World → Prop
  | nil (w : World) : Listens w [] w
  | snoc {w w₁ w' : World} {history : List (ParsedEvent × List BackendStep)} {event : ParsedEvent}
      {steps : List BackendStep} : Listens w history w₁ →
      Runs perform (Handler.logged (handleEvent event)) w₁ steps () w' →
      Listens w (history ++ [(event, steps)]) w'

/-- The step is a statement that failed. -/
def stmtFailed : BackendStep → Bool
  | ⟨_, .sql _, .error _, _⟩ => true
  | _ => false

/-- The operation writes no party rows; what it announces, if anything, is the given event. -/
structure Op.Announces (eventType : String) (event : WsEvent) (agreementPda : String) (op : Op) :
    Prop where
  writesParties : op.writesParties = false
  notification : ∀ s, op = .sql (.notification s) →
    s.eventType = eventType ∧ s.agreementPda = some agreementPda
  sendToUser : ∀ userId event', op = .sendToUser userId event' → event' = event

/-- The same, and the operation queues no notification. -/
structure Op.Sends (event : WsEvent) (op : Op) : Prop where
  writesParties : op.writesParties = false
  notification : ∀ s, op ≠ .sql (.notification s)
  sendToUser : ∀ userId event', op = .sendToUser userId event' → event' = event

theorem Op.Sends.announces {event : WsEvent} {op : Op} (h : op.Sends event)
    (eventType agreementPda : String) : op.Announces eventType event agreementPda :=
  ⟨h.writesParties, fun s hs => absurd hs (h.notification s), h.sendToUser⟩

/-! ## Announcements -/

theorem enqueueNotification_announces (event : WsEvent)
    (eventType agreementPda recipient : String) :
    (enqueueNotification eventType (some agreementPda) recipient).run.Issues
      (Op.Announces eventType event agreementPda) := by
  refine issues_run_bind (issues_ask.mpr ⟨rfl, nofun, nofun⟩) fun now => ?_
  refine issues_run_bind (issues_query.mpr ⟨rfl, fun s hs => ?_, nofun⟩) fun _ => trivial
  cases hs
  exact ⟨rfl, rfl⟩

theorem enqueueAll_announces (event : WsEvent) (eventType agreementPda : String)
    (parties : List String) : (enqueueAll eventType agreementPda parties).Issues
      (Op.Announces eventType event agreementPda) := by
  induction parties with
  | nil => trivial
  | cons party rest ih =>
      exact Program.issues_bind (issues_logged (enqueueNotification_announces ..)) fun _ => ih

theorem lookupUserId_sends (event : WsEvent) (pubkey : String) :
    (lookupUserId pubkey).Issues (Op.Sends event) := by
  refine Program.issues_bind (issues_sql.mpr ⟨rfl, nofun, nofun⟩) fun r => ?_
  cases r <;> trivial

theorem broadcast_sends (event : WsEvent) (parties : List String) :
    (broadcast event parties).Issues (Op.Sends event) := by
  induction parties with
  | nil => trivial
  | cons party rest ih =>
      refine Program.issues_bind (lookupUserId_sends event party) fun userId => ?_
      cases userId with
      | none => exact ih
      | some userId =>
          refine Program.issues_bind (issues_issue.mpr ⟨rfl, nofun, fun _ _ heq => ?_⟩) fun _ => ih
          cases heq
          rfl

theorem broadcast_announces (event : WsEvent) (eventType agreementPda : String)
    (parties : List String) :
    (broadcast event parties).Issues (Op.Announces eventType event agreementPda) :=
  (broadcast_sends event parties).mono fun _ h => h.announces eventType agreementPda

/-! ## Signatures -/

/-- What `handle_sign_agreement` announces once it has counted the unsigned rows. -/
def announceSignature (event : ParsedEvent) (unsignedCount : ℕ) : Handler Unit := do
  let agreementPda := event.agreementPda
  let signer := event.signer.getD "unknown"
  let isFullySigned := unsignedCount = 0
  let eventType := if isFullySigned then "Completed" else "Signed"
  Handler.logged (enqueueNotification eventType (some agreementPda) signer)
  let parties ← Handler.query (.party (.partiesOf agreementPda))
  broadcast (if isFullySigned then .agreementCompleted agreementPda
    else .agreementSigned agreementPda) parties

/-- What it does after the row of the signer is updated. -/
def afterSignature (event : ParsedEvent) : Option String → Handler Unit
  | none => return ()
  | some _ => do
      let unsignedCount ← Handler.query (.party (.unsignedCount event.agreementPda))
      announceSignature event unsignedCount

theorem handleSignAgreement_eq (event : ParsedEvent) : handleSignAgreement event = (do
    let now ← Handler.ask .dbNow
    let result ← Handler.query (.party (.sign now event.agreementPda (event.signer.getD "unknown")))
    afterSignature event result) := by
  unfold handleSignAgreement
  refine bind_congr fun now => bind_congr fun result => ?_
  cases result <;> rfl

theorem announceSignature_announces (event : ParsedEvent) (unsignedCount : ℕ) :
    (announceSignature event unsignedCount).run.Issues (Op.Announces
      (if unsignedCount = 0 then "Completed" else "Signed")
      (if unsignedCount = 0 then .agreementCompleted event.agreementPda
        else .agreementSigned event.agreementPda) event.agreementPda) := by
  refine issues_run_bind (issues_run_lift (issues_logged (enqueueNotification_announces ..)))
    fun _ => ?_
  refine issues_run_bind (issues_query.mpr ⟨rfl, nofun, nofun⟩) fun parties => ?_
  exact issues_run_lift (broadcast_announces ..)

/-! ## The other events -/

/-- What `handle_create_agreement` does once the parties are stored. -/
def announceCreation (event : ParsedEvent) : Handler Unit := do
  enqueueAll "AgreementCreated" event.agreementPda event.parties
  broadcast (.agreementCreated event.agreementPda) event.parties

theorem handleCreateAgreement_eq (event : ParsedEvent) : handleCreateAgreement event = (do
    insertParties event.agreementPda (event.creator.getD "unknown") event.parties
    announceCreation event) := rfl

theorem announceCreation_announces (event : ParsedEvent) :
    (announceCreation event).run.Issues (Op.Announces "AgreementCreated"
      (.agreementCreated event.agreementPda) event.agreementPda) :=
  issues_run_bind (issues_run_lift (enqueueAll_announces ..)) fun _ =>
    issues_run_lift (broadcast_announces ..)

/-- What `handle_cancellation` does once the rows are updated. -/
def announceCancellation (event : ParsedEvent) (status : PartyStatus) : Handler Unit := do
  let parties ← Handler.query (.party (.partiesOf event.agreementPda))
  enqueueAll (cancellationEventType status) event.agreementPda parties
  broadcast (cancellationEvent status event.agreementPda) parties
  Handler.logged (initiateRefundIfEligible event.agreementPda)

theorem handleCancellation_eq (event : ParsedEvent) (status : PartyStatus) :
    handleCancellation event status = (do
      Handler.query (.party (.setStatus status event.agreementPda))
      announceCancellation event status) := rfl

theorem initiateRefundIfEligible_sends (event : WsEvent) (agreementPda : String) :
    (initiateRefundIfEligible agreementPda).run.Issues (Op.Sends event) := by
  refine issues_run_bind (issues_query.mpr ⟨rfl, nofun, nofun⟩) fun paymentId => ?_
  cases paymentId with
  | none => trivial
  | some id =>
      refine issues_run_bind (issues_ask.mpr ⟨rfl, nofun, nofun⟩) fun now => ?_
      exact issues_query.mpr ⟨rfl, nofun, nofun⟩

theorem announceCancellation_announces (event : ParsedEvent) (status : PartyStatus) :
    (announceCancellation event status).run.Issues (Op.Announces (cancellationEventType status)
      (cancellationEvent status event.agreementPda) event.agreementPda) := by
  refine issues_run_bind (issues_query.mpr ⟨rfl, nofun, nofun⟩) fun parties => ?_
  refine issues_run_bind (issues_run_lift (enqueueAll_announces ..)) fun _ => ?_
  refine issues_run_bind (issues_run_lift (broadcast_announces ..)) fun _ => issues_run_lift ?_
  exact issues_logged ((initiateRefundIfEligible_sends _ _).mono fun _ h => h.announces _ _)

theorem handleVoteRevoke_announces (event : ParsedEvent) :
    (handleVoteRevoke event).run.Issues (Op.Announces "RevokeVote"
      (.agreementRevokeVote event.agreementPda) event.agreementPda) := by
  refine issues_run_bind (issues_run_lift (issues_logged (enqueueNotification_announces ..)))
    fun _ => ?_
  refine issues_run_bind (issues_query.mpr ⟨rfl, nofun, nofun⟩) fun parties => ?_
  exact issues_run_lift (broadcast_announces ..)

/-! ## Effects on the party rows -/

section Effects

variable {w w' : World} {steps : List BackendStep} (agreementPda : String)

theorem partyRows_dbNow {now : ℤ} (h : Runs perform (Handler.ask .dbNow).run w steps (.ok now) w') :
    w'.partyRows agreementPda = w.partyRows agreementPda := by
  obtain ⟨hperform, -⟩ := runs_ask_ok.mp h
  obtain ⟨-, rfl⟩ := provided_eq_some.mp hperform
  rfl

/-- A statement on party rows has its effect or fails. -/
theorem partyRows_partyQuery {s : PartyStmt} {out : s.Out}
    (h : Runs perform (Handler.query (.party s)).run w steps (.ok out) w') :
    w'.partyRows agreementPda = s.onRows agreementPda (w.partyRows agreementPda) := by
  obtain ⟨hperform, -⟩ := runs_query_ok.mp h
  have hvalid : Step.Valid perform (⟨w, .sql (.party s), .ok out, w'⟩ : BackendStep) := hperform
  exact partyRows_of_executes agreementPda hvalid rfl

/-- The rows that an event of its creation adds to an agreement. -/
def NewRows (parties : List String) (rows : List Party) : Prop :=
  ∀ row ∈ rows, row.partyPubkey ∈ parties ∧ row.status = .pendingSignatures ∧ row.signedAt = none

theorem onRows_insert (party pda creator : String) (now : ℤ) (rows : List Party) :
    ∃ extra, (PartyStmt.insert party pda creator now).onRows agreementPda rows = rows ++ extra ∧
      NewRows [party] extra ∧ (pda ≠ agreementPda → extra = []) := by
  by_cases hfresh : pda = agreementPda ∧ ∀ row ∈ rows, row.partyPubkey ≠ party
  · refine ⟨_, if_pos hfresh, ?_, fun hother => absurd hfresh.1 hother⟩
    simp [NewRows]
  · exact ⟨[], (if_neg hfresh).trans (List.append_nil rows).symm, nofun, fun _ => rfl⟩

/-- Inserting parties appends new rows, finished or not. -/
theorem insertParties_appends {pda creator : String} {parties : List String}
    {r : Except AppError Unit}
    (h : Runs perform (insertParties pda creator parties).run w steps r w') :
    ∃ extra, w'.partyRows agreementPda = w.partyRows agreementPda ++ extra ∧
      NewRows parties extra ∧ (pda ≠ agreementPda → extra = []) := by
  induction parties generalizing w steps with
  | nil =>
      obtain ⟨-, -, rfl⟩ := h
      exact ⟨[], (List.append_nil _).symm, nofun, fun _ => rfl⟩
  | cons party rest ih =>
      rcases runs_bind_cases h with ⟨e, rfl, hnow⟩ | ⟨now, w₁, first, tail, rfl, hnow, hinsert⟩
      · exact absurd hnow runs_ask_error
      have hclock := partyRows_dbNow agreementPda hnow
      rcases runs_bind_cases hinsert with ⟨e, rfl, hfailed⟩ |
        ⟨_, w₂, second, third, rfl, hdone, hrest⟩
      · obtain ⟨-, rfl, -⟩ := runs_query_error.mp hfailed
        exact ⟨[], by rw [hclock, List.append_nil], nofun, fun _ => rfl⟩
      -- the row of this party, then those of the rest
      · have hrow := partyRows_partyQuery agreementPda hdone
        obtain ⟨one, hone, hnew, hother⟩ := onRows_insert agreementPda party pda creator now
          (w₁.partyRows agreementPda)
        obtain ⟨extra, hextra, hnews, hothers⟩ := ih hrest
        refine ⟨one ++ extra, ?_, ?_, fun hpda => ?_⟩
        · rw [hextra, hrow, hone, hclock, List.append_assoc]
        · intro row hmem
          rcases List.mem_append.mp hmem with hmem | hmem
          · obtain ⟨hparty, hrow⟩ := hnew row hmem
            exact ⟨List.mem_singleton.mp hparty ▸ List.mem_cons_self, hrow⟩
          · obtain ⟨hparty, hrow⟩ := hnews row hmem
            exact ⟨List.mem_cons_of_mem _ hparty, hrow⟩
        · rw [hother hpda, hothers hpda, List.append_nil]

/-- Inserting parties without a failure gives each of them a row. -/
theorem insertParties_complete {creator : String} {parties : List String}
    (h : Runs perform (insertParties agreementPda creator parties).run w steps (.ok ()) w') :
    ∀ party ∈ parties, ∃ row ∈ w'.partyRows agreementPda, row.partyPubkey = party := by
  induction parties generalizing w steps with
  | nil => exact nofun
  | cons party rest ih =>
      obtain ⟨now, w₁, first, tail, rfl, hnow, hinsert⟩ := runs_bind_ok.mp h
      obtain ⟨_, w₂, second, third, rfl, hdone, hrest⟩ := runs_bind_ok.mp hinsert
      refine List.forall_mem_cons.mpr ⟨?_, ih hrest⟩
      obtain ⟨row, hrow, hparty⟩ : ∃ row ∈ w₂.partyRows agreementPda, row.partyPubkey = party := by
        rw [partyRows_partyQuery agreementPda hdone]
        by_cases hfresh : ∀ row ∈ w₁.partyRows agreementPda, row.partyPubkey ≠ party
        · rw [PartyStmt.onRows, if_pos ⟨rfl, hfresh⟩]
          exact ⟨_, List.mem_append_right _ (List.mem_singleton_self _), rfl⟩
        · rw [PartyStmt.onRows, if_neg fun h => hfresh h.2]
          simpa using hfresh
      obtain ⟨extra, hextra, -, -⟩ := insertParties_appends agreementPda hrest
      exact ⟨row, hextra ▸ List.mem_append_left _ hrow, hparty⟩

/-- If inserting parties fails, it ends with an `INSERT` that failed. -/
theorem insertParties_fails {pda creator : String} {parties : List String} {e : AppError}
    (h : Runs perform (insertParties pda creator parties).run w steps (.error e) w') :
    ∃ party now,
      ⟨w', .sql (.party (.insert party pda creator now)), .error .failed, w'⟩ ∈ steps := by
  induction parties generalizing w steps with
  | nil => exact absurd h.2.1 nofun
  | cons party rest ih =>
      rcases runs_bind_error.mp h with hnow | ⟨now, w₁, first, tail, rfl, hnow, hinsert⟩
      · exact absurd hnow runs_ask_error
      rcases runs_bind_error.mp hinsert with hfailed | ⟨_, w₂, second, third, rfl, hdone, hrest⟩
      · obtain ⟨-, rfl, rfl⟩ := runs_query_error.mp hfailed
        exact ⟨party, now, List.mem_append_right _ (List.mem_singleton_self _)⟩
      · obtain ⟨party', now', hmem⟩ := ih hrest
        exact ⟨party', now', List.mem_append_right _ (List.mem_append_right _ hmem)⟩

/-- What the handling of an event does to the rows of an agreement. -/
def EventEffect (event : ParsedEvent) (rows rows' : List Party) : Prop :=
  match event.instruction with
  | .createAgreement => ∃ extra, rows' = rows ++ extra ∧ NewRows event.parties extra ∧
      (event.agreementPda ≠ agreementPda → extra = [])
  | .signAgreement => ∃ now, rows' = (PartyStmt.sign now event.agreementPda
      (event.signer.getD "unknown")).onRows agreementPda rows
  | .cancelAgreement =>
      rows' = (PartyStmt.setStatus .cancelled event.agreementPda).onRows agreementPda rows
  | .expireAgreement =>
      rows' = (PartyStmt.setStatus .expired event.agreementPda).onRows agreementPda rows
  | .voteRevoke => rows' = rows

/-- New rows are appended, or every row is updated, or the rows stay as they are. -/
theorem EventEffect.cases {event : ParsedEvent} {rows rows' : List Party}
    (h : EventEffect agreementPda event rows rows') :
    (event.instruction = .createAgreement ∧ ∃ extra, rows' = rows ++ extra ∧
      NewRows event.parties extra ∧ (event.agreementPda ≠ agreementPda → extra = [])) ∨
    (event.instruction = .signAgreement ∧ ∃ now, rows' = rows.map
      (PartyStmt.sign now event.agreementPda (event.signer.getD "unknown")).onRow) ∨
    (∃ status, rows' = rows.map (PartyStmt.setStatus status event.agreementPda).onRow) ∨
    rows' = rows := by
  unfold EventEffect at h
  cases hinstruction : event.instruction with
  | createAgreement =>
      simp only [hinstruction] at h
      exact .inl ⟨rfl, h⟩
  | signAgreement =>
      simp only [hinstruction] at h
      exact .inr (.inl ⟨rfl, h⟩)
  | cancelAgreement =>
      simp only [hinstruction] at h
      exact .inr (.inr (.inl ⟨.cancelled, h⟩))
  | expireAgreement =>
      simp only [hinstruction] at h
      exact .inr (.inr (.inl ⟨.expired, h⟩))
  | voteRevoke =>
      simp only [hinstruction] at h
      exact .inr (.inr (.inr h))

theorem failed_of_query {s : Stmt} {e : AppError}
    (h : Runs perform (Handler.query s).run w steps (.error e) w') :
    w' = w ∧ ∃ step ∈ steps, stmtFailed step := by
  obtain ⟨-, rfl, rfl⟩ := runs_query_error.mp h
  exact ⟨rfl, _, List.mem_singleton_self _, rfl⟩

theorem afterSignature_quiet (event : ParsedEvent) (result : Option String) :
    (afterSignature event result).run.Issues fun op => op.writesParties = false := by
  cases result with
  | none => trivial
  | some signer =>
      refine issues_run_bind (issues_query.mpr rfl) fun unsignedCount => ?_
      exact (announceSignature_announces event unsignedCount).mono fun _ h => h.writesParties

theorem handleSignAgreement_partyRows {event : ParsedEvent} {r : Except AppError Unit}
    (h : Runs perform (handleSignAgreement event).run w steps r w') :
    (∃ now, w'.partyRows agreementPda = (PartyStmt.sign now event.agreementPda
      (event.signer.getD "unknown")).onRows agreementPda (w.partyRows agreementPda)) ∨
    (w'.partyRows agreementPda = w.partyRows agreementPda ∧ ∃ step ∈ steps, stmtFailed step) := by
  rw [handleSignAgreement_eq] at h
  rcases runs_bind_cases h with ⟨e, -, hnow⟩ | ⟨now, w₁, first, tail, rfl, hnow, hsign⟩
  · exact absurd hnow runs_ask_error
  rw [← partyRows_dbNow agreementPda hnow]
  rcases runs_bind_cases hsign with ⟨e, -, hfailed⟩ | ⟨result, w₂, second, third, rfl, hdone, hrest⟩
  · obtain ⟨rfl, step, hmem, hstep⟩ := failed_of_query hfailed
    exact Or.inr ⟨rfl, step, List.mem_append_right _ hmem, hstep⟩
  · refine Or.inl ⟨now, ?_⟩
    rw [partyRows_of_stops agreementPda hrest.stops (afterSignature_quiet event result)]
    exact partyRows_partyQuery agreementPda hdone

theorem handleCancellation_partyRows {event : ParsedEvent} {status : PartyStatus}
    {r : Except AppError Unit}
    (h : Runs perform (handleCancellation event status).run w steps r w') :
    w'.partyRows agreementPda =
      (PartyStmt.setStatus status event.agreementPda).onRows agreementPda
        (w.partyRows agreementPda) ∨
    (w'.partyRows agreementPda = w.partyRows agreementPda ∧ ∃ step ∈ steps, stmtFailed step) := by
  rw [handleCancellation_eq] at h
  rcases runs_bind_cases h with ⟨e, -, hfailed⟩ | ⟨_, w₁, first, second, rfl, hdone, hrest⟩
  · obtain ⟨rfl, step, hmem, hstep⟩ := failed_of_query hfailed
    exact Or.inr ⟨rfl, step, hmem, hstep⟩
  · refine Or.inl ?_
    rw [partyRows_of_stops agreementPda hrest.stops
      ((announceCancellation_announces event status).mono fun _ h => h.writesParties)]
    exact partyRows_partyQuery agreementPda hdone

theorem handleCreateAgreement_partyRows {event : ParsedEvent} {r : Except AppError Unit}
    (h : Runs perform (handleCreateAgreement event).run w steps r w') :
    ∃ extra, w'.partyRows agreementPda = w.partyRows agreementPda ++ extra ∧
      NewRows event.parties extra ∧ (event.agreementPda ≠ agreementPda → extra = []) := by
  rw [handleCreateAgreement_eq] at h
  rcases runs_bind_cases h with ⟨e, -, hinsert⟩ | ⟨_, w₁, first, second, rfl, hinsert, hrest⟩
  · exact insertParties_appends agreementPda hinsert
  · rw [partyRows_of_stops agreementPda hrest.stops
      ((announceCreation_announces event).mono fun _ h => h.writesParties)]
    exact insertParties_appends agreementPda hinsert

/-- An event has its effect on the rows, or a statement fails and they stay as they are. -/
theorem handleEvent_partyRows {event : ParsedEvent} {r : Except AppError Unit}
    (h : Runs perform (handleEvent event).run w steps r w') :
    EventEffect agreementPda event (w.partyRows agreementPda) (w'.partyRows agreementPda) ∨
    (w'.partyRows agreementPda = w.partyRows agreementPda ∧ ∃ step ∈ steps, stmtFailed step) := by
  unfold handleEvent at h
  unfold EventEffect
  cases hinstruction : event.instruction with
  | createAgreement =>
      simp only [hinstruction] at h ⊢
      exact Or.inl (handleCreateAgreement_partyRows agreementPda h)
  | signAgreement =>
      simp only [hinstruction] at h ⊢
      exact handleSignAgreement_partyRows agreementPda h
  | cancelAgreement =>
      simp only [hinstruction] at h ⊢
      exact handleCancellation_partyRows agreementPda h
  | expireAgreement =>
      simp only [hinstruction] at h ⊢
      exact handleCancellation_partyRows agreementPda h
  | voteRevoke =>
      simp only [hinstruction] at h ⊢
      exact Or.inl (partyRows_of_stops agreementPda h.stops
        ((handleVoteRevoke_announces event).mono fun _ h => h.writesParties))

/-- Once its creation is handled, every party of the agreement has a row, unless an `INSERT`
failed. -/
theorem handleCreateAgreement_complete {event : ParsedEvent} {r : Except AppError Unit}
    (h : Runs perform (handleCreateAgreement event).run w steps r w') :
    (∀ party ∈ event.parties, ∃ row ∈ w'.partyRows event.agreementPda, row.partyPubkey = party) ∨
    ∃ party creator now, ⟨w', .sql (.party (.insert party event.agreementPda creator now)),
      .error .failed, w'⟩ ∈ steps := by
  rw [handleCreateAgreement_eq] at h
  rcases runs_bind_cases h with ⟨e, -, hinsert⟩ | ⟨_, w₁, first, second, rfl, hinsert, hrest⟩
  · obtain ⟨party, now, hmem⟩ := insertParties_fails hinsert
    exact Or.inr ⟨party, _, now, hmem⟩
  · refine Or.inl ?_
    rw [partyRows_of_stops event.agreementPda hrest.stops
      ((announceCreation_announces event).mono fun _ h => h.writesParties)]
    exact insertParties_complete event.agreementPda hinsert

end Effects

/-! ## Histories -/

/-- Cutting a history at one of its events. -/
theorem Listens.split {w w' : World} {before after : List (ParsedEvent × List BackendStep)}
    {event : ParsedEvent} {steps : List BackendStep}
    (h : Listens w (before ++ (event, steps) :: after) w') :
    ∃ w₁ w₂, Listens w before w₁ ∧
      Runs perform (Handler.logged (handleEvent event)) w₁ steps () w₂ := by
  generalize hhistory : before ++ (event, steps) :: after = history at h
  induction h generalizing after with
  | nil => simp at hhistory
  | @snoc w₁ w' history event' steps' hlistens hrun ih =>
      rcases List.eq_nil_or_concat after with rfl | ⟨after, last, rfl⟩
      · obtain ⟨rfl, heq⟩ := List.append_inj' hhistory rfl
        rw [List.singleton_inj, Prod.mk.injEq] at heq
        obtain ⟨rfl, rfl⟩ := heq
        exact ⟨w₁, w', hlistens, hrun⟩
      · rw [List.concat_eq_append, ← List.cons_append, ← List.append_assoc] at hhistory
        exact ih (List.append_inj' hhistory rfl).1

/-! ## Replaying events -/

theorem Listens.trans {w w₁ w' : World} {first second : List (ParsedEvent × List BackendStep)}
    (hfirst : Listens w first w₁) (hsecond : Listens w₁ second w') :
    Listens w (first ++ second) w' := by
  induction hsecond with
  | nil => rwa [List.append_nil]
  | snoc _ hrun ih =>
      rw [← List.append_assoc]
      exact .snoc ih hrun

/-- Handle events one after the other, each in its own environment. -/
def handleEvents : List (ParsedEvent × ((op : Op) → World → op.Ans)) → World →
    Option (List (ParsedEvent × List BackendStep) × World)
  | [], w => some ([], w)
  | (event, answer) :: rest, w =>
      match interpret perform answer (Handler.logged (handleEvent event)) w with
      | none => none
      | some (steps, _, w₁) =>
          (handleEvents rest w₁).map fun result => ((event, steps) :: result.1, result.2)

theorem listens_of_handleEvents {events : List (ParsedEvent × ((op : Op) → World → op.Ans))}
    {w w' : World} {history : List (ParsedEvent × List BackendStep)}
    (h : handleEvents events w = some (history, w')) : Listens w history w' := by
  induction events generalizing w history with
  | nil =>
      simp only [handleEvents, Option.some.injEq, Prod.mk.injEq] at h
      obtain ⟨rfl, rfl⟩ := h
      exact .nil w
  | cons entry rest ih =>
      simp only [handleEvents] at h
      split at h
      · cases h
      · rename_i steps _ w₁ hfirst
        obtain ⟨⟨later, w₂⟩, hrest, heq⟩ := Option.map_eq_some_iff.mp h
        rw [Prod.mk.injEq] at heq
        obtain ⟨rfl, rfl⟩ := heq
        exact Listens.trans (.snoc (.nil w) (interpret_runs hfirst)) (ih hrest)

/-- What the listener does in given environments is a run of it. -/
theorem listens_of_test (w : World) (events : List (ParsedEvent × ((op : Op) → World → op.Ans)))
    (test : List (ParsedEvent × List BackendStep) → World → Bool)
    (h : (handleEvents events w).any (fun result => test result.1 result.2) = true) :
    ∃ history w', Listens w history w' ∧ test history w' = true := by
  obtain ⟨⟨history, w'⟩, hhandle, htest⟩ := (Option.any_eq_true _ _).mp h
  exact ⟨history, w', listens_of_handleEvents hhandle, htest⟩

/-! ## Example events -/

/-- The creation of an agreement and the signatures of its parties. -/
def createdEvent (agreementPda : String) (parties : List String) : ParsedEvent :=
  ⟨.createAgreement, agreementPda, some bobKey, none, parties⟩
def signedEvent (agreementPda signer : String) : ParsedEvent :=
  ⟨.signAgreement, agreementPda, none, some signer, []⟩

end PactumCodex
