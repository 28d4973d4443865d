import PactumCodex.Agreements.Lifecycle

/-!
# Announcing that an agreement is completed

`handle_sign_agreement` infers completion from the number of unsigned rows, and
it is the only handler that announces it (`completes_of_handleEvent`).  So an
announcement says that every row of the agreement is signed.  Two questions are
left open: whether every party of the agreement has a row at that time, and who is
told.

## Rows and events

The listener handles events one after the other, and the rows are what these
events have left.  `Accounted` is the invariant over them: a signature that is
stored was received from its party, and no party of the agreement has a row or
every party has one.

The last part needs a condition, because the rows of an agreement are inserted
one by one: if an insertion fails after some of them, the others are missing.  An
insertion that fails while no party or every party has a row does no harm
(`AllOrNone.handleEvent`).

With this, an announcement finds all rows signed, hence all parties, each by an
event of its own (`completion_after_signatures`).
-/

namespace PactumCodex

open Interaction Relational Transition

/-! ## Announcements of completion -/

/-- The recipient of a 'Completed' notification queued by the step for the agreement. -/
def completedJob (agreementPda : String) : BackendStep → Option String
  | ⟨_, .sql (.notification s), .ok _, _⟩ =>
      if s.eventType = "Completed" ∧ s.agreementPda = some agreementPda then some s.recipientPubkey
      else none
  | _ => none

/-- The recipients of the 'Completed' notifications queued by the steps. -/
def completedJobs (agreementPda : String) (steps : List BackendStep) : List String :=
  steps.filterMap (completedJob agreementPda)

/-- The step sends an `AgreementCompleted` event. -/
def sendsCompleted (agreementPda : String) (step : BackendStep) : Bool :=
  match step.op with
  | .sendToUser _ event => event = .agreementCompleted agreementPda
  | _ => false

/-- The step announces that the agreement is completed. -/
def AnnouncesCompletion (agreementPda : String) (step : BackendStep) : Prop :=
  (completedJob agreementPda step).isSome ∨ sendsCompleted agreementPda step

section Announcements

variable {agreementPda eventType pda : String} {event : WsEvent} {step : BackendStep}

theorem completedJob_eq_none (h : ∀ s, step.op ≠ .sql (.notification s)) :
    completedJob agreementPda step = none := by
  unfold completedJob
  split
  · exact absurd rfl (h _)
  · rfl

theorem completedJob_of_announces (h : step.op.Announces eventType event pda)
    (htype : eventType = "Completed" → pda ≠ agreementPda) :
    completedJob agreementPda step = none := by
  unfold completedJob
  split
  · rename_i s _ _
    obtain ⟨hs, hpda⟩ := h.notification s rfl
    refine if_neg fun hcompleted => htype (hs.symm.trans hcompleted.1) ?_
    exact Option.some.inj (hpda.symm.trans hcompleted.2)
  · rfl

theorem sendsCompleted_of_announces (h : step.op.Announces eventType event pda)
    (hevent : event ≠ .agreementCompleted agreementPda) :
    sendsCompleted agreementPda step = false := by
  unfold sendsCompleted
  split
  · rename_i userId event' hop
    exact decide_eq_false fun heq => hevent ((h.sendToUser userId event' hop).symm.trans heq)
  · rfl

/-- Announcements of anything else do not announce completion. -/
theorem not_completes_of_announces (h : step.op.Announces eventType event pda)
    (htype : eventType = "Completed" → pda ≠ agreementPda)
    (hevent : event ≠ .agreementCompleted agreementPda) :
    ¬ AnnouncesCompletion agreementPda step := by
  rintro (hjob | hsends)
  · rw [completedJob_of_announces h htype] at hjob
    cases hjob
  · rw [sendsCompleted_of_announces h hevent] at hsends
    cases hsends

theorem not_completes_of_silent (hjob : ∀ s, step.op ≠ .sql (.notification s))
    (hsend : ∀ userId event, step.op ≠ .sendToUser userId event) :
    ¬ AnnouncesCompletion agreementPda step := by
  rintro (hcompletes | hcompletes)
  · rw [completedJob_eq_none hjob] at hcompletes
    cases hcompletes
  · unfold sendsCompleted at hcompletes
    split at hcompletes
    · rename_i userId event hop
      exact absurd hop (hsend userId event)
    · cases hcompletes

end Announcements

/-! ## Counting the unsigned rows -/

section Counting

variable {agreementPda : String} {w w' : World}

/-- Every row of the agreement is signed. -/
def AllSigned (rows : List Party) : Prop := ∀ row ∈ rows, row.signedAt.isSome

theorem unsignedCount_returns {count : ℕ}
    (h : performSql (.party (.unsignedCount agreementPda)) count w = some w') :
    count = 0 ↔ AllSigned (w.partyRows agreementPda) := by
  obtain ⟨-, -, db, hexec, -⟩ := performSql_eq_some.mp h
  obtain ⟨parties, hparties, -⟩ := Option.map_eq_some_iff.mp hexec
  obtain ⟨rfl, -⟩ := provided_eq_some.mp hparties
  rw [List.countP_eq_zero]
  constructor
  · intro hnone row hrow
    obtain ⟨hmem, hpda⟩ := mem_partyRows.mp hrow
    have hsigned := hnone row hmem
    simpa [hpda, Option.isSome_iff_ne_none] using hsigned
  · intro hall row hmem hunsigned
    simp only [decide_eq_true_eq] at hunsigned
    have hsigned := hall row (mem_partyRows.mpr ⟨hmem, hunsigned.1⟩)
    rw [hunsigned.2] at hsigned
    cases hsigned

/-- The row that a signature is stored in. -/
theorem sign_returns {now : ℤ} {signer party : String}
    (h : performSql (.party (.sign now agreementPda signer)) (some party) w = some w') :
    ∃ row ∈ w.partyRows agreementPda, row.partyPubkey = signer := by
  obtain ⟨-, -, db, hexec, -⟩ := performSql_eq_some.mp h
  obtain ⟨parties, hparties, -⟩ := Option.map_eq_some_iff.mp hexec
  simp only [PartyStmt.exec, Option.ite_none_right_eq_some] at hparties
  obtain ⟨row, hfind, -⟩ := Option.map_eq_some_iff.mp hparties.1.symm
  have hmatched := List.find?_some hfind
  simp only [decide_eq_true_eq] at hmatched
  exact ⟨row, mem_partyRows.mpr ⟨List.mem_of_find?_eq_some hfind, hmatched.1⟩, hmatched.2⟩

end Counting

/-! ## Only the last signature completes -/

section Handlers

variable {agreementPda : String} {event : ParsedEvent} {w w' : World} {steps : List BackendStep}
variable {r : Except AppError Unit}

theorem insertParties_silent (pda creator : String) (parties : List String) :
    (insertParties pda creator parties).run.Issues fun op =>
      (∀ s, op ≠ .sql (.notification s)) ∧ ∀ userId event, op ≠ .sendToUser userId event := by
  induction parties with
  | nil => trivial
  | cons party rest ih =>
      refine issues_run_bind (issues_ask.mpr ⟨nofun, nofun⟩) fun now => ?_
      exact issues_run_bind (issues_query.mpr ⟨nofun, nofun⟩) fun _ => ih

theorem handleCreateAgreement_not_completes
    (h : Runs perform (handleCreateAgreement event).run w steps r w') :
    ∀ step ∈ steps, ¬ AnnouncesCompletion agreementPda step := by
  have hissues : (handleCreateAgreement event).run.Issues fun op =>
      ((∀ s, op ≠ .sql (.notification s)) ∧ ∀ userId event, op ≠ .sendToUser userId event) ∨
        op.Announces "AgreementCreated" (.agreementCreated event.agreementPda) event.agreementPda :=
    issues_run_bind ((insertParties_silent ..).mono fun _ => Or.inl) fun _ =>
      (announceCreation_announces event).mono fun _ => Or.inr
  intro step hmem
  rcases h.stops.issued hissues step hmem with hsilent | hannounces
  · exact not_completes_of_silent hsilent.1 hsilent.2
  · exact not_completes_of_announces hannounces (fun h => absurd h (by decide)) nofun

theorem handleCancellation_not_completes {status : PartyStatus}
    (h : Runs perform (handleCancellation event status).run w steps r w') :
    ∀ step ∈ steps, ¬ AnnouncesCompletion agreementPda step := by
  have hevent : cancellationEventType status = "Completed" → event.agreementPda ≠ agreementPda := by
    unfold cancellationEventType
    split <;> exact fun h => absurd h (by decide)
  have hsends : cancellationEvent status event.agreementPda ≠ .agreementCompleted agreementPda := by
    unfold cancellationEvent
    split <;> nofun
  rw [handleCancellation_eq] at h
  intro step hmem
  rcases runs_bind_cases h with ⟨e, -, hfailed⟩ | ⟨_, w₁, first, second, rfl, hdone, hrest⟩
  · obtain ⟨-, -, rfl⟩ := runs_query_error.mp hfailed
    rw [List.mem_singleton.mp hmem]
    exact not_completes_of_silent nofun nofun
  · rcases List.mem_append.mp hmem with hmem | hmem
    · obtain ⟨-, rfl⟩ := runs_query_ok.mp hdone
      rw [List.mem_singleton.mp hmem]
      exact not_completes_of_silent nofun nofun
    · exact not_completes_of_announces
        (hrest.stops.issued (announceCancellation_announces event status) step hmem) hevent hsends

theorem afterSignature_completes {result : Option String}
    (h : Runs perform (afterSignature event result).run w steps r w') {step : BackendStep}
    (hmem : step ∈ steps) (hcompletes : AnnouncesCompletion agreementPda step) :
    event.agreementPda = agreementPda ∧ result.isSome ∧ AllSigned (w.partyRows agreementPda) := by
  cases result with
  | none =>
      obtain ⟨rfl, -⟩ := h
      cases hmem
  | some party =>
      rcases runs_bind_cases h with ⟨e, -, hfailed⟩ | ⟨count, w₁, first, second, rfl, hcount, hrest⟩
      · obtain ⟨-, -, rfl⟩ := runs_query_error.mp hfailed
        rw [List.mem_singleton.mp hmem] at hcompletes
        exact absurd hcompletes (not_completes_of_silent nofun nofun)
      obtain ⟨hperform, rfl⟩ := runs_query_ok.mp hcount
      rcases List.mem_append.mp hmem with hmem | hmem
      · rw [List.mem_singleton.mp hmem] at hcompletes
        exact absurd hcompletes (not_completes_of_silent nofun nofun)
      have hannounces := hrest.stops.issued (announceSignature_announces event count) step hmem
      -- the announcement says what the count has said
      by_cases hzero : count = 0
      · rw [if_pos hzero, if_pos hzero] at hannounces
        have hpda : event.agreementPda = agreementPda := by
          by_contra hother
          refine not_completes_of_announces hannounces (fun _ => hother) (fun heq => ?_) hcompletes
          cases heq
          exact hother rfl
        subst hpda
        exact ⟨rfl, rfl, (unsignedCount_returns hperform).mp hzero⟩
      · rw [if_neg hzero, if_neg hzero] at hannounces
        exact absurd hcompletes
          (not_completes_of_announces hannounces (fun h => absurd h (by decide)) nofun)

theorem handleSignAgreement_completes
    (h : Runs perform (handleSignAgreement event).run w steps r w') {step : BackendStep}
    (hmem : step ∈ steps) (hcompletes : AnnouncesCompletion agreementPda step) :
    event.agreementPda = agreementPda ∧ AllSigned (w'.partyRows agreementPda) ∧
      ∃ row ∈ w'.partyRows agreementPda, row.partyPubkey = event.signer.getD "unknown" := by
  rw [handleSignAgreement_eq] at h
  rcases runs_bind_cases h with ⟨e, -, hnow⟩ | ⟨now, w₁, first, tail, rfl, hnow, hsign⟩
  · exact absurd hnow runs_ask_error
  rcases List.mem_append.mp hmem with hmem | hmem
  · obtain ⟨-, rfl⟩ := runs_ask_ok.mp hnow
    rw [List.mem_singleton.mp hmem] at hcompletes
    exact absurd hcompletes (not_completes_of_silent nofun nofun)
  rcases runs_bind_cases hsign with ⟨e, -, hfailed⟩ | ⟨result, w₂, second, third, rfl, hdone, hrest⟩
  · obtain ⟨-, -, rfl⟩ := runs_query_error.mp hfailed
    rw [List.mem_singleton.mp hmem] at hcompletes
    exact absurd hcompletes (not_completes_of_silent nofun nofun)
  have hrows := partyRows_partyQuery agreementPda hdone
  obtain ⟨hperform, rfl⟩ := runs_query_ok.mp hdone
  rcases List.mem_append.mp hmem with hmem | hmem
  · rw [List.mem_singleton.mp hmem] at hcompletes
    exact absurd hcompletes (not_completes_of_silent nofun nofun)
  -- the clock and the update are silent, so the announcement comes after them
  obtain ⟨hpda, hsome, hall⟩ := afterSignature_completes hrest hmem hcompletes
  subst hpda
  obtain ⟨party, rfl⟩ := Option.isSome_iff_exists.mp hsome
  obtain ⟨row, hrow, hparty⟩ := sign_returns hperform
  rw [partyRows_of_stops event.agreementPda hrest.stops (afterSignature_quiet event _)]
  refine ⟨rfl, hall, (PartyStmt.sign now event.agreementPda
    (event.signer.getD "unknown")).onRow row, ?_, by simpa using hparty⟩
  rw [hrows]
  exact List.mem_map_of_mem hrow

/-- Completion is announced while a signature is handled, when every row is signed. -/
theorem completes_of_handleEvent (h : Runs perform (handleEvent event).run w steps r w')
    {step : BackendStep} (hmem : step ∈ steps)
    (hcompletes : AnnouncesCompletion agreementPda step) :
    event.instruction = .signAgreement ∧ event.agreementPda = agreementPda ∧
      AllSigned (w'.partyRows agreementPda) ∧
      ∃ row ∈ w'.partyRows agreementPda, row.partyPubkey = event.signer.getD "unknown" := by
  unfold handleEvent at h
  cases hinstruction : event.instruction with
  | createAgreement =>
      simp only [hinstruction] at h
      exact absurd hcompletes (handleCreateAgreement_not_completes h step hmem)
  | signAgreement =>
      simp only [hinstruction] at h
      exact ⟨rfl, handleSignAgreement_completes h hmem hcompletes⟩
  | cancelAgreement =>
      simp only [hinstruction] at h
      exact absurd hcompletes (handleCancellation_not_completes h step hmem)
  | expireAgreement =>
      simp only [hinstruction] at h
      exact absurd hcompletes (handleCancellation_not_completes h step hmem)
  | voteRevoke =>
      simp only [hinstruction] at h
      have hannounces := h.stops.issued (handleVoteRevoke_announces event) step hmem
      exact absurd hcompletes
        (not_completes_of_announces hannounces (fun h => absurd h (by decide)) nofun)

end Handlers

/-! ## Signatures received -/

/-- The event is a signature of the party. -/
def SignatureOf (agreementPda party : String) (event : ParsedEvent) : Prop :=
  event.instruction = .signAgreement ∧ event.agreementPda = agreementPda ∧
    event.signer.getD "unknown" = party

/-- The event is the creation of the agreement. -/
def CreationOf (agreementPda : String) (event : ParsedEvent) : Prop :=
  event.instruction = .createAgreement ∧ event.agreementPda = agreementPda

/-- The `INSERT` of a row of the agreement fails. -/
def insertFails (agreementPda : String) : BackendStep → Bool
  | ⟨_, .sql (.party (.insert _ pda _ _)), .error _, _⟩ => pda = agreementPda
  | _ => false

section Effects

variable {agreementPda : String} {event : ParsedEvent} {rows rows' : List Party}

/-- A row is signed by its party's signature only. -/
theorem EventEffect.signed (h : EventEffect agreementPda event rows rows')
    (hrows : ∀ row ∈ rows, row.agreementPda = agreementPda) {row' : Party} (hrow' : row' ∈ rows')
    (hsigned : row'.signedAt.isSome) :
    (∃ row ∈ rows, row.partyPubkey = row'.partyPubkey ∧ row.signedAt.isSome) ∨
      SignatureOf agreementPda row'.partyPubkey event := by
  rcases h.cases with ⟨-, extra, rfl, hnew, -⟩ | ⟨hinstruction, now, rfl⟩ | ⟨status, rfl⟩ | rfl
  · rcases List.mem_append.mp hrow' with hrow | hrow
    · exact Or.inl ⟨row', hrow, rfl, hsigned⟩
    · rw [(hnew row' hrow).2.2] at hsigned
      cases hsigned
  · obtain ⟨row, hrow, rfl⟩ := List.mem_map.mp hrow'
    simp only [PartyStmt.onRow] at hsigned ⊢
    split at hsigned
    · rename_i hsigner
      rw [if_pos hsigner]
      exact Or.inr ⟨hinstruction, hsigner.1.symm.trans (hrows row hrow), hsigner.2.symm⟩
    · rename_i hsigner
      rw [if_neg hsigner]
      exact Or.inl ⟨row, hrow, rfl, hsigned⟩
  · -- a change of status leaves `signed_at` alone
    obtain ⟨row, hrow, rfl⟩ := List.mem_map.mp hrow'
    refine Or.inl ⟨row, hrow, by simp, ?_⟩
    simp only [PartyStmt.onRow] at hsigned
    split at hsigned <;> exact hsigned
  · exact Or.inl ⟨row', hrow', rfl, hsigned⟩

/-- Parties keep their rows. -/
theorem EventEffect.kept (h : EventEffect agreementPda event rows rows') {row : Party}
    (hrow : row ∈ rows) : ∃ row' ∈ rows', row'.partyPubkey = row.partyPubkey := by
  rcases h.cases with ⟨-, extra, rfl, -, -⟩ | ⟨-, now, rfl⟩ | ⟨status, rfl⟩ | rfl
  · exact ⟨row, List.mem_append_left _ hrow, rfl⟩
  · exact ⟨_, List.mem_map_of_mem hrow, by simp⟩
  · exact ⟨_, List.mem_map_of_mem hrow, by simp⟩
  · exact ⟨row, hrow, rfl⟩

/-- Only its creation gives an agreement its first rows. -/
theorem EventEffect.empty (h : EventEffect agreementPda event rows rows') (hrows : rows = [])
    (hother : ¬ CreationOf agreementPda event) : rows' = [] := by
  subst hrows
  rcases h.cases with ⟨hinstruction, extra, rfl, -, hnone⟩ | ⟨-, now, rfl⟩ | ⟨status, rfl⟩ | rfl
  · exact hnone fun hpda => hother ⟨hinstruction, hpda⟩
  · rfl
  · rfl
  · rfl

end Effects

/-- No party of the agreement has a row, or every party has one. -/
def AllOrNone (parties : List String) (rows : List Party) : Prop :=
  rows = [] ∨ ∀ party ∈ parties, ∃ row ∈ rows, row.partyPubkey = party

/-- What the rows say about the events received so far. -/
structure Accounted (agreementPda : String) (parties : List String)
    (history : List (ParsedEvent × List BackendStep)) (rows : List Party) : Prop where
  complete : AllOrNone parties rows
  /-- Signatures stored have been received. -/
  received : ∀ row ∈ rows, row.signedAt.isSome →
    ∃ entry ∈ history, SignatureOf agreementPda row.partyPubkey entry.1

section Runs

variable {agreementPda : String} {parties : List String} {w w' : World}
variable {history : List (ParsedEvent × List BackendStep)}

/-- After an event, again no party has a row or every party has one. -/
theorem AllOrNone.handleEvent {event : ParsedEvent} {steps : List BackendStep}
    {r : Except AppError Unit} (h : AllOrNone parties (w.partyRows agreementPda))
    (hhandled : Runs perform (handleEvent event).run w steps r w')
    (heffect : EventEffect agreementPda event (w.partyRows agreementPda)
      (w'.partyRows agreementPda))
    (hparties : CreationOf agreementPda event → event.parties = parties)
    (hinserts : ∀ step ∈ steps, insertFails agreementPda step →
      AllOrNone parties (step.pre.partyRows agreementPda)) :
    AllOrNone parties (w'.partyRows agreementPda) := by
  by_cases hcreation : CreationOf agreementPda event
  · obtain ⟨hinstruction, rfl⟩ := hcreation
    rw [PactumCodex.handleEvent, hinstruction] at hhandled
    rcases handleCreateAgreement_complete hhandled with hcomplete | ⟨party, creator, now, hmem⟩
    · rw [hparties ⟨hinstruction, rfl⟩] at hcomplete
      exact Or.inr hcomplete
    · exact hinserts _ hmem (by simp [insertFails])
  · rcases h with hnone | hall
    · exact Or.inl (heffect.empty hnone hcreation)
    · refine Or.inr fun party hparty => ?_
      obtain ⟨row, hrow, rfl⟩ := hall party hparty
      exact heffect.kept hrow

/-- What holds of the rows after every event. -/
theorem Accounted.handleEvent {event : ParsedEvent} {steps : List BackendStep}
    (h : Accounted agreementPda parties history (w.partyRows agreementPda))
    (hrun : Runs perform (Handler.logged (handleEvent event)) w steps () w')
    (hparties : CreationOf agreementPda event → event.parties = parties)
    (hinserts : ∀ step ∈ steps, insertFails agreementPda step →
      AllOrNone parties (step.pre.partyRows agreementPda)) :
    Accounted agreementPda parties (history ++ [(event, steps)]) (w'.partyRows agreementPda) := by
  obtain ⟨r, hhandled⟩ := runs_logged.mp hrun
  rcases handleEvent_partyRows agreementPda hhandled with heffect | ⟨hsame, -⟩
  · refine ⟨h.complete.handleEvent hhandled heffect hparties hinserts, fun row hrow hsigned => ?_⟩
    have hrows : ∀ row ∈ w.partyRows agreementPda, row.agreementPda = agreementPda :=
      fun row hrow => (mem_partyRows.mp hrow).2
    rcases heffect.signed hrows hrow hsigned with ⟨before, hbefore, hparty, hearlier⟩ | hnow
    · obtain ⟨entry, hentry, hreceived⟩ := h.received before hbefore hearlier
      exact ⟨entry, List.mem_append_left _ hentry, hparty ▸ hreceived⟩
    · exact ⟨_, List.mem_append_right _ (List.mem_singleton_self _), hnow⟩
  · rw [hsame]
    refine ⟨h.complete, fun row hrow hsigned => ?_⟩
    obtain ⟨entry, hentry, hreceived⟩ := h.received row hrow hsigned
    exact ⟨entry, List.mem_append_left _ hentry, hreceived⟩

/-- As long as no `INSERT` leaves an agreement with only some of its parties, all rows stand for
events received. -/
theorem Listens.accounted (hlistens : Listens w history w') (hstart : w.partyRows agreementPda = [])
    (hparties : ∀ entry ∈ history, CreationOf agreementPda entry.1 → entry.1.parties = parties)
    (hinserts : ∀ entry ∈ history, ∀ step ∈ entry.2, insertFails agreementPda step →
      AllOrNone parties (step.pre.partyRows agreementPda)) :
    Accounted agreementPda parties history (w'.partyRows agreementPda) := by
  induction hlistens with
  | nil => exact ⟨Or.inl hstart, fun row hrow => by rw [hstart] at hrow; cases hrow⟩
  | @snoc w₁ w' history event steps _ hrun ih =>
      rw [List.forall_mem_append] at hparties hinserts
      exact (ih hparties.1 hinserts.1).handleEvent hrun
        (hparties.2 _ (List.mem_singleton_self _)) (hinserts.2 _ (List.mem_singleton_self _))

/-- **Completion after all signatures.**  If an `INSERT` of a party row only fails while no party or
every party of the agreement has a row, then completion is announced only once a signature of every
party has been received. -/
theorem completion_after_signatures (hlistens : Listens w history w')
    (hstart : w.partyRows agreementPda = [])
    (hparties : ∀ entry ∈ history, CreationOf agreementPda entry.1 → entry.1.parties = parties)
    (hinserts : ∀ entry ∈ history, ∀ step ∈ entry.2, insertFails agreementPda step →
      AllOrNone parties (step.pre.partyRows agreementPda)) :
    ∀ before event steps after, history = before ++ (event, steps) :: after →
      (∃ step ∈ steps, AnnouncesCompletion agreementPda step) → ∀ party ∈ parties,
        ∃ entry ∈ before ++ [(event, steps)], SignatureOf agreementPda party entry.1 := by
  rintro before event steps after rfl ⟨step, hmem, hcompletes⟩ party hparty
  obtain ⟨w₁, w₂, hbefore, hrun⟩ := hlistens.split
  rw [← List.singleton_append, ← List.append_assoc, List.forall_mem_append] at hparties hinserts
  obtain ⟨r, hhandled⟩ := runs_logged.mp hrun
  obtain ⟨-, -, hsigned, row, hrow, -⟩ := completes_of_handleEvent hhandled hmem hcompletes
  have haccounted := (hbefore.snoc hrun).accounted hstart hparties.1 hinserts.1
  -- some party has a row, so every party has one, and it is signed
  have hall := haccounted.complete.resolve_left (List.ne_nil_of_mem hrow)
  obtain ⟨own, hown, rfl⟩ := hall party hparty
  exact haccounted.received own hown (hsigned own hown)

end Runs

/-! ### A party is lost -/

theorem failed_of_insertFails {agreementPda : String} {step : BackendStep}
    (h : insertFails agreementPda step) : stmtFailed step := by
  unfold insertFails at h
  split at h
  · rfl
  · cases h

theorem completion_after_signatures_two_parties : ∃ history w',
    Listens (World.ofDb Db.empty) history w' ∧ history.map Prod.fst = twoPartyEvents ∧
    ∀ before event steps after, history = before ++ (event, steps) :: after →
      (∃ step ∈ steps, AnnouncesCompletion "A" step) → ∀ party ∈ [aliceKey, bobKey],
        ∃ entry ∈ before ++ [(event, steps)], SignatureOf "A" party entry.1 := by
  obtain ⟨history, w', hlistens, hevents, hfaultless⟩ := twoPartyEvents_listens
  have hparties : ∀ event ∈ twoPartyEvents, event.instruction = .createAgreement →
      event.parties = [aliceKey, bobKey] := by
    decide
  refine ⟨history, w', hlistens, hevents, completion_after_signatures hlistens rfl ?_ ?_⟩
  · intro entry hmem hcreation
    exact hparties entry.1 (hevents ▸ List.mem_map_of_mem hmem) hcreation.1
  · intro entry hentry step hstep hfails
    have hok := hfaultless entry hentry step hstep
    rw [failed_of_insertFails hfails] at hok
    cases hok

/-- The `INSERT` of Bob's row fails; everything else succeeds. -/
def losingBob : (op : Op) → World → op.Ans
  | .sql (.party (.insert party _ _ _)), _ => if party = bobKey then .error .failed else .ok ()
  | op, w => cooperate 0 op w

/-- Alice's signature alone completes the agreement of Alice and Bob. -/
theorem completed_without_lost_party :
    ¬ ∀ (agreementPda : String) (parties : List String) (w w' : World)
      (history : List (ParsedEvent × List BackendStep)), Listens w history w' →
      w.partyRows agreementPda = [] →
      (∀ entry ∈ history, CreationOf agreementPda entry.1 → entry.1.parties = parties) →
      ∀ before event steps after, history = before ++ (event, steps) :: after →
        (∃ step ∈ steps, AnnouncesCompletion agreementPda step) → ∀ party ∈ parties,
          ∃ entry ∈ before ++ [(event, steps)], SignatureOf agreementPda party entry.1 := by
  intro hclaim
  obtain ⟨history, w', hlistens, htest⟩ := listens_of_test (World.ofDb Db.empty)
    [(createdEvent "A" [aliceKey, bobKey], losingBob), (signedEvent "A" aliceKey, losingBob)]
    (fun history _ =>
      history.map Prod.fst = [createdEvent "A" [aliceKey, bobKey], signedEvent "A" aliceKey] &&
        history.getLast?.any fun entry => entry.2.any fun step => (completedJob "A" step).isSome)
    (by decide +kernel)
  simp only [Bool.and_eq_true, decide_eq_true_eq] at htest
  obtain ⟨hevents, hlast⟩ := htest
  obtain ⟨created, rest, rfl, hcreated, hrest⟩ := List.map_eq_cons_iff.mp hevents
  obtain ⟨signed, rest, rfl, hsigned, hnone⟩ := List.map_eq_cons_iff.mp hrest
  obtain rfl := List.map_eq_nil_iff.mp hnone
  obtain ⟨step, hmem, hjob⟩ := List.any_eq_true.mp hlast
  obtain ⟨entry, hentry, hreceived⟩ := hclaim "A" [aliceKey, bobKey] _ _ _ hlistens rfl
    (by simp [hcreated, hsigned, CreationOf, createdEvent, signedEvent]) [created]
      signed.1 signed.2 []
    rfl ⟨step, hmem, Or.inl hjob⟩ bobKey (by simp)
  -- the only signature is Alice's
  simp only [List.singleton_append, List.mem_cons, List.not_mem_nil, or_false] at hentry
  rcases hentry with rfl | rfl
  · rw [hcreated] at hreceived
    exact absurd hreceived.1 (by decide)
  · simp only [hsigned] at hreceived
    exact absurd hreceived.2.2 (by decide)

end PactumCodex
