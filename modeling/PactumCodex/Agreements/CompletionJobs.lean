import PactumCodex.Agreements.Completion

/-!
# Who is told that an agreement is completed

`handle_sign_agreement` queues one notification for each signature, to the signer.
For the last signature it is a 'Completed' notification, for the others a
'Signed' one.  So the last signer alone is notified of the completion, where the
WebSocket event reaches all parties.

## Strategy

The jobs of one signature are read off the text of the handler, for executions in
which nothing fails (`handleSignAgreement_jobs`): a 'Completed' job for the signer
if no unsigned row is left, and otherwise none.

For a history in which the parties sign in some order, the rows after a part of
it hold those who have signed in this part (`follows_of_signed`), because the rows
follow the lifecycle and every order is one of it (`signatures_trace`).  So nobody
is left to sign exactly after the last signature (`fullySigned_iff_last`), and
`signature_jobs` states the jobs of every event of the history.

The theorem compares the one job of the last event with the list of the parties:
they agree exactly if there is at most one party.
-/

namespace PactumCodex

open Interaction Relational Transition

/-! ## Jobs of one signature -/

section Jobs

variable {agreementPda : String} {event : ParsedEvent} {w w' : World} {steps : List BackendStep}

theorem completedJobs_append (first second : List BackendStep) :
    completedJobs agreementPda (first ++ second) =
      completedJobs agreementPda first ++ completedJobs agreementPda second :=
  List.filterMap_append

theorem completedJobs_eq_nil (h : ∀ step ∈ steps, ∀ s, step.op ≠ .sql (.notification s)) :
    completedJobs agreementPda steps = [] :=
  List.filterMap_eq_nil_iff.mpr fun step hmem => completedJob_eq_none (h step hmem)

theorem not_failed_append {first second : List BackendStep}
    (h : ∀ step ∈ first ++ second, stmtFailed step = false) :
    (∀ step ∈ first, stmtFailed step = false) ∧ ∀ step ∈ second, stmtFailed step = false :=
  List.forall_mem_append.mp h

/-- A query in an execution without failures succeeds. -/
theorem query_succeeds {s : Stmt} {r : Except AppError s.Out}
    (h : Runs perform (Handler.query s).run w steps r w')
    (hfaultless : ∀ step ∈ steps, stmtFailed step = false) :
    ∃ out, r = .ok out ∧ performSql s out w = some w' ∧ steps = [⟨w, .sql s, .ok out, w'⟩] := by
  cases r with
  | ok out => exact ⟨out, rfl, runs_query_ok.mp h⟩
  | error e =>
      obtain ⟨-, -, rfl⟩ := runs_query_error.mp h
      exact absurd (hfaultless _ (List.mem_singleton_self _)) (by simp [stmtFailed])

theorem completedJobs_notification {eventType recipient : String} {now : ℤ} {id : Uuid} :
    completedJobs agreementPda
        [⟨w, .sql (.notification ⟨eventType, some agreementPda, recipient, now⟩), .ok id, w'⟩] =
      if eventType = "Completed" then [recipient] else [] := by
  have hjob : completedJob agreementPda
      ⟨w, .sql (.notification ⟨eventType, some agreementPda, recipient, now⟩), .ok id, w'⟩ =
        if eventType = "Completed" ∧ some agreementPda = some agreementPda then some recipient
        else none := rfl
  by_cases htype : eventType = "Completed"
  · rw [if_pos ⟨htype, rfl⟩] at hjob
    simp [completedJobs, hjob, htype]
  · rw [if_neg fun h => htype h.1] at hjob
    simp [completedJobs, hjob, htype]

theorem enqueueNotification_jobs {eventType recipient : String} {r : Except AppError Unit}
    (h : Runs perform
      (enqueueNotification eventType (some agreementPda) recipient).run w steps r w')
    (hfaultless : ∀ step ∈ steps, stmtFailed step = false) :
    completedJobs agreementPda steps = if eventType = "Completed" then [recipient] else [] := by
  rcases runs_bind_cases h with ⟨e, -, hnow⟩ | ⟨now, w₁, first, tail, rfl, hnow, hinsert⟩
  · exact absurd hnow runs_ask_error
  obtain ⟨-, rfl⟩ := runs_ask_ok.mp hnow
  obtain ⟨-, htail⟩ := not_failed_append hfaultless
  rcases runs_bind_cases hinsert with ⟨e, -, hfailed⟩ | ⟨id, w₂, second, third, rfl, hdone, hrest⟩
  · obtain ⟨out, hout, -, -⟩ := query_succeeds hfailed htail
    cases hout
  obtain ⟨-, rfl⟩ := runs_query_ok.mp hdone
  obtain ⟨rfl, -⟩ := hrest
  rw [completedJobs_append, List.append_nil, completedJobs_notification, completedJobs_eq_nil,
    List.nil_append]
  intro step hmem
  rw [List.mem_singleton.mp hmem]
  nofun

theorem announceSignature_jobs {unsignedCount : ℕ} {r : Except AppError Unit}
    (h : Runs perform (announceSignature event unsignedCount).run w steps r w')
    (hfaultless : ∀ step ∈ steps, stmtFailed step = false) :
    completedJobs event.agreementPda steps =
      if unsignedCount = 0 then [event.signer.getD "unknown"] else [] := by
  rcases runs_bind_cases h with ⟨e, -, henqueue⟩ | ⟨_, w₁, first, second, rfl, henqueue, hrest⟩
  · obtain ⟨_, habsurd, -⟩ := runs_run_lift.mp henqueue
    cases habsurd
  obtain ⟨hfirst, -⟩ := not_failed_append hfaultless
  obtain ⟨_, -, hlogged⟩ := runs_run_lift.mp henqueue
  obtain ⟨r', hqueued⟩ := runs_logged.mp hlogged
  -- after the notification is queued, only WebSocket events are sent
  have hissues : (do
      let parties ← Handler.query (.party (.partiesOf event.agreementPda))
      broadcast (if unsignedCount = 0 then .agreementCompleted event.agreementPda
        else .agreementSigned event.agreementPda) parties : Handler Unit).run.Issues
      fun op => ∀ s, op ≠ .sql (.notification s) :=
    issues_run_bind (issues_query.mpr nofun) fun parties =>
      issues_run_lift ((broadcast_sends _ parties).mono fun _ h => h.notification)
  rw [completedJobs_append, enqueueNotification_jobs hqueued hfirst,
    completedJobs_eq_nil (hrest.stops.issued hissues), List.append_nil]
  by_cases hzero : unsignedCount = 0
  · simp [hzero]
  · simp [hzero]

theorem afterSignature_jobs {party : String} {r : Except AppError Unit}
    (h : Runs perform (afterSignature event (some party)).run w steps r w')
    (hfaultless : ∀ step ∈ steps, stmtFailed step = false) :
    (AllSigned (w.partyRows event.agreementPda) →
      completedJobs event.agreementPda steps = [event.signer.getD "unknown"]) ∧
    (¬ AllSigned (w.partyRows event.agreementPda) →
      completedJobs event.agreementPda steps = []) := by
  rcases runs_bind_cases h with ⟨e, -, hfailed⟩ | ⟨count, w₁, first, second, rfl, hcount, hrest⟩
  · obtain ⟨out, hout, -, -⟩ := query_succeeds hfailed hfaultless
    cases hout
  obtain ⟨-, hsecond⟩ := not_failed_append hfaultless
  obtain ⟨hperform, rfl⟩ := runs_query_ok.mp hcount
  have hjobs := announceSignature_jobs hrest hsecond
  rw [completedJobs_append, hjobs, completedJobs_eq_nil, List.nil_append,
    ← unsignedCount_returns hperform]
  · exact ⟨fun hzero => if_pos hzero, fun hzero => if_neg hzero⟩
  · intro step hmem
    rw [List.mem_singleton.mp hmem]
    nofun

/-- A signature is stored if its party has a row. -/
theorem sign_finds {now : ℤ} {signer : String} {result : Option String}
    (h : performSql (.party (.sign now agreementPda signer)) result w = some w')
    (hparty : ∃ row ∈ w.partyRows agreementPda, row.partyPubkey = signer) :
    ∃ party, result = some party := by
  obtain ⟨-, -, db, hexec, -⟩ := performSql_eq_some.mp h
  obtain ⟨parties, hparties, -⟩ := Option.map_eq_some_iff.mp hexec
  simp only [PartyStmt.exec, Option.ite_none_right_eq_some] at hparties
  obtain ⟨row, hrow, rfl⟩ := hparty
  obtain ⟨hmem, hpda⟩ := mem_partyRows.mp hrow
  rw [hparties.1, ← Option.isSome_iff_exists, Option.isSome_map, List.find?_isSome]
  exact ⟨row, hmem, by simp [hpda]⟩

/-- The job of a signature that is handled without failures. -/
theorem handleSignAgreement_jobs {r : Except AppError Unit}
    (h : Runs perform (handleSignAgreement event).run w steps r w')
    (hfaultless : ∀ step ∈ steps, stmtFailed step = false)
    (hparty : ∃ row ∈ w.partyRows event.agreementPda,
      row.partyPubkey = event.signer.getD "unknown") :
    (AllSigned (w'.partyRows event.agreementPda) →
      completedJobs event.agreementPda steps = [event.signer.getD "unknown"]) ∧
    (¬ AllSigned (w'.partyRows event.agreementPda) →
      completedJobs event.agreementPda steps = []) := by
  rw [handleSignAgreement_eq] at h
  rcases runs_bind_cases h with ⟨e, -, hnow⟩ | ⟨now, w₁, first, tail, rfl, hnow, hsign⟩
  · exact absurd hnow runs_ask_error
  have hclock := partyRows_dbNow event.agreementPda hnow
  obtain ⟨-, rfl⟩ := runs_ask_ok.mp hnow
  obtain ⟨-, htail⟩ := not_failed_append hfaultless
  rcases runs_bind_cases hsign with ⟨e, -, hfailed⟩ | ⟨result, w₂, second, third, rfl, hdone, hrest⟩
  · obtain ⟨out, hout, -, -⟩ := query_succeeds hfailed htail
    cases hout
  obtain ⟨-, hthird⟩ := not_failed_append htail
  obtain ⟨hperform, rfl⟩ := runs_query_ok.mp hdone
  rw [← hclock] at hparty
  obtain ⟨party, rfl⟩ := sign_finds hperform hparty
  have hjobs := afterSignature_jobs hrest hthird
  -- the rows are counted right after the update, and not written again
  rw [partyRows_of_stops event.agreementPda hrest.stops (afterSignature_quiet event _),
    completedJobs_append, completedJobs_append, completedJobs_eq_nil, completedJobs_eq_nil,
    List.nil_append, List.nil_append]
  · exact hjobs
  · intro step hmem
    rw [List.mem_singleton.mp hmem]
    nofun
  · intro step hmem
    rw [List.mem_singleton.mp hmem]
    nofun

end Jobs

/-! ## All signatures of an agreement -/

/-- The parts of an event that `handle_sign_agreement` reads. -/
def signatureKey (event : ParsedEvent) : InstructionType × String × Option String :=
  (event.instruction, event.agreementPda, event.signer)

/-- The events are the signatures of the given parties, in this order. -/
def SignedInOrder (agreementPda : String) (order : List String)
    (history : List (ParsedEvent × List BackendStep)) : Prop :=
  history.map (fun entry => signatureKey entry.1) =
    order.map fun signer => (.signAgreement, agreementPda, some signer)

/-- Handling the last event queues one 'Completed' notification for each party, and handling the
events before it queues none. -/
def TellsAll (agreementPda : String) (parties : List String)
    (history : List (ParsedEvent × List BackendStep)) : Prop :=
  (∀ before entry after, history = before ++ entry :: after → after ≠ [] →
    completedJobs agreementPda entry.2 = []) ∧
  ∀ before entry, history = before ++ [entry] → (completedJobs agreementPda entry.2).Perm parties

section Signatures

variable {agreementPda : String} {parties order : List String} {w w' : World}
variable {history : List (ParsedEvent × List BackendStep)}

/-- The lifecycle allows every order of signatures. -/
theorem signatures_trace {signers : List String}
    (hsigned : SignedInOrder agreementPda signers history)
    (hdistinct : signers.Nodup) (hparties : ∀ signer ∈ signers, signer ∈ parties) :
    Trace (lifecycleStep agreementPda) (some ⟨parties, [], none⟩) (history.map Prod.fst)
      (some ⟨parties, signers.reverse, none⟩) := by
  induction signers using List.reverseRecOn generalizing history with
  | nil =>
      obtain rfl := List.map_eq_nil_iff.mp hsigned
      exact trace_nil.mpr rfl
  | append_singleton signers signer ih =>
      rw [SignedInOrder, List.map_append] at hsigned
      obtain ⟨before, last, rfl, hbefore, hlast⟩ := List.map_eq_append_iff.mp hsigned
      obtain ⟨entry, rfl, hentry⟩ := List.map_eq_singleton_iff.mp hlast
      obtain ⟨hdistinct, -, hfresh⟩ := List.nodup_append.mp hdistinct
      rw [List.forall_mem_append] at hparties
      rw [List.map_append, List.map_singleton]
      refine trace_snoc.mpr ⟨_, ih hbefore hdistinct hparties.1, ?_⟩
      simp only [signatureKey, Prod.mk.injEq] at hentry
      obtain ⟨hinstruction, hpda, hsigner⟩ := hentry
      have hnew : signer ∈ parties ∧ signer ∉ signers.reverse := by
        refine ⟨hparties.2 signer (List.mem_singleton_self _), fun hmem => ?_⟩
        exact hfresh signer (List.mem_reverse.mp hmem) signer (List.mem_singleton_self _) rfl
      simp [lifecycleStep, Lifecycle.handle, hinstruction, hpda, hsigner, hnew]

/-- Signing in order is a property of the parts of a history. -/
theorem SignedInOrder.split {before after : List (ParsedEvent × List BackendStep)}
    {entry : ParsedEvent × List BackendStep}
    (h : SignedInOrder agreementPda order (before ++ entry :: after)) :
    ∃ earlier signer later, order = earlier ++ signer :: later ∧
      SignedInOrder agreementPda earlier before ∧
      signatureKey entry.1 = (.signAgreement, agreementPda, some signer) ∧
      SignedInOrder agreementPda later after := by
  rw [SignedInOrder, List.map_append, List.map_cons] at h
  obtain ⟨earlier, rest, rfl, hearlier, hrest⟩ := List.map_eq_append_iff.mp h.symm
  obtain ⟨signer, later, rfl, hsigner, hlater⟩ := List.map_eq_cons_iff.mp hrest
  exact ⟨earlier, signer, later, rfl, hearlier.symm, hsigner.symm, hlater.symm⟩

/-- After a part of the signatures, the rows hold those who have signed. -/
theorem follows_of_signed {signed : List String} (hlistens : Listens w history w')
    (hcreated : Follows (w.partyRows agreementPda) ⟨parties, [], none⟩)
    (hfaultless : ∀ entry ∈ history, ∀ step ∈ entry.2, stmtFailed step = false)
    (hsigned : SignedInOrder agreementPda signed history) (hdistinct : signed.Nodup)
    (hparties : ∀ party ∈ signed, party ∈ parties) :
    Follows (w'.partyRows agreementPda) ⟨parties, signed.reverse, none⟩ := by
  have hstart : FollowsState (w.partyRows agreementPda) (some ⟨parties, [], none⟩) := hcreated
  exact hlistens.follows hstart hfaultless (signatures_trace hsigned hdistinct hparties)

/-- Nobody is left to sign exactly after the last signature. -/
theorem fullySigned_iff_last {signed later : List String} (hdistinct : parties.Nodup)
    (horder : (signed ++ later).Perm parties) :
    Lifecycle.FullySigned ⟨parties, signed.reverse, none⟩ ↔ later = [] := by
  obtain ⟨-, -, hfresh⟩ := List.nodup_append.mp (horder.nodup_iff.mpr hdistinct)
  simp only [Lifecycle.FullySigned, List.mem_reverse]
  constructor
  · intro hall
    by_contra hmore
    obtain ⟨next, rest, rfl⟩ := List.exists_cons_of_ne_nil hmore
    have hnext := hall next (horder.subset (List.mem_append_right _ List.mem_cons_self))
    exact hfresh next hnext next List.mem_cons_self rfl
  · rintro rfl party hparty
    simpa using horder.symm.subset hparty

/-- The signer is told of the completion if and only if nobody is left to sign. -/
theorem signature_jobs (hlistens : Listens w history w')
    (hcreated : Follows (w.partyRows agreementPda) ⟨parties, [], none⟩) (hdistinct : parties.Nodup)
    (horder : order.Perm parties) (hsigned : SignedInOrder agreementPda order history)
    (hfaultless : ∀ entry ∈ history, ∀ step ∈ entry.2, stmtFailed step = false)
    {before after : List (ParsedEvent × List BackendStep)}
    {entry : ParsedEvent × List BackendStep} (hhistory : history = before ++ entry :: after) :
    ∃ earlier signer later, order = earlier ++ signer :: later ∧
      SignedInOrder agreementPda later after ∧
      completedJobs agreementPda entry.2 = if later = [] then [signer] else [] := by
  subst hhistory
  obtain ⟨event, steps⟩ := entry
  obtain ⟨earlier, signer, later, rfl, hearlier, hkey, hlater⟩ := hsigned.split
  obtain ⟨w₁, w₂, hbefore, hrun⟩ := hlistens.split
  simp only [signatureKey, Prod.mk.injEq] at hkey
  obtain ⟨hinstruction, rfl, hsigner⟩ := hkey
  refine ⟨earlier, signer, later, rfl, hlater, ?_⟩
  rw [← List.singleton_append, ← List.append_assoc] at horder
  obtain ⟨hdone, -, -⟩ := List.nodup_append.mp (horder.nodup_iff.mpr hdistinct)
  have hparties : ∀ party ∈ earlier ++ [signer], party ∈ parties := fun party hparty =>
    horder.subset (List.mem_append_left _ hparty)
  rw [List.forall_mem_append, List.forall_mem_cons] at hfaultless
  -- the rows before and after the event follow the lifecycle
  have hbefore' : Follows (w₁.partyRows event.agreementPda) ⟨parties, earlier.reverse, none⟩ :=
    follows_of_signed hbefore hcreated hfaultless.1 hearlier (List.nodup_append.mp hdone).1
      fun party hparty => hparties party (List.mem_append_left _ hparty)
  have hafter : Follows (w₂.partyRows event.agreementPda)
      ⟨parties, (earlier ++ [signer]).reverse, none⟩ := by
    refine follows_of_signed (hbefore.snoc hrun) hcreated ?_ ?_ hdone hparties
    · rw [List.forall_mem_append]
      exact ⟨hfaultless.1, by simpa using hfaultless.2.1⟩
    · rw [SignedInOrder, List.map_append, List.map_append, hearlier]
      simp [signatureKey, hinstruction, hsigner]
  obtain ⟨r, hhandled⟩ := runs_logged.mp hrun
  rw [handleEvent, hinstruction] at hhandled
  have hrow := (hbefore'.parties signer).mp (hparties signer (List.mem_append_right _
    (List.mem_singleton_self _)))
  have hjobs := handleSignAgreement_jobs hhandled hfaultless.2.1 (by rw [hsigner]; exact hrow)
  rw [hsigner, Option.getD_some, AllSigned, hafter.allSigned_iff,
    fullySigned_iff_last hdistinct horder] at hjobs
  by_cases hlast : later = []
  · rw [if_pos hlast, hjobs.1 hlast]
  · rw [if_neg hlast, hjobs.2 hlast]

/-- **Completion jobs.**  The last signature tells every party of the completion, and no earlier one
tells anybody, if and only if the agreement has one party at most. -/
theorem completion_jobs_iff (hlistens : Listens w history w')
    (hcreated : Follows (w.partyRows agreementPda) ⟨parties, [], none⟩) (hdistinct : parties.Nodup)
    (horder : order.Perm parties) (hsigned : SignedInOrder agreementPda order history)
    (hfaultless : ∀ entry ∈ history, ∀ step ∈ entry.2, stmtFailed step = false) :
    TellsAll agreementPda parties history ↔ parties.length ≤ 1 := by
  have hjobs := @signature_jobs _ _ _ _ _ _ hlistens hcreated hdistinct horder hsigned hfaultless
  constructor
  -- the last event has one job, so there is one party
  · rintro ⟨-, hlast⟩
    rcases List.eq_nil_or_concat history with rfl | ⟨before, entry, rfl⟩
    · obtain rfl := List.map_eq_nil_iff.mp hsigned.symm
      rw [horder.symm.eq_nil]
      simp
    · rw [List.concat_eq_append] at hlast hjobs
      obtain ⟨earlier, signer, later, -, hlater, hone⟩ := hjobs rfl
      obtain rfl := List.map_eq_nil_iff.mp hlater.symm
      rw [← (hlast before entry rfl).length_eq, hone]
      simp
  -- with one party at most there is no earlier signature
  · intro hfew
    refine ⟨fun before entry after hhistory hmore => ?_, fun before entry hhistory => ?_⟩
    · obtain ⟨earlier, signer, later, -, hlater, hjob⟩ := hjobs hhistory
      rw [hjob, if_neg]
      rintro rfl
      exact hmore (List.map_eq_nil_iff.mp hlater)
    · obtain ⟨earlier, signer, later, rfl, hlater, hjob⟩ := hjobs hhistory
      obtain rfl := List.map_eq_nil_iff.mp hlater.symm
      have hlength := horder.length_eq
      simp only [List.length_append, List.length_singleton] at hlength
      obtain rfl : earlier = [] := List.eq_nil_of_length_eq_zero (by omega)
      rw [hjob, if_pos rfl]
      exact horder

end Signatures

/-- An agreement that waits for the signatures of Alice and Bob. -/
def pendingDb : Db :=
  { Db.empty with
    parties := ⟨[⟨aliceKey, "A", bobKey, .pendingSignatures, none, 0, 0, "Agreement"⟩,
      ⟨bobKey, "A", bobKey, .pendingSignatures, none, 0, 0, "Agreement"⟩], by decide⟩ }

theorem pendingDb_follows :
    Follows ((World.ofDb pendingDb).partyRows "A") ⟨[aliceKey, bobKey], [], none⟩ := by
  have hrows : ∀ row ∈ (World.ofDb pendingDb).partyRows "A",
      row.partyPubkey ∈ [aliceKey, bobKey] ∧ row.signedAt = none ∧
        row.status = .pendingSignatures := by decide
  have hparties : ∀ party ∈ [aliceKey, bobKey],
      ∃ row ∈ (World.ofDb pendingDb).partyRows "A", row.partyPubkey = party := by decide
  refine ⟨fun party => ⟨fun h => hparties party h, ?_⟩, fun row hrow => (hrows row hrow).2.2,
    fun row hrow => ?_, nofun⟩
  · rintro ⟨row, hrow, rfl⟩
    exact (hrows row hrow).1
  · simp [(hrows row hrow).2.1]

/-- Alice and Bob sign, in this order. -/
theorem bothSign_listens : ∃ first second w',
    Listens (World.ofDb pendingDb)
      [(signedEvent "A" aliceKey, first), (signedEvent "A" bobKey, second)] w' ∧
    ∀ entry ∈ [(signedEvent "A" aliceKey, first), (signedEvent "A" bobKey, second)],
      ∀ step ∈ entry.2, stmtFailed step = false := by
  obtain ⟨history, w', hlistens, htest⟩ := listens_of_test (World.ofDb pendingDb)
    [(signedEvent "A" aliceKey, cooperate 0), (signedEvent "A" bobKey, cooperate 0)]
    (fun history _ => history.map Prod.fst = [signedEvent "A" aliceKey, signedEvent "A" bobKey] &&
      history.all fun entry => entry.2.all fun step => !stmtFailed step) (by decide +kernel)
  simp only [Bool.and_eq_true, decide_eq_true_eq, List.all_eq_true, Bool.not_eq_true'] at htest
  obtain ⟨hevents, hfaultless⟩ := htest
  obtain ⟨⟨_, first⟩, rest, rfl, rfl, hrest⟩ := List.map_eq_cons_iff.mp hevents
  obtain ⟨⟨_, second⟩, rfl, rfl⟩ := List.map_eq_singleton_iff.mp hrest
  exact ⟨first, second, w', hlistens, hfaultless⟩

theorem completion_jobs_iff_two_parties : ∃ first second w',
    Listens (World.ofDb pendingDb)
      [(signedEvent "A" aliceKey, first), (signedEvent "A" bobKey, second)] w' ∧
    (TellsAll "A" [aliceKey, bobKey]
        [(signedEvent "A" aliceKey, first), (signedEvent "A" bobKey, second)] ↔
      [aliceKey, bobKey].length ≤ 1) := by
  obtain ⟨first, second, w', hlistens, hfaultless⟩ := bothSign_listens
  exact ⟨first, second, w', hlistens, completion_jobs_iff hlistens pendingDb_follows (by decide)
    (List.Perm.refl _) rfl hfaultless⟩

/-- Alice is not told that Bob's signature completed the agreement. -/
theorem first_signer_not_told :
    ¬ ∀ (agreementPda : String) (parties order : List String) (w w' : World)
      (history : List (ParsedEvent × List BackendStep)), Listens w history w' →
      Follows (w.partyRows agreementPda) ⟨parties, [], none⟩ → parties.Nodup →
      order.Perm parties → SignedInOrder agreementPda order history →
      (∀ entry ∈ history, ∀ step ∈ entry.2, stmtFailed step = false) →
      TellsAll agreementPda parties history := by
  intro hclaim
  obtain ⟨first, second, w', hlistens, hfaultless⟩ := bothSign_listens
  have hdistinct : [aliceKey, bobKey].Nodup := by decide
  have htold := (hclaim "A" [aliceKey, bobKey] [aliceKey, bobKey] _ _ _ hlistens
    pendingDb_follows hdistinct (List.Perm.refl _) rfl hfaultless).2 [_] _ rfl
  -- the one job of the last event is Bob's
  obtain ⟨earlier, signer, later, -, -, hjobs⟩ :=
    signature_jobs hlistens pendingDb_follows hdistinct
    (List.Perm.refl _) rfl hfaultless
    (show _ = [(signedEvent "A" aliceKey, first)] ++
      (signedEvent "A" bobKey, second) :: [] from rfl)
  have hlength := htold.length_eq
  rw [hjobs] at hlength
  split at hlength
  · cases hlength
  · cases hlength

end PactumCodex
