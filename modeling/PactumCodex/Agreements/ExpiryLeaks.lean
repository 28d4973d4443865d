import PactumCodex.Agreements.ExpiryRuns

/-!
# Locks that are never given back

The expiry lock has no owner and no timestamp: nothing looks for rows that are
'expiring'.  If a worker stops inside the submission section, or the update that
gives the lock back fails, the agreement stays locked although no transaction was
accepted.  As long as neither happens, every agreement whose submission failed
is selected again.

`LockOwned` is the invariant: expiring rows belong to a program in the section, or to
a transaction that was accepted, or there are none.  Each of the moves of
`Agreements/ExpiryRuns` keeps it under the condition, and so does the stop of a
program outside the section.  When no program is in the section and no transaction
was accepted, no row is expiring, and a scan past the deadline selects the agreement.
-/

namespace PactumCodex

open Interaction Relational

/-- The RPC node accepted a transaction. -/
def acceptsTransaction : BackendStep → Bool
  | ⟨_, .sendTransaction _, .ok _, _⟩ => true
  | _ => false

/-- A transaction submitted for the agreement was accepted. -/
def SubmissionAccepted (agreementPda : String) (events : List BackendEvent) : Prop :=
  ∃ before i step after, events = before ++ .ran i step :: after ∧
    acceptsTransaction step = true ∧ expiryPhase i before = .submitting agreementPda

/-- The lock of the agreement is given back: unless no row is 'expiring', the update that does so
does not fail, and no program is stopped in the section before a transaction was accepted. -/
def GivesBack (agreementPda : String) (w : World) (past : List BackendEvent) : BackendEvent → Prop
  | .ran _ step => step.op = .sql (.party (.unlockFromExpiry agreementPda)) →
      stmtFailed step = true → ∀ row ∈ step.pre.partyRows agreementPda, row.status ≠ .expiring
  | .stopped i => Inside agreementPda past i → expiryPhase i past = .accepted agreementPda ∨
      ∀ row ∈ (worldAfter w past).partyRows agreementPda, row.status ≠ .expiring

/-- While no program is in the section of the agreement, its rows are 'expiring' only if a
transaction was accepted, and otherwise every scan after the deadline selects it, unless the
listener has ended it. -/
structure ReleasesLock (agreementPda : String) (events : List BackendEvent) (w : World) : Prop where
  expiring : (∀ i, ¬ Inside agreementPda events i) →
    (∃ row ∈ w.partyRows agreementPda, row.status = .expiring) →
      SubmissionAccepted agreementPda events
  selected : (∀ i, ¬ Inside agreementPda events i) → ¬ SubmissionAccepted agreementPda events →
    ∀ row ∈ w.partyRows agreementPda, ¬ row.status.Closed → ∀ now, row.expiresAt < now →
      ∀ rows w', perform (.sql (.party (.due now))) (.ok rows) w = some w' →
        (agreementPda, row.creatorPubkey) ∈ rows

/-! ## SubmissionAccepted transactions -/

section Accepting

variable {agreementPda : String} {events : List BackendEvent} {event : BackendEvent}

theorem SubmissionAccepted.append (h : SubmissionAccepted agreementPda events)
    (event : BackendEvent) :
    SubmissionAccepted agreementPda (events ++ [event]) := by
  obtain ⟨before, i, step, after, rfl, haccepts, hphase⟩ := h
  exact ⟨before, i, step, after ++ [event], by simp, haccepts, hphase⟩

/-- The phase after an accepted transaction is reached by an accepted transaction. -/
theorem accepts_of_next {phase : ExpiryPhase} {step : BackendStep}
    (h : phase.next step.op step.ans = .accepted agreementPda) :
    phase = .accepted agreementPda ∨
      (acceptsTransaction step = true ∧ phase = .submitting agreementPda) := by
  obtain ⟨w, op, answer, w'⟩ := step
  -- only a transaction that is sent and accepted leads into this phase
  cases op with
  | sendTransaction tx =>
      cases answer with
      | error e => exact Or.inl h
      | ok signature =>
          cases phase with
          | submitting other =>
              exact Or.inr ⟨rfl, by simpa [ExpiryPhase.next, ExpiryPhase.accept] using h⟩
          | _ => exact Or.inl h
  | expireCall other creator => cases h
  | expireReturn other result =>
      cases result with
      | ok signature => cases h
      | error e => cases h
  | sql s =>
      cases s with
      | party s =>
          cases s with
          | unlockFromExpiry other => cases h
          | lockForExpiry other =>
              cases answer with
              | error e => exact Or.inl h
              | ok rowsAffected =>
                  by_cases htaken : 0 < rowsAffected
                  · rw [ExpiryPhase.next, if_pos htaken] at h
                    cases h
                  · rw [ExpiryPhase.next, if_neg htaken] at h
                    exact Or.inl h
          | _ => exact Or.inl h
      | _ => exact Or.inl h
  | _ => exact Or.inl h

end Accepting

/-! ## The invariant -/

section Leaks

variable {agreementPda : String} {w : World} {past events : List BackendEvent}
variable {pool : Pool Op Op.Ans World} {i : ℕ} {step : BackendStep}

/-- Expiring rows belong to a program in the section, or to an accepted transaction. -/
structure LockOwned (agreementPda : String) (events : List BackendEvent) (w : World) : Prop where
  owner : (∃ i, Inside agreementPda events i) ∨ SubmissionAccepted agreementPda events ∨
    ∀ row ∈ w.partyRows agreementPda, row.status ≠ .expiring
  accepted : ∀ i, expiryPhase i events = .accepted agreementPda →
    SubmissionAccepted agreementPda events

theorem LockOwned.accepted_ran (h : LockOwned agreementPda past step.pre) (j : ℕ)
    (hj : expiryPhase j (past ++ [.ran i step]) = .accepted agreementPda) :
    SubmissionAccepted agreementPda (past ++ [.ran i step]) := by
  rw [expiryPhase, phase_ran] at hj
  by_cases hij : i = j
  · rw [if_pos hij] at hj
    rcases accepts_of_next hj with hbefore | ⟨haccepts, hphase⟩
    · exact (h.accepted j hbefore).append _
    · exact ⟨past, i, step, [], rfl, haccepts, hij ▸ hphase⟩
  · rw [if_neg hij] at hj
    exact (h.accepted j hj).append _

theorem LockOwned.move (h : LockOwned agreementPda past step.pre)
    (hmove : ExpiryMove (fun _ => False) agreementPda (expiryPhase i past) step)
    (hgives : GivesBack agreementPda w past (.ran i step)) :
    LockOwned agreementPda (past ++ [.ran i step]) step.post := by
  refine ⟨?_, fun j hj => h.accepted_ran j hj⟩
  cases hmove with
  | quiet hinside hrows =>
      -- the section, the accepted transaction, or no expiring row
      rcases h.owner with ⟨j, hj⟩ | haccepted | hnone
      · refine Or.inl ⟨j, ?_⟩
        by_cases hij : i = j
        · subst hij
          exact inside_ran_self.mpr (hinside.mpr hj)
        · exact (inside_ran_ne hij).mpr hj
      · exact Or.inr (Or.inl (haccepted.append _))
      · refine Or.inr (Or.inr fun row hmem hexpiring => ?_)
        rcases hrows row hmem with hclosed | ⟨hpending, -⟩ | ⟨old, hold, hstatus⟩
        · rw [hexpiring] at hclosed
          rcases hclosed with hc | hc <;> cases hc
        · rw [hexpiring] at hpending
          cases hpending
        · exact hnone old hold (hstatus.trans hexpiring)
  | locks _ hnext _ _ =>
      refine Or.inl ⟨i, inside_ran_self.mpr ?_⟩
      rw [hnext]
      rfl
  | unlocks _ _ hop hkept hreleased =>
      refine Or.inr (Or.inr ?_)
      cases hfailed : stmtFailed step with
      | false => exact hreleased hfailed
      | true =>
          rw [hkept hfailed]
          exact hgives hop hfailed
  | finishes hphase _ _ => exact Or.inr (Or.inl ((h.accepted i hphase).append _))

theorem LockOwned.stopped (h : LockOwned agreementPda past (worldAfter w past))
    (hgives : GivesBack agreementPda w past (.stopped i)) :
    LockOwned agreementPda (past ++ [.stopped i]) (worldAfter w past) := by
  constructor
  · rcases h.owner with ⟨j, hj⟩ | haccepted | hnone
    · by_cases hij : i = j
      · subst hij
        rcases hgives hj with hphase | hnone
        · exact Or.inr (Or.inl ((h.accepted i hphase).append _))
        · exact Or.inr (Or.inr hnone)
      · exact Or.inl ⟨j, inside_stopped.mpr ⟨hij, hj⟩⟩
    · exact Or.inr (Or.inl (haccepted.append _))
    · exact Or.inr (Or.inr hnone)
  · intro j hj
    rw [expiryPhase, phase_stopped] at hj
    split at hj
    · cases hj
    · exact (h.accepted j hj).append _

/-- Expiring rows have an owner as long as the locks are given back. -/
theorem owned_of_history (h : ExpiryHistory (fun _ => False) ⟨w, []⟩ events pool)
    (hstart : ∀ row ∈ w.partyRows agreementPda, row.status ≠ .expiring)
    (hgives : Meets (GivesBack agreementPda w) events) :
    LockOwned agreementPda events pool.world := by
  refine expiryHistory_invariant (GivesBack agreementPda w) (LockOwned agreementPda)
    ⟨?_, nofun⟩ ?_ ?_
    h hgives
  · exact Or.inr (Or.inr hstart)
  · intro past i step hvalid hallowed hgive hpast
    exact hpast.move (expiryMove_of_allowed hvalid hallowed) hgive
  · intro past i hgive hpast
    exact hpast.stopped hgive

/-- A scan selects every agreement that is pending past its deadline. -/
theorem selected_of_pending {row : Party} {now : ℤ} {rows : List (String × String)} {w' : World}
    (hrow : row ∈ w.partyRows agreementPda) (hpending : row.status = .pendingSignatures)
    (hdue : row.expiresAt < now)
    (hscan : perform (.sql (.party (.due now))) (.ok rows) w = some w') :
    (agreementPda, row.creatorPubkey) ∈ rows := by
  obtain ⟨-, -, db, hexec, -⟩ := performSql_eq_some.mp hscan
  obtain ⟨parties, hparties, -⟩ := Option.map_eq_some_iff.mp hexec
  obtain ⟨hperm, -⟩ := provided_eq_some.mp hparties
  obtain ⟨hmem, hpda⟩ := mem_partyRows.mp hrow
  refine hperm.mem_iff.mpr (List.mem_dedup.mpr (List.mem_map.mpr ⟨row, ?_, by rw [hpda]⟩))
  exact List.mem_filter.mpr ⟨hmem, by simp [hpending, hdue]⟩

/-- **Leaked locks.**  If, while rows are 'expiring', no update that gives the lock back fails and
no worker is stopped before its transaction was accepted, an agreement stays 'expiring' only if a
transaction for it was accepted, and is selected again otherwise. -/
theorem releases_lock (h : ExpiryHistory (fun _ => False) ⟨w, []⟩ events pool)
    (hstart : ∀ row ∈ w.partyRows agreementPda, row.status ≠ .expiring)
    (hgives : Meets (GivesBack agreementPda w) events) :
    ReleasesLock agreementPda events pool.world := by
  have howned := owned_of_history h hstart hgives
  constructor
  · rintro hnobody ⟨row, hrow, hexpiring⟩
    rcases howned.owner with ⟨i, hi⟩ | haccepted | hnone
    · exact absurd hi (hnobody i)
    · exact haccepted
    · exact absurd hexpiring (hnone row hrow)
  · intro hnobody hnot row hrow hopen now hdue rows w' hscan
    rcases howned.owner with ⟨i, hi⟩ | haccepted | hnone
    · exact absurd hi (hnobody i)
    · exact absurd haccepted hnot
    · refine selected_of_pending hrow ?_ hdue hscan
      -- not expiring and not closed, so pending
      have hexpiring := hnone row hrow
      cases hstatus : row.status with
      | pendingSignatures => rfl
      | expiring => exact absurd hstatus hexpiring
      | cancelled => exact absurd (Or.inl hstatus) hopen
      | expired => exact absurd (Or.inr hstatus) hopen

end Leaks

/-! ### A worker that stops, and one that does not -/

/-- A worker whose submission fails gives the lock back. -/
def failingSubmission : List (Move Op Op.Ans World) :=
  .start expiryCycle :: List.replicate 6 (.run 0 (cooperate 1))

/-- A worker is stopped right after it took the lock. -/
def stoppedWorker : List (Move Op Op.Ans World) :=
  .start expiryCycle :: List.replicate 3 (.run 0 (cooperate 1)) ++ [.drop 0]

theorem failingSubmission_entry :
    ∀ p, .start p ∈ failingSubmission → ExpiryEntry (fun _ => False) p := by
  intro p hp
  simp only [failingSubmission, List.mem_cons, Move.start.injEq, List.mem_replicate, reduceCtorEq,
    and_false, or_false] at hp
  exact hp ▸ expiryCycle_entry _

theorem stoppedWorker_entry :
    ∀ p, .start p ∈ stoppedWorker → ExpiryEntry (fun _ => False) p := by
  intro p hp
  simp only [stoppedWorker, List.cons_append, List.mem_cons, Move.start.injEq, List.mem_append,
    List.mem_replicate, reduceCtorEq, and_false, List.not_mem_nil, or_false] at hp
  exact hp ▸ expiryCycle_entry _

/-- An agreement past its deadline that Alice has not signed. -/
def dueWorld : World := World.ofDb (dueDb [(aliceKey, none)])

theorem dueWorld_pending : ∀ row ∈ dueWorld.partyRows "A", row.status ≠ .expiring := by decide

theorem releases_lock_failing_submission : ∃ events pool,
    ExpiryHistory (fun _ => False) ⟨dueWorld, []⟩ events pool ∧
    (∀ i, ¬ Inside "A" events i) ∧ ReleasesLock "A" events pool.world := by
  obtain ⟨events, pool, hhistory, htest⟩ := expiryHistory_of_record _ dueWorld failingSubmission
    (fun events pool => pool.threads.length = 1 && !decide (Inside "A" events 0) &&
      events.all (eventTest (fun step => !stmtFailed step) false))
    failingSubmission_entry (by decide +kernel)
  simp only [Bool.and_eq_true, decide_eq_true_eq, Bool.not_eq_true', decide_eq_false_iff_not,
    List.all_eq_true] at htest
  obtain ⟨⟨hone, houtside⟩, hfaultless⟩ := htest
  refine ⟨events, pool, hhistory, fun i hi => ?_, releases_lock hhistory dueWorld_pending ?_⟩
  · have hlt := lt_of_inside hhistory hi
    obtain rfl : i = 0 := by omega
    exact houtside hi
  · rintro before event after rfl
    have hevent := hfaultless event (by simp)
    cases event with
    | ran i step =>
        intro _ hfailed
        rw [eventTest, hfailed] at hevent
        cases hevent
    | stopped i => cases hevent

/-- A worker that is stopped after taking the lock leaves the agreement 'expiring'. -/
theorem stopped_worker_leaks_lock :
    ¬ ∀ (agreementPda : String) (w : World) (events : List BackendEvent)
      (pool : Pool Op Op.Ans World), ExpiryHistory (fun _ => False) ⟨w, []⟩ events pool →
      (∀ row ∈ w.partyRows agreementPda, row.status ≠ .expiring) →
      ReleasesLock agreementPda events pool.world := by
  intro hclaim
  obtain ⟨events, pool, hhistory, htest⟩ := expiryHistory_of_record _ dueWorld stoppedWorker
    (fun events pool => pool.threads.length = 1 && !decide (Inside "A" events 0) &&
      (pool.world.partyRows "A").any (fun row => row.status = .expiring) &&
      events.all (eventTest (fun step => !acceptsTransaction step) true))
    stoppedWorker_entry (by decide +kernel)
  simp only [Bool.and_eq_true, decide_eq_true_eq, Bool.not_eq_true', decide_eq_false_iff_not,
    List.all_eq_true, List.any_eq_true] at htest
  obtain ⟨⟨⟨hone, houtside⟩, hexpiring⟩, hnone⟩ := htest
  have hnobody : ∀ i, ¬ Inside "A" events i := by
    intro i hi
    have hlt := lt_of_inside hhistory hi
    obtain rfl : i = 0 := by omega
    exact houtside hi
  obtain ⟨before, i, step, after, rfl, haccepts, -⟩ :=
    (hclaim "A" dueWorld events pool hhistory dueWorld_pending).expiring hnobody hexpiring
  -- no transaction was sent at all
  have hstep := hnone (.ran i step) (by simp)
  rw [eventTest, haccepts] at hstep
  cases hstep

end PactumCodex
