import PactumCodex.Agreements.ExpiryRuns

/-!
# The expiry lock

The lock of an agreement is the status 'expiring' of its rows.  A worker takes it
by an update of the pending rows, so as long as somebody is in the submission
section no row is pending, and nobody else gets in.  The listener's updates do not
break this: they only close rows, and closed rows are never opened again.

`LockedOnce` is the invariant: one program at most is in the section, and while it is,
no row is pending.  It is proved from the moves of `Agreements/ExpiryRuns`.  Taking the
lock needs a pending row, so nobody was in the section; giving it back makes rows
pending again, after its program has left the section.  Rows are not added while the
lock is held, because the agreement was created before.
-/

namespace PactumCodex

open Interaction Relational

/-! ## Closed rows -/

/-- An update keeps a closed row closed, if it only ever closes rows itself. -/
theorem PartyStmt.onRow_closed {s : PartyStmt} {row : Party} (hrow : row.status.Closed)
    (hs : ∀ status pda, s = .setStatus status pda → status.Closed) :
    (s.onRow row).status.Closed := by
  cases s with
  | setStatus status pda =>
      simp only [PartyStmt.onRow]
      split
      · exact hs status pda rfl
      · exact hrow
  | sign now pda signer =>
      simp only [PartyStmt.onRow]
      split <;> exact hrow
  | lockForExpiry pda =>
      rw [PartyStmt.onRow, if_neg]
      · exact hrow
      · rintro ⟨-, hpending⟩
        rw [hpending] at hrow
        rcases hrow with h | h <;> cases h
  | unlockFromExpiry pda =>
      rw [PartyStmt.onRow, if_neg]
      · exact hrow
      · rintro ⟨-, hexpiring⟩
        rw [hexpiring] at hrow
        rcases hrow with h | h <;> cases h
  | _ => exact hrow

section Lock

variable {fixed : String → Prop} {agreementPda : String}

/-- A closed row is still there after a step, and closed. -/
theorem closed_step {phase : ExpiryPhase} {step : BackendStep} {row : Party}
    (hvalid : step.Valid perform) (hallowed : phase.Allows fixed step.op)
    (hrow : row ∈ step.pre.partyRows agreementPda) (hclosed : row.status.Closed) :
    ∃ row' ∈ step.post.partyRows agreementPda,
      row'.partyPubkey = row.partyPubkey ∧ row'.status.Closed := by
  rcases partyRows_step agreementPda hvalid with hsame | ⟨s, out, hexecutes, hrows⟩
  · exact ⟨row, hsame ▸ hrow, rfl, hclosed⟩
  rw [hexecutes] at hallowed
  have hs : ∀ status pda, s = .setStatus status pda → status.Closed := by
    rintro status pda rfl
    exact hallowed.2
  rw [hrows]
  by_cases hinsert : ∃ party pda creator now, s = .insert party pda creator now
  · obtain ⟨party, pda, creator, now, rfl⟩ := hinsert
    obtain ⟨extra, hextra, -, -⟩ := onRows_insert agreementPda party pda creator now
      (step.pre.partyRows agreementPda)
    exact ⟨row, hextra ▸ List.mem_append_left _ hrow, rfl, hclosed⟩
  · refine ⟨s.onRow row, ?_, PartyStmt.onRow_partyPubkey s row, PartyStmt.onRow_closed hclosed hs⟩
    have hmap : s.onRows agreementPda (step.pre.partyRows agreementPda) =
        (step.pre.partyRows agreementPda).map s.onRow := by
      cases s with
      | insert party pda creator now => exact absurd ⟨party, pda, creator, now, rfl⟩ hinsert
      | _ => rfl
    rw [hmap]
    exact List.mem_map_of_mem hrow

/-! ## One worker at a time -/

/-- One program at most is in the section, and while it is, no row is pending. -/
structure LockedOnce (agreementPda : String) (events : List BackendEvent) (w : World) : Prop where
  unique : ∀ i j, Inside agreementPda events i → Inside agreementPda events j → i = j
  taken : ∀ i, Inside agreementPda events i →
    ∀ row ∈ w.partyRows agreementPda, row.status ≠ .pendingSignatures

variable {past : List BackendEvent} {i : ℕ} {step : BackendStep} {w : World}

/-- Nobody is in the section after its only program has left it. -/
theorem LockedOnce.left (h : LockedOnce agreementPda past step.pre)
    (hwas : Inside agreementPda past i)
    (hnow : (expiryPhase i past).next step.op step.ans = .outside) (j : ℕ) :
    ¬ Inside agreementPda (past ++ [.ran i step]) j := by
  intro hj
  by_cases hij : i = j
  · subst hij
    rw [inside_ran_self, hnow] at hj
    cases hj
  · exact hij (h.unique i j hwas ((inside_ran_ne hij).mp hj))

/-- Every move keeps the lock. -/
theorem LockedOnce.move (h : LockedOnce agreementPda past step.pre) (hfixed : fixed agreementPda)
    (hmove : ExpiryMove fixed agreementPda (expiryPhase i past) step) :
    LockedOnce agreementPda (past ++ [.ran i step]) step.post := by
  cases hmove with
  | quiet hinside hrows =>
      have hsame : ∀ j, Inside agreementPda (past ++ [.ran i step]) j ↔
          Inside agreementPda past j := by
        intro j
        by_cases hij : i = j
        · subst hij
          rw [inside_ran_self]
          exact hinside
        · exact inside_ran_ne hij
      refine ⟨fun j k hj hk => h.unique j k ((hsame j).mp hj) ((hsame k).mp hk), ?_⟩
      intro j hj row hmem hpending
      rcases hrows row hmem with hclosed | ⟨-, hnew⟩ | ⟨old, hold, hstatus⟩
      · rw [hpending] at hclosed
        rcases hclosed with hc | hc <;> cases hc
      · exact hnew hfixed
      · exact h.taken j ((hsame j).mp hj) old hold (hstatus.trans hpending)
  | locks hphase hnext hpending hrows =>
      -- a row was pending, so nobody was in the section
      obtain ⟨row, hmem, hstatus⟩ := hpending
      have honly : ∀ j, Inside agreementPda (past ++ [.ran i step]) j → i = j := by
        intro j hj
        by_contra hij
        exact h.taken j ((inside_ran_ne hij).mp hj) row hmem hstatus
      exact ⟨fun j k hj hk => (honly j hj).symm.trans (honly k hk), fun _ _ => hrows⟩
  | unlocks hphase hnext _ _ _ =>
      have hnobody := h.left (i := i) (congrArg ExpiryPhase.inside hphase) hnext
      exact ⟨fun j _ hj => absurd hj (hnobody j), fun j hj => absurd hj (hnobody j)⟩
  | finishes hphase hnext _ =>
      have hnobody := h.left (i := i) (congrArg ExpiryPhase.inside hphase) hnext
      exact ⟨fun j _ hj => absurd hj (hnobody j), fun j hj => absurd hj (hnobody j)⟩

/-- The lock works throughout a history. -/
theorem lockedOnce_of_history {events : List BackendEvent} {pool : Pool Op Op.Ans World}
    (h : ExpiryHistory fixed ⟨w, []⟩ events pool) (hfixed : fixed agreementPda) :
    LockedOnce agreementPda events pool.world := by
  refine expiryHistory_invariant (fun _ _ => True) (LockedOnce agreementPda) ⟨?_, ?_⟩ ?_ ?_ h
    fun _ _ _ _ => trivial
  · intro i j hi
    cases hi
  · intro i hi
    cases hi
  · intro past i step hvalid hallowed _ hpast
    exact hpast.move hfixed (expiryMove_of_allowed hvalid hallowed)
  · intro past i _ hpast
    refine ⟨fun j k hj hk => ?_, fun j hj => ?_⟩
    · exact hpast.unique j k (inside_stopped.mp hj).2 (inside_stopped.mp hk).2
    · exact hpast.taken j (inside_stopped.mp hj).2

/-- Rows that were closed after some step are still closed. -/
theorem closed_of_history {events : List BackendEvent} {pool : Pool Op Op.Ans World}
    (h : ExpiryHistory fixed ⟨w, []⟩ events pool) {i : ℕ} {step : BackendStep}
    (hstep : .ran i step ∈ events) {row : Party} (hrow : row ∈ step.post.partyRows agreementPda)
    (hclosed : row.status.Closed) :
    ∃ row' ∈ pool.world.partyRows agreementPda,
      row'.partyPubkey = row.partyPubkey ∧ row'.status.Closed := by
  refine expiryHistory_invariant (fun _ _ => True) (fun events w => .ran i step ∈ events →
    ∃ row' ∈ w.partyRows agreementPda, row'.partyPubkey = row.partyPubkey ∧ row'.status.Closed)
    nofun ?_ ?_ h (fun _ _ _ _ => trivial) hstep
  · intro past j later hvalid hallowed _ hpast hmem
    rcases List.mem_append.mp hmem with hmem | hlast
    · obtain ⟨row', hrow', hparty, hclosed'⟩ := hpast hmem
      obtain ⟨row'', hrow'', hparty', hclosed''⟩ := closed_step hvalid hallowed hrow' hclosed'
      exact ⟨row'', hrow'', hparty'.trans hparty, hclosed''⟩
    · obtain ⟨-, rfl⟩ := Event.ran.inj (List.mem_singleton.mp hlast)
      exact ⟨row, hrow, rfl, hclosed⟩
  · intro past j _ hpast hmem
    rcases List.mem_append.mp hmem with hmem | hlast
    · exact hpast hmem
    · cases List.mem_singleton.mp hlast

/-- **Expiry lock.**  One worker at most is between a lock that it obtained and the end of its
submission, and rows that were closed are never pending or expiring again. -/
theorem expiry_lock_exclusive {events : List BackendEvent} {pool : Pool Op Op.Ans World}
    (h : ExpiryHistory (· = agreementPda) ⟨w, []⟩ events pool) :
    (∀ i j, Inside agreementPda events i → Inside agreementPda events j → i = j) ∧
    ∀ i step, .ran i step ∈ events → ∀ row ∈ step.post.partyRows agreementPda,
      row.status.Closed → ∀ row' ∈ pool.world.partyRows agreementPda,
        row'.partyPubkey = row.partyPubkey → row'.status.Closed := by
  refine ⟨(lockedOnce_of_history h rfl).unique, ?_⟩
  intro i step hstep row hrow hclosed row' hrow' hparty
  obtain ⟨found, hfound, hsame, hstill⟩ := closed_of_history h hstep hrow hclosed
  rw [partyRows_unique hrow' hfound (hparty.trans hsame.symm)]
  exact hstill

end Lock

/-- Two workers scan; the first gets the lock, the second does not.  Then the agreement is
cancelled. -/
def racingWorkers : List (Move Op Op.Ans World) :=
  [.start expiryCycle, .start expiryCycle,
    .start (Handler.logged (handleEvent ⟨.cancelAgreement, "A", none, none, []⟩))] ++
  [0, 1, 0, 1, 0, 1, 2].map fun i => .run i (cooperate 1)

theorem expiry_lock_exclusive_two_workers : ∃ events pool,
    ExpiryHistory (· = "A") ⟨World.ofDb (dueDb [(aliceKey, none)]), []⟩ events pool ∧
    Inside "A" events 0 ∧
    (∀ i j, Inside "A" events i → Inside "A" events j → i = j) ∧
    ∀ i step, .ran i step ∈ events → ∀ row ∈ step.post.partyRows "A",
      row.status.Closed → ∀ row' ∈ pool.world.partyRows "A",
        row'.partyPubkey = row.partyPubkey → row'.status.Closed := by
  have hentry : ∀ p, .start p ∈ racingWorkers → ExpiryEntry (· = "A") p := by
    intro p hp
    simp only [racingWorkers, List.map_cons, List.map_nil, List.cons_append, List.nil_append,
      List.mem_cons, Move.start.injEq, reduceCtorEq, List.not_mem_nil, or_false] at hp
    rcases hp with rfl | rfl | rfl
    · exact expiryCycle_entry _
    · exact expiryCycle_entry _
    · exact .listener _ nofun
  obtain ⟨events, pool, hhistory, htest⟩ := expiryHistory_of_record (· = "A")
    (World.ofDb (dueDb [(aliceKey, none)])) racingWorkers
    (fun events _ => Inside "A" events 0) hentry (by decide +kernel)
  exact ⟨events, pool, hhistory, of_decide_eq_true htest, expiry_lock_exclusive hhistory⟩

end PactumCodex
