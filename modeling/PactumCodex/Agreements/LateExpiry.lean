import PactumCodex.Agreements.Completion
import PactumCodex.Agreements.ExpiryRuns

/-!
# Expiry of signed agreements

The expiry worker selects and locks by the status column alone, and signatures are
recorded in `signed_at`.  As the rows of a completed agreement stay pending, the
worker submits an `expire_agreement` transaction for it once the deadline has
passed.  It does not as long as it never locks a signed agreement, and none is
signed by its last party just after it was locked.

A program gets to the call by taking the lock (`executes_of_locked`), and at that
time some party has still to sign, by the condition.  `CallsUnsigned` keeps this for
every program that is about to call: only its own signature could change it
(`unsigned_step`), and the condition excludes the one of the last party.
-/

namespace PactumCodex

open Interaction Relational

/-- `submit_expire_transaction` is never called while every party row of the agreement is signed. -/
def SparesSigned (agreementPda : String) (events : List BackendEvent) : Prop :=
  ∀ i step, .ran i step ∈ events → ∀ creator, step.op = .expireCall agreementPda creator →
    ¬ AllSigned (step.pre.partyRows agreementPda)

/-- The agreement is locked only while a party has still to sign, and between the lock and the call
its last party does not sign. -/
def LocksUnsigned (agreementPda : String) (past : List BackendEvent) : BackendEvent → Prop
  | .ran _ step =>
      (∀ rowsAffected, Executes step (.party (.lockForExpiry agreementPda)) rowsAffected →
        0 < rowsAffected → ¬ AllSigned (step.pre.partyRows agreementPda)) ∧
      ∀ now signer result, Executes step (.party (.sign now agreementPda signer)) result →
        (∃ i, expiryPhase i past = .locked agreementPda) →
          ∃ row ∈ step.pre.partyRows agreementPda, row.partyPubkey ≠ signer ∧ row.signedAt = none
  | .stopped _ => True

section LateExpiry

variable {fixed : String → Prop} {agreementPda : String} {w : World}
  {past events : List BackendEvent}
variable {pool : Pool Op Op.Ans World} {i : ℕ} {step : BackendStep} {phase : ExpiryPhase}

/-- A program gets to the call by taking the lock. -/
theorem executes_of_locked (hallowed : phase.Allows fixed step.op)
    (h : phase.next step.op step.ans = .locked agreementPda) :
    ∃ rowsAffected, 0 < rowsAffected ∧
      Executes step (.party (.lockForExpiry agreementPda)) rowsAffected := by
  obtain ⟨w, op, answer, w'⟩ := step
  -- of all operations only a lock that was obtained leads into this phase
  cases op with
  | sendTransaction tx =>
      obtain ⟨other, rfl⟩ : ∃ other, phase = .submitting other := hallowed
      cases answer with
      | ok signature => cases h
      | error e => cases h
  | expireCall other creator => cases h
  | expireReturn other result =>
      cases result with
      | ok signature => cases h
      | error e => cases h
  | sql s =>
      cases s with
      | party s =>
          cases s with
          | insert => exact absurd (hallowed.1.symm.trans h) nofun
          | setStatus => exact absurd (hallowed.1.symm.trans h) nofun
          | unlockFromExpiry other => cases h
          | lockForExpiry other =>
              obtain rfl : phase = .outside := hallowed
              cases answer with
              | error e => cases h
              | ok rowsAffected =>
                  by_cases htaken : 0 < rowsAffected
                  · rw [ExpiryPhase.next, if_pos htaken] at h
                    obtain rfl := ExpiryPhase.locked.inj h
                    exact ⟨rowsAffected, htaken, rfl⟩
                  · rw [ExpiryPhase.next, if_neg htaken] at h
                    cases h
          | _ => exact absurd h (hallowed agreementPda)
      | _ => exact absurd h (hallowed agreementPda)
  | _ => exact absurd h (hallowed agreementPda)

theorem not_allSigned_iff {rows : List Party} :
    ¬ AllSigned rows ↔ ∃ row ∈ rows, row.signedAt = none := by
  simp [AllSigned]

/-- Only signatures are written to `signed_at`. -/
theorem PartyStmt.onRow_signedAt {s : PartyStmt} (hs : ∀ now pda signer, s ≠ .sign now pda signer)
    (row : Party) : (s.onRow row).signedAt = row.signedAt := by
  cases s with
  | sign now pda signer => exact absurd rfl (hs now pda signer)
  | setStatus status pda =>
      simp only [PartyStmt.onRow]
      split <;> rfl
  | lockForExpiry pda =>
      simp only [PartyStmt.onRow]
      split <;> rfl
  | unlockFromExpiry pda =>
      simp only [PartyStmt.onRow]
      split <;> rfl
  | _ => rfl

/-- A party that has still to sign has it after every step but its own signature. -/
theorem unsigned_step (hvalid : step.Valid perform)
    (hsign : ∀ now signer result, Executes step (.party (.sign now agreementPda signer)) result →
      ∃ row ∈ step.pre.partyRows agreementPda, row.partyPubkey ≠ signer ∧ row.signedAt = none)
    (h : ¬ AllSigned (step.pre.partyRows agreementPda)) :
    ¬ AllSigned (step.post.partyRows agreementPda) := by
  rw [not_allSigned_iff] at h ⊢
  obtain ⟨row, hrow, hunsigned⟩ := h
  rcases partyRows_step agreementPda hvalid with hsame | ⟨s, out, hexecutes, hrows⟩
  · exact ⟨row, hsame ▸ hrow, hunsigned⟩
  rw [hrows]
  cases s with
  | insert party pda creator now =>
      obtain ⟨extra, hextra, -, -⟩ := onRows_insert agreementPda party pda creator now
        (step.pre.partyRows agreementPda)
      exact ⟨row, hextra ▸ List.mem_append_left _ hrow, hunsigned⟩
  | sign now pda signer =>
      by_cases hpda : pda = agreementPda
      · -- another party is unsigned, and stays so
        subst hpda
        obtain ⟨other, hother, hparty, hnone⟩ := hsign now signer out hexecutes
        refine ⟨_, List.mem_map_of_mem hother, ?_⟩
        rw [PartyStmt.onRow, if_neg fun h => hparty h.2]
        exact hnone
      · refine ⟨_, List.mem_map_of_mem hrow, ?_⟩
        rw [PartyStmt.onRow, if_neg fun h => hpda (h.1.symm.trans (mem_partyRows.mp hrow).2)]
        exact hunsigned
  | _ =>
      refine ⟨_, List.mem_map_of_mem hrow, (PartyStmt.onRow_signedAt ?_ row).trans hunsigned⟩
      intro now pda signer h
      cases h

/-- A program that is about to call finds a party that has still to sign. -/
structure CallsUnsigned (agreementPda : String) (events : List BackendEvent)
    (w : World) : Prop where
  locked : (∃ i, expiryPhase i events = .locked agreementPda) →
    ¬ AllSigned (w.partyRows agreementPda)
  spares : SparesSigned agreementPda events

theorem CallsUnsigned.ran (h : CallsUnsigned agreementPda past step.pre)
    (hvalid : step.Valid perform) (hallowed : (expiryPhase i past).Allows fixed step.op)
    (hlocks : LocksUnsigned agreementPda past (.ran i step)) :
    CallsUnsigned agreementPda (past ++ [.ran i step]) step.post := by
  obtain ⟨hlock, hsign⟩ := hlocks
  constructor
  · rintro ⟨j, hj⟩
    rw [expiryPhase, phase_ran] at hj
    by_cases hij : i = j
    · rw [if_pos hij] at hj
      subst hij
      obtain ⟨rowsAffected, htaken, hexecutes⟩ := executes_of_locked hallowed hj
      refine unsigned_step hvalid (fun now signer result hsigns => ?_) (hlock _ hexecutes htaken)
      rw [Executes, hexecutes] at hsigns
      cases congrArg Step.op hsigns
    · rw [if_neg hij] at hj
      exact unsigned_step hvalid (fun now signer result hsigns =>
        hsign now signer result hsigns ⟨j, hj⟩) (h.locked ⟨j, hj⟩)
  · intro j later hmem creator hop
    rcases List.mem_append.mp hmem with hmem | hlast
    · exact h.spares j later hmem creator hop
    · obtain ⟨-, rfl⟩ := Event.ran.inj (List.mem_singleton.mp hlast)
      rw [hop] at hallowed
      exact h.locked ⟨i, hallowed⟩

/-- **Late expiry.**  If the agreement is locked only while a party has still to sign, and its last
party does not sign between a lock and the call, no expiry is submitted for it once all have
signed. -/
theorem spares_signed_agreements (h : ExpiryHistory (fun _ => False) ⟨w, []⟩ events pool)
    (hlocks : Meets (LocksUnsigned agreementPda) events) : SparesSigned agreementPda events := by
  have hcalls : CallsUnsigned agreementPda events pool.world := by
    refine expiryHistory_invariant (LocksUnsigned agreementPda) (CallsUnsigned agreementPda)
      ⟨?_, ?_⟩ ?_ ?_ h hlocks
    · rintro ⟨i, hi⟩
      cases hi
    · intro i step hmem
      cases hmem
    · intro past i step hvalid hallowed hlock hpast
      exact hpast.ran hvalid hallowed hlock
    · intro past i _ hpast
      refine ⟨?_, fun j step hmem => ?_⟩
      · rintro ⟨j, hj⟩
        rw [expiryPhase, phase_stopped] at hj
        split at hj
        · cases hj
        · exact hpast.locked ⟨j, hj⟩
      · rcases List.mem_append.mp hmem with hmem | hlast
        · exact hpast.spares j step hmem
        · cases List.mem_singleton.mp hlast
  exact hcalls.spares

end LateExpiry

/-! ### Expiry before and after the last signature -/

/-- A party other than the one that signs, if any does, has still to sign. -/
def leavesUnsigned (agreementPda : String) (step : BackendStep) : Bool :=
  (step.pre.partyRows agreementPda).any fun row => row.signedAt = none &&
    match step.op with
    | .sql (.party (.sign _ _ signer)) => decide (row.partyPubkey ≠ signer)
    | _ => true

theorem locksUnsigned_of_test {agreementPda : String} {past : List BackendEvent}
    {event : BackendEvent} (h : eventTest (leavesUnsigned agreementPda) true event = true) :
    LocksUnsigned agreementPda past event := by
  cases event with
  | stopped i => trivial
  | ran i step =>
      obtain ⟨row, hrow, htest⟩ := List.any_eq_true.mp h
      rw [Bool.and_eq_true, decide_eq_true_eq] at htest
      obtain ⟨hunsigned, hparty⟩ := htest
      constructor
      · intro rowsAffected _ _
        exact not_allSigned_iff.mpr ⟨row, hrow, hunsigned⟩
      · intro now signer result hexecutes _
        rw [show step.op = .sql (.party (.sign now agreementPda signer)) from
          congrArg Step.op hexecutes, decide_eq_true_eq] at hparty
        exact ⟨row, hrow, hparty, hunsigned⟩

/-- Alice signs, and then a worker expires the agreement. -/
def signThenExpire (signatureSteps : ℕ) : List (Move Op Op.Ans World) :=
  [.start (Handler.logged (handleEvent (signedEvent "A" aliceKey))), .start expiryCycle] ++
    (List.replicate signatureSteps (.run 0 (cooperate 1)) ++
      List.replicate 4 (.run 1 (cooperate 1)))

theorem signThenExpire_entry {signatureSteps : ℕ} :
    ∀ p, .start p ∈ signThenExpire signatureSteps → ExpiryEntry (fun _ => False) p := by
  intro p hp
  simp only [signThenExpire, List.cons_append, List.nil_append, List.mem_cons, Move.start.injEq,
    List.mem_append, List.mem_replicate, reduceCtorEq, and_false, or_false] at hp
  rcases hp with rfl | rfl
  · exact .listener _ fun _ => id
  · exact expiryCycle_entry _

/-- The step calls `submit_expire_transaction` for the agreement. -/
def callsExpire (agreementPda : String) (step : BackendStep) : Bool :=
  match step.op with
  | .expireCall pda _ => pda = agreementPda
  | _ => false

theorem spares_signed_agreements_two_parties : ∃ events pool,
    ExpiryHistory (fun _ => False)
      ⟨World.ofDb (dueDb [(aliceKey, none), (bobKey, none)]), []⟩ events pool ∧
    (∃ event ∈ events, eventTest (callsExpire "A") false event = true) ∧
    SparesSigned "A" events := by
  obtain ⟨events, pool, hhistory, htest⟩ := expiryHistory_of_record _
    (World.ofDb (dueDb [(aliceKey, none), (bobKey, none)])) (signThenExpire 8)
    (fun events _ => events.all (eventTest (leavesUnsigned "A") true) &&
      events.any (eventTest (callsExpire "A") false)) signThenExpire_entry (by decide +kernel)
  simp only [Bool.and_eq_true, List.all_eq_true, List.any_eq_true] at htest
  refine ⟨events, pool, hhistory, htest.2, spares_signed_agreements hhistory ?_⟩
  rintro before event after rfl
  exact locksUnsigned_of_test (htest.1 event (by simp))

/-- An expiry is submitted for an agreement whose only party has signed. -/
theorem signed_agreement_expired :
    ¬ ∀ (agreementPda : String) (w : World) (events : List BackendEvent)
      (pool : Pool Op Op.Ans World), ExpiryHistory (fun _ => False) ⟨w, []⟩ events pool →
      (∀ row ∈ w.partyRows agreementPda, row.signedAt = none) →
      SparesSigned agreementPda events := by
  intro hclaim
  obtain ⟨events, pool, hhistory, htest⟩ := expiryHistory_of_record _
    (World.ofDb (dueDb [(aliceKey, none)])) (signThenExpire 7)
    (fun events _ => events.any (eventTest (fun step => callsExpire "A" step &&
      (step.pre.partyRows "A").all fun row => row.signedAt.isSome) false))
    signThenExpire_entry (by decide +kernel)
  obtain ⟨event, hmem, hevent⟩ := List.any_eq_true.mp htest
  have hspares := hclaim "A" _ events pool hhistory (by decide)
  cases event with
  | stopped i => cases hevent
  | ran i step =>
      rw [eventTest, Bool.and_eq_true] at hevent
      obtain ⟨hcall, hsigned⟩ := hevent
      obtain ⟨creator, hop⟩ : ∃ creator, step.op = .expireCall "A" creator := by
        unfold callsExpire at hcall
        split at hcall
        · rename_i pda creator hop
          obtain rfl := of_decide_eq_true hcall
          exact ⟨creator, hop⟩
        · cases hcall
      exact hspares i step hmem creator hop (List.all_eq_true.mp hsigned)

end PactumCodex
