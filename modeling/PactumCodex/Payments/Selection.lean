import PactumCodex.Payments.Reads
import PactumCodex.Replay

/-!
# Refunds the worker can find

The refund worker selects a `refund_pending` payment only through a join with
the party rows of its agreement.  `submit_draft` writes `agreement_pda` to
confirmed payments only, so a payment that was confirmed late reaches
`refund_pending` without it, and an agreement whose `CreateAgreement` event was
not processed has no party rows.  No other step takes a payment out of reach.
-/

namespace PactumCodex

open Interaction Relational

/-- The agreement has a party row. -/
def HasParty (db : Db) (agreementPda : String) : Prop :=
  ∃ party ∈ db.parties.rows, party.agreementPda = agreementPda

/-- Every `refund_pending` payment meets the condition of the worker's query, but for its
`LIMIT`. -/
def RefundsSelectable (db : Db) : Prop :=
  ∀ payment ∈ db.payments.rows, payment.status = .refundPending →
    ∃ row ∈ db.refundJoin, row.id = payment.id

instance : DecidablePred RefundsSelectable := fun _ =>
  inferInstanceAs (Decidable (∀ payment ∈ _, _ → ∃ row ∈ _, _))

/-- A late payment is queued only with its `agreement_pda` set, and no payment is queued before
its agreement has a party row. -/
def QueuesSelectable (step : BackendStep) : Prop :=
  ∀ id payment, step.pre.db.payment? id = some payment →
    (Reconciles id step → payment.agreementPda.isSome) ∧
    (QueuesRefund id step → ∀ agreementPda, payment.agreementPda = some agreementPda →
      HasParty step.pre.db agreementPda)

/-- A payment is joined if its agreement has a party row. -/
theorem exists_mem_refundJoin {db : Db} {payment : Payment} (hmem : payment ∈ db.payments.rows)
    (hstatus : payment.status = .refundPending) :
    (∃ row ∈ db.refundJoin, row.id = payment.id) ↔
      ∃ agreementPda, payment.agreementPda = some agreementPda ∧ HasParty db agreementPda := by
  constructor
  · rintro ⟨row, hrow, hid⟩
    obtain ⟨other, hother, -, party, hparty, hpda, rfl⟩ := mem_refundJoin.mp hrow
    obtain rfl : other = payment := eq_of_key_eq db.payments.valid.1 hother hmem hid
    exact ⟨party.agreementPda, hpda, party, hparty, rfl⟩
  · rintro ⟨agreementPda, hpda, party, hparty, rfl⟩
    exact ⟨_, mem_refundJoin.mpr ⟨payment, hmem, hstatus, party, hparty, hpda, rfl⟩, rfl⟩

theorem hasParty_step {step : BackendStep} (h : step.Valid perform) {agreementPda : String}
    (hpre : HasParty step.pre.db agreementPda) : HasParty step.post.db agreementPda := by
  obtain ⟨party, hparty, hpda⟩ := hpre
  obtain ⟨party', hparty', hpda'⟩ := party_step h hparty
  exact ⟨party', hparty', hpda'.trans hpda⟩

/-! ## Cancelled agreements -/

/-- The payment exists and belongs to an agreement. -/
def HasAgreement (id : Uuid) (w : World) : Prop :=
  ∃ payment, w.db.payment? id = some payment ∧ payment.agreementPda.isSome

/-- `initiate_refund_if_eligible` reads payments by their agreement. -/
def agreementReads : Reads where
  expired _ _ := True
  confirmed := HasAgreement
  selected _ _ _ := True

/-- `agreement_pda` is never set back to null. -/
theorem hasAgreement_step {step : BackendStep} {id : Uuid} (h : step.Valid perform)
    (hpre : HasAgreement id step.pre) : HasAgreement id step.post := by
  obtain ⟨payment, hpayment, hpda⟩ := hpre
  obtain ⟨payment', hpayment', hchange⟩ := payment?_step h hpayment
  refine ⟨payment', hpayment', ?_⟩
  cases hchange with
  | link agreementPda _ => rfl
  | _ => exact hpda

/-- In every interleaving, the payment of a cancelled or expired agreement is queued with its
`agreement_pda` set. -/
theorem initiates_hasAgreement {env : Env} {w w' : World} {steps : List BackendStep}
    (hrun : SystemRun env w steps w') {step : BackendStep} (hmem : step ∈ steps) {id : Uuid}
    (hinit : InitiatesRefund id step) : HasAgreement id step.pre := by
  have hkept : ∀ step, agreementReads.Respects step → agreementReads.Kept step.pre step.post :=
    fun step h => ⟨fun _ _ => trivial, fun _ => hasAgreement_step h.valid, fun _ _ _ => trivial⟩
  have hread : agreementReads.Established :=
    ⟨fun _ _ _ _ _ => trivial, fun _ _ payment hpayment _ hpda => ⟨payment, hpayment, hpda⟩,
      fun _ _ _ => trivial⟩
  exact (Reads.respects_of_run hkept hread hrun step hmem).confirmed id hinit

/-! ## The invariant -/

/-- A step that queues only what can be selected keeps every refund selectable. -/
theorem refundsSelectable_step {step : BackendStep} (h : step.Valid perform)
    (hqueues : QueuesSelectable step)
    (hagreement : ∀ id, InitiatesRefund id step → HasAgreement id step.pre)
    (hpre : RefundsSelectable step.pre.db) : RefundsSelectable step.post.db := by
  intro payment' hmem' hstatus'
  rw [exists_mem_refundJoin hmem' hstatus']
  obtain ⟨payment, hpayment, hchange⟩ :=
    payment?_step_back h (Db.payment?_eq_some.mpr ⟨hmem', rfl⟩)
  obtain ⟨hmem, -⟩ := Db.payment?_eq_some.mp hpayment
  have hfound := Db.payment?_eq_some.mpr ⟨hmem, rfl⟩
  -- a refund was due before, or the step queues it; other changes lead to another status
  cases hchange with
  | same =>
      obtain ⟨agreementPda, hpda, hparty⟩ :=
        (exists_mem_refundJoin hmem hstatus').mp (hpre _ hmem hstatus')
      exact ⟨agreementPda, hpda, hasParty_step h hparty⟩
  | queue now hqueue =>
      obtain ⟨hlate, hparty⟩ := hqueues _ payment hfound
      have hpda : payment.agreementPda.isSome := by
        rcases hqueue with hrec | hinit
        · exact hlate hrec
        · obtain ⟨found, hfound', hpda⟩ := hagreement _ hinit
          rw [hfound, Option.some.injEq] at hfound'
          exact hfound' ▸ hpda
      obtain ⟨agreementPda, hpda⟩ := Option.isSome_iff_exists.mp hpda
      exact ⟨agreementPda, hpda, hasParty_step h (hparty hqueue agreementPda hpda)⟩
  | confirm => simp at hstatus'
  | expire => simp at hstatus'
  | refund => simp at hstatus'
  | link _ hconfirmed => simp [hconfirmed] at hstatus'

/-- A queued payment that is selectable afterwards was joined before. -/
theorem queuesSelectable_of_selectable {step : BackendStep} (h : step.Valid perform)
    (hpost : RefundsSelectable step.post.db) : QueuesSelectable step := by
  intro id payment hpayment
  have hjoined : QueuesRefund id step → ∃ agreementPda,
      payment.agreementPda = some agreementPda ∧ HasParty step.pre.db agreementPda := by
    intro hqueue
    obtain ⟨now, hqueued⟩ := payment?_queued h hqueue hpayment
    obtain ⟨hmem, -⟩ := Db.payment?_eq_some.mp hqueued
    obtain ⟨agreementPda, hpda, hparty⟩ :=
      (exists_mem_refundJoin hmem rfl).mp (hpost _ hmem rfl)
    refine ⟨agreementPda, hpda, ?_⟩
    -- the queueing statement is about payments, so the party rows are the same
    rcases parties_step h with hsame | ⟨s, out, hstep, -⟩
    · rw [HasParty, ← hsame]
      exact hparty
    · exfalso
      rcases hqueue with hrec | hinit
      · obtain ⟨now', hop⟩ := hrec.op_eq
        rw [hstep] at hop
        simp at hop
      · obtain ⟨now', hop⟩ := hinit.op_eq
        rw [hstep] at hop
        simp at hop
  refine ⟨fun hrec => ?_, fun hqueue agreementPda hpda => ?_⟩
  · obtain ⟨agreementPda, hpda, -⟩ := hjoined (Or.inl hrec)
    simp [hpda]
  · obtain ⟨agreementPda', hpda', hparty⟩ := hjoined hqueue
    rw [hpda, Option.some.injEq] at hpda'
    exact hpda' ▸ hparty

/-- **No refund out of reach.**  Starting from pending payments, in every interleaving, every
`refund_pending` payment is selectable in every state exactly if late payments are queued only
with their `agreement_pda` set, and no payment is queued before its agreement has a party row. -/
theorem refunds_selectable_iff {env : Env} {w w' : World} {steps : List BackendStep}
    (hpending : ∀ payment ∈ w.db.payments.rows, payment.status = .pending)
    (hrun : SystemRun env w steps w') :
    (RefundsSelectable w.db ∧ ∀ step ∈ steps, RefundsSelectable step.post.db) ↔
      ∀ step ∈ steps, QueuesSelectable step := by
  have hinit : RefundsSelectable w.db := by
    intro payment hmem hstatus
    rw [hpending payment hmem] at hstatus
    cases hstatus
  constructor
  · intro hall step hmem
    exact queuesSelectable_of_selectable (hrun.valid step hmem) (hall.2 step hmem)
  · intro hqueues
    have hagreement : ∀ step ∈ steps, ∀ id, InitiatesRefund id step → HasAgreement id step.pre :=
      fun step hmem id => initiates_hasAgreement hrun hmem
    obtain ⟨threads, hpool⟩ := hrun
    have hinv :=
      hpool.chain.invariant (fun w => RefundsSelectable w.db) hinit fun step hmem hvalid =>
      refundsSelectable_step hvalid (hqueues step hmem) (hagreement step hmem)
    exact ⟨hinit, fun step hmem => (hinv.2 step hmem).2⟩

/-! ## A late payment -/

/-- The keeper expires a payment and finds it on chain afterwards. -/
def latePrograms : List (Backend Unit) := [expireTimedOutPayments, reconcileLatePayments sampleEnv]

theorem latePrograms_entry : ∀ p ∈ latePrograms, Entry sampleEnv p := by
  simp only [latePrograms, List.forall_mem_cons, List.not_mem_nil, false_implies, implies_true,
    and_true]
  exact ⟨.expireTimedOutPayments, .reconcileLatePayments⟩

theorem late_payment_not_selectable :
    ¬ ∀ (env : Env) (w w' : World) (steps : List BackendStep),
      (∀ payment ∈ w.db.payments.rows, payment.status = .pending) → SystemRun env w steps w' →
      ∀ step ∈ steps, RefundsSelectable step.post.db := by
  intro hclaim
  obtain ⟨steps, w', hrun, htest⟩ := systemRun_of_replay (World.ofDb (onePaymentDb samplePayment))
    ([0, 0, 1, 1, 1, 1, 1].map fun i => (i, cooperate 1000))
    (fun steps _ => decide ¬ ∀ step ∈ steps, RefundsSelectable step.post.db) latePrograms_entry
    (by decide +kernel)
  exact of_decide_eq_true htest (hclaim sampleEnv _ w' steps (by decide) hrun)

theorem refunds_selectable_iff_cancelled :
    ∃ steps w', SystemRun sampleEnv (World.ofDb (onePaymentDb linkedPayment)) steps w' ∧
      (∃ step ∈ steps, ∃ payment ∈ step.post.db.payments.rows, payment.status = .refundPending) ∧
      ∀ step ∈ steps, QueuesSelectable step := by
  obtain ⟨steps, w', hrun, htest⟩ := systemRun_of_replay (World.ofDb (onePaymentDb linkedPayment))
    (orderlyUpdate.map fun i => (i, cooperate 0))
    (fun steps _ => decide ((∃ step ∈ steps, ∃ payment ∈ step.post.db.payments.rows,
      payment.status = .refundPending) ∧ RefundsSelectable (onePaymentDb linkedPayment) ∧
        ∀ step ∈ steps, RefundsSelectable step.post.db)) raceOfListeners_entry
    (by decide +kernel)
  obtain ⟨hqueued, hall⟩ := of_decide_eq_true htest
  exact ⟨steps, w', hrun, hqueued, (refunds_selectable_iff (by decide) hrun).mp hall⟩

end PactumCodex
