import PactumCodex.Payments.Reads
import PactumCodex.Replay

/-!
# The status machine of payments

Every change of a payment's status should follow

  pending → confirmed | expired,  confirmed | expired → refund_pending → refunded.

All statements but two check the status in the row they update.  The two that
queue a refund update by id, so they rely on a status read earlier; it cannot
have gone back to `pending` since, but it can have moved on to `refunded`.
-/

namespace PactumCodex

open Interaction Relational

/-- The changes of the payment status machine. -/
def PaymentStatus.movesTo : PaymentStatus → PaymentStatus → Bool
  | .pending, .confirmed => true
  | .pending, .expired => true
  | .expired, .refundPending => true
  | .confirmed, .refundPending => true
  | .refundPending, .refunded => true
  | _, _ => false

/-- Every payment keeps its status in the step or changes it along the machine. -/
def LegalStep (step : BackendStep) : Prop :=
  ∀ payment ∈ step.pre.db.payments.rows, ∀ payment' ∈ step.post.db.payments.rows,
    payment'.id = payment.id →
      payment'.status = payment.status ∨ payment.status.movesTo payment'.status

instance : DecidablePred LegalStep := fun _ =>
  inferInstanceAs (Decidable (∀ payment ∈ _, ∀ payment' ∈ _, _ → _ ∨ _))

/-- No refund is queued for a payment that is already refunded. -/
def QueuesUnrefunded (step : BackendStep) : Prop :=
  ∀ id payment, QueuesRefund id step → step.pre.db.payment? id = some payment →
    payment.status ≠ .refunded

/-! ## Payments that were read have left `pending` -/

/-- The payment exists and has left `pending`. -/
def NonPending (id : Uuid) (w : World) : Prop :=
  ∃ payment, w.db.payment? id = some payment ∧ payment.status ≠ .pending

/-- Both queueing programs read payments that are no longer `pending`. -/
def nonPendingReads : Reads where
  expired := NonPending
  confirmed := NonPending
  selected _ _ _ := True

/-- No step leads back to `pending`. -/
theorem nonPending_step {step : BackendStep} {id : Uuid} (h : step.Valid perform)
    (hpre : NonPending id step.pre) : NonPending id step.post := by
  obtain ⟨payment, hpayment, hstatus⟩ := hpre
  obtain ⟨payment', hpayment', hchange⟩ := payment?_step h hpayment
  refine ⟨payment', hpayment', ?_⟩
  cases hchange with
  | same => exact hstatus
  | confirm _ _ _ _ _ hpending => exact absurd hpending hstatus
  | expire hpending => exact absurd hpending hstatus
  | queue now _ => simp [Payment.queueRefund]
  | refund => simp
  | link _ hconfirmed => simp [hconfirmed]

theorem nonPendingReads_kept {step : BackendStep} (h : nonPendingReads.Respects step) :
    nonPendingReads.Kept step.pre step.post :=
  ⟨fun _ => nonPending_step h.valid, fun _ => nonPending_step h.valid, fun _ _ _ => trivial⟩

theorem nonPendingReads_established : nonPendingReads.Established where
  expired _ _ payment hpayment hstatus := ⟨payment, hpayment, by simp [hstatus]⟩
  confirmed _ _ payment hpayment hstatus _ := ⟨payment, hpayment, by simp [hstatus]⟩
  selected _ _ _ := trivial

/-- In every interleaving, a refund is queued only for a payment that has left `pending`. -/
theorem queues_nonPending {env : Env} {w w' : World} {steps : List BackendStep}
    (hrun : SystemRun env w steps w') {step : BackendStep} (hmem : step ∈ steps) {id : Uuid}
    (hqueue : QueuesRefund id step) : NonPending id step.pre := by
  have hrespects := Reads.respects_of_run (fun _ => nonPendingReads_kept)
    nonPendingReads_established hrun step hmem
  rcases hqueue with hrec | hinit
  · exact hrespects.expired id hrec
  · exact hrespects.confirmed id hinit

/-! ## Legal changes -/

/-- A change is legal unless it queues a refund of a payment that is pending or refunded. -/
theorem PaymentChange.legal {step : BackendStep} {payment payment' : Payment}
    (h : PaymentChange step payment payment')
    (hqueue : QueuesRefund payment.id step →
      payment.status ≠ .pending ∧ payment.status ≠ .refunded) :
    payment'.status = payment.status ∨ payment.status.movesTo payment'.status := by
  cases h with
  | same => exact Or.inl rfl
  | confirm _ _ _ _ _ hpending => simp [hpending, PaymentStatus.movesTo]
  | expire hpending => simp [hpending, PaymentStatus.movesTo]
  | queue now hqueues =>
      obtain ⟨hpending, hrefunded⟩ := hqueue hqueues
      cases hstatus : payment.status <;> simp_all [Payment.queueRefund, PaymentStatus.movesTo]
  | refund _ _ _ hrefundPending => simp [hrefundPending, PaymentStatus.movesTo]
  | link => exact Or.inl rfl

/-- Rows of one id are related by what the step did. -/
theorem paymentChange_of_mem {step : BackendStep} (h : step.Valid perform)
    {payment payment' : Payment} (hpayment : payment ∈ step.pre.db.payments.rows)
    (hpayment' : payment' ∈ step.post.db.payments.rows) (hid : payment'.id = payment.id) :
    PaymentChange step payment payment' := by
  obtain ⟨found, hfound, hchange⟩ := payment?_step h (Db.payment?_eq_some.mpr ⟨hpayment, rfl⟩)
  have hsame : step.post.db.payment? payment.id = some payment' :=
    Db.payment?_eq_some.mpr ⟨hpayment', hid⟩
  rw [hsame, Option.some.injEq] at hfound
  exact hfound ▸ hchange

/-- A step that queues a refund of a refunded payment is not legal. -/
theorem queuesUnrefunded_of_legal {step : BackendStep} (h : step.Valid perform)
    (hlegal : LegalStep step) : QueuesUnrefunded step := by
  intro id payment hqueue hpayment hrefunded
  obtain ⟨now, hpost⟩ := payment?_queued h hqueue hpayment
  obtain ⟨hmem, hid⟩ := Db.payment?_eq_some.mp hpayment
  have hstatus := hlegal payment hmem _ (Db.payment?_eq_some.mp hpost).1 rfl
  simp [Payment.queueRefund, hrefunded, PaymentStatus.movesTo] at hstatus

/-- **The status machine.**  In every interleaving of any number of programs, all changes of
payment statuses follow the machine exactly if no queueing `UPDATE` hits a payment that has been
refunded since it was read. -/
theorem status_changes_legal_iff {env : Env} {w w' : World} {steps : List BackendStep}
    (hrun : SystemRun env w steps w') :
    (∀ step ∈ steps, LegalStep step) ↔ ∀ step ∈ steps, QueuesUnrefunded step := by
  constructor
  · intro hlegal step hmem
    exact queuesUnrefunded_of_legal (hrun.valid step hmem) (hlegal step hmem)
  · intro hqueues step hmem payment hpayment payment' hpayment' hid
    have hchange := paymentChange_of_mem (hrun.valid step hmem) hpayment hpayment' hid
    refine hchange.legal fun hqueue => ?_
    have hfound := Db.payment?_eq_some.mpr ⟨hpayment, rfl⟩
    obtain ⟨found, hfound', hstatus⟩ := queues_nonPending hrun hmem hqueue
    rw [hfound, Option.some.injEq] at hfound'
    exact ⟨hfound' ▸ hstatus, hqueues step hmem _ payment hqueue hfound⟩

/-! ## Two listeners and the refund worker -/

/-- Both listeners read the payment as confirmed; the second one updates it after the refund. -/
def lateUpdate : List ℕ :=
  [0, 0] ++ List.replicate 6 1 ++ List.replicate 6 2 ++ [1, 1] ++ List.replicate 8 3 ++ [2, 2]

theorem refunded_payment_queued_again :
    ¬ ∀ (env : Env) (w w' : World) (steps : List BackendStep),
      (∀ payment ∈ w.db.payments.rows, payment.status = .pending) →
      SystemRun env w steps w' → ∀ step ∈ steps, LegalStep step := by
  intro hclaim
  obtain ⟨steps, w', hrun, htest⟩ := systemRun_of_replay (World.ofDb (onePaymentDb linkedPayment))
    (lateUpdate.map fun i => (i, cooperate 0))
    (fun steps _ => decide ¬ ∀ step ∈ steps, LegalStep step) raceOfListeners_entry
    (by decide +kernel)
  exact of_decide_eq_true htest (hclaim sampleEnv _ w' steps (by decide) hrun)

theorem status_changes_legal_iff_orderly :
    ∃ steps w', SystemRun sampleEnv (World.ofDb (onePaymentDb linkedPayment)) steps w' ∧
      (∃ payment ∈ w'.db.payments.rows, payment.status = .refunded) ∧
      ∀ step ∈ steps, QueuesUnrefunded step := by
  obtain ⟨steps, w', hrun, htest⟩ := systemRun_of_replay (World.ofDb (onePaymentDb linkedPayment))
    (orderlyUpdate.map fun i => (i, cooperate 0))
    (fun steps w' => decide ((∃ payment ∈ w'.db.payments.rows, payment.status = .refunded) ∧
      ∀ step ∈ steps, LegalStep step)) raceOfListeners_entry
    (by decide +kernel)
  obtain ⟨hrefunded, hlegal⟩ := of_decide_eq_true htest
  exact ⟨steps, w', hrun, hrefunded, (status_changes_legal_iff hrun).mp hlegal⟩

end PactumCodex
