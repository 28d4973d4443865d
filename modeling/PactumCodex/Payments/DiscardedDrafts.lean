import PactumCodex.Drafts.Discarded
import PactumCodex.Payments.Selection

/-!
# Payments of discarded drafts

A user who discards a paid draft before anything was uploaded is owed the whole
payment.  `delete_draft` writes the status of the draft and nothing else.  Refunds
are queued for expired payments that arrived late, and for payments of an
agreement that is cancelled or expires on chain; a discarded draft has no
agreement, so its payment stays `confirmed` for good.
-/

namespace PactumCodex

open Interaction Relational

/-- The payment is being refunded, or has been, in full. -/
def RefundedInFull (id : Uuid) (w : World) : Prop :=
  ∃ payment, w.db.payment? id = some payment ∧
    (payment.status = .refundPending ∨ payment.status = .refunded) ∧
      payment.refundAmount = payment.tokenAmount

/-- The step records the agreement of the confirmed payments of the draft. -/
def LinksDraft (draftId : Uuid) (step : BackendStep) : Prop :=
  ∃ agreementPda, Executes step (.payment (.setAgreementPda agreementPda draftId)) ()

/-! ## Payments that were not confirmed in time -/

/-- The payment exists and has left the states `pending` and `confirmed`. -/
def LeftConfirmation (id : Uuid) (w : World) : Prop :=
  ∃ payment, w.db.payment? id = some payment ∧
    payment.status ≠ .pending ∧ payment.status ≠ .confirmed

/-- `reconcile_late_payments` reads expired payments, `initiate_refund_if_eligible` those of an
agreement. -/
def lateReads : Reads where
  expired := LeftConfirmation
  confirmed := HasAgreement
  selected _ _ _ := True

/-- No step leads back to `pending` or `confirmed`. -/
theorem leftConfirmation_step {step : BackendStep} {id : Uuid} (h : step.Valid perform)
    (hpre : LeftConfirmation id step.pre) : LeftConfirmation id step.post := by
  obtain ⟨payment, hpayment, hpending, hconfirmed⟩ := hpre
  obtain ⟨payment', hpayment', hchange⟩ := payment?_step h hpayment
  refine ⟨payment', hpayment', ?_⟩
  cases hchange with
  | same => exact ⟨hpending, hconfirmed⟩
  | confirm _ _ _ _ _ hstatus => exact absurd hstatus hpending
  | expire => exact ⟨by simp, by simp⟩
  | queue => exact ⟨by simp [Payment.queueRefund], by simp [Payment.queueRefund]⟩
  | refund => exact ⟨by simp, by simp⟩
  | link _ hstatus => exact absurd hstatus hconfirmed

/-- In every interleaving, a payment is reconciled only after it has expired. -/
theorem reconciles_leftConfirmation {env : Env} {w w' : World} {steps : List BackendStep}
    (hrun : SystemRun env w steps w') {step : BackendStep} (hmem : step ∈ steps) {id : Uuid}
    (hreconciles : Reconciles id step) : LeftConfirmation id step.pre := by
  have hkept : ∀ step, lateReads.Respects step → lateReads.Kept step.pre step.post := by
    intro step h
    exact ⟨fun _ => leftConfirmation_step h.valid, fun _ => hasAgreement_step h.valid,
      fun _ _ _ => trivial⟩
  have hread : lateReads.Established := by
    refine ⟨fun w id payment hpayment hexpired => ⟨payment, hpayment, ?_⟩,
      fun _ _ payment hpayment _ hpda => ⟨payment, hpayment, hpda⟩, fun _ _ _ => trivial⟩
    rw [hexpired]
    exact ⟨by simp, by simp⟩
  exact (Reads.respects_of_run hkept hread hrun step hmem).expired id hreconciles

/-! ## Confirmed payments without an agreement -/

/-- What queues a refund of a confirmed payment without an agreement: nothing. -/
theorem not_queuesRefund_of_confirmed {env : Env} {w w' : World} {steps : List BackendStep}
    (hrun : SystemRun env w steps w') {step : BackendStep} (hmem : step ∈ steps) {id : Uuid}
    {payment : Payment} (hpayment : step.pre.db.payment? id = some payment)
    (hconfirmed : payment.status = .confirmed) (hpda : payment.agreementPda = none) :
    ¬ QueuesRefund id step := by
  rintro (hreconciles | hinitiates)
  · obtain ⟨found, hfound, -, hleft⟩ := reconciles_leftConfirmation hrun hmem hreconciles
    rw [hpayment, Option.some.injEq] at hfound
    exact hleft (hfound ▸ hconfirmed)
  · obtain ⟨found, hfound, hsome⟩ := initiates_hasAgreement hrun hmem hinitiates
    rw [hpayment, Option.some.injEq] at hfound
    rw [← hfound, hpda] at hsome
    cases hsome

/-- The statement that links a payment is executed if it has an effect. -/
theorem linksDraft_of_op {step : BackendStep} {agreementPda : String} {draftId : Uuid}
    (hop : step.op = .sql (.payment (.setAgreementPda agreementPda draftId)))
    (hwrites : writesDb step = true) : LinksDraft draftId step := by
  obtain ⟨pre, op, ans, post⟩ := step
  subst hop
  cases ans with
  | ok out => exact ⟨agreementPda, rfl⟩
  | error _ => cases hwrites

/-- Such a payment is left alone by every step that does not link it to an agreement. -/
theorem payment?_kept {env : Env} {w w' : World} {steps : List BackendStep}
    (hrun : SystemRun env w steps w') {step : BackendStep} (hmem : step ∈ steps) {id : Uuid}
    {payment : Payment} (hpayment : step.pre.db.payment? id = some payment)
    (hconfirmed : payment.status = .confirmed) (hpda : payment.agreementPda = none)
    (hlinks : ¬ LinksDraft payment.draftId step) : step.post.db.payment? id = some payment := by
  have hvalid := hrun.valid step hmem
  obtain ⟨-, hid⟩ := Db.payment?_eq_some.mp hpayment
  obtain ⟨payment', hpayment', hchange⟩ := payment?_step hvalid hpayment
  cases hchange with
  | same => exact hpayment'
  | confirm _ _ _ _ _ hpending => simp [hconfirmed] at hpending
  | expire hpending => simp [hconfirmed] at hpending
  | queue now hqueue =>
      rw [hid] at hqueue
      exact absurd hqueue (not_queuesRefund_of_confirmed hrun hmem hpayment hconfirmed hpda)
  | refund _ _ _ hpending => simp [hconfirmed] at hpending
  | link agreementPda _ hop =>
      have hquiet : writesDb step = false := by
        by_contra hwrites
        rw [Bool.not_eq_false] at hwrites
        exact hlinks (linksDraft_of_op hop hwrites)
      rw [db_of_quiet hvalid hquiet]
      exact hpayment

/-- Without a link to an agreement, the payment stays as it is. -/
theorem payment?_kept_chain {env : Env} {w w₁ w₂ w' : World} {steps after : List BackendStep}
    (hrun : SystemRun env w steps w') (hafter : ∀ step ∈ after, step ∈ steps)
    (hchain : Chain perform w₁ after w₂) {id : Uuid} {payment : Payment}
    (hpayment : w₁.db.payment? id = some payment) (hconfirmed : payment.status = .confirmed)
    (hpda : payment.agreementPda = none)
    (hlinks : ∀ step ∈ after, ¬ LinksDraft payment.draftId step) :
    ∀ later ∈ after, later.post.db.payment? id = some payment := by
  induction hchain with
  | nil => simp
  | @cons step after w₂ _ _ ih =>
      rw [List.forall_mem_cons] at hafter hlinks ⊢
      have hpost := payment?_kept hrun hafter.1 hpayment hconfirmed hpda hlinks.1
      exact ⟨hpost, ih hafter.2 hpost hlinks.2⟩

/-! ## Discarding a paid draft -/

/-- `delete_draft` leaves payments alone. -/
theorem payments_of_deletes {step : BackendStep} {draftId : Uuid} (h : step.Valid perform)
    (hdeletes : deletesDraft draftId step = true) :
    step.post.db.payments = step.pre.db.payments := by
  rcases payments_step h with hsame | ⟨s, out, hstep, -⟩
  · exact hsame
  · rw [hstep] at hdeletes
    cases hdeletes

/-- **Discarded drafts are not refunded.**  In every interleaving, after `delete_draft` has
discarded a draft with a confirmed payment and nothing uploaded, it is not the case that the payment
is refunded in full in every later state: right after the deletion it is still confirmed.  If it
belongs to no agreement, it stays so, in every state until `submit_draft` links it to one. -/
theorem discarded_draft_not_refunded {env : Env} {w w' : World}
    {steps before after : List BackendStep}
    {step : BackendStep} {draftId id : Uuid} {draft : Draft} {payment : Payment}
    (hrun : SystemRun env w steps w') (hsplit : steps = before ++ step :: after)
    (hdeletes : deletesDraft draftId step = true)
    (_hdraft : step.pre.db.draft? draftId = some draft) (_huploaded : draft.storageUploaded = false)
    (hpayment : step.pre.db.payment? id = some payment) (hof : payment.draftId = draftId)
    (hconfirmed : payment.status = .confirmed) :
    (¬ ∀ later ∈ step :: after, RefundedInFull id later.post) ∧
      (payment.agreementPda = none → (∀ later ∈ after, ¬ LinksDraft draftId later) →
        ∀ later ∈ step :: after, later.post.db.payment? id = some payment) := by
  have hmem : step ∈ steps := by
    rw [hsplit]
    simp
  have hpost : step.post.db.payment? id = some payment := by
    rw [Db.payment?, payments_of_deletes (hrun.valid step hmem) hdeletes]
    exact hpayment
  constructor
  -- right after the deletion the payment is still confirmed
  · intro hall
    obtain ⟨found, hfound, hstatus, -⟩ := hall step List.mem_cons_self
    rw [hpost, Option.some.injEq] at hfound
    rw [← hfound, hconfirmed] at hstatus
    simp at hstatus
  · intro hpda hlinks
    have hpool := hrun
    obtain ⟨threads, hpool⟩ := hpool
    obtain ⟨-, -, hafter⟩ := (hsplit ▸ hpool.chain).split
    rw [List.forall_mem_cons]
    refine ⟨hpost, payment?_kept_chain hrun (fun later hlater => ?_) hafter hpost hconfirmed hpda
      (hof ▸ hlinks)⟩
    rw [hsplit]
    exact List.mem_append_right _ (List.mem_cons_of_mem _ hlater)

/-- Bob has paid for a draft and not submitted it. -/
def paidDraft : Draft :=
  { sampleDraft with storageUri := none, storageUploaded := false, agreementPda := none }
def paidDraftPayment : Payment := { samplePayment with status := .confirmed, confirmedAt := some 0 }
def discardableDb : Db :=
  { accountsDb with
    drafts := ⟨[paidDraft], by decide⟩
    payments := ⟨[paidDraftPayment], by decide⟩ }

/-- Bob discards it. -/
def discardPaidDraft : List (Backend Unit) := [Handler.logged (deleteDraft ⟨11, some bobKey⟩ 2)]

theorem discardPaidDraft_entry : ∀ p ∈ discardPaidDraft, Entry sampleEnv p := by
  simp only [discardPaidDraft, List.forall_mem_cons, List.not_mem_nil, false_implies, implies_true,
    and_true]
  exact .deleteDraft ..

theorem exists_deletion : ∃ steps before step w',
    SystemRun sampleEnv (World.ofDb discardableDb) steps w' ∧ steps = before ++ [step] ∧
      deletesDraft 2 step = true ∧ step.pre.db.draft? 2 = some paidDraft ∧
      step.pre.db.payment? 1 = some paidDraftPayment ∧
      step.post.db.payment? 1 = some paidDraftPayment := by
  obtain ⟨steps, w', hrun, htest⟩ := systemRun_of_replay (World.ofDb discardableDb) (inTurn [3])
    (fun steps _ => decide (∃ step, steps.getLast? = some step ∧ deletesDraft 2 step = true ∧
      step.pre.db.draft? 2 = some paidDraft ∧ step.pre.db.payment? 1 = some paidDraftPayment ∧
      step.post.db.payment? 1 = some paidDraftPayment)) discardPaidDraft_entry (by decide +kernel)
  obtain ⟨step, hlast, hstep⟩ := of_decide_eq_true htest
  exact ⟨steps, steps.dropLast, step, w', hrun, (List.dropLast_append_getLast? step hlast).symm,
    hstep⟩

theorem discarded_draft_not_refunded_paid : ∃ steps before step w',
    SystemRun sampleEnv (World.ofDb discardableDb) steps w' ∧ steps = before ++ [step] ∧
      deletesDraft 2 step = true ∧ ¬ ∀ later ∈ [step], RefundedInFull 1 later.post := by
  obtain ⟨steps, before, step, w', hrun, hsplit, hdeletes, hdraft, hpayment, -⟩ := exists_deletion
  exact ⟨steps, before, step, w', hrun, hsplit, hdeletes,
    (discarded_draft_not_refunded hrun hsplit hdeletes hdraft rfl hpayment rfl rfl).1⟩

theorem discarded_draft_payment_confirmed :
    ¬ ∀ (env : Env) (w w' : World) (steps before after : List BackendStep) (step : BackendStep)
        (draftId id : Uuid) (draft : Draft) (payment : Payment),
      SystemRun env w steps w' → steps = before ++ step :: after →
      deletesDraft draftId step = true → step.pre.db.draft? draftId = some draft →
      draft.storageUploaded = false → step.pre.db.payment? id = some payment →
      payment.draftId = draftId → payment.status = .confirmed →
        ∀ later ∈ step :: after, RefundedInFull id later.post := by
  intro hclaim
  obtain ⟨steps, before, step, w', hrun, hsplit, hdeletes, hdraft, hpayment, hpost⟩ :=
    exists_deletion
  obtain ⟨payment, hfound, hstatus, -⟩ := hclaim _ _ _ _ _ _ _ _ _ _ _ hrun hsplit hdeletes hdraft
    rfl hpayment rfl rfl step List.mem_cons_self
  rw [hpost, Option.some.injEq] at hfound
  subst hfound
  simp [paidDraftPayment] at hstatus

end PactumCodex
