import PactumCodex.Payments.Rows
import PactumCodex.System

/-!
# Acting on an earlier read

Three programs read payments in one statement and act on what they read in a
later one: `reconcile_late_payments` and `initiate_refund_if_eligible` update a
payment by its id, and the refund worker passes an amount to `execute_refund`.
In between, any other program may run.

`Reads` names what the later operation may count on, and `SystemRun.respects`
is the rule for it: what holds when the payment is read and survives every
step also holds when the operation is performed.

The facts are parameters, so that each result chooses its own: that a payment has
expired, that it is past being queued, or what its amount is.  A result then proves
two things about single steps, that the reads establish the facts and that every
step keeps them; the programs are verified here, once for all facts.
-/

namespace PactumCodex

open Interaction Relational

/-- Facts about payments that are established by a read and used later. -/
structure Reads where
  /-- read as `expired` by `reconcile_late_payments` -/
  expired : Uuid → World → Prop
  /-- read as `confirmed` by `initiate_refund_if_eligible` -/
  confirmed : Uuid → World → Prop
  /-- selected by the refund worker, with the amount to be paid -/
  selected : Uuid → UInt64 → World → Prop

namespace Reads

variable (reads : Reads)

/-- All facts that hold in `w` still hold in `w'`. -/
structure Kept (w w' : World) : Prop where
  expired : ∀ id, reads.expired id w → reads.expired id w'
  confirmed : ∀ id, reads.confirmed id w → reads.confirmed id w'
  selected : ∀ id amount, reads.selected id amount w → reads.selected id amount w'

/-- The step is allowed by what was read. -/
structure Respects (step : BackendStep) : Prop where
  valid : step.Valid perform
  expired : ∀ id, Reconciles id step → reads.expired id step.pre
  confirmed : ∀ id, InitiatesRefund id step → reads.confirmed id step.pre
  selected : ∀ id creator mint amount, step.op = .refundCall id creator mint amount →
    reads.selected id amount step.pre

/-- The facts are established by the reads. -/
structure Established : Prop where
  expired : ∀ w id payment, w.db.payment? id = some payment → payment.status = .expired →
    reads.expired id w
  confirmed : ∀ w id payment, w.db.payment? id = some payment → payment.status = .confirmed →
    payment.agreementPda.isSome → reads.confirmed id w
  selected : ∀ w, ∀ row ∈ w.db.refundJoin,
    reads.selected row.id (row.refundAmount.getD 0).toUInt64 w

variable {reads}

theorem Kept.refl (w : World) : reads.Kept w w :=
  ⟨fun _ h => h, fun _ h => h, fun _ _ h => h⟩

theorem Kept.trans (w₁ w₂ w₃ : World) (h₁ : reads.Kept w₁ w₂) (h₂ : reads.Kept w₂ w₃) :
    reads.Kept w₁ w₃ :=
  ⟨fun id h => h₂.expired id (h₁.expired id h), fun id h => h₂.confirmed id (h₁.confirmed id h),
    fun id amount h => h₂.selected id amount (h₁.selected id amount h)⟩

/-- Operations that have nothing to do with refunds are always allowed. -/
theorem respects_of_refundFree {step : BackendStep} (hop : step.op.RefundFree)
    (h : step.Valid perform) : reads.Respects step := by
  have hqueues := hop.queues
  have hcalls := hop.callsRefund
  refine ⟨h, fun id hrec => ?_, fun id hinit => ?_, fun id creator mint amount hcall => ?_⟩
  · obtain ⟨now, hop⟩ := hrec.op_eq
    simp [hop, Op.queues] at hqueues
  · obtain ⟨now, hop⟩ := hinit.op_eq
    simp [hop, Op.queues] at hqueues
  · simp [hcall, Op.callsRefund] at hcalls

/-- The `UPDATE` of `reconcile_late_payments` is allowed on a payment read as expired. -/
theorem respects_reconcile {now : ℤ} {id : Uuid} {ans : Except Failure Unit} {w w' : World}
    (h : perform (.sql (.payment (.reconcile now id))) ans w = some w')
    (hexpired : reads.expired id w) :
    reads.Respects ⟨w, .sql (.payment (.reconcile now id)), ans, w'⟩ := by
  refine ⟨h, fun id' hrec => ?_, fun id' hinit => ?_, fun _ _ _ _ hcall => ?_⟩
  · obtain ⟨now', hop⟩ := hrec.op_eq
    simp only [Op.sql.injEq, Stmt.payment.injEq, PaymentStmt.reconcile.injEq] at hop
    exact hop.2 ▸ hexpired
  · obtain ⟨now', hop⟩ := hinit.op_eq
    simp at hop
  · simp at hcall

/-- The `UPDATE` of `initiate_refund_if_eligible` is allowed on a payment read as confirmed. -/
theorem respects_initiateRefund {now : ℤ} {id : Uuid} {ans : Except Failure Unit} {w w' : World}
    (h : perform (.sql (.payment (.initiateRefund now id))) ans w = some w')
    (hconfirmed : reads.confirmed id w) :
    reads.Respects ⟨w, .sql (.payment (.initiateRefund now id)), ans, w'⟩ := by
  refine ⟨h, fun id' hrec => ?_, fun id' hinit => ?_, fun _ _ _ _ hcall => ?_⟩
  · obtain ⟨now', hop⟩ := hrec.op_eq
    simp at hop
  · obtain ⟨now', hop⟩ := hinit.op_eq
    simp only [Op.sql.injEq, Stmt.payment.injEq, PaymentStmt.initiateRefund.injEq] at hop
    exact hop.2 ▸ hconfirmed
  · simp at hcall

/-- `execute_refund` may be called for a selected payment. -/
theorem respects_refundCall {id : Uuid} {creator mint : String} {amount : UInt64} {w : World}
    (hselected : reads.selected id amount w) :
    reads.Respects ⟨w, .refundCall id creator mint amount, (), w⟩ := by
  refine ⟨rfl, fun id' hrec => ?_, fun id' hinit => ?_, fun _ _ _ _ hcall => ?_⟩
  · obtain ⟨now', hop⟩ := hrec.op_eq
    simp at hop
  · obtain ⟨now', hop⟩ := hinit.op_eq
    simp at hop
  · simp only [Op.refundCall.injEq] at hcall
    obtain ⟨rfl, -, -, rfl⟩ := hcall
    exact hselected

/-! ## The programs one by one -/

/-- The program acts on what it read, from `w` on. -/
abbrev Acts {α : Type} (reads : Reads) (p : Backend α) (w : World) (Φ : α → World → Prop) : Prop :=
  Assures perform reads.Kept (fun _ => True) reads.Respects p w Φ

theorem acts_of_refundFree {α : Type} {p : Backend α} {w : World} (hp : p.Issues Op.RefundFree) :
    reads.Acts p w fun _ _ => True :=
  assures_of_issues hp fun _ hop hvalid _ => respects_of_refundFree hop hvalid

theorem refundRow_acts (env : Env) {row : RefundRow} {w : World}
    (hselected : reads.selected row.id (row.refundAmount.getD 0).toUInt64 w) :
    reads.Acts (refundRow env row) w fun _ _ => True := by
  unfold refundRow
  split
  · trivial
  refine assures_bind.mpr ?_
  intro w₁ hw₁ answer w₂ hperform _
  obtain rfl : w₁ = w₂ := Option.some.inj hperform
  refine ⟨respects_refundCall (hw₁.selected _ _ hselected), acts_of_refundFree ?_⟩
  refine Program.issues_bind ((executeRefund_issues ..).mono fun _ h => h.plain.refundFree)
    fun _ => ?_
  refine Program.issues_bind (issues_issue.mpr ⟨rfl, rfl⟩) fun _ => ?_
  exact (recordRefund_issues ..).mono fun _ h => h.refundFree

section Programs

variable (hkept : ∀ step, reads.Respects step → reads.Kept step.pre step.post)
variable (hread : reads.Established)

include hkept

/-- Programs that have nothing to do with refunds keep what was read. -/
theorem kept_of_refundFree {α : Type} {p : Backend α} {w : World}
    (hp : p.Issues Op.RefundFree) : reads.Acts p w fun _ w' => reads.Kept w w' :=
  ((acts_of_refundFree hp).related Kept.refl Kept.trans hkept).mono fun _ _ h => h.2

theorem reconcilePayment_acts (env : Env) {id : Uuid} (reference : String) {w : World}
    (hexpired : reads.expired id w) :
    reads.Acts (reconcilePayment env id reference) w fun _ _ => True := by
  unfold reconcilePayment
  cases env.crates.pubkeyFromStr reference with
  | none => trivial
  | some refPubkey =>
      refine assures_bind.mpr ((kept_of_refundFree hkept (issues_issue.mpr ⟨rfl, rfl⟩)).mono ?_)
      intro found w₁ hw₁
      rcases found with _ | found
      · trivial
      cases found with
      | false => trivial
      | true =>
          refine assures_bind.mpr ((kept_of_refundFree hkept (issues_issue.mpr ⟨rfl, rfl⟩)).mono ?_)
          intro now w₂ hw₂ w₃ hw₃ answer w₄ hperform _
          have hread₃ := hw₃.expired id (hw₂.expired id (hw₁.expired id hexpired))
          exact ⟨respects_reconcile hperform hread₃, trivial⟩

theorem reconcilePayments_acts {env : Env} {payments : List (Uuid × String)} {w : World}
    (hexpired : ∀ entry ∈ payments, reads.expired entry.1 w) :
    reads.Acts (reconcilePayments env payments) w fun _ _ => True := by
  induction payments generalizing w with
  | nil => trivial
  | cons entry rest ih =>
      rw [List.forall_mem_cons] at hexpired
      have hfirst := reconcilePayment_acts hkept env entry.2 hexpired.1
      refine assures_bind.mpr ((hfirst.related Kept.refl Kept.trans hkept).mono ?_)
      intro _ w₁ hw₁
      exact ih fun entry' hmem => hw₁.2.expired _ (hexpired.2 entry' hmem)

include hread

theorem reconcileLatePayments_acts {env : Env} {w : World} :
    reads.Acts (reconcileLatePayments env) w fun _ _ => True := by
  refine assures_bind.mpr ((acts_of_refundFree (issues_issue.mpr ⟨rfl, rfl⟩)).mono ?_)
  intro now w₁ _
  refine assures_bind.mpr ?_
  intro w₂ _ answer w₃ hperform _
  refine ⟨respects_of_refundFree ⟨rfl, rfl⟩ hperform, ?_⟩
  cases answer with
  | error _ => trivial
  | ok payments =>
      refine reconcilePayments_acts hkept fun entry hmem => ?_
      obtain ⟨payment, hpayment, hstatus⟩ := expiredSince_returns hperform entry hmem
      exact hread.expired w₃ entry.1 payment hpayment hstatus

theorem initiateRefundIfEligible_acts {agreementPda : String} {w : World} :
    reads.Acts (initiateRefundIfEligible agreementPda).run w fun _ _ => True := by
  refine assures_run_bind.mpr (assures_query.mpr fun w₁ _ => ⟨fun out w₂ hperform _ => ?_, ?_⟩)
  · refine ⟨respects_of_refundFree ⟨rfl, rfl⟩ hperform, ?_⟩
    rcases out with _ | id
    · trivial
    obtain ⟨payment, hpayment, hstatus, hpda⟩ := confirmedOf_returns hperform
    have hconfirmed : reads.confirmed id w₂ :=
      hread.confirmed w₂ id payment hpayment hstatus (by simp [hpda])
    refine assures_run_bind.mpr ((kept_of_refundFree hkept (issues_ask.mpr ⟨rfl, rfl⟩)).mono ?_)
    intro now w₃ hw₃
    rcases now with _ | now
    · trivial
    intro w₄ hw₄ answer w₅ hperform _
    refine ⟨respects_initiateRefund hperform (hw₄.confirmed id (hw₃.confirmed id hconfirmed)), ?_⟩
    cases answer <;> trivial
  · exact fun _ => ⟨respects_of_refundFree ⟨rfl, rfl⟩ rfl, trivial⟩

theorem handleCancellation_acts {event : ParsedEvent} {status : PartyStatus} {w : World} :
    reads.Acts (handleCancellation event status).run w fun _ _ => True := by
  have hquery : ∀ {s : Stmt}, (Op.sql s).RefundFree → (Handler.query s).run.Issues Op.RefundFree :=
    fun h => issues_query.mpr h
  refine assures_run_bind.mpr ((acts_of_refundFree (hquery ⟨rfl, rfl⟩)).mono fun r w₁ _ => ?_)
  rcases r with _ | _
  · trivial
  refine assures_run_bind.mpr ((acts_of_refundFree (hquery ⟨rfl, rfl⟩)).mono fun r w₂ _ => ?_)
  rcases r with _ | parties
  · trivial
  refine assures_run_bind.mpr ((acts_of_refundFree (issues_run_lift
    ((enqueueAll_issues ..).mono fun _ h => h.refundFree))).mono fun r w₃ _ => ?_)
  rcases r with _ | _
  · trivial
  refine assures_run_bind.mpr ((acts_of_refundFree (issues_run_lift
    ((broadcast_issues ..).mono fun _ h => h.refundFree))).mono fun r w₄ _ => ?_)
  rcases r with _ | _
  · trivial
  refine assures_bind.mpr (assures_bind.mpr ?_)
  exact (initiateRefundIfEligible_acts hkept hread).mono fun _ _ _ => trivial

theorem handleEvent_acts {event : ParsedEvent} {w : World} :
    reads.Acts (handleEvent event).run w fun _ _ => True := by
  unfold handleEvent
  split
  · exact acts_of_refundFree ((handleCreateAgreement_issues event).mono fun _ h => h.refundFree)
  · exact acts_of_refundFree ((handleSignAgreement_issues event).mono fun _ h => h.refundFree)
  · exact handleCancellation_acts hkept hread
  · exact handleCancellation_acts hkept hread
  · exact acts_of_refundFree ((handleVoteRevoke_issues event).mono fun _ h => h.refundFree)

theorem processNotification_acts {env : Env} {response : RpcLogsResponse} {w : World} :
    reads.Acts (processNotification env response) w fun _ _ => True := by
  unfold processNotification
  split
  · exact assures_bind.mpr ((handleEvent_acts hkept hread).mono fun _ _ _ => trivial)
  · trivial

omit hread

theorem refundRows_acts {env : Env} {rows : List RefundRow} {w : World}
    (hselected : ∀ row ∈ rows, reads.selected row.id (row.refundAmount.getD 0).toUInt64 w) :
    reads.Acts (refundRows env rows) w fun _ _ => True := by
  induction rows generalizing w with
  | nil => trivial
  | cons row rest ih =>
      rw [List.forall_mem_cons] at hselected
      have hfirst := (refundRow_acts env hselected.1).related Kept.refl Kept.trans hkept
      refine assures_bind.mpr (hfirst.mono fun _ w₁ hw₁ => ?_)
      exact ih fun row' hmem => hw₁.2.selected _ _ (hselected.2 row' hmem)

include hread

theorem processPendingRefunds_acts {env : Env} {w : World} :
    reads.Acts (processPendingRefunds env) w fun _ _ => True := by
  refine assures_bind.mpr ?_
  intro w₁ _ answer w₂ hperform _
  refine ⟨respects_of_refundFree ⟨rfl, rfl⟩ hperform, ?_⟩
  cases answer with
  | error _ => trivial
  | ok rows =>
      obtain ⟨htop, hdb⟩ := pendingRefunds_returns hperform
      refine assures_bind.mpr ((refundRows_acts hkept fun row hmem => ?_).mono fun _ _ _ => trivial)
      exact hread.selected w₂ row (hdb ▸ htop.subperm.subset hmem)

/-- Every program of the backend acts on what it read. -/
theorem entry_acts {env : Env} {p : Backend Unit} {w : World} (hp : Entry env p) :
    reads.Acts p w fun _ _ => True := by
  cases hp with
  | createAgreement auth req =>
      exact acts_of_refundFree
        (issues_logged ((createAgreement_issues ..).mono fun _ h => h.1.refundFree))
  | deleteDraft auth draftId =>
      exact acts_of_refundFree
        (issues_logged ((deleteDraft_issues ..).mono fun _ h => h.refundFree))
  | reinviteDraft auth draftId req =>
      exact acts_of_refundFree
        (issues_logged ((reinviteDraft_issues ..).mono fun _ h => h.1.refundFree))
  | submitDraft auth draftId req =>
      exact acts_of_refundFree
        (issues_logged ((submitDraft_issues ..).mono fun _ h => h.refundFree))
  | acceptInvite auth token =>
      exact acts_of_refundFree
        (issues_logged ((acceptInvite_issues ..).mono fun _ h => h.refundFree))
  | initiatePayment auth draftId req =>
      exact acts_of_refundFree
        (issues_logged ((initiatePayment_issues ..).mono fun _ h => h.refundFree))
  | confirmPaymentAtomic reference txSignature tokenMint tokenAmount =>
      exact acts_of_refundFree
        (issues_logged ((confirmPaymentAtomic_issues ..).mono fun _ h => h.refundFree))
  | sendInvitationReminders =>
      exact acts_of_refundFree ((sendInvitationReminders_issues _).mono fun _ h => h.refundFree)
  | expireStaleInvitations =>
      exact acts_of_refundFree (expireStaleInvitations_issues.mono fun _ h => h.refundFree)
  | expireTimedOutPayments =>
      exact acts_of_refundFree (expireTimedOutPayments_issues.mono fun _ h => h.refundFree)
  | reconcileLatePayments => exact reconcileLatePayments_acts hkept hread
  | processNotification response => exact processNotification_acts hkept hread
  | processPendingRefunds =>
      exact assures_bind.mpr ((processPendingRefunds_acts hkept hread).mono fun _ _ _ => trivial)

end Programs

/-- **Rule for reads.**  Facts that the reads establish, and that every step allowed by them
keeps, hold whenever they are acted on. -/
theorem respects_of_run {env : Env} {w w' : World} {steps : List BackendStep}
    (hkept : ∀ step, reads.Respects step → reads.Kept step.pre step.post)
    (hread : reads.Established) (hrun : SystemRun env w steps w') :
    ∀ step ∈ steps, reads.Respects step := by
  obtain ⟨threads, hpool⟩ := hrun
  have hentry : ∀ p, Entry env p → ∀ w₁, reads.Kept w w₁ → reads.Acts p w₁ fun _ _ => True :=
    fun p hp w₁ _ => entry_acts hkept hread hp
  exact (PoolRun.assured Kept.refl Kept.trans hkept hentry hpool fun _ _ => trivial).1

end Reads

end PactumCodex
