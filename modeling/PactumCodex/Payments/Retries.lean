import PactumCodex.Payments.WorkerCycle

/-!
# Consecutive cycles of the refund worker

A cycle may meet failures of any kind and may be stopped anywhere.  The
transfer and the `UPDATE` that records it are two operations, and an error
leaves the payment `refund_pending` so that the next cycle retries.  A payment
is safe from a second transfer once the `UPDATE` of its cycle has gone through:
it is `refunded`, and no cycle selects it again.

`cycle_spec` is what is needed of a cycle: it queues nothing, and it calls
`execute_refund` only for payments that were `refund_pending` when it started.  A
transfer that is recorded in its cycle leaves the payment `refunded`
(`refunded_of_records`), and that lasts, because only queueing leads out of it.
-/

namespace PactumCodex

open Interaction Relational

/-- Cycles of the worker, one after the other, each run to its end or stopped. -/
inductive RefundCycles (env : Env) : World → List (List BackendStep) → World → Prop
  | nil (w : World) : RefundCycles env w [] w
  | cons {w w₁ w' : World} {cycle : List BackendStep} {rest : List (List BackendStep)} :
      Stops perform (processPendingRefunds env) w cycle w₁ → RefundCycles env w₁ rest w' →
      RefundCycles env w (cycle :: rest) w'

/-- `execute_refund` has returned `Ok` for the payment. -/
def Transferred (id : Uuid) (cycle : List BackendStep) : Prop :=
  ∃ step ∈ cycle, ∃ txSignature, step.op = .refundReturn id (.ok txSignature)

/-- Every transfer of the cycle is recorded in the cycle: the process is not stopped before the
`UPDATE`, and the `UPDATE` does not fail. -/
def Records (cycle : List BackendStep) : Prop :=
  ∀ id, Transferred id cycle → ∃ step ∈ cycle, MarksRefunded id step

/-! ## The operations of a cycle -/

/-- What the loop over the selected rows issues. -/
structure Op.Refunds (rows : List RefundRow) (op : Op) : Prop where
  queues : op.queues = false
  called : ∀ id creator mint amount, op = .refundCall id creator mint amount →
    ∃ row ∈ rows, row.id = id
  returned : ∀ id result, op = .refundReturn id result → ∃ row ∈ rows, row.id = id

theorem Op.Refunds.mono {rows rows' : List RefundRow} {op : Op} (h : op.Refunds rows)
    (hsub : ∀ row ∈ rows, row ∈ rows') : op.Refunds rows' := by
  refine ⟨h.queues, fun id creator mint amount hop => ?_, fun id result hop => ?_⟩
  · obtain ⟨row, hrow, hid⟩ := h.called id creator mint amount hop
    exact ⟨row, hsub row hrow, hid⟩
  · obtain ⟨row, hrow, hid⟩ := h.returned id result hop
    exact ⟨row, hsub row hrow, hid⟩

theorem Op.Transfers.refunds {rows : List RefundRow} {op : Op} (h : op.Transfers) :
    op.Refunds rows := by
  cases h <;> exact ⟨rfl, by simp, by simp⟩

theorem refundRow_refunds (env : Env) (row : RefundRow) :
    (refundRow env row).Issues (Op.Refunds [row]) := by
  unfold refundRow
  split
  · trivial
  refine Program.issues_bind (issues_issue.mpr ⟨rfl, ?_, by simp⟩) fun _ => ?_
  · intro id creator mint amount hop
    rw [Op.refundCall.injEq] at hop
    exact ⟨row, List.mem_singleton_self row, hop.1⟩
  refine Program.issues_bind ((executeRefund_issues ..).mono fun _ h => h.refunds) fun result => ?_
  refine Program.issues_bind (issues_issue.mpr ⟨rfl, by simp, by simp⟩) fun _ => ?_
  cases result with
  | error e => trivial
  | ok sig =>
      refine Program.issues_bind (issues_issue.mpr ⟨rfl, by simp, by simp⟩) fun now => ?_
      exact Program.issues_bind (issues_sql.mpr ⟨rfl, by simp, by simp⟩) fun _ => trivial

theorem refundRows_refunds (env : Env) (rows : List RefundRow) :
    (refundRows env rows).Issues (Op.Refunds rows) := by
  induction rows with
  | nil => trivial
  | cons row rest ih =>
      refine Program.issues_bind ((refundRow_refunds env row).mono fun _ h => ?_) fun _ => ?_
      · exact h.mono (by simp)
      · exact ih.mono fun _ h => h.mono fun _ => List.mem_cons_of_mem _

/-- The payment exists and is in the given status. -/
def InStatus (status : PaymentStatus) (id : Uuid) (w : World) : Prop :=
  ∃ payment, w.db.payment? id = some payment ∧ payment.status = status

/-- A cycle queues nothing, and calls `execute_refund` only for payments that were
`refund_pending` when it started. -/
theorem cycle_spec {env : Env} {w w' : World} {cycle : List BackendStep}
    (h : Stops perform (processPendingRefunds env) w cycle w') :
    (∀ step ∈ cycle, step.op.queues = false) ∧
      ∀ id, (∃ step ∈ cycle, CallsRefund id step) ∨ Transferred id cycle →
        InStatus .refundPending id w := by
  -- stopped before the selection, after a selection that failed, or in the loop
  rcases h with ⟨rfl, -⟩ | ⟨answer, w₁, rest, hselect, rfl, hrest⟩
  · simp [Transferred]
  cases answer with
  | error _ =>
      obtain ⟨rfl, -⟩ := hrest
      refine ⟨by simp [Op.queues], fun id hid => ?_⟩
      simp [Transferred, CallsRefund, Op.refundAmount?] at hid
  | ok rows =>
      have hloop : Stops perform (refundRows env rows >>= fun _ => pure WorkerStatus.healthy)
        w₁ rest w' := hrest
      have hissued : ∀ step ∈ rest, step.op.Refunds rows :=
        Stops.issued (Program.issues_bind (refundRows_refunds env rows) fun _ => issues_pure) hloop
      have hselected : ∀ row ∈ rows, InStatus .refundPending row.id w := by
        intro row hrow
        obtain ⟨htop, -⟩ := pendingRefunds_returns hselect
        obtain ⟨payment, hpayment, hstatus, party, -, -, rfl⟩ :=
          mem_refundJoin.mp (htop.subperm.subset hrow)
        exact ⟨payment, Db.payment?_eq_some.mpr ⟨hpayment, rfl⟩, hstatus⟩
      refine ⟨List.forall_mem_cons.mpr ⟨rfl, fun step hmem => (hissued step hmem).queues⟩, ?_⟩
      rintro id (⟨step, hmem, hcall⟩ | ⟨step, hmem, txSignature, hop⟩)
      · obtain ⟨amount, hamount⟩ := Option.isSome_iff_exists.mp hcall
        obtain ⟨creator, mint, hop⟩ := Op.refundAmount?_eq_some hamount
        rcases List.mem_cons.mp hmem with rfl | hmem
        · simp at hop
        · obtain ⟨row, hrow, rfl⟩ := (hissued step hmem).called id creator mint amount hop
          exact hselected row hrow
      · rcases List.mem_cons.mp hmem with rfl | hmem
        · simp at hop
        · obtain ⟨row, hrow, rfl⟩ := (hissued step hmem).returned id _ hop
          exact hselected row hrow

/-! ## Refunded payments -/

theorem not_queuesRefund {step : BackendStep} {id : Uuid} (h : step.op.queues = false) :
    ¬ QueuesRefund id step := by
  rintro (hrec | hinit)
  · obtain ⟨now, hop⟩ := hrec.op_eq
    simp [hop, Op.queues] at h
  · obtain ⟨now, hop⟩ := hinit.op_eq
    simp [hop, Op.queues] at h

/-- `refunded` is left only by queueing the payment again. -/
theorem refunded_step {step : BackendStep} {id : Uuid} (h : step.Valid perform)
    (hqueues : step.op.queues = false) (hpre : InStatus .refunded id step.pre) :
    InStatus .refunded id step.post := by
  obtain ⟨payment, hpayment, hstatus⟩ := hpre
  obtain ⟨payment', hpayment', hchange⟩ := payment?_step h hpayment
  refine ⟨payment', hpayment', ?_⟩
  cases hchange with
  | same => exact hstatus
  | confirm _ _ _ _ _ hpending => simp [hpending] at hstatus
  | expire hpending => simp [hpending] at hstatus
  | queue now hqueue => exact absurd hqueue (not_queuesRefund hqueues)
  | refund => rfl
  | link _ hconfirmed => simp [hconfirmed] at hstatus

/-- The `UPDATE` of the worker leaves a payment that is past being queued `refunded`. -/
theorem refunded_of_marks {step : BackendStep} {id : Uuid} {amount : UInt64}
    (h : step.Valid perform) (hmarks : MarksRefunded id step)
    (hpre : Selected id amount step.pre) : InStatus .refunded id step.post := by
  obtain ⟨payment, hpayment, -, hstatus⟩ := hpre
  obtain ⟨txSignature, now, hstep⟩ := hmarks
  have hqueues : step.op.queues = false := by rw [hstep]; rfl
  rcases hstatus with hstatus | hstatus
  · obtain ⟨hmem, hid⟩ := Db.payment?_eq_some.mp hpayment
    obtain ⟨payments, hcommit, hdb⟩ := Option.map_eq_some_iff.mp (exec_of_executes h hstep)
    rw [InStatus, ← hdb]
    refine ⟨{ payment with
      status := .refunded, refundTxSignature := some txSignature, refundCompletedAt := some now },
      Db.payment?_eq_some.mpr ⟨?_, hid⟩, rfl⟩
    rw [rows_of_commit hcommit]
    exact mem_updateWhere.mpr ⟨payment, hmem, by simp [hid, hstatus]⟩
  · exact refunded_step h hqueues ⟨payment, hpayment, hstatus⟩

/-- Once refunded, a payment stays refunded through any number of steps that queue nothing. -/
theorem refunded_chain {w w' : World} {steps : List BackendStep} {id : Uuid}
    (h : Chain perform w steps w') (hqueues : ∀ step ∈ steps, step.op.queues = false)
    (hrefunded : InStatus .refunded id w) : InStatus .refunded id w' :=
  (h.invariant (InStatus .refunded id) hrefunded fun step hmem hvalid =>
    refunded_step hvalid (hqueues step hmem)).1

/-- A transfer that was recorded in its cycle leaves the payment `refunded`. -/
theorem refunded_of_records {env : Env} {w w' : World} {cycle : List BackendStep} {id : Uuid}
    (h : Stops perform (processPendingRefunds env) w cycle w') (hrecords : Records cycle)
    (htransferred : Transferred id cycle) : InStatus .refunded id w' := by
  obtain ⟨hqueues, hselected⟩ := cycle_spec h
  obtain ⟨mark, hmem, hmarks⟩ := hrecords id htransferred
  obtain ⟨before, after, rfl⟩ := List.append_of_mem hmem
  obtain ⟨hbefore, hvalid, hafter⟩ := h.chain.split
  obtain ⟨payment, hpayment, hstatus⟩ := hselected id (Or.inr htransferred)
  have hpast : Selected id (payment.refundAmount.getD 0).toUInt64 mark.pre :=
    (hbefore.invariant (Selected id _) ⟨payment, hpayment, rfl, Or.inl hstatus⟩
      fun _ _ hstep => selected_step hstep).1
  refine refunded_chain hafter (fun step hstep => hqueues step ?_)
    (refunded_of_marks hvalid hmarks hpast)
  exact List.mem_append_right _ (List.mem_cons_of_mem _ hstep)

/-- Later cycles do not call `execute_refund` for a refunded payment. -/
theorem not_called_of_refunded {env : Env} {w w' : World} {cycles : List (List BackendStep)}
    {id : Uuid} (h : RefundCycles env w cycles w') (hrefunded : InStatus .refunded id w) :
    ∀ cycle ∈ cycles, ∀ step ∈ cycle, CallsRefund id step = false := by
  induction h with
  | nil => simp
  | cons hcycle _ ih =>
      obtain ⟨hqueues, hselected⟩ := cycle_spec hcycle
      refine List.forall_mem_cons.mpr ⟨fun step hmem => ?_,
        ih (refunded_chain hcycle.chain hqueues hrefunded)⟩
      by_contra hcall
      rw [Bool.not_eq_false] at hcall
      obtain ⟨payment, hpayment, hstatus⟩ := hrefunded
      obtain ⟨payment', hpayment', hstatus'⟩ := hselected id (Or.inl ⟨step, hmem, hcall⟩)
      rw [hpayment, Option.some.injEq] at hpayment'
      rw [← hpayment', hstatus] at hstatus'
      cases hstatus'

/-- **No second transfer.**  In consecutive cycles, whatever fails and wherever they are stopped,
a payment for which `execute_refund` returned `Ok` is not passed to it by a later cycle, provided
that every cycle that made a transfer also recorded it. -/
theorem transferred_once_of_records {env : Env} {w w' : World} {cycles : List (List BackendStep)}
    (h : RefundCycles env w cycles w') (hrecords : ∀ cycle ∈ cycles, Records cycle) :
    cycles.Pairwise fun earlier later =>
      ∀ id, Transferred id earlier → ∀ step ∈ later, CallsRefund id step = false := by
  induction h with
  | nil => exact .nil
  | cons hcycle hrest ih =>
      rw [List.forall_mem_cons] at hrecords
      refine List.Pairwise.cons (fun later hlater id htransferred => ?_) (ih hrecords.2)
      have hrefunded := refunded_of_records hcycle hrecords.1 htransferred
      exact not_called_of_refunded hrest hrefunded later hlater

/-! ## A lost update -/

/-- The `UPDATE` that records a refund fails; everything else succeeds. -/
def losingUpdates : (op : Op) → World → op.Ans
  | .sql (.payment (.markRefunded ..)), _ => .error .failed
  | op, w => cooperate 0 op w

/-- The payments for which `execute_refund` returned `Ok`. -/
def transfers (cycle : List BackendStep) : List Uuid :=
  cycle.filterMap fun step =>
    match step.op with
    | .refundReturn id (.ok _) => some id
    | _ => none

/-- The payments whose refund was recorded. -/
def recorded (cycle : List BackendStep) : List Uuid :=
  cycle.filterMap fun
    | ⟨_, .sql (.payment (.markRefunded _ _ id)), .ok _, _⟩ => some id
    | _ => none

theorem mem_transfers {id : Uuid} {cycle : List BackendStep} :
    id ∈ transfers cycle ↔ Transferred id cycle := by
  rw [transfers, List.mem_filterMap, Transferred]
  refine exists_congr fun step => and_congr_right fun _ => ?_
  constructor
  · intro h
    split at h
    · rename_i id' txSignature hop
      rw [Option.some.injEq] at h
      exact ⟨txSignature, h ▸ hop⟩
    · simp at h
  · rintro ⟨txSignature, hop⟩
    rw [hop]

theorem records_of_subset {cycle : List BackendStep} (h : transfers cycle ⊆ recorded cycle) :
    Records cycle := by
  intro id htransferred
  obtain ⟨step, hmem, hstep⟩ := List.mem_filterMap.mp (h (mem_transfers.mpr htransferred))
  split at hstep
  · rename_i w txSignature now id' u w'
    rw [Option.some.injEq] at hstep
    subst hstep
    exact ⟨_, hmem, txSignature, now, rfl⟩
  · simp at hstep

theorem unrecorded_payment_transferred_again :
    ¬ ∀ (env : Env) (w w' : World) (cycles : List (List BackendStep)),
      RefundCycles env w cycles w' → cycles.Pairwise fun earlier later =>
        ∀ id, Transferred id earlier → ∀ step ∈ later, CallsRefund id step = false := by
  intro hclaim
  obtain ⟨first, _, w₁, hfirst, htest⟩ :=
    runs_of_interpret (p := processPendingRefunds sampleEnv)
      (World.ofDb (onePaymentDb queuedPayment)) losingUpdates
      (fun first _ w₁ => decide (1 ∈ transfers first) &&
        (interpret perform losingUpdates (processPendingRefunds sampleEnv) w₁).any fun result =>
          result.1.any (CallsRefund 1)) (by decide +kernel)
  rw [Bool.and_eq_true, decide_eq_true_eq, mem_transfers] at htest
  obtain ⟨second, _, w₂, hsecond, hcalled⟩ := runs_of_interpret w₁ losingUpdates
    (fun second _ _ => second.any (CallsRefund 1)) htest.2
  have hpair := hclaim sampleEnv _ w₂ [first, second]
    (.cons hfirst.stops (.cons hsecond.stops (.nil w₂)))
  have hnever := List.rel_of_pairwise_cons hpair (List.mem_singleton_self second) 1 htest.1
  obtain ⟨step, hmem, hcall⟩ := List.any_eq_true.mp hcalled
  rw [hnever step hmem] at hcall
  cases hcall

theorem transferred_once_of_records_twice :
    ∃ first second w', RefundCycles sampleEnv (World.ofDb (onePaymentDb queuedPayment))
        [first, second] w' ∧ Transferred 1 first ∧ ∀ step ∈ second, CallsRefund 1 step = false := by
  obtain ⟨first, _, w₁, hfirst, htest⟩ :=
    runs_of_interpret (p := processPendingRefunds sampleEnv)
      (World.ofDb (onePaymentDb queuedPayment)) (cooperate 0)
      (fun first _ w₁ => decide (1 ∈ transfers first ∧ transfers first ⊆ recorded first) &&
        (interpret perform (cooperate 0) (processPendingRefunds sampleEnv) w₁).any fun result =>
          decide (transfers result.1 ⊆ recorded result.1)) (by decide +kernel)
  rw [Bool.and_eq_true, decide_eq_true_eq, mem_transfers] at htest
  obtain ⟨second, _, w₂, hsecond, hrecorded⟩ := runs_of_interpret w₁ (cooperate 0)
    (fun second _ _ => decide (transfers second ⊆ recorded second)) htest.2
  have hcycles : RefundCycles sampleEnv (World.ofDb (onePaymentDb queuedPayment))
    [first, second] w₂ :=
    .cons hfirst.stops (.cons hsecond.stops (.nil w₂))
  have hrecords : ∀ cycle ∈ [first, second], Records cycle := by
    simp only [List.forall_mem_cons, List.not_mem_nil, false_implies, implies_true, and_true]
    exact ⟨records_of_subset htest.1.2, records_of_subset (of_decide_eq_true hrecorded)⟩
  have hpair := transferred_once_of_records hcycles hrecords
  exact ⟨first, second, w₂, hcycles, htest.1.1,
    List.rel_of_pairwise_cons hpair (List.mem_singleton_self second) 1 htest.1.1⟩

end PactumCodex
