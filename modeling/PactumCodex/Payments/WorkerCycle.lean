import PactumCodex.Payments.RefundAmount

/-!
# One cycle of the refund worker

A cycle selects joined rows and calls `execute_refund` for each of them that
names a creator.  An agreement has a row for every party, so the join has
several rows for one payment, and nothing in the loop looks at what has been
paid already: the status is checked only by the `UPDATE` after the transfer.

The number of calls for a payment is the number of selected rows that are paid
(`refundRows_calls`), so the question is about the selection.  The joined rows of a
payment have the same sort key, and the database is free in their order, so whether
two of them can be selected together is decided by the tables
(`selections_pay_once_iff`).  For the converse a cycle is needed that carries out
such a selection, and any selection can be carried out without a failure
(`refundRows_completes`).
-/

namespace PactumCodex

open Interaction Relational

/-! ## Calls -/

/-- The step enters `execute_refund` for the payment. -/
def CallsRefund (id : Uuid) (step : BackendStep) : Bool := (step.op.refundAmount? id).isSome

/-- The row belongs to the payment and names a creator, so the loop calls `execute_refund`. -/
def RefundRow.pays (id : Uuid) (row : RefundRow) : Bool :=
  row.id = id ∧ row.creatorPubkey.isEmpty = false

theorem not_callsRefund {id : Uuid} {step : BackendStep} (h : step.op.callsRefund = false) :
    CallsRefund id step = false := by
  unfold CallsRefund Op.refundAmount?
  split
  · rename_i hop
    simp [hop, Op.callsRefund] at h
  · rfl

/-- A program that never enters `execute_refund` calls it zero times. -/
theorem countP_calls_eq_zero {α : Type} {p : Backend α} {w w' : World} {a : α}
    {steps : List BackendStep} (id : Uuid) (hp : p.Issues fun op => op.callsRefund = false)
    (h : Runs perform p w steps a w') : steps.countP (CallsRefund id) = 0 := by
  rw [List.countP_eq_zero]
  intro step hmem
  simp [not_callsRefund (Stops.issued hp h.stops step hmem)]

/-- One row leads to one call, or to none if no creator is named. -/
theorem refundRow_calls {env : Env} {row : RefundRow} {w w' : World} {steps : List BackendStep}
    (id : Uuid) (h : Runs perform (refundRow env row) w steps () w') :
    steps.countP (CallsRefund id) = if row.pays id then 1 else 0 := by
  unfold refundRow at h
  split at h
  · rename_i hempty
    obtain ⟨rfl, -, -⟩ := h
    simp [RefundRow.pays, hempty]
  rename_i hcreator
  obtain ⟨_, w₁, rest, -, rfl, hrest⟩ := h
  have hzero : rest.countP (CallsRefund id) = 0 := by
    refine countP_calls_eq_zero id (Program.issues_bind issues_ret fun _ => ?_) hrest
    refine Program.issues_bind
      ((executeRefund_issues ..).mono fun _ h => h.plain.steady.callsRefund)
      fun _ => ?_
    refine Program.issues_bind (issues_issue.mpr rfl) fun _ => ?_
    exact (recordRefund_issues ..).mono fun _ h => h.steady.callsRefund
  rw [List.countP_cons, hzero]
  simp [CallsRefund, Op.refundAmount?, RefundRow.pays, hcreator]

/-- The loop calls `execute_refund` once for every row that names a creator. -/
theorem refundRows_calls {env : Env} {rows : List RefundRow} {w w' : World}
    {steps : List BackendStep} (id : Uuid) (h : Runs perform (refundRows env rows) w steps () w') :
    steps.countP (CallsRefund id) = rows.countP (·.pays id) := by
  induction rows generalizing w steps with
  | nil =>
      obtain ⟨rfl, -, -⟩ := h
      rfl
  | cons row rest ih =>
      obtain ⟨_, w₁, first, second, rfl, hfirst, hsecond⟩ := runs_bind.mp h
      rw [List.countP_append, refundRow_calls id hfirst, ih hsecond, List.countP_cons, Nat.add_comm]

/-! ## Cycles without failures -/

/-- The answer reports a failed statement, a failed call to the chain or a failed transfer. -/
def Op.fails : (op : Op) → op.Ans → Bool
  | .sql _, .error _ => true
  | .destinationExists .., .error _ => true
  | .latestBlockhash, .error _ => true
  | .sendTransfer .., .error _ => true
  | _, _ => false

/-- From `w` the program can run to its end without a failure. -/
def Completes {α : Type} (p : Backend α) (w : World) : Prop :=
  ∃ steps a w', Runs perform p w steps a w' ∧ ∀ step ∈ steps, step.op.fails step.ans = false

theorem completes_ret {α : Type} {a : α} {w : World} : Completes (.ret a) w :=
  ⟨[], a, w, ⟨rfl, rfl, rfl⟩, by simp⟩

theorem completes_issue (op : Op) (ans : op.Ans) {w w' : World} (h : perform op ans w = some w')
    (hok : op.fails ans = false) : Completes (.issue op) w :=
  ⟨_, ans, w', runs_issue.mpr ⟨h, rfl⟩, by simpa using hok⟩

theorem completes_bind {α β : Type} {p : Backend α} {f : α → Backend β} {w : World}
    (hp : Completes p w) (hf : ∀ a w', Completes (f a) w') : Completes (p >>= f) w := by
  obtain ⟨first, a, w₁, hfirst, hfirst'⟩ := hp
  obtain ⟨second, b, w₂, hsecond, hsecond'⟩ := hf a w₁
  refine ⟨first ++ second, b, w₂, runs_bind.mpr ⟨a, w₁, first, second, rfl, hfirst, hsecond⟩, ?_⟩
  intro step hmem
  rcases List.mem_append.mp hmem with hmem | hmem
  · exact hfirst' step hmem
  · exact hsecond' step hmem

theorem completes_orFail {α : Type} {e : AppError} {p : Backend (Except Failure α)} {w : World}
    (hp : Completes p w) : Completes (Handler.orFail e p).run w := by
  refine completes_bind hp fun r _ => ?_
  cases r <;> exact completes_ret

theorem completes_run_bind {α β : Type} {x : Handler α} {f : α → Handler β} {w : World}
    (hx : Completes x.run w) (hf : ∀ a w', Completes (f a).run w') :
    Completes (x >>= f).run w := by
  rw [run_bind_eq]
  refine completes_bind hx fun r w' => ?_
  cases r with
  | ok a => exact hf a w'
  | error e => exact completes_ret

theorem completes_okOr {α : Type} {e : AppError} {o : Option α} {w : World} :
    Completes (Handler.okOr e o).run w := by
  cases o <;> exact completes_ret

theorem executeRefund_completes (env : Env) (creator mint : String) (amount : UInt64) (w : World) :
    Completes (executeRefund env creator mint amount).run w := by
  unfold executeRefund
  refine completes_run_bind completes_okOr fun creatorPubkey w => ?_
  refine completes_run_bind completes_okOr fun tokenMint w => ?_
  refine completes_run_bind (completes_orFail ?_) fun destinationExists w => ?_
  · exact completes_issue (.destinationExists ..) (.ok true) rfl rfl
  refine completes_run_bind ?_ fun _ w => ?_
  · unfold Handler.ensure
    split <;> exact completes_ret
  refine completes_run_bind (completes_orFail ?_) fun _ w => completes_orFail ?_
  · exact completes_issue .latestBlockhash (.ok "") rfl rfl
  · exact completes_issue (.sendTransfer ..) (.ok "") rfl rfl

/-- Recording a refund breaks no constraint. -/
theorem markRefunded_succeeds (txSignature : String) (now : ℤ) (id : Uuid) (w : World) :
    ∃ w', performSql (.payment (.markRefunded txSignature now id)) () w = some w' := by
  obtain ⟨db, hexec⟩ : ∃ db,
      (Stmt.payment (.markRefunded txSignature now id)).exec () w.db = some db := by
    refine ⟨_, Option.map_eq_some_iff.mpr ⟨_, commit_of_valid ?_, rfl⟩⟩
    exact paymentsValid_updateWhere w.db.payments.valid (fun _ => rfl) (fun _ => rfl) fun _ => rfl
  exact ⟨_, performSql_eq_some.mpr ⟨rfl, by simp [Stmt.generated], db, hexec, rfl⟩⟩

theorem recordRefund_completes (id : Uuid) (result : Except AppError String) (w : World) :
    Completes (recordRefund id result) w := by
  cases result with
  | error e => exact completes_ret
  | ok sig =>
      refine completes_bind (completes_issue .utcNow 0 rfl rfl) fun now w => ?_
      obtain ⟨w', hperform⟩ := markRefunded_succeeds sig now id w
      exact completes_bind (completes_issue (.sql _) (.ok ()) hperform rfl) fun _ _ => completes_ret

theorem refundRows_completes (env : Env) (rows : List RefundRow) (w : World) :
    Completes (refundRows env rows) w := by
  induction rows generalizing w with
  | nil => exact completes_ret
  | cons row rest ih =>
      refine completes_bind ?_ fun _ => ih
      unfold refundRow
      split
      · exact completes_ret
      refine completes_bind (completes_issue (.refundCall ..) () rfl rfl) fun _ w => ?_
      refine completes_bind (executeRefund_completes ..) fun result w => ?_
      refine completes_bind (completes_issue (.refundReturn ..) () rfl rfl) fun _ w => ?_
      exact recordRefund_completes ..

/-! ## Paying once -/

/-- No payment has two joined rows that name a creator, unless nine joined rows belong before
them, so that at most one is selected. -/
def JoinedOnce (db : Db) : Prop :=
  ∀ row ∈ db.refundJoin, db.refundJoin.countP (·.pays row.id) ≤ 1 ∨
    9 ≤ db.refundJoin.countP (·.sortKey < row.sortKey)

/-- The joined rows of one payment have the same sort key. -/
theorem sortKey_eq_of_id_eq {db : Db} {a b : RefundRow} (ha : a ∈ db.refundJoin)
    (hb : b ∈ db.refundJoin) (hid : a.id = b.id) : a.sortKey = b.sortKey := by
  obtain ⟨payment, hpayment, -, party, -, -, rfl⟩ := mem_refundJoin.mp ha
  obtain ⟨payment', hpayment', -, party', -, -, rfl⟩ := mem_refundJoin.mp hb
  obtain rfl : payment = payment' := eq_of_key_eq db.payments.valid.1 hpayment hpayment' hid
  rfl

/-- Whether a payment can be selected twice is decided by the tables. -/
theorem selections_pay_once_iff {db : Db} :
    (∀ rows, TopBy RefundRow.sortKey 10 db.refundJoin rows → ∀ id, rows.countP (·.pays id) ≤ 1) ↔
      JoinedOnce db := by
  have hkey : ∀ row ∈ db.refundJoin, ∀ a ∈ db.refundJoin, a.pays row.id →
    a.sortKey = row.sortKey := by
    intro row hrow a ha hpays
    rw [RefundRow.pays, Bool.decide_and, Bool.and_eq_true, decide_eq_true_eq] at hpays
    exact sortKey_eq_of_id_eq ha hrow hpays.1
  constructor
  · intro hall row hrow
    have hselect := (topBy_countP_le_iff (hkey row hrow)).mp fun rows htop => hall rows htop row.id
    exact hselect.imp_right Nat.le_of_succ_le_succ
  · intro honce rows htop id
    by_cases hrow : ∃ row ∈ rows, row.id = id
    · obtain ⟨row, hmem, rfl⟩ := hrow
      have hjoin := htop.subperm.subset hmem
      exact (topBy_countP_le_iff (hkey row hjoin)).mpr
        ((honce row hjoin).imp_right Nat.succ_le_succ) rows htop
    · have hzero : rows.countP (·.pays id) = 0 := by
        rw [List.countP_eq_zero]
        intro row hmem hpays
        rw [RefundRow.pays, Bool.decide_and, Bool.and_eq_true, decide_eq_true_eq] at hpays
        exact hrow ⟨row, hmem, hpays.1⟩
      omega

/-- **One refund per cycle.**  In every cycle without failures, whatever order the database
returns rows with equal keys in, `execute_refund` is called at most once for each payment exactly
if no payment has two joined rows that can both be selected. -/
theorem refund_calls_unique_iff {env : Env} {w : World} :
    (∀ steps status w', Runs perform (processPendingRefunds env) w steps status w' →
      (∀ step ∈ steps, step.op.fails step.ans = false) →
        ∀ id, steps.countP (CallsRefund id) ≤ 1) ↔ JoinedOnce w.db := by
  rw [← selections_pay_once_iff]
  constructor
  -- a selection of the database is carried out by some cycle
  · intro hruns rows htop id
    obtain ⟨steps, u, w', hloop, hok⟩ := refundRows_completes env rows w
    have hselect : perform (.sql (.payment .pendingRefunds)) (.ok rows) w = some w := by
      refine performSql_eq_some.mpr ⟨rfl, by simp [Stmt.generated], w.db, ?_, rfl⟩
      exact Option.map_eq_some_iff.mpr ⟨_, provided_eq_some.mpr ⟨htop, rfl⟩, rfl⟩
    have hcycle : Runs perform (processPendingRefunds env) w
        (⟨w, .sql (.payment .pendingRefunds), .ok rows, w⟩ :: steps) .healthy w' := by
      refine runs_bind.mpr ⟨.ok rows, w, [_], steps, rfl, runs_issue.mpr ⟨hselect, rfl⟩, ?_⟩
      exact runs_bind.mpr ⟨u, w', steps, [], by simp, hloop, rfl, rfl, rfl⟩
    have hcalls := hruns _ _ _ hcycle (List.forall_mem_cons.mpr ⟨rfl, hok⟩) id
    rw [List.countP_cons, refundRows_calls id hloop] at hcalls
    exact le_of_add_le_left hcalls
  · intro hselections steps status w' hrun _ id
    obtain ⟨answer, w₁, first, rest, rfl, hfirst, hrest⟩ := runs_bind.mp hrun
    obtain ⟨hselect, rfl⟩ := runs_issue.mp hfirst
    have hnone : CallsRefund id ⟨w, .sql (.payment .pendingRefunds), answer, w₁⟩ = false := rfl
    rw [List.singleton_append, List.countP_cons, hnone]
    cases answer with
    | error _ =>
        obtain ⟨rfl, -, -⟩ := hrest
        simp
    | ok rows =>
        obtain ⟨u, w₂, loop, _, rfl, hloop, rfl, -, -⟩ := runs_bind.mp hrest
        rw [List.append_nil, refundRows_calls id hloop]
        exact hselections rows (pendingRefunds_returns hselect).1 id

/-! ## An agreement between two parties -/

/-- A refund is due for an agreement between two parties. -/
def twoPartiesDb : Db :=
  { onePaymentDb queuedPayment with
    parties := ⟨[⟨aliceKey, "A", bobKey, .cancelled, none, 0, 0, "Agreement"⟩,
      ⟨bobKey, "A", bobKey, .cancelled, none, 0, 0, "Agreement"⟩], by decide⟩ }

theorem joined_payment_refunded_twice :
    ¬ ∀ (env : Env) (w w' : World) (steps : List BackendStep) (status : WorkerStatus),
      Runs perform (processPendingRefunds env) w steps status w' →
      (∀ step ∈ steps, step.op.fails step.ans = false) →
        ∀ id, steps.countP (CallsRefund id) ≤ 1 := by
  intro hclaim
  obtain ⟨steps, status, w', hrun, htest⟩ :=
    runs_of_interpret (p := processPendingRefunds sampleEnv) (World.ofDb twoPartiesDb) (cooperate 0)
      (fun steps _ _ => decide ((∀ step ∈ steps, step.op.fails step.ans = false) ∧
        steps.countP (CallsRefund 1) = 2)) (by decide +kernel)
  obtain ⟨hok, htwice⟩ := of_decide_eq_true htest
  have honce := hclaim sampleEnv _ w' steps status hrun hok 1
  omega

end PactumCodex
