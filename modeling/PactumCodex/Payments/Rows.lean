import PactumCodex.Steps

/-!
# The rows of `agreement_payments` along a run

`payment_step` says once what a step can do to a payment: rows are never added
or removed, and a row changes in one of five ways, each guarded by the row's
status except for the queueing of a refund.  Every invariant of payments is
derived from it.

`PaymentChange` lists the five ways: a pending payment is confirmed or expires, a
payment is queued for its refund, a queued one is refunded, and the payments of a
draft are linked to its agreement.  What no step writes stays as it is
(`PaymentChange.fixed`), and a payment is found again in both directions
(`payment?_step`, `payment?_step_back`).
-/

namespace PactumCodex

open Interaction Relational

/-! ## Steps on payments -/

/-- The step executes the `UPDATE` of `reconcile_late_payments` on the payment. -/
def Reconciles (id : Uuid) (step : BackendStep) : Prop :=
  ∃ now, Executes step (.payment (.reconcile now id)) ()

/-- The step executes the `UPDATE` of `initiate_refund_if_eligible` on the payment. -/
def InitiatesRefund (id : Uuid) (step : BackendStep) : Prop :=
  ∃ now, Executes step (.payment (.initiateRefund now id)) ()

/-- The step makes the payment refundable, by one of the two `UPDATE`s by id. -/
def QueuesRefund (id : Uuid) (step : BackendStep) : Prop :=
  Reconciles id step ∨ InitiatesRefund id step

/-- The step records the refund of the payment. -/
def MarksRefunded (id : Uuid) (step : BackendStep) : Prop :=
  ∃ txSignature now, Executes step (.payment (.markRefunded txSignature now id)) ()

/-- The step confirms the payment: `confirm_payment_atomic` returns `Ok(true)` for it. -/
def Confirms (id : Uuid) (step : BackendStep) : Prop :=
  ∃ reference txSignature tokenMint tokenAmount now,
    Executes step (.payment (.confirm reference txSignature tokenMint tokenAmount now)) (some id)

/-- `Confirms`, computed. -/
def isConfirmation (id : Uuid) : BackendStep → Bool
  | ⟨_, .sql (.payment (.confirm ..)), .ok out, _⟩ => out = some id
  | _ => false

theorem confirms_of_isConfirmation {id : Uuid} {step : BackendStep}
    (h : isConfirmation id step = true) : Confirms id step := by
  unfold isConfirmation at h
  split at h
  · rename_i w reference txSignature tokenMint tokenAmount now out w'
    obtain rfl := of_decide_eq_true h
    exact ⟨reference, txSignature, tokenMint, tokenAmount, now, rfl⟩
  · simp at h

theorem Reconciles.op_eq {id : Uuid} {step : BackendStep} (h : Reconciles id step) :
    ∃ now, step.op = .sql (.payment (.reconcile now id)) := by
  obtain ⟨now, hstep⟩ := h
  rw [hstep]
  exact ⟨now, rfl⟩

theorem InitiatesRefund.op_eq {id : Uuid} {step : BackendStep} (h : InitiatesRefund id step) :
    ∃ now, step.op = .sql (.payment (.initiateRefund now id)) := by
  obtain ⟨now, hstep⟩ := h
  rw [hstep]
  exact ⟨now, rfl⟩

/-- What a step can do to a payment. -/
inductive PaymentChange (step : BackendStep) (payment : Payment) : Payment → Prop
  | same : PaymentChange step payment payment
  | confirm (txSignature tokenMint : String) (tokenAmount : Int64) (now : ℤ) :
      Confirms payment.id step → payment.status = .pending →
      PaymentChange step payment { payment with
        status := .confirmed, tokenTxSignature := some txSignature, tokenMint := some tokenMint,
        tokenAmount := some tokenAmount, confirmedAt := some now }
  | expire : payment.status = .pending →
      PaymentChange step payment { payment with status := .expired }
  | queue (now : ℤ) : QueuesRefund payment.id step →
      PaymentChange step payment (payment.queueRefund now)
  | refund (txSignature : String) (now : ℤ) : MarksRefunded payment.id step →
      payment.status = .refundPending →
      PaymentChange step payment { payment with
        status := .refunded, refundTxSignature := some txSignature, refundCompletedAt := some now }
  | link (agreementPda : String) : payment.status = .confirmed →
      step.op = .sql (.payment (.setAgreementPda agreementPda payment.draftId)) →
      PaymentChange step payment { payment with agreementPda := some agreementPda }

/-! ## Statements row by row -/

/-- `awaits` finds at most one row: references are unique. -/
theorem eq_of_awaits {db : Db} {reference : String} {a b : Payment} (ha : a ∈ db.payments.rows)
    (hb : b ∈ db.payments.rows) (ha' : a.awaits reference) (hb' : b.awaits reference) : a = b := by
  simp only [Payment.awaits, Bool.decide_and, Bool.and_eq_true, decide_eq_true_eq] at ha' hb'
  exact eq_of_partial_key_eq db.payments.valid.2.1 ha hb ha'.1 hb'.1

/-- The `INSERT` of `initiate_payment` names columns that do not exist. -/
theorem insert_rejected :
    insertAccepted paymentColumns paymentRequiredColumns initiatePaymentColumns = false := by
  decide

/-- An update that leaves the unique columns alone breaks no constraint. -/
theorem paymentsValid_updateWhere {p : Payment → Bool} {f : Payment → Payment}
    {rows : List Payment} (h : PaymentsValid rows) (hid : ∀ row, (f row).id = row.id)
    (hreference : ∀ row, (f row).tokenReferencePubkey = row.tokenReferencePubkey)
    (hsignature : ∀ row, (f row).tokenTxSignature = row.tokenTxSignature) :
    PaymentsValid (updateWhere p f rows) := by
  refine ⟨?_, ?_, ?_⟩
  · rw [map_updateWhere hid]
    exact h.1
  · rw [filterMap_updateWhere hreference]
    exact h.2.1
  · rw [filterMap_updateWhere hsignature]
    exact h.2.2

/-- The payment that `confirm_payment_atomic` finds is the one that its `UPDATE` matches. -/
theorem find?_awaits {db : Db} {reference : String} {payment : Payment}
    (hmem : payment ∈ db.payments.rows) (hawaits : payment.awaits reference) :
    db.payments.rows.find? (·.awaits reference) = some payment := by
  cases hfind : db.payments.rows.find? (·.awaits reference) with
  | none => exact absurd hawaits (List.find?_eq_none.mp hfind payment hmem)
  | some found =>
      have hfound := List.mem_of_find?_eq_some hfind
      rw [eq_of_awaits hfound hmem (List.find?_some hfind) hawaits]

/-- A statement changes payments in place, each to one it can become in the step. -/
theorem PaymentStmt.exec_kept {step : BackendStep} {s : PaymentStmt} {out : s.Out}
    (hstep : Executes step (.payment s) out)
    (hexec : s.exec out step.pre.db = some step.post.db.payments) :
    RowsKept False (PaymentChange step) step.pre.db.payments.rows step.post.db.payments.rows := by
  have hsame : ∀ payment, PaymentChange step payment payment := fun _ => .same
  cases s with
  | insert => simp [PaymentStmt.exec, insert_rejected] at hexec
  | confirm reference txSignature tokenMint tokenAmount now =>
      simp only [PaymentStmt.exec, Option.ite_none_right_eq_some] at hexec
      refine rowsKept_of_commit hexec.2 hsame fun payment hmem hawaits => ?_
      -- the id that is returned is the one of the row that is matched
      have hout : out = some payment.id := by
        rw [hexec.1, find?_awaits hmem hawaits, Option.map_some]
      have hconfirms : Confirms payment.id step :=
        ⟨reference, txSignature, tokenMint, tokenAmount, now, hout ▸ hstep⟩
      have hpending : payment.status = .pending := by
        simp only [Payment.awaits, Bool.decide_and, Bool.and_eq_true, decide_eq_true_eq] at hawaits
        exact hawaits.2
      exact .confirm txSignature tokenMint tokenAmount now hconfirms hpending
  | expireTimedOut threshold =>
      simp only [PaymentStmt.exec, Option.ite_none_right_eq_some] at hexec
      refine rowsKept_of_commit hexec.2 hsame fun payment _ hmatch => ?_
      simp only [Bool.decide_and, Bool.and_eq_true, decide_eq_true_eq] at hmatch
      exact .expire hmatch.1
  | reconcile now id =>
      refine rowsKept_of_commit hexec hsame fun payment _ hmatch => ?_
      have hid : payment.id = id := of_decide_eq_true hmatch
      exact .queue now (Or.inl ⟨now, hid ▸ hstep⟩)
  | initiateRefund now id =>
      refine rowsKept_of_commit hexec hsame fun payment _ hmatch => ?_
      have hid : payment.id = id := of_decide_eq_true hmatch
      exact .queue now (Or.inr ⟨now, hid ▸ hstep⟩)
  | markRefunded txSignature now id =>
      refine rowsKept_of_commit hexec hsame fun payment _ hmatch => ?_
      simp only [Bool.decide_and, Bool.and_eq_true, decide_eq_true_eq] at hmatch
      exact .refund txSignature now ⟨txSignature, now, hmatch.1 ▸ hstep⟩ hmatch.2
  | setAgreementPda agreementPda draftId =>
      refine rowsKept_of_commit hexec hsame fun payment _ hmatch => ?_
      simp only [Bool.decide_and, Bool.and_eq_true, decide_eq_true_eq] at hmatch
      exact .link agreementPda hmatch.2 (by rw [hstep, hmatch.1])
  | expiredSince | confirmedOf | pendingRefunds => exact rowsKept_of_provided hexec hsame

/-- **Row rule.**  A step maps every payment to one it can become, in place. -/
theorem payment_step {step : BackendStep} (h : step.Valid perform) :
    ∃ f : Payment → Payment, step.post.db.payments.rows = step.pre.db.payments.rows.map f ∧
      ∀ payment ∈ step.pre.db.payments.rows, PaymentChange step payment (f payment) := by
  rcases payments_step h with hsame | ⟨s, out, hstep, hexec⟩
  · exact ⟨id, by simp [hsame], fun payment _ => .same⟩
  · exact (PaymentStmt.exec_kept hstep hexec).exists_map id

/-! ## What the `SELECT`s return -/

/-- A `SELECT` on payments leaves the world as it is, but for the generated identifiers. -/
theorem db_of_select {s : PaymentStmt} {out : s.Out} {w w' : World} {condition : Prop}
    [Decidable condition] (h : performSql (.payment s) out w = some w')
    (hselect : s.exec out w.db = provided condition w.db.payments) :
    condition ∧ w'.db = w.db := by
  obtain ⟨-, -, db, hexec, rfl⟩ := performSql_eq_some.mp h
  simp only [Stmt.exec, hselect, Option.map_eq_some_iff, provided_eq_some] at hexec
  obtain ⟨payments, ⟨hcondition, rfl⟩, rfl⟩ := hexec
  exact ⟨hcondition, rfl⟩

theorem expiredSince_returns {threshold : ℤ} {out : List (Uuid × String)} {w w' : World}
    (h : performSql (.payment (.expiredSince threshold)) out w = some w') :
    ∀ entry ∈ out, ∃ payment, w'.db.payment? entry.1 = some payment ∧
      payment.status = .expired := by
  obtain ⟨hperm, hdb⟩ := db_of_select h rfl
  intro entry hmem
  obtain ⟨payment, hpayment, hentry⟩ := List.mem_filterMap.mp (hperm.mem_iff.mp hmem)
  simp only [Option.ite_none_right_eq_some, Option.map_eq_some_iff] at hentry
  obtain ⟨⟨hstatus, -⟩, reference, -, rfl⟩ := hentry
  rw [hdb]
  exact ⟨payment, Db.payment?_eq_some.mpr ⟨hpayment, rfl⟩, hstatus⟩

theorem confirmedOf_returns {agreementPda : String} {id : Uuid} {w w' : World}
    (h : performSql (.payment (.confirmedOf agreementPda)) (some id) w = some w') :
    ∃ payment, w'.db.payment? id = some payment ∧ payment.status = .confirmed ∧
      payment.agreementPda = some agreementPda := by
  obtain ⟨hfetch, hdb⟩ := db_of_select h rfl
  obtain ⟨payment, hpayment, rfl⟩ := List.mem_map.mp hfetch
  rw [List.mem_filter, Bool.decide_and, Bool.and_eq_true, decide_eq_true_eq, decide_eq_true_eq]
    at hpayment
  rw [hdb]
  exact ⟨payment, Db.payment?_eq_some.mpr ⟨hpayment.1, rfl⟩, hpayment.2.2, hpayment.2.1⟩

theorem pendingRefunds_returns {rows : List RefundRow} {w w' : World}
    (h : performSql (.payment .pendingRefunds) rows w = some w') :
    TopBy RefundRow.sortKey 10 w.db.refundJoin rows ∧ w'.db = w.db :=
  db_of_select h rfl

/-- A joined row comes from a `refund_pending` payment and a party row of its agreement. -/
theorem mem_refundJoin {db : Db} {row : RefundRow} :
    row ∈ db.refundJoin ↔ ∃ payment ∈ db.payments.rows, payment.status = .refundPending ∧
      ∃ party ∈ db.parties.rows, payment.agreementPda = some party.agreementPda ∧
        row = ⟨payment.id, party.agreementPda, payment.tokenMint, payment.refundAmount,
          party.creatorPubkey, payment.refundInitiatedAt⟩ := by
  simp only [Db.refundJoin, List.mem_flatMap, List.mem_filter, List.mem_map, decide_eq_true_eq]
  constructor
  · rintro ⟨payment, ⟨hmem, hstatus⟩, party, ⟨hparty, hpda⟩, rfl⟩
    exact ⟨payment, hmem, hstatus, party, hparty, hpda, rfl⟩
  · rintro ⟨payment, hmem, hstatus, party, hparty, hpda, rfl⟩
    exact ⟨payment, ⟨hmem, hstatus⟩, party, ⟨hparty, hpda⟩, rfl⟩

/-! ## One payment -/

theorem PaymentChange.id_eq {step : BackendStep} {payment payment' : Payment}
    (h : PaymentChange step payment payment') : payment'.id = payment.id := by
  cases h <;> rfl

/-- No step writes `refund_amount` or `draft_id`. -/
theorem PaymentChange.fixed {step : BackendStep} {payment payment' : Payment}
    (h : PaymentChange step payment payment') :
    payment'.refundAmount = payment.refundAmount ∧ payment'.draftId = payment.draftId := by
  cases h <;> exact ⟨rfl, rfl⟩

/-- A payment is still there after a step. -/
theorem payment?_step {step : BackendStep} {id : Uuid} {payment : Payment}
    (h : step.Valid perform) (hpre : step.pre.db.payment? id = some payment) :
    ∃ payment', step.post.db.payment? id = some payment' ∧ PaymentChange step payment payment' := by
  obtain ⟨f, hrows, hchange⟩ := payment_step h
  obtain ⟨hmem, hid⟩ := Db.payment?_eq_some.mp hpre
  refine ⟨f payment, Db.payment?_eq_some.mpr ⟨?_, ?_⟩, hchange payment hmem⟩
  · rw [hrows]
    exact List.mem_map_of_mem hmem
  · rw [(hchange payment hmem).id_eq, hid]

/-- A payment was there before the step. -/
theorem payment?_step_back {step : BackendStep} {id : Uuid} {payment' : Payment}
    (h : step.Valid perform) (hpost : step.post.db.payment? id = some payment') :
    ∃ payment, step.pre.db.payment? id = some payment ∧ PaymentChange step payment payment' := by
  obtain ⟨f, hrows, hchange⟩ := payment_step h
  obtain ⟨hmem, hid⟩ := Db.payment?_eq_some.mp hpost
  rw [hrows] at hmem
  obtain ⟨payment, hpayment, rfl⟩ := List.mem_map.mp hmem
  have hpid : payment.id = id := by rw [← hid, (hchange payment hpayment).id_eq]
  exact ⟨payment, Db.payment?_eq_some.mpr ⟨hpayment, hpid⟩, hchange payment hpayment⟩

/-- A queueing step queues its payment, whatever the status. -/
theorem payment?_queued {step : BackendStep} {id : Uuid} {payment : Payment}
    (h : step.Valid perform) (hqueue : QueuesRefund id step)
    (hpre : step.pre.db.payment? id = some payment) :
    ∃ now, step.post.db.payment? id = some (payment.queueRefund now) := by
  obtain ⟨hmem, hid⟩ := Db.payment?_eq_some.mp hpre
  have hupdate : ∀ now, (commit (updateWhere (·.id = id) (·.queueRefund now)
      step.pre.db.payments.rows)).map (fun payments => { step.pre.db with payments }) =
        some step.post.db →
      step.post.db.payment? id = some (payment.queueRefund now) := by
    intro now hexec
    obtain ⟨payments, hcommit, hdb⟩ := Option.map_eq_some_iff.mp hexec
    rw [← hdb]
    refine Db.payment?_eq_some.mpr ⟨?_, hid⟩
    rw [rows_of_commit hcommit]
    exact mem_updateWhere.mpr ⟨payment, hmem, by simp [hid]⟩
  rcases hqueue with ⟨now, hstep⟩ | ⟨now, hstep⟩
  · exact ⟨now, hupdate now (exec_of_executes h hstep)⟩
  · exact ⟨now, hupdate now (exec_of_executes h hstep)⟩

end PactumCodex
