import PactumCodex.Payments.StatusMachine

/-!
# Confirming a payment once

`confirm_payment_atomic` decides in its `UPDATE`: the call returns `Ok(true)`
exactly if a pending payment had the reference, and the payment is then no
longer pending.  No statement leads back to `pending`, so a reference is used up
by the first such call; a transaction signature is used up too, since the
confirmed payment keeps it and the index on signatures admits no second one.

## Strategy

In an interleaving only steps are visible, so `confirmationResult` reads the result
of a call off the step that ends it, and `confirmPaymentAtomic_returns` proves that
this is what the call returns.  References and signatures are two kinds of keys for
the once rule: `ReferenceUsed` and `SignatureUsed` stay true in every step, and a
call that returns `Ok(true)` needs its key unused and uses it up.
-/

namespace PactumCodex

open Interaction Relational

/-! ## What the calls return -/

/-- The arguments of `confirm_payment_atomic`. -/
structure ConfirmationCall where
  reference : String
  txSignature : String
  tokenMint : String
  tokenAmount : Int64

/-- The call. -/
def ConfirmationCall.handler (call : ConfirmationCall) : Handler Bool :=
  confirmPaymentAtomic call.reference call.txSignature call.tokenMint call.tokenAmount

/-- The call of `confirm_payment_atomic` that ends with the step, and what it returns. -/
def confirmationResult : BackendStep → Option (ConfirmationCall × Except AppError Bool)
  | ⟨_, .sql (.payment (.confirm reference txSignature tokenMint tokenAmount _)), .ok row, _⟩ =>
      some (⟨reference, txSignature, tokenMint, tokenAmount⟩, .ok row.isSome)
  | ⟨_, .sql (.payment (.confirm reference txSignature tokenMint tokenAmount _)), .error _, _⟩ =>
      some (⟨reference, txSignature, tokenMint, tokenAmount⟩, .error .internalError)
  | _ => none

/-- The call that ends with the step and returns `Ok(true)`. -/
def confirmedCall (step : BackendStep) : Option ConfirmationCall :=
  match confirmationResult step with
  | some (call, .ok true) => some call
  | _ => none

/-- A call that returns has this result, and none before. -/
theorem confirmPaymentAtomic_returns {call : ConfirmationCall} {w w' : World}
    {steps : List BackendStep} {result : Except AppError Bool}
    (h : Runs perform call.handler.run w steps result w') :
    steps.filterMap confirmationResult = [(call, result)] := by
  unfold ConfirmationCall.handler confirmPaymentAtomic at h
  rcases result with e | confirmed
  · rcases runs_bind_error.mp h with hclock | ⟨now, w₁, first, second, rfl, hclock, hrest⟩
    · exact absurd hclock runs_ask_error
    · obtain ⟨-, rfl⟩ := runs_ask_ok.mp hclock
      rcases runs_bind_error.mp hrest with hquery | ⟨row, w₂, third, last, rfl, -, hreturn⟩
      · obtain ⟨rfl, -, rfl⟩ := runs_query_error.mp hquery
        rfl
      · cases hreturn.2.1
  · obtain ⟨now, w₁, first, second, rfl, hclock, hrest⟩ := runs_bind_ok.mp h
    obtain ⟨-, rfl⟩ := runs_ask_ok.mp hclock
    obtain ⟨row, w₂, third, last, rfl, hquery, hreturn⟩ := runs_bind_ok.mp hrest
    obtain ⟨-, rfl⟩ := runs_query_ok.mp hquery
    obtain ⟨rfl, hvalue, -⟩ := runs_run_pure.mp hreturn
    obtain rfl := Except.ok.inj hvalue
    rfl

/-- A step that ends a call with `Ok(true)` executes its `UPDATE` on the payment that awaited it. -/
theorem confirmedCall_eq_some {step : BackendStep} (h : step.Valid perform)
    {call : ConfirmationCall}
    (hcall : confirmedCall step = some call) :
    ∃ payment ∈ step.pre.db.payments.rows, payment.awaits call.reference ∧ ∃ now,
      step.post.db.payments.rows = updateWhere (·.awaits call.reference)
        ({ · with status := .confirmed, tokenTxSignature := some call.txSignature,
                  tokenMint := some call.tokenMint, tokenAmount := some call.tokenAmount,
                  confirmedAt := some now }) step.pre.db.payments.rows := by
  obtain ⟨w, op, ans, w'⟩ := step
  unfold confirmedCall at hcall
  split at hcall
  · rename_i found hresult
    obtain rfl := Option.some.inj hcall
    unfold confirmationResult at hresult
    split at hresult
    · rename_i reference txSignature tokenMint tokenAmount now row _ heq
      cases heq
      simp only [Option.some.injEq, Prod.mk.injEq, Except.ok.injEq] at hresult
      obtain ⟨rfl, hrow⟩ := hresult
      have hexec := @exec_of_executes _ (.payment (.confirm ..)) row h rfl
      obtain ⟨payments, hpayments, hdb⟩ := Option.map_eq_some_iff.mp hexec
      simp only [PaymentStmt.exec, Option.ite_none_right_eq_some] at hpayments
      obtain ⟨hfound, hcommit⟩ := hpayments
      rw [hfound, Option.isSome_map, List.find?_isSome] at hrow
      obtain ⟨payment, hmem, hawaits⟩ := hrow
      refine ⟨payment, hmem, hawaits, now, ?_⟩
      rw [← hdb]
      exact rows_of_commit hcommit
    · simp at hresult
    · simp at hresult
  · cases hcall

/-- A call that returns `Ok(false)` or an error leaves the payments as they are. -/
theorem payments_eq_of_unconfirmed {step : BackendStep} (h : step.Valid perform)
    {call : ConfirmationCall} {result : Except AppError Bool}
    (hresult : confirmationResult step = some (call, result)) (hne : result ≠ .ok true) :
    step.post.db.payments.rows = step.pre.db.payments.rows := by
  obtain ⟨w, op, ans, w'⟩ := step
  unfold confirmationResult at hresult
  split at hresult
  · rename_i reference txSignature tokenMint tokenAmount now row _ heq
    cases heq
    obtain ⟨rfl, rfl⟩ := Prod.mk.inj (Option.some.inj hresult)
    have hexec := @exec_of_executes _ (.payment (.confirm ..)) row h rfl
    obtain ⟨payments, hpayments, hdb⟩ := Option.map_eq_some_iff.mp hexec
    simp only [PaymentStmt.exec, Option.ite_none_right_eq_some] at hpayments
    obtain ⟨hfound, hcommit⟩ := hpayments
    have hnone : row = none := by
      cases row with
      | none => rfl
      | some id => exact absurd rfl hne
    rw [hnone, eq_comm, Option.map_eq_none_iff, List.find?_eq_none] at hfound
    show w'.db.payments.rows = w.db.payments.rows
    rw [← hdb]
    refine (rows_of_commit hcommit).trans (updateWhere_eq_self fun payment hmem => ?_)
    exact Bool.eq_false_iff.mpr (hfound payment hmem)
  · rename_i heq
    cases heq
    obtain rfl : w = w' := Option.some.inj h
    rfl
  · cases hresult

/-! ## References and signatures are used up -/

/-- No pending payment has the reference. -/
def ReferenceUsed (reference : String) (w : World) : Prop :=
  ∀ payment ∈ w.db.payments.rows, payment.awaits reference = false

/-- A payment that has left `pending` carries the signature. -/
def SignatureUsed (txSignature : String) (w : World) : Prop :=
  ∃ payment ∈ w.db.payments.rows, payment.tokenTxSignature = some txSignature ∧
    payment.status ≠ .pending

/-- The payment has expired; its refund may have been queued since. -/
def Lapsed (id : Uuid) (w : World) : Prop :=
  ∃ payment, w.db.payment? id = some payment ∧ payment.status ≠ .pending ∧
    payment.status ≠ .confirmed

/-- A payment that has left `pending` does not come back, and keeps its signature. -/
theorem PaymentChange.settled {step : BackendStep} {payment payment' : Payment}
    (h : PaymentChange step payment payment') (hstatus : payment.status ≠ .pending) :
    payment'.status ≠ .pending ∧ payment'.tokenTxSignature = payment.tokenTxSignature ∧
      (payment.status ≠ .confirmed → payment'.status ≠ .confirmed) := by
  cases h with
  | same => exact ⟨hstatus, rfl, id⟩
  | confirm _ _ _ _ _ hpending => exact absurd hpending hstatus
  | expire hpending => exact absurd hpending hstatus
  | queue now _ => simp [Payment.queueRefund]
  | refund => simp
  | link _ hconfirmed => exact ⟨hstatus, rfl, id⟩

/-- No step writes `token_reference_pubkey`. -/
theorem PaymentChange.reference_eq {step : BackendStep} {payment payment' : Payment}
    (h : PaymentChange step payment payment') :
    payment'.tokenReferencePubkey = payment.tokenReferencePubkey := by
  cases h <;> rfl

theorem referenceUsed_step {step : BackendStep} {reference : String} (h : step.Valid perform)
    (hpre : ReferenceUsed reference step.pre) : ReferenceUsed reference step.post := by
  obtain ⟨f, hrows, hchange⟩ := payment_step h
  intro payment' hmem
  rw [hrows] at hmem
  obtain ⟨payment, hpayment, rfl⟩ := List.mem_map.mp hmem
  have hused := hpre payment hpayment
  have hpayment' := hchange payment hpayment
  simp only [Payment.awaits, decide_eq_false_iff_not, not_and] at hused ⊢
  intro hreference
  rw [hpayment'.reference_eq] at hreference
  exact (hpayment'.settled (hused hreference)).1

theorem signatureUsed_step {step : BackendStep} {txSignature : String} (h : step.Valid perform)
    (hpre : SignatureUsed txSignature step.pre) : SignatureUsed txSignature step.post := by
  obtain ⟨f, hrows, hchange⟩ := payment_step h
  obtain ⟨payment, hmem, hsignature, hstatus⟩ := hpre
  obtain ⟨hstatus', hsignature', -⟩ := (hchange payment hmem).settled hstatus
  exact ⟨f payment, hrows ▸ List.mem_map_of_mem hmem, hsignature'.trans hsignature, hstatus'⟩

theorem lapsed_step {step : BackendStep} {id : Uuid} (h : step.Valid perform)
    (hpre : Lapsed id step.pre) : Lapsed id step.post := by
  obtain ⟨payment, hpayment, hpending, hconfirmed⟩ := hpre
  obtain ⟨payment', hpayment', hchange⟩ := payment?_step h hpayment
  obtain ⟨hpending', -, hconfirmed'⟩ := hchange.settled hpending
  exact ⟨payment', hpayment', hpending', hconfirmed' hconfirmed⟩

/-- A call returns `Ok(true)` only for an unused reference, and uses it up. -/
theorem reference_of_confirmedCall {step : BackendStep} (h : step.Valid perform)
    {call : ConfirmationCall} (hcall : confirmedCall step = some call) :
    ¬ ReferenceUsed call.reference step.pre ∧ ReferenceUsed call.reference step.post := by
  obtain ⟨payment, hmem, hawaits, now, hrows⟩ := confirmedCall_eq_some h hcall
  constructor
  · intro hused
    rw [hused payment hmem] at hawaits
    cases hawaits
  · intro payment' hmem'
    rw [hrows] at hmem'
    obtain ⟨other, -, rfl⟩ := mem_updateWhere.mp hmem'
    split
    · simp [Payment.awaits]
    · exact Bool.eq_false_iff.mpr ‹_›

/-- A call returns `Ok(true)` only for an unused signature, and uses it up. -/
theorem signature_of_confirmedCall {step : BackendStep} (h : step.Valid perform)
    {call : ConfirmationCall} (hcall : confirmedCall step = some call) :
    ¬ SignatureUsed call.txSignature step.pre ∧ SignatureUsed call.txSignature step.post := by
  obtain ⟨payment, hmem, hawaits, now, hrows⟩ := confirmedCall_eq_some h hcall
  have hconfirmed := hrows ▸ mem_updateWhere.mpr ⟨payment, hmem, rfl⟩
  rw [if_pos hawaits] at hconfirmed
  constructor
  · rintro ⟨old, hold, hsignature, hstatus⟩
    -- the payment that carries the signature is kept, and the index admits it once
    have hkept : old ∈ step.post.db.payments.rows := by
      rw [hrows]
      refine mem_updateWhere.mpr ⟨old, hold, ?_⟩
      rw [if_neg]
      simp [Payment.awaits, hstatus]
    have hsame :=
      eq_of_partial_key_eq step.post.db.payments.valid.2.2 hkept hconfirmed hsignature rfl
    have hid : old = payment := eq_of_key_eq step.pre.db.payments.valid.1 hold hmem (by rw [hsame])
    simp only [Payment.awaits, Bool.decide_and, Bool.and_eq_true, decide_eq_true_eq] at hawaits
    exact hstatus (hid ▸ hawaits.2)
  · exact ⟨_, hconfirmed, rfl, by simp⟩

/-- A payment that has expired is not confirmed. -/
theorem not_confirms_of_lapsed {step : BackendStep} {id : Uuid} (h : step.Valid perform)
    (hlapsed : Lapsed id step.pre) : ¬ Confirms id step := by
  rintro ⟨reference, txSignature, tokenMint, tokenAmount, now, hstep⟩
  obtain ⟨payment, hpayment, hpending, -⟩ := hlapsed
  have hexec := exec_of_executes h hstep
  obtain ⟨payments, hpayments, -⟩ := Option.map_eq_some_iff.mp hexec
  simp only [PaymentStmt.exec, Option.ite_none_right_eq_some] at hpayments
  obtain ⟨found, hfound, hid⟩ := Option.map_eq_some_iff.mp hpayments.1.symm
  have hsame : step.pre.db.payment? id = some found :=
    Db.payment?_eq_some.mpr ⟨List.mem_of_find?_eq_some hfound, hid⟩
  rw [hpayment, Option.some.injEq] at hsame
  have hawaits := List.find?_some hfound
  simp only [Payment.awaits, Bool.decide_and, Bool.and_eq_true, decide_eq_true_eq] at hawaits
  exact hpending (hsame ▸ hawaits.2)

/-- **Confirmations.**  What a call returns can be read off its steps, of which one ends the call.
In every interleaving of confirmations, expiry scans and all other programs of the backend, started
with any payments: the calls that return `Ok(true)` have different references and different
signatures; a payment that has expired is not confirmed at any later step; all other calls leave the
payments as they are. -/
theorem confirmations_once {env : Env} {w w' : World} {steps : List BackendStep}
    (hrun : SystemRun env w steps w') :
    (∀ (call : ConfirmationCall) w₁ own result w₂, Runs perform call.handler.run w₁ own result w₂ →
      own.filterMap confirmationResult = [(call, result)]) ∧
    ((steps.filterMap confirmedCall).map ConfirmationCall.reference).Nodup ∧
    ((steps.filterMap confirmedCall).map ConfirmationCall.txSignature).Nodup ∧
    (∀ before step after, steps = before ++ step :: after →
      ∀ payment ∈ step.pre.db.payments.rows, payment.status = .expired →
        ∀ later ∈ step :: after, ¬ Confirms payment.id later ∧
          ∀ payment' ∈ later.post.db.payments.rows, payment'.id = payment.id →
            payment'.status ≠ .confirmed) ∧
    ∀ step ∈ steps, ∀ call result, confirmationResult step = some (call, result) →
      result ≠ .ok true → step.post.db.payments.rows = step.pre.db.payments.rows := by
  obtain ⟨threads, hpool⟩ := hrun
  have hchain := hpool.chain
  refine ⟨fun _ _ _ _ _ hcall => confirmPaymentAtomic_returns hcall, ?_, ?_, ?_, ?_⟩
  -- the once rule, with references and then with signatures as keys
  · rw [List.map_filterMap]
    refine (hchain.keys_nodup ReferenceUsed (fun step reference h hkey => ?_)
      fun step reference h => referenceUsed_step h).1
    obtain ⟨call, hcall, rfl⟩ := Option.map_eq_some_iff.mp hkey
    exact reference_of_confirmedCall h hcall
  · rw [List.map_filterMap]
    refine (hchain.keys_nodup SignatureUsed (fun step txSignature h hkey => ?_)
      fun step txSignature h => signatureUsed_step h).1
    obtain ⟨call, hcall, rfl⟩ := Option.map_eq_some_iff.mp hkey
    exact signature_of_confirmedCall h hcall
  · rintro before step after rfl payment hpayment hexpired later hlater
    obtain ⟨-, hvalid, hafter⟩ := hchain.split
    have hlapsed : Lapsed payment.id step.pre :=
      ⟨payment, Db.payment?_eq_some.mpr ⟨hpayment, rfl⟩, by simp [hexpired], by simp [hexpired]⟩
    have hfrom : Chain perform step.pre (step :: after) w' := .cons hvalid hafter
    obtain ⟨hpre, found, hfound, -, hconfirmed⟩ := (hfrom.invariant (Lapsed payment.id) hlapsed
      fun step _ h => lapsed_step h).2 later hlater
    refine ⟨not_confirms_of_lapsed (hfrom.valid later hlater) hpre, ?_⟩
    intro payment' hpayment' hid
    have hsame := Db.payment?_eq_some.mpr ⟨hpayment', hid⟩
    rw [hfound, Option.some.injEq] at hsame
    exact hsame ▸ hconfirmed
  · intro step hmem call result hresult hne
    exact payments_eq_of_unconfirmed (hchain.valid step hmem) hresult hne

/-! ## Two references paid by one transaction -/

/-- Two payments wait for their confirmation. -/
def twoPayments : List Payment :=
  [samplePayment, { samplePayment with id := 2, tokenReferencePubkey := some "second" }]

def twoPaymentsDb : Db := { Db.empty with payments := ⟨twoPayments, by decide⟩ }

/-- The first reference is confirmed twice, the second one by the same transaction and, after the
expiry scan, by another one. -/
def repeatedConfirmations : List (Backend Unit) :=
  [Handler.logged (confirmPaymentAtomic referenceKey "tx" mintKey 1990000),
    Handler.logged (confirmPaymentAtomic referenceKey "other" mintKey 1990000),
    Handler.logged (confirmPaymentAtomic "second" "tx" mintKey 1990000), expireTimedOutPayments,
    Handler.logged (confirmPaymentAtomic "second" "other" mintKey 1990000)]

theorem repeatedConfirmations_entry : ∀ p ∈ repeatedConfirmations, Entry sampleEnv p := by
  simp only [repeatedConfirmations, List.forall_mem_cons, List.not_mem_nil, false_implies,
    implies_true,
    and_true]
  exact ⟨.confirmPaymentAtomic .., .confirmPaymentAtomic .., .confirmPaymentAtomic ..,
    .expireTimedOutPayments, .confirmPaymentAtomic ..⟩

/-- The index on signatures rejects the second confirmation by the transaction. -/
def rejectSecond : (op : Op) → World → op.Ans
  | .sql (.payment (.confirm "second" "tx" _ _ _)), _ => .error .failed
  | op, w => cooperate 1000 op w

theorem confirmations_once_repeated :
    ∃ steps w', SystemRun sampleEnv (World.ofDb twoPaymentsDb) steps w' ∧
      (steps.filterMap fun step => (confirmationResult step).map fun result => result.2.toOption) =
        [some true, some false, none, some false] ∧
      ((steps.filterMap confirmedCall).map ConfirmationCall.reference).Nodup := by
  obtain ⟨steps, w', hrun, htest⟩ := systemRun_of_replay (World.ofDb twoPaymentsDb)
    ([0, 0, 1, 1, 2, 2, 3, 3, 4, 4].map fun i => (i, rejectSecond))
    (fun steps _ => decide ((steps.filterMap fun step =>
      (confirmationResult step).map fun result => result.2.toOption) =
        [some true, some false, none, some false])) repeatedConfirmations_entry (by decide +kernel)
  exact ⟨steps, w', hrun, of_decide_eq_true htest, (confirmations_once hrun).2.1⟩

end PactumCodex
