import PactumCodex.Payments.Reads
import PactumCodex.Replay

/-!
# The amount of a refund

A refund should pay back the tokens of the payment, less the nonrefundable part
of the fee if the agreement was cancelled or expired after its document had
been uploaded.  The amount travels through the column `refund_amount`: the
programs that queue a refund are supposed to store it, the refund worker reads
it and takes a missing value as zero.  Neither of the two queueing `UPDATE`s
writes the column, so the worker pays whatever the column held from the start.

## Strategy

What is owed depends on the step that queued the payment last (`amountOwed`), and what
is paid on the column when the worker reads it.

* `selected_of_refundCall`: in every interleaving the worker passes the column of a
  payment that is past being queued, by the rule for reads.
* `refundAmount_chain`: the column is what it was at the start.
* `exists_lastQueued`: such a payment was queued in the run, since all payments were
  pending at its start.

So a refund pays what is owed exactly if the column held it from the start, or it
held nothing and nothing is owed (`amountPreset_iff`).
-/

namespace PactumCodex

open Interaction Relational

/-! ## What is owed -/

/-- The tokens that were paid; `token_amount` of the payment, as the worker would cast it. -/
def paidUnits (db : Db) (id : Uuid) : UInt64 :=
  (((db.payment? id).bind Payment.tokenAmount).getD 0).toUInt64

/-- The document of the payment's draft has been uploaded. -/
def uploaded (db : Db) (id : Uuid) : Bool :=
  ((db.payment? id).bind fun payment => db.draft? payment.draftId).any Draft.storageUploaded

/-- The operation queues the refund of a cancelled or expired agreement. -/
def Op.cancels : Op → Bool
  | .sql (.payment (.initiateRefund ..)) => true
  | _ => false

/-- What is owed for a payment that is queued by the given step. -/
def amountOwed (config : Config) (id : Uuid) (queue : BackendStep) : UInt64 :=
  if queue.op.cancels ∧ uploaded queue.pre.db id then
    calculateRefundAmount (paidUnits queue.pre.db id) config.platformNonrefundableFeeCents
      config.platformFeeUsdCents
  else paidUnits queue.pre.db id

/-- `queue` is the step of `steps` that queued the payment last. -/
def LastQueued (id : Uuid) (steps : List BackendStep) (queue : BackendStep) : Prop :=
  ∃ before after, steps = before ++ queue :: after ∧ QueuesRefund id queue ∧
    ∀ step ∈ after, ¬ QueuesRefund id step

/-- Every call of `execute_refund` is about a payment that was queued before, and passes the
amount that was owed then. -/
def PaysOwed (config : Config) (steps : List BackendStep) : Prop :=
  ∀ before call after, steps = before ++ call :: after →
    ∀ id creator mint amount, call.op = .refundCall id creator mint amount →
      ∃ queue, LastQueued id before queue ∧ amount = amountOwed config id queue

/-- Nothing is owed: no tokens were paid, or the document had been uploaded and the refundable
part of the fee rounds to nothing. -/
def NothingOwed (config : Config) (id : Uuid) (queue : BackendStep) : Prop :=
  paidUnits queue.pre.db id = 0 ∨
    queue.op.cancels ∧ uploaded queue.pre.db id ∧
      (config.platformFeeUsdCents = 0 ∨
        paidUnits queue.pre.db id * (saturatingSub config.platformFeeUsdCents
            config.platformNonrefundableFeeCents).toUInt64 <
          config.platformFeeUsdCents.toUInt64)

/-- The column `refund_amount`, as it was at the start, holds the right amount for a payment
queued by `queue`: it is null and nothing is owed, or it was filled in beforehand. -/
def AmountPreset (config : Config) (w : World) (id : Uuid) (queue : BackendStep) : Prop :=
  match (w.db.payment? id).bind Payment.refundAmount with
  | none => NothingOwed config id queue
  | some amount => amount.toUInt64 = amountOwed config id queue

theorem toNat_toUInt64_pos {n : UInt32} (h : n ≠ 0) : 0 < n.toUInt64.toNat := by
  have hne : n.toNat ≠ 0 := fun hzero => h (UInt32.toNat_inj.mp hzero)
  rw [UInt32.toNat_toUInt64]
  omega

/-- The refundable part is zero in three cases. -/
theorem calculateRefundAmount_eq_zero {paid : UInt64} {nonrefundable total : UInt32} :
    calculateRefundAmount paid nonrefundable total = 0 ↔
      paid = 0 ∨ total = 0 ∨
        paid * (saturatingSub total nonrefundable).toUInt64 < total.toUInt64 := by
  unfold calculateRefundAmount
  by_cases hzero : total = 0 ∨ paid = 0
  · rw [if_pos hzero]
    rcases hzero with hzero | hzero <;> simp [hzero]
  · rw [if_neg hzero]
    rw [not_or] at hzero
    have hpos := toNat_toUInt64_pos hzero.1
    simp only [hzero, false_or, ← UInt64.toNat_inj, UInt64.toNat_div, UInt64.toNat_zero,
      Nat.div_eq_zero_iff, UInt64.lt_iff_toNat_lt]
    omega

theorem amountOwed_eq_zero {config : Config} {id : Uuid} {queue : BackendStep} :
    amountOwed config id queue = 0 ↔ NothingOwed config id queue := by
  unfold amountOwed NothingOwed
  split
  · rename_i hcancelled
    rw [calculateRefundAmount_eq_zero]
    simp [hcancelled.1, hcancelled.2]
  · rename_i hfull
    simp only [not_and, Bool.not_eq_true] at hfull
    constructor
    · exact Or.inl
    · rintro (hzero | ⟨hcancels, huploaded, -⟩)
      · exact hzero
      · simp [hfull hcancels] at huploaded

/-- The preset amount is the owed one, a null counting as zero. -/
theorem amountPreset_iff {config : Config} {w : World} {id : Uuid} {queue : BackendStep} :
    AmountPreset config w id queue ↔
      (((w.db.payment? id).bind Payment.refundAmount).getD 0).toUInt64 =
        amountOwed config id queue := by
  unfold AmountPreset
  cases (w.db.payment? id).bind Payment.refundAmount with
  | none =>
      rw [← amountOwed_eq_zero, eq_comm]
      rfl
  | some amount => exact Iff.rfl

/-! ## What the worker pays -/

/-- The payment is past being queued, and `amount` is what its `refund_amount` says. -/
def Selected (id : Uuid) (amount : UInt64) (w : World) : Prop :=
  ∃ payment, w.db.payment? id = some payment ∧ amount = (payment.refundAmount.getD 0).toUInt64 ∧
    (payment.status = .refundPending ∨ payment.status = .refunded)

/-- The refund worker reads payments that are past being queued. -/
def selectedReads : Reads where
  expired _ _ := True
  confirmed _ _ := True
  selected := Selected

theorem selected_step {step : BackendStep} {id : Uuid} {amount : UInt64} (h : step.Valid perform)
    (hpre : Selected id amount step.pre) : Selected id amount step.post := by
  obtain ⟨payment, hpayment, rfl, hstatus⟩ := hpre
  obtain ⟨payment', hpayment', hchange⟩ := payment?_step h hpayment
  refine ⟨payment', hpayment', by rw [hchange.fixed.1], ?_⟩
  cases hchange with
  | same => exact hstatus
  | confirm _ _ _ _ _ hpending => simp [hpending] at hstatus
  | expire hpending => simp [hpending] at hstatus
  | queue now _ => exact Or.inl rfl
  | refund => exact Or.inr rfl
  | link _ hconfirmed => simp [hconfirmed] at hstatus

theorem selected_of_mem_refundJoin {w : World} {row : RefundRow} (hrow : row ∈ w.db.refundJoin) :
    Selected row.id (row.refundAmount.getD 0).toUInt64 w := by
  obtain ⟨payment, hpayment, hstatus, party, -, -, rfl⟩ := mem_refundJoin.mp hrow
  exact ⟨payment, Db.payment?_eq_some.mpr ⟨hpayment, rfl⟩, rfl, Or.inl hstatus⟩

/-- In every interleaving, `execute_refund` is called with the `refund_amount` of a payment that
is past being queued. -/
theorem selected_of_refundCall {env : Env} {w w' : World} {steps : List BackendStep}
    (hrun : SystemRun env w steps w') {step : BackendStep} (hmem : step ∈ steps) {id : Uuid}
    {creator mint : String} {amount : UInt64}
    (hcall : step.op = .refundCall id creator mint amount) : Selected id amount step.pre := by
  have hkept : ∀ step, selectedReads.Respects step → selectedReads.Kept step.pre step.post :=
    fun step h => ⟨fun _ _ => trivial, fun _ _ => trivial, fun _ _ => selected_step h.valid⟩
  have hread : selectedReads.Established :=
    ⟨fun _ _ _ _ _ => trivial, fun _ _ _ _ _ _ => trivial,
      fun _ _ hrow => selected_of_mem_refundJoin hrow⟩
  exact (Reads.respects_of_run hkept hread hrun step hmem).selected id creator mint amount hcall

/-! ## From the start to the call -/

/-- No step writes `refund_amount`. -/
theorem refundAmount_chain {w w' : World} {steps : List BackendStep} {id : Uuid}
    {payment' : Payment} (h : Chain perform w steps w')
    (hpost : w'.db.payment? id = some payment') :
    ∃ payment, w.db.payment? id = some payment ∧ payment.refundAmount = payment'.refundAmount := by
  induction h with
  | nil => exact ⟨payment', hpost, rfl⟩
  | cons hvalid _ ih =>
      obtain ⟨payment₁, hpayment₁, hamount⟩ := ih hpost
      obtain ⟨payment, hpayment, hchange⟩ := payment?_step_back hvalid hpayment₁
      exact ⟨payment, hpayment, by rw [← hchange.fixed.1, hamount]⟩

/-- A payment that is not past being queued. -/
def NotQueued (id : Uuid) (w : World) : Prop :=
  ∀ payment, w.db.payment? id = some payment →
    payment.status ≠ .refundPending ∧ payment.status ≠ .refunded

theorem notQueued_step {step : BackendStep} {id : Uuid} (h : step.Valid perform)
    (hqueue : ¬ QueuesRefund id step) (hpre : NotQueued id step.pre) : NotQueued id step.post := by
  intro payment' hpayment'
  obtain ⟨payment, hpayment, hchange⟩ := payment?_step_back h hpayment'
  obtain ⟨-, rfl⟩ := Db.payment?_eq_some.mp hpayment
  obtain ⟨hpending, hrefunded⟩ := hpre payment hpayment
  cases hchange with
  | same => exact ⟨hpending, hrefunded⟩
  | confirm => simp
  | expire => simp
  | queue now hqueues => exact absurd hqueues hqueue
  | refund _ _ _ hstatus => exact absurd hstatus hpending
  | link => exact ⟨hpending, hrefunded⟩

/-- The last step of a list with a property that some step has. -/
theorem exists_last_step {p : BackendStep → Prop} {steps : List BackendStep}
    (h : ∃ step ∈ steps, p step) :
    ∃ before step after, steps = before ++ step :: after ∧ p step ∧ ∀ s ∈ after, ¬ p s := by
  induction steps with
  | nil => simp at h
  | cons first rest ih =>
      by_cases hrest : ∃ step ∈ rest, p step
      · obtain ⟨before, step, after, rfl, hstep, hafter⟩ := ih hrest
        exact ⟨first :: before, step, after, rfl, hstep, hafter⟩
      · rw [List.exists_mem_cons_iff] at h
        have hfirst : p first := h.resolve_right hrest
        exact ⟨[], first, rest, rfl, hfirst, fun s hs hps => hrest ⟨s, hs, hps⟩⟩

/-- A payment that is past being queued was queued by some step. -/
theorem exists_lastQueued {w w' : World} {steps : List BackendStep} {id : Uuid} {amount : UInt64}
    (hpending : ∀ payment ∈ w.db.payments.rows, payment.status = .pending)
    (h : Chain perform w steps w') (hselected : Selected id amount w') :
    ∃ queue, LastQueued id steps queue := by
  by_contra hnone
  have hnever : ∀ step ∈ steps, ¬ QueuesRefund id step := by
    intro step hmem hqueue
    obtain ⟨before, queue, after, hsteps, hlast⟩ := exists_last_step ⟨step, hmem, hqueue⟩
    exact hnone ⟨queue, before, after, hsteps, hlast⟩
  have hinit : NotQueued id w := by
    intro payment hpayment
    rw [hpending payment (Db.payment?_eq_some.mp hpayment).1]
    simp
  have hfinal := (h.invariant (NotQueued id) hinit fun step hmem hvalid =>
    notQueued_step hvalid (hnever step hmem)).1
  obtain ⟨payment, hpayment, -, hstatus⟩ := hselected
  obtain ⟨hnotPending, hnotRefunded⟩ := hfinal payment hpayment
  rcases hstatus with hstatus | hstatus
  · exact hnotPending hstatus
  · exact hnotRefunded hstatus

theorem LastQueued.unique {id : Uuid} {steps : List BackendStep} {queue queue' : BackendStep}
    (h : LastQueued id steps queue) (h' : LastQueued id steps queue') : queue = queue' := by
  obtain ⟨before, after, rfl, hqueue, hafter⟩ := h
  obtain ⟨before', after', hsteps, hqueue', hafter'⟩ := h'
  rcases List.append_eq_append_iff.mp hsteps with ⟨mid, rfl, hmid⟩ | ⟨mid, rfl, hmid⟩
  · cases mid with
    | nil => exact (List.cons.inj hmid).1
    | cons first rest =>
        obtain ⟨-, rfl⟩ := List.cons.inj hmid
        exact absurd hqueue' (hafter queue' (by simp))
  · cases mid with
    | nil => exact (List.cons.inj hmid).1.symm
    | cons first rest =>
        obtain ⟨-, rfl⟩ := List.cons.inj hmid
        exact absurd hqueue (hafter' queue (by simp))

/-- **Refund amounts.**  Starting from pending payments, in every interleaving, every refund pays
what is owed exactly if the column `refund_amount` held the right amount from the start: null
where nothing is owed, the owed amount elsewhere. -/
theorem refunds_pay_owed_iff {env : Env} {w w' : World} {steps : List BackendStep}
    (hpending : ∀ payment ∈ w.db.payments.rows, payment.status = .pending)
    (hrun : SystemRun env w steps w') :
    PaysOwed env.config steps ↔
      ∀ before call after, steps = before ++ call :: after →
        ∀ id creator mint amount, call.op = .refundCall id creator mint amount →
          ∀ queue, LastQueued id before queue → AmountPreset env.config w id queue := by
  -- every call pays what the column held at the start
  have hcalls : ∀ before call after, steps = before ++ call :: after →
      ∀ id creator mint amount, call.op = .refundCall id creator mint amount →
        (∃ queue, LastQueued id before queue) ∧
          amount = (((w.db.payment? id).bind Payment.refundAmount).getD 0).toUInt64 := by
    intro before call after hsteps id creator mint amount hcall
    have hmem : call ∈ steps := by simp [hsteps]
    have hselected := selected_of_refundCall hrun hmem hcall
    obtain ⟨threads, hpool⟩ := hrun
    have hchain := (Chain.split (hsteps ▸ hpool.chain)).1
    refine ⟨exists_lastQueued hpending hchain hselected, ?_⟩
    obtain ⟨payment, hpayment, rfl, -⟩ := hselected
    obtain ⟨payment₀, hpayment₀, hamount⟩ := refundAmount_chain hchain hpayment
    rw [hpayment₀, Option.bind_some, hamount]
  constructor
  · intro hpays before call after hsteps id creator mint amount hcall queue hqueue
    obtain ⟨queue', hqueue', howed⟩ := hpays before call after hsteps id creator mint amount hcall
    rw [hqueue.unique hqueue', amountPreset_iff, ← howed]
    exact (hcalls before call after hsteps id creator mint amount hcall).2.symm
  · intro hpreset before call after hsteps id creator mint amount hcall
    obtain ⟨⟨queue, hqueue⟩, hamount⟩ :=
      hcalls before call after hsteps id creator mint amount hcall
    refine ⟨queue, hqueue, hamount.trans ?_⟩
    exact amountPreset_iff.mp
      (hpreset before call after hsteps id creator mint amount hcall queue hqueue)

/-! ## A cancelled agreement -/

/-- The amount passed to `execute_refund`, if the operation is a call for the payment. -/
def Op.refundAmount? (id : Uuid) : Op → Option UInt64
  | .refundCall id' _ _ amount => if id' = id then some amount else none
  | _ => none

theorem Op.refundAmount?_eq_some {id : Uuid} {op : Op} {amount : UInt64}
    (h : op.refundAmount? id = some amount) :
    ∃ creator mint, op = .refundCall id creator mint amount := by
  unfold Op.refundAmount? at h
  split at h
  · rename_i id' creator mint amount'
    rw [Option.ite_none_right_eq_some, Option.some.injEq] at h
    obtain ⟨rfl, rfl⟩ := h
    exact ⟨creator, mint, rfl⟩
  · simp at h

theorem cancelled_payment_refunds_nothing :
    ¬ ∀ (env : Env) (w w' : World) (steps : List BackendStep),
      (∀ payment ∈ w.db.payments.rows, payment.status = .pending ∧
        ∃ amount, payment.tokenAmount = some amount ∧ 0 < amount) →
      SystemRun env w steps w' → (∀ payment ∈ w'.db.payments.rows, payment.status = .refunded) →
      PaysOwed env.config steps := by
  intro hclaim
  obtain ⟨steps, w', hrun, htest⟩ := systemRun_of_replay (World.ofDb (onePaymentDb linkedPayment))
    (orderlyUpdate.map fun i => (i, cooperate 0))
    (fun steps w' => decide ((∃ call ∈ steps, call.op.refundAmount? 1 = some 0) ∧
      (∀ queue ∈ steps, amountOwed sampleConfig 1 queue ≠ 0) ∧
      ∀ payment ∈ w'.db.payments.rows, payment.status = .refunded)) raceOfListeners_entry
    (by decide +kernel)
  obtain ⟨⟨call, hcall, hamount⟩, howed, hrefunded⟩ := of_decide_eq_true htest
  have hpending : ∀ payment ∈ (World.ofDb (onePaymentDb linkedPayment)).db.payments.rows,
      payment.status = .pending ∧ ∃ amount, payment.tokenAmount = some amount ∧ 0 < amount := by
    intro payment hmem
    obtain rfl : payment = linkedPayment := List.mem_singleton.mp hmem
    exact ⟨rfl, 1990000, rfl, by decide⟩
  have hpays := hclaim sampleEnv _ w' steps hpending hrun hrefunded
  obtain ⟨creator, mint, hop⟩ := Op.refundAmount?_eq_some hamount
  obtain ⟨before, after, hsteps⟩ := List.append_of_mem hcall
  obtain ⟨queue, ⟨first, second, hbefore, -⟩, hzero⟩ :=
    hpays before call after hsteps 1 creator mint 0 hop
  have hqueue : queue ∈ steps := by simp [hsteps, hbefore]
  exact howed queue hqueue hzero.symm

/-- A payment whose refund was computed by hand. -/
def presetPayment : Payment := { linkedPayment with refundAmount := some 1890000 }

theorem refunds_pay_owed_iff_preset :
    ∃ steps w', SystemRun sampleEnv (World.ofDb (onePaymentDb presetPayment)) steps w' ∧
      (∃ call ∈ steps, call.op.refundAmount? 1 = some 1890000) ∧ PaysOwed sampleConfig steps := by
  obtain ⟨steps, w', hrun, htest⟩ := systemRun_of_replay (World.ofDb (onePaymentDb presetPayment))
    (orderlyUpdate.map fun i => (i, cooperate 0))
    (fun steps _ => decide ((∃ call ∈ steps, call.op.refundAmount? 1 = some 1890000) ∧
      (∀ call ∈ steps, call.op.callsRefund → (call.op.refundAmount? 1).isSome) ∧
      ∀ queue ∈ steps, queue.op.queues → amountOwed sampleConfig 1 queue = 1890000))
    raceOfListeners_entry (by decide +kernel)
  obtain ⟨hpaid, hcalls, howed⟩ := of_decide_eq_true htest
  refine ⟨steps, w', hrun, hpaid, (refunds_pay_owed_iff (by decide) hrun).mpr ?_⟩
  intro before call after hsteps id creator mint amount hop queue
    ⟨first, second, hbefore, hqueues, _⟩
  have hcall := hcalls call (by simp [hsteps]) (by rw [hop]; rfl)
  obtain rfl : id = 1 := by simpa [hop, Op.refundAmount?] using hcall
  have hqueue : queue.op.queues = true := by
    rcases hqueues with hrec | hinit
    · obtain ⟨now, hop⟩ := hrec.op_eq
      rw [hop]
      rfl
    · obtain ⟨now, hop⟩ := hinit.op_eq
      rw [hop]
      rfl
  have hamount := howed queue (by simp [hsteps, hbefore]) hqueue
  exact hamount.symm

end PactumCodex
