import PactumCodex.Drafts.Rows
import PactumCodex.Payments.Rows
import PactumCodex.Replay

/-!
# Confirmed payments and the `paid` flag

`submit_draft` is gated by the flag `agreement_drafts.paid`, which is written by
the free-tier path of `initiate_payment` and by nothing else.  Confirming a
payment updates the payment only, so the draft is paid afterwards exactly if it
was paid before.
-/

namespace PactumCodex

open Interaction Relational

/-- The first gate of `submit_draft` does not ask for a payment. -/
def GateOpen (draft : Draft) : Prop :=
  ∀ hasEmail draftId initiateUrl,
    evaluateSubmitGates draft.paid draft.status hasEmail draft.id ≠
      .error (.paymentRequired draftId initiateUrl)

/-- The draft exists, is paid and passes the first gate. -/
def PaidFor (draftId : Uuid) (db : Db) : Prop :=
  ∃ draft, db.draft? draftId = some draft ∧ draft.paid ∧ GateOpen draft

/-- The first gate is open exactly for paid drafts. -/
theorem gateOpen_iff {draft : Draft} : GateOpen draft ↔ draft.paid := by
  constructor
  · intro hopen
    by_contra hpaid
    exact hopen true (Uuid.toText draft.id) ("/payment/initiate/" ++ Uuid.toText draft.id)
      (by simp [evaluateSubmitGates, hpaid])
  · intro hpaid hasEmail draftId initiateUrl
    unfold evaluateSubmitGates
    rw [hpaid]
    by_cases hready : draft.status = .readyToSubmit <;> cases hasEmail <;> simp [hready]

theorem paidFor_iff {draftId : Uuid} {db : Db} :
    PaidFor draftId db ↔ ∃ draft, db.draft? draftId = some draft ∧ draft.paid := by
  simp only [PaidFor, gateOpen_iff, and_self]

/-- A paid draft stays paid. -/
theorem paidFor_step {step : BackendStep} (h : step.Valid perform) {draftId : Uuid}
    (hpre : PaidFor draftId step.pre.db) : PaidFor draftId step.post.db := by
  rw [paidFor_iff] at hpre ⊢
  obtain ⟨draft, hdraft, hpaid⟩ := hpre
  obtain ⟨draft', hdraft', hkept, -⟩ := draft?_step h hdraft
  exact ⟨draft', hdraft', hkept.paid hpaid⟩

/-- Confirming a payment leaves the drafts as they are. -/
theorem drafts_of_confirms {step : BackendStep} (h : step.Valid perform) {id : Uuid}
    (hconfirms : Confirms id step) : step.post.db.drafts = step.pre.db.drafts := by
  obtain ⟨reference, txSignature, tokenMint, tokenAmount, now, hstep⟩ := hconfirms
  obtain ⟨payments, -, hdb⟩ := Option.map_eq_some_iff.mp (exec_of_executes h hstep)
  rw [← hdb]

/-- Whenever a payment is confirmed, its draft is paid in all later states of the run. -/
def ConfirmedArePaid (steps : List BackendStep) : Prop :=
  ∀ before step after, steps = before ++ step :: after → ∀ id payment, Confirms id step →
    step.pre.db.payment? id = some payment →
      ∀ later ∈ step :: after, PaidFor payment.draftId later.post.db

/-- The step confirms payments of drafts only that are paid already. -/
def ConfirmsPaid (step : BackendStep) : Prop :=
  ∀ id payment, Confirms id step → step.pre.db.payment? id = some payment →
    PaidFor payment.draftId step.pre.db

/-- **Confirmed drafts are paid**, in every interleaving and every later state, exactly if every
draft had been marked paid before its payment was confirmed. -/
theorem confirmed_are_paid_iff {env : Env} {w w' : World} {steps : List BackendStep}
    (hrun : SystemRun env w steps w') :
    ConfirmedArePaid steps ↔ ∀ step ∈ steps, ConfirmsPaid step := by
  constructor
  · intro hpaid step hmem id payment hconfirms hpayment
    obtain ⟨before, after, hsplit⟩ := List.append_of_mem hmem
    have hpost := hpaid before step after hsplit id payment hconfirms hpayment step
      List.mem_cons_self
    rw [PaidFor, Db.draft?, drafts_of_confirms (hrun.valid step hmem) hconfirms] at hpost
    exact hpost
  · intro hconfirms before step after hsplit id payment hconfirm hpayment
    have hmem : step ∈ steps := by simp [hsplit]
    have hpost : PaidFor payment.draftId step.post.db :=
      paidFor_step (hrun.valid step hmem) (hconfirms step hmem id payment hconfirm hpayment)
    -- from here on the draft stays paid
    obtain ⟨threads, hpool⟩ := hrun
    have hafter := (hsplit ▸ hpool.chain).split.2.2
    have hinv := hafter.invariant (fun w => PaidFor payment.draftId w.db) hpost
      fun _ _ hvalid => paidFor_step hvalid
    intro later hlater
    rcases List.mem_cons.mp hlater with rfl | hlater
    · exact hpost
    · exact (hinv.2 later hlater).2

/-! ## A confirmation -/

/-- A draft that has not been paid. -/
def unpaidDraft : Draft := { sampleDraft with paid := false }

/-- The database of one draft and one payment. -/
def oneDraftDb (draft : Draft) : Db :=
  { Db.empty with
    drafts := ⟨[draft], List.nodup_singleton _⟩
    payments := ⟨[samplePayment], by decide⟩ }

/-- The confirmation of the payment. -/
def confirmation : List (Backend Unit) :=
  [Handler.logged (confirmPaymentAtomic referenceKey "tx" mintKey 1990000)]

theorem confirmation_entry : ∀ p ∈ confirmation, Entry sampleEnv p := by
  simp only [confirmation, List.forall_mem_cons, List.not_mem_nil, false_implies, implies_true,
    and_true]
  exact .confirmPaymentAtomic ..

theorem confirmed_draft_unpaid :
    ¬ ∀ (env : Env) (w w' : World) (steps : List BackendStep),
      (∀ payment ∈ w.db.payments.rows, payment.status = .pending) → SystemRun env w steps w' →
      ConfirmedArePaid steps := by
  intro hclaim
  obtain ⟨steps, w', hrun, htest⟩ := systemRun_of_replay (World.ofDb (oneDraftDb unpaidDraft))
    [(0, cooperate 0), (0, cooperate 0)]
    (fun steps _ => steps.any fun step => isConfirmation 1 step &&
      step.pre.db.payment? 1 = some samplePayment && step.post.db.draft? 2 = some unpaidDraft)
    confirmation_entry (by decide +kernel)
  simp only [List.any_eq_true, Bool.and_eq_true, decide_eq_true_eq] at htest
  obtain ⟨step, hmem, ⟨hconfirms, hpayment⟩, hdraft⟩ := htest
  obtain ⟨before, after, hsplit⟩ := List.append_of_mem hmem
  have hpaid := hclaim sampleEnv _ w' steps (by decide) hrun before step after hsplit 1
    samplePayment (confirms_of_isConfirmation hconfirms) hpayment step List.mem_cons_self
  obtain ⟨draft, hdraft', hpaid⟩ := paidFor_iff.mp hpaid
  rw [show samplePayment.draftId = 2 from rfl, hdraft, Option.some.injEq] at hdraft'
  rw [← hdraft'] at hpaid
  cases hpaid

theorem confirmed_are_paid_iff_free_tier :
    ∃ steps w', SystemRun sampleEnv (World.ofDb (oneDraftDb { unpaidDraft with paid := true }))
        steps w' ∧
      (∃ step ∈ steps, Confirms 1 step) ∧ ConfirmedArePaid steps := by
  obtain ⟨steps, w', hrun, htest⟩ := systemRun_of_replay
    (World.ofDb (oneDraftDb { unpaidDraft with paid := true }))
    [(0, cooperate 0), (0, cooperate 0)]
    (fun steps _ => steps.any (isConfirmation 1) && steps.all fun step =>
      step.pre.db.payments.rows.all fun payment => payment.draftId = 2 &&
        (step.pre.db.draft? 2).any Draft.paid)
    confirmation_entry (by decide +kernel)
  simp only [Bool.and_eq_true, List.any_eq_true, List.all_eq_true, decide_eq_true_eq] at htest
  obtain ⟨⟨step, hmem, hconfirms⟩, hpaid⟩ := htest
  refine ⟨steps, w', hrun, ⟨step, hmem, confirms_of_isConfirmation hconfirms⟩,
    (confirmed_are_paid_iff hrun).mpr ?_⟩
  intro step hmem id payment _ hpayment
  obtain ⟨hid, hdraft⟩ := hpaid step hmem payment (Db.payment?_eq_some.mp hpayment).1
  obtain ⟨draft, hdraft, hpaid⟩ := (Option.any_eq_true _ _).mp hdraft
  exact paidFor_iff.mpr ⟨draft, hid ▸ hdraft, hpaid⟩

end PactumCodex
