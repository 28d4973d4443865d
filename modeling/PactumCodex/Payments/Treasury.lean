import PactumCodex.Audit
import PactumCodex.Payments.Rows
import PactumCodex.Replay

/-!
# What the treasury pays

A cycle of the refund worker reads up to ten pending refunds in one statement
and pays them one after the other, while other programs write payments and party
rows.  `treasury_pays_refunds`: in every interleaving the treasury signs a
transfer in such a cycle only.  When it is submitted, and at the end of the run
too, it goes to the creator of an agreement, in the mint and over the refund
amount of a payment that is linked to the agreement and waits for its refund or
has been refunded.

The statement does not count transfers: two cycles can pay the same row, and the
second one finds it refunded already.

* `Payment.RefundsTo` is what a row says, `HasRefund` that some row says it, and
  `RefundsKept` that nothing a row says is taken back;
* `refunds_step` is the step lemma: no change of a payment (`PaymentChange`) and
  no change of a party row (`PartyKept`) takes a refund back;
* `Pays` is the rely and guarantee of a program that pays what it has read.  The
  rely is `RefundsKept`, so that what the selection returned still holds when the
  transfer is submitted (`executeRefund_pays`).
-/

namespace PactumCodex

open Interaction Relational

/-! ## Refunds -/

/-- The payment waits for its refund or has been refunded: the amount in its column, or 0 if that is
null, goes to the creator that a party row of its agreement names. -/
structure Payment.RefundsTo (env : Env) (payment : Payment) (party : Party) (creator mint : Pubkey)
    (amount : UInt64) : Prop where
  refundable : payment.status = .refundPending ∨ payment.status = .refunded
  linked : payment.agreementPda = some party.agreementPda
  creator : env.crates.pubkeyFromStr party.creatorPubkey = some creator
  mint : env.crates.pubkeyFromStr (payment.tokenMint.getD "") = some mint
  amount : amount = (payment.refundAmount.getD 0).toUInt64

/-- Some payment is refunded, or waits for that, with the given creator, mint and amount. -/
def HasRefund (env : Env) (creator mint : Pubkey) (amount : UInt64) (w : World) : Prop :=
  ∃ payment ∈ w.db.payments.rows, ∃ party ∈ w.db.parties.rows,
    payment.RefundsTo env party creator mint amount

/-- No refund is taken back. -/
def RefundsKept (env : Env) (w w' : World) : Prop :=
  ∀ creator mint amount, HasRefund env creator mint amount w → HasRefund env creator mint amount w'

theorem RefundsKept.refl {env : Env} (w : World) : RefundsKept env w w := fun _ _ _ h => h

theorem RefundsKept.trans {env : Env} (w₁ w₂ w₃ : World) (h₁ : RefundsKept env w₁ w₂)
    (h₂ : RefundsKept env w₂ w₃) : RefundsKept env w₁ w₃ :=
  fun creator mint amount h => h₂ creator mint amount (h₁ creator mint amount h)

/-- A payment that is to be refunded is neither confirmed nor linked to another agreement any
more. -/
theorem Payment.RefundsTo.step {env : Env} {step : BackendStep} {payment payment' : Payment}
    {party party' : Party} {creator mint : Pubkey} {amount : UInt64}
    (h : payment.RefundsTo env party creator mint amount)
    (hchange : PaymentChange step payment payment')
    (hkept : PartyKept party party') : payment'.RefundsTo env party' creator mint amount := by
  obtain ⟨hrefundable, hlinked, hcreator, hmint, hamount⟩ := h
  rw [← hkept.agreementPda] at hlinked
  rw [← hkept.creatorPubkey] at hcreator
  cases hchange with
  | same => exact ⟨hrefundable, hlinked, hcreator, hmint, hamount⟩
  | confirm _ _ _ _ _ hpending => simp [hpending] at hrefundable
  | expire hpending => simp [hpending] at hrefundable
  | queue now _ => exact ⟨Or.inl rfl, hlinked, hcreator, hmint, hamount⟩
  | refund _ _ _ _ => exact ⟨Or.inr rfl, hlinked, hcreator, hmint, hamount⟩
  | link _ hconfirmed _ => simp [hconfirmed] at hrefundable

/-- **Step lemma.** -/
theorem refunds_step {env : Env} {step : BackendStep} (h : step.Valid perform) :
    RefundsKept env step.pre step.post := by
  rintro creator mint amount ⟨payment, hpayment, party, hparty, hrefunds⟩
  obtain ⟨f, hrows, hchange⟩ := payment_step h
  obtain ⟨party', hparty', hkept⟩ := partyRow_step h hparty
  refine ⟨f payment, ?_, party', hparty', hrefunds.step (hchange payment hpayment) hkept⟩
  rw [hrows]
  exact List.mem_map_of_mem hpayment

/-- A selected row waits for its refund. -/
theorem hasRefund_of_refundJoin {env : Env} {w : World} {row : RefundRow} {creator mint : Pubkey}
    (h : row ∈ w.db.refundJoin)
    (hcreator : env.crates.pubkeyFromStr row.creatorPubkey = some creator)
    (hmint : env.crates.pubkeyFromStr (row.tokenMint.getD "") = some mint) :
    HasRefund env creator mint (row.refundAmount.getD 0).toUInt64 w := by
  obtain ⟨payment, hpayment, hstatus, party, hparty, hlinked, rfl⟩ := mem_refundJoin.mp h
  exact ⟨payment, hpayment, party, hparty, Or.inl hstatus, hlinked, hcreator, hmint, rfl⟩

/-! ## The refund worker -/

/-- A transfer of the treasury is a refund when it is submitted. -/
structure PaysRefund (env : Env) (step : BackendStep) : Prop where
  valid : step.Valid perform
  refund : ∀ creator mint amount blockhash, step.op = .sendTransfer creator mint amount blockhash →
    HasRefund env creator mint amount step.pre

theorem PaysRefund.kept {env : Env} {step : BackendStep} (h : PaysRefund env step) :
    RefundsKept env step.pre step.post :=
  refunds_step h.valid

/-- The program only pays refunds, while the others take none back. -/
abbrev Pays {α : Type} (env : Env) (p : Backend α) (w : World) (Φ : α → World → Prop) : Prop :=
  Assures perform (RefundsKept env) (fun _ => True) (PaysRefund env) p w Φ

/-- Operations that do not pay. -/
theorem paysRefund_of_has {env : Env} {privileges : List Privilege} {step : BackendStep}
    (h : step.op.Has privileges) (hpays : .pays ∉ privileges) (hvalid : step.Valid perform) :
    PaysRefund env step := by
  refine ⟨hvalid, fun creator mint amount blockhash hop => ?_⟩
  rw [hop] at h
  rcases List.mem_cons.mp h with h | h
  · cases h
  · exact absurd h hpays

theorem pays_of_has {α : Type} {env : Env} {privileges : List Privilege} {p : Backend α} {w : World}
    (hp : p.Issues (Op.Has privileges)) (hpays : .pays ∉ privileges) :
    Pays env p w fun _ w' => RefundsKept env w w' := by
  have hassures : Pays env p w fun _ _ => True :=
    assures_of_issues hp fun _ hop hvalid _ => paysRefund_of_has hop hpays hvalid
  exact (hassures.related .refl .trans fun _ h => h.kept).mono fun _ _ h => h.2

/-- A single operation that only reads. -/
theorem pays_issue {env : Env} {op : Op} {w : World} (h : op.Has []) :
    Pays env (Program.issue op) w fun _ w' => RefundsKept env w w' :=
  pays_of_has (issues_issue.mpr h) (List.not_mem_nil)

theorem pays_orFail {env : Env} {α : Type} {e : AppError} {p : Backend (Except Failure α)}
    {w : World} (hp : p.Issues (Op.Has [])) :
    Pays env (Handler.orFail e p).run w fun _ w' => RefundsKept env w w' :=
  pays_of_has (issues_orFail hp) List.not_mem_nil

theorem executeRefund_pays {env : Env} {creatorStr mintStr : String} {amount : UInt64} {w : World}
    (hrefund : ∀ creator mint, env.crates.pubkeyFromStr creatorStr = some creator →
      env.crates.pubkeyFromStr mintStr = some mint → HasRefund env creator mint amount w) :
    Pays env (executeRefund env creatorStr mintStr amount).run w fun _ _ => True := by
  unfold executeRefund
  refine assures_okOr_bind (fun creator hcreator => ?_) trivial
  refine assures_okOr_bind (fun mint hmint => ?_) trivial
  have hw := hrefund creator mint hcreator hmint
  refine assures_run_bind.mpr
    ((pays_orFail (issues_issue.mpr (Op.has_of_test rfl))).mono fun r w₁ hw₁ => ?_)
  cases r with
  | error e => trivial
  | ok destinationExists =>
      refine assures_ensure_bind (fun _ => ?_) trivial
      refine assures_run_bind.mpr
        ((pays_orFail (issues_issue.mpr (Op.has_of_test rfl))).mono fun r w₂ hw₂ => ?_)
      cases r with
      | error e => trivial
      | ok blockhash =>
          -- the transfer: a row has said so when it was read, and no step takes that back
          refine assures_bind.mpr fun w₃ hw₃ answer w₄ hperform _ => ⟨⟨hperform, ?_⟩, ?_⟩
          · intro creator' mint' amount' blockhash' hop
            obtain ⟨rfl, rfl, rfl, -⟩ := Op.sendTransfer.inj hop
            exact hw₃ _ _ _ (hw₂ _ _ _ (hw₁ _ _ _ hw))
          · cases answer <;> trivial

theorem refundRow_pays {env : Env} {row : RefundRow} {w : World}
    (hrefund : ∀ creator mint, env.crates.pubkeyFromStr row.creatorPubkey = some creator →
      env.crates.pubkeyFromStr (row.tokenMint.getD "") = some mint →
        HasRefund env creator mint (row.refundAmount.getD 0).toUInt64 w) :
    Pays env (refundRow env row) w fun _ _ => True := by
  unfold refundRow
  split
  · trivial
  refine assures_bind.mpr ((pays_issue (Op.has_of_test rfl)).mono fun _ w₁ hw₁ => ?_)
  refine assures_bind.mpr ((executeRefund_pays fun creator mint hcreator hmint => ?_).mono
    fun result w₂ _ => ?_)
  · exact hw₁ _ _ _ (hrefund creator mint hcreator hmint)
  refine assures_bind.mpr ((pays_issue (Op.has_of_test rfl)).mono fun _ w₃ _ => ?_)
  exact (pays_of_has (recordRefund_has row.id result) (by simp)).mono fun _ _ _ => trivial

theorem refundRows_pays {env : Env} {rows : List RefundRow} {w : World}
    (hrefund : ∀ row ∈ rows, ∀ creator mint,
      env.crates.pubkeyFromStr row.creatorPubkey = some creator →
      env.crates.pubkeyFromStr (row.tokenMint.getD "") = some mint →
        HasRefund env creator mint (row.refundAmount.getD 0).toUInt64 w) :
    Pays env (refundRows env rows) w fun _ _ => True := by
  induction rows generalizing w with
  | nil => trivial
  | cons row rest ih =>
      rw [List.forall_mem_cons] at hrefund
      have hfirst := (refundRow_pays hrefund.1).related .refl .trans fun _ h => h.kept
      refine assures_bind.mpr
        (hfirst.mono fun _ w₁ hw₁ => ih fun row' hmem creator mint hc hm => ?_)
      exact hw₁.2 _ _ _ (hrefund.2 row' hmem creator mint hc hm)

theorem processPendingRefunds_pays {env : Env} {w : World} :
    Pays env (processPendingRefunds env) w fun _ _ => True := by
  refine assures_bind.mpr ?_
  intro w₁ _ answer w₂ hperform _
  have hreads : (Op.sql (.payment .pendingRefunds)).Has [] := Op.has_of_test rfl
  refine ⟨paysRefund_of_has hreads List.not_mem_nil hperform, ?_⟩
  cases answer with
  | error _ => trivial
  | ok rows =>
      obtain ⟨htop, hdb⟩ := pendingRefunds_returns hperform
      refine assures_bind.mpr ((refundRows_pays fun row hmem creator mint hcreator hmint => ?_).mono
        fun _ _ _ => trivial)
      exact hasRefund_of_refundJoin (hdb ▸ htop.subperm.subset hmem) hcreator hmint

/-! ## Every interleaving -/

/-- Only the refund worker pays. -/
theorem Invocation.pays_iff {call : Invocation} :
    .pays ∈ call.privileges ↔ call = .processPendingRefunds := by
  cases call <;> simp [Invocation.privileges, listenerPrivileges]

/-- Every invocation only pays refunds. -/
theorem Invocation.pays (env : Env) (call : Invocation) (w : World) :
    Pays env (call.program env) w fun _ _ => True := by
  by_cases hpays : .pays ∈ call.privileges
  · obtain rfl := Invocation.pays_iff.mp hpays
    exact assures_bind.mpr (processPendingRefunds_pays.mono fun _ _ _ => trivial)
  · exact (pays_of_has (call.has env) hpays).mono fun _ _ _ => trivial

theorem Op.eq_sendTransfer {op : Op} (h : op.privilege = .pays) :
    ∃ creator mint amount blockhash, op = .sendTransfer creator mint amount blockhash := by
  unfold Op.privilege at h
  split at h <;> first | exact ⟨_, _, _, _, rfl⟩ | cases h

/-- **Treasury.**  In every interleaving the treasury pays in cycles of the refund worker only, and
only refunds of payments that wait for them, or have been refunded, when the transfer is submitted
and at the end. -/
theorem treasury_pays_refunds {env : Env} {w w' : World} {steps : List AuditedStep}
    (hrun : AuditedRun env w steps w') :
    ∀ step ∈ steps, ∀ creator mint amount blockhash,
      step.op.2 = .sendTransfer creator mint amount blockhash →
        step.op.1 = .processPendingRefunds ∧ HasRefund env creator mint amount step.pre ∧
          HasRefund env creator mint amount w' := by
  intro step hmem creator mint amount blockhash hop
  have hpermitted := hrun.permitted step hmem
  have hdue : PaysRefund env step.untag := hrun.assured RefundsKept.refl RefundsKept.trans
    (fun _ _ h => h.kept) (fun call w₁ => call.pays env w₁) step hmem
  have hrefund : HasRefund env creator mint amount step.pre :=
    hdue.refund creator mint amount blockhash hop
  refine ⟨?_, hrefund, ?_⟩
  · rw [hop] at hpermitted
    rcases List.mem_cons.mp hpermitted with h | h
    · cases h
    · exact Invocation.pays_iff.mp h
  · -- after the transfer no step takes the refund back
    obtain ⟨before, after, rfl⟩ := List.append_of_mem hmem
    have hafter := hrun.chain.split.2.2
    have hpost : HasRefund env creator mint amount step.post :=
      hdue.kept creator mint amount hrefund
    have hkept : RefundsKept env step.post w' := hafter.related RefundsKept.refl RefundsKept.trans
      fun later hvalid => refunds_step (show Step.Valid perform later.untag from hvalid)
    exact hkept creator mint amount hpost

/-- A refund of a cancelled agreement is paid. -/
theorem treasury_pays_refunds_once :
    ∃ steps w', AuditedRun sampleEnv (World.ofDb (onePaymentDb queuedPayment)) steps w' ∧
      ∃ step ∈ steps, ∃ creator mint amount blockhash,
        step.op.2 = .sendTransfer creator mint amount blockhash ∧
        (step.op.1 = .processPendingRefunds ∧ HasRefund sampleEnv creator mint amount step.pre ∧
          HasRefund sampleEnv creator mint amount w') := by
  obtain ⟨steps, w', hrun, htest⟩ := auditedRun_of_replay sampleEnv
    (World.ofDb (onePaymentDb queuedPayment)) [.processPendingRefunds]
    (List.replicate 8 (0, cooperate 0))
    (fun steps _ => steps.any fun step => step.op.2.privilege = .pays) (by decide +kernel)
  obtain ⟨step, hmem, hpays⟩ := List.any_eq_true.mp htest
  obtain ⟨creator, mint, amount, blockhash, hop⟩ := Op.eq_sendTransfer (of_decide_eq_true hpays)
  exact ⟨steps, w', hrun, step, hmem, creator, mint, amount, blockhash, hop,
    treasury_pays_refunds hrun step hmem creator mint amount blockhash hop⟩

end PactumCodex
