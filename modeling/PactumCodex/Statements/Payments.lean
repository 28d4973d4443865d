import PactumCodex.Schema

/-!
# Statements on payments

Every SQL statement of the program that reads or writes `agreement_payments`
or `user_agreement_counts`; see `Statements/Drafts.lean` for the conventions.
-/

namespace PactumCodex

open Relational

/-! ## The refund worker's query -/

/-- A row of the refund worker's result: a payment joined with one of the party
rows of its agreement.  `initiatedAt` is the sort column. -/
structure RefundRow where
  id : Uuid
  agreementPda : String
  tokenMint : Option String
  refundAmount : Option Int64
  creatorPubkey : String
  initiatedAt : Option ℤ
  deriving DecidableEq

/-- `FROM agreement_payments p JOIN agreement_parties a ON p.agreement_pda = a.agreement_pda`
`WHERE p.status = 'refund_pending' AND a.creator_pubkey IS NOT NULL`. -/
def Db.refundJoin (db : Db) : List RefundRow :=
  (db.payments.rows.filter fun payment => payment.status = .refundPending).flatMap fun payment =>
    (db.parties.rows.filter fun party => payment.agreementPda = some party.agreementPda).map
      fun party => ⟨payment.id, party.agreementPda, payment.tokenMint, payment.refundAmount,
        party.creatorPubkey, payment.refundInitiatedAt⟩

/-- The order of the refund timestamps, by the executable order of the integers. -/
instance instLERefundTime : LE (WithTop ℤ) := WithTop.instLE
instance instLTRefundTime : LT (WithTop ℤ) := WithTop.instLT

/-- `ORDER BY p.refund_initiated_at ASC`: nulls last. -/
def RefundRow.sortKey (row : RefundRow) : WithTop ℤ :=
  row.initiatedAt.elim ⊤ fun t => (t : WithTop ℤ)

/-! ## The columns of `agreement_payments` -/

/-- The columns the migration declares. -/
def paymentColumns : List String :=
  ["id", "draft_id", "user_id", "method", "status", "usd_amount_cents", "token_reference_pubkey",
    "token_mint", "token_amount", "token_tx_signature", "token_source_ata", "refund_amount",
    "refund_usd_cents", "refund_tx_signature", "refund_initiated_at", "refund_completed_at",
    "created_at", "confirmed_at", "agreement_pda"]

/-- The `NOT NULL` columns without a default. -/
def paymentRequiredColumns : List String := ["draft_id", "user_id", "method", "usd_amount_cents"]

/-- The columns `initiate_payment` inserts. -/
def initiatePaymentColumns : List String :=
  ["id", "draft_id", "method", "creator_pubkey", "token_mint", "token_amount",
    "token_reference_pubkey", "treasury_ata", "status"]

/-- An `INSERT` is accepted if it names only existing columns and all required ones. -/
def insertAccepted (columns required named : List String) : Bool :=
  named.all (· ∈ columns) && required.all (· ∈ named)

/-! ## Statements -/

/-- Statements on `agreement_payments`. -/
inductive PaymentStmt : Type
  /-- The `INSERT` of `initiate_payment` -/
  | insert (id draftId : Uuid) (method creatorPubkey tokenMint : String) (tokenAmount : Int64)
      (tokenReferencePubkey treasuryAta : String) (now : ℤ)
  /-- `UPDATE … SET status = 'confirmed', token_tx_signature = $2, token_mint = $3,
  token_amount = $4, confirmed_at = now WHERE token_reference_pubkey = $1 AND status = 'pending'
  RETURNING id` -/
  | confirm (reference txSignature tokenMint : String) (tokenAmount : Int64) (now : ℤ)
  /-- `UPDATE … SET status = 'expired' WHERE status = 'pending' AND created_at < $1` -/
  | expireTimedOut (threshold : ℤ)
  /-- `SELECT id, token_reference_pubkey … WHERE status = 'expired' AND created_at > $1 AND
  token_reference_pubkey IS NOT NULL` -/
  | expiredSince (threshold : ℤ)
  /-- `UPDATE … SET status = 'refund_pending', refund_initiated_at = now WHERE id = $1`, as
  `reconcile_late_payments` issues it -/
  | reconcile (now : ℤ) (id : Uuid)
  /-- `SELECT id … WHERE agreement_pda = $1 AND status = 'confirmed'` -/
  | confirmedOf (agreementPda : String)
  /-- `UPDATE … SET status = 'refund_pending', refund_initiated_at = now WHERE id = $1`, as
  `initiate_refund_if_eligible` issues it -/
  | initiateRefund (now : ℤ) (id : Uuid)
  /-- The refund worker's `SELECT … ORDER BY p.refund_initiated_at ASC LIMIT 10` -/
  | pendingRefunds
  /-- `UPDATE … SET status = 'refunded', refund_tx_signature = $1, refund_completed_at = $2
  WHERE id = $3 AND status = 'refund_pending'` -/
  | markRefunded (txSignature : String) (now : ℤ) (id : Uuid)
  /-- `UPDATE … SET agreement_pda = $1 WHERE draft_id = $2 AND status = 'confirmed'` -/
  | setAgreementPda (agreementPda : String) (draftId : Uuid)

/-- The payment `confirm_payment_atomic` matches. -/
def Payment.awaits (reference : String) (payment : Payment) : Bool :=
  payment.tokenReferencePubkey = some reference ∧ payment.status = .pending

/-- Both refund paths write the same columns. -/
def Payment.queueRefund (now : ℤ) (payment : Payment) : Payment :=
  { payment with status := .refundPending, refundInitiatedAt := some now }

namespace PaymentStmt

/-- What the statement returns. -/
@[reducible] def Out : PaymentStmt → Type
  | insert .. => Unit
  | confirm .. => Option Uuid
  | expireTimedOut _ => ℕ
  | expiredSince _ => List (Uuid × String)
  | reconcile .. => Unit
  | confirmedOf _ => Option Uuid
  | initiateRefund .. => Unit
  | pendingRefunds => List RefundRow
  | markRefunded .. => Unit
  | setAgreementPda .. => Unit

/-- The payments after the statement. -/
def exec : (s : PaymentStmt) → s.Out → Db → Option (Table Payment PaymentsValid)
  | insert id draftId method _ tokenMint tokenAmount tokenReferencePubkey _ now, _, db =>
      if insertAccepted paymentColumns paymentRequiredColumns initiatePaymentColumns then
        commit (db.payments.rows ++ [⟨id, draftId, method, .pending, some tokenReferencePubkey,
          some tokenMint, some tokenAmount, none, none, none, none, none, now, none, none⟩])
      else none
  | confirm reference txSignature tokenMint tokenAmount now, result, db =>
      if result = (db.payments.rows.find? (·.awaits reference)).map Payment.id then
        commit (updateWhere (·.awaits reference)
          ({ · with status := .confirmed, tokenTxSignature := some txSignature,
                    tokenMint := some tokenMint, tokenAmount := some tokenAmount,
                    confirmedAt := some now }) db.payments.rows)
      else none
  | expireTimedOut threshold, result, db =>
      let timedOut : Payment → Bool := fun payment =>
        payment.status = .pending ∧ payment.createdAt < threshold
      if result = db.payments.rows.countP timedOut then
        commit (updateWhere timedOut ({ · with status := .expired }) db.payments.rows)
      else none
  | expiredSince threshold, result, db =>
      provided (result.Perm (db.payments.rows.filterMap fun payment =>
        if payment.status = .expired ∧ payment.createdAt > threshold then
          payment.tokenReferencePubkey.map fun reference => (payment.id, reference)
        else none)) db.payments
  | reconcile now id, _, db =>
      commit (updateWhere (·.id = id) (·.queueRefund now) db.payments.rows)
  | confirmedOf agreementPda, result, db =>
      provided (FetchOptional ((db.payments.rows.filter fun payment =>
        payment.agreementPda = some agreementPda ∧ payment.status = .confirmed).map Payment.id)
          result) db.payments
  | initiateRefund now id, _, db =>
      commit (updateWhere (·.id = id) (·.queueRefund now) db.payments.rows)
  | pendingRefunds, result, db =>
      provided (TopBy RefundRow.sortKey 10 db.refundJoin result) db.payments
  | markRefunded txSignature now id, _, db =>
      commit (updateWhere (fun payment => payment.id = id ∧ payment.status = .refundPending)
        ({ · with status := .refunded, refundTxSignature := some txSignature,
                  refundCompletedAt := some now }) db.payments.rows)
  | setAgreementPda agreementPda draftId, _, db =>
      commit (updateWhere (fun payment => payment.draftId = draftId ∧ payment.status = .confirmed)
        ({ · with agreementPda := some agreementPda }) db.payments.rows)

end PaymentStmt

/-! ## Free-tier counters -/

/-- Statements on `user_agreement_counts`. -/
inductive CountStmt : Type
  /-- `SELECT free_used FROM user_agreement_counts WHERE user_id = $1` -/
  | freeUsed (userId : Uuid)
  /-- `INSERT … VALUES ($1, 1) ON CONFLICT (user_id) DO UPDATE SET free_used = free_used + 1` -/
  | bump (userId : Uuid)

namespace CountStmt

/-- What the statement returns. -/
@[reducible] def Out : CountStmt → Type
  | freeUsed _ => Option ℤ
  | bump _ => Unit

/-- The counters after the statement. -/
def exec : (s : CountStmt) → s.Out → Db → Option (Table AgreementCount CountsValid)
  | freeUsed userId, result, db =>
      provided (result =
        (lookup AgreementCount.userId userId db.counts.rows).map AgreementCount.freeUsed) db.counts
  | bump userId, _, db =>
      if (lookup AgreementCount.userId userId db.counts.rows).isSome then
        commit (updateWhere (·.userId = userId)
          (fun row => { row with freeUsed := row.freeUsed + 1 }) db.counts.rows)
      else commit (db.counts.rows ++ [⟨userId, 1⟩])

end CountStmt

end PactumCodex
