import PactumCodex.Services.Solana

/-!
# The refund worker

`process_pending_refunds` of `workers/refund_worker.rs`.  The operations
`refundCall` and `refundReturn` change nothing; they mark in a run where
`execute_refund` is called for a payment and what it returned.
-/

namespace PactumCodex

open Interaction

/-- `WorkerStatus`. -/
inductive WorkerStatus : Type
  | healthy
  | degraded
  | disabled
  deriving DecidableEq, Repr

/-- Record a refund, or leave the payment as it is so that the next cycle retries. -/
def recordRefund (id : Uuid) : Except AppError String → Backend Unit
  | .ok sig => do
      let now ← Program.issue Op.utcNow
      let _ ← sql (.payment (.markRefunded sig now id))
      return ()
  | .error _ => return ()

/-- The loop body of `process_pending_refunds`. -/
def refundRow (env : Env) (row : RefundRow) : Backend Unit :=
  if row.creatorPubkey.isEmpty then return ()
  else do
    let tokenMint := row.tokenMint.getD ""
    let amount := (row.refundAmount.getD 0).toUInt64
    Program.issue (Op.refundCall row.id row.creatorPubkey tokenMint amount)
    let refundResult ← (executeRefund env row.creatorPubkey tokenMint amount).run
    Program.issue (Op.refundReturn row.id refundResult)
    recordRefund row.id refundResult

/-- The loop of `process_pending_refunds`. -/
def refundRows (env : Env) : List RefundRow → Backend Unit
  | [] => pure ()
  | row :: rest => do
      refundRow env row
      refundRows env rest

/-- Query all `refund_pending` payments and attempt to execute each refund. -/
def processPendingRefunds (env : Env) : Backend WorkerStatus := do
  match ← sql (.payment .pendingRefunds) with
  | .error _ => return .degraded
  | .ok rows =>
      refundRows env rows
      return .healthy

end PactumCodex
