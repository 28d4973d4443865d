import PactumCodex.Workers.RefundWorker

/-!
# Expiring agreements

`workers/expiry_worker.rs`.  `expire_due_agreements` selects the agreements past
their deadline and submits an `expire_agreement` transaction for each of them
that it can lock; `submit_expire_transaction` fetches the account of the
agreement and takes the agreement's id from fixed positions of the data.  The
operations `expireCall` and `expireReturn` change nothing; they mark in a run
where `submit_expire_transaction` is called and what it returned.
-/

namespace PactumCodex

open Interaction

/-! ## Submitting one transaction -/

/-- `id_bytes.copy_from_slice(&data[32..48])`, for data of at least 48 bytes. -/
def extractAgreementId (data : List UInt8) : Option (Bytes 16) :=
  if h : 48 ≤ data.length then
    some ⟨((data.drop 32).take 16).toArray, by simp; omega⟩
  else none

/-- The data of an account, fetched in a blocking task. -/
def fetchAccountData (pda : Pubkey) : Handler (List UInt8) := do
  let fetched ← Handler.ask (Op.fetchAccount pda)
  let fetched ← Handler.okOr .internalError fetched
  Handler.okOr .solanaRpcError fetched.toOption

def submitExpireTransaction (env : Env) (vaultKey : Pubkey) (agreementPda creatorPubkey : String) :
    Handler String := do
  let creator ← Handler.okOr .internalError (env.crates.pubkeyFromStr creatorPubkey)
  let pda ← Handler.okOr .internalError (env.crates.pubkeyFromStr agreementPda)
  let data ← fetchAccountData pda
  let agreementId ← Handler.okOr .internalError (extractAgreementId data)
  let tx ← buildExpireAgreementTx env creator agreementId vaultKey
  let submitted ← Handler.ask (Op.sendTransaction tx)
  Handler.ofExcept submitted

/-! ## The scan -/

/-- Take the agreement's pending rows; says whether there were any. -/
def lockAgreementForExpiry (agreementPda : String) : Backend (Except Failure Bool) := do
  match ← sql (.party (.lockForExpiry agreementPda)) with
  | .ok rowsAffected => return .ok (rowsAffected > 0)
  | .error e => return .error e

/-- Give the agreement's rows back. -/
def unlockAgreementFromExpiry (agreementPda : String) : Backend (Except Failure Unit) :=
  sql (.party (.unlockFromExpiry agreementPda))

/-- Release the lock after a failed submission; a failure to do so is logged. -/
def revertLock (agreementPda : String) : Except AppError String → Backend Unit
  | .ok _ => return ()
  | .error _ => do
      let _ ← unlockAgreementFromExpiry agreementPda
      return ()

/-- The loop body of `expire_due_agreements`. -/
def expireAgreementRow (env : Env) (vaultKey : Pubkey) (agreementPda creatorPubkey : String) :
    Backend Unit := do
  match ← lockAgreementForExpiry agreementPda with
  | .ok true =>
      Program.issue (Op.expireCall agreementPda creatorPubkey)
      let submitted ← (submitExpireTransaction env vaultKey agreementPda creatorPubkey).run
      Program.issue (Op.expireReturn agreementPda submitted)
      revertLock agreementPda submitted
  | .ok false => return ()
  | .error _ => return ()

/-- The loop of `expire_due_agreements`. -/
def expireAgreementRows (env : Env) (vaultKey : Pubkey) : List (String × String) → Backend Unit
  | [] => pure ()
  | (agreementPda, creatorPubkey) :: rest => do
      expireAgreementRow env vaultKey agreementPda creatorPubkey
      expireAgreementRows env vaultKey rest

/-- Expire the agreements whose deadline has passed on the host clock. -/
def expireDueAgreements (env : Env) (vaultKey : Pubkey) : Backend WorkerStatus := do
  let now ← Program.issue Op.utcNow
  match ← sql (.party (.due now)) with
  | .error _ => return .degraded
  | .ok rows =>
      expireAgreementRows env vaultKey rows
      return .healthy

end PactumCodex
