import PactumCodex.Handlers.Agreement
import PactumCodex.Notifications.World

/-!
# The notification worker

`workers/notification_worker.rs`, and the functions of `services/notification.rs`
that read and write the queue.  The loop of `run` never ends; `run env n` are its
first `n` cycles.  What the worker reports to `process_health` is not modelled.
-/

namespace PactumCodex.NotificationWorker

open Interaction

/-! ## The queue -/

def fetchPendingJobs (limit : ℕ) : NotifyProgram (Except AppError (List NotificationJob)) := do
  let now ← Program.issue NotifyOp.utcNow
  match ← Program.issue (NotifyOp.sql (.fetchPending now limit)) with
  | .ok rows => return .ok (rows.map Notification.job)
  | .error _ => return .error .internalError

def markSent (id : Uuid) : NotifyProgram (Except AppError Unit) := do
  let now ← Program.issue NotifyOp.utcNow
  match ← Program.issue (NotifyOp.sql (.markSent now id)) with
  | .ok _ => return .ok ()
  | .error _ => return .error .internalError

def incrementAttempts (id : Uuid) : NotifyProgram (Except AppError Unit) := do
  match ← Program.issue (NotifyOp.sql (.incrementAttempts id)) with
  | .ok _ => return .ok ()
  | .error _ => return .error .internalError

/-! ## Lookups -/

/-- Resolve a wallet pubkey to the internal user UUID. -/
def lookupUserId (pubkey : String) : NotifyProgram (Option Uuid) := do
  match ← Program.issue (NotifyOp.sql (.userOfWallet pubkey)) with
  | .ok found => return found
  | .error _ => return none

/-- Decrypt the email and its nonce, as they are stored. -/
def decryptEmail (env : Env) (emailEnc emailNonce : List UInt8) :
    NotifyProgram (Option (String × List UInt8)) :=
  match hexToBytes32 env.config.encryptionKey, tryIntoBytes 12 emailNonce with
  | some key, some nonce => do
      match ← Program.issue (NotifyOp.decrypt emailEnc nonce key) with
      | .ok email => return some (email, emailNonce)
      | .error _ => return none
  | _, _ => return none

/-- Resolve a wallet pubkey to the user's email (decrypted). -/
def lookupUserEmail (env : Env) (pubkey : String) :
    NotifyProgram (Option (String × List UInt8)) := do
  -- the same `SELECT` as in `lookup_user_id`
  match ← lookupUserId pubkey with
  | none => return none
  | some userId =>
      match ← Program.issue (NotifyOp.sql (.emailOf userId)) with
      | .ok (some (emailEnc, some emailNonce)) => decryptEmail env emailEnc emailNonce
      | _ => return none

/-! ## The loop body of `run` -/

/-- `mark_sent`, and `increment_attempts` if it fails. -/
def markOrCount (id : Uuid) : NotifyProgram Unit := do
  match ← markSent id with
  | .ok _ => return ()
  | .error _ =>
      let _ ← incrementAttempts id
      return ()

/-- Send the email of a job, if its event type is known. -/
def emailJob (job : NotificationJob) (email : String) :
    Option NotificationEvent → NotifyProgram (Option Bool)
  | none => return none
  | some event => do
      match ← Program.issue (NotifyOp.sendEmail email event job.agreementPda) with
      | .ok _ => return some true
      | .error _ => return some false

/-- The email half of a delivery: the value of `email_sent`, or `none` where the loop continues with
the next job. -/
def deliverEmail (env : Env) (job : NotificationJob) : NotifyProgram (Option Bool) := do
  match ← lookupUserEmail env job.recipientPubkey with
  | some (email, _emailNonce) => emailJob job email (NotificationEvent.ofType job.eventType)
  -- no email is OK, WS delivery counts
  | none => return some true

/-- Deliver to a user: first through the WebSocket, then by email. -/
def deliver (env : Env) (job : NotificationJob) (userId : Uuid) : NotifyProgram Unit := do
  let wsDelivered ← Program.issue (NotifyOp.sendToUser userId (buildWsEvent job))
  match ← deliverEmail env job with
  | none => return ()
  | some emailSent =>
      if wsDelivered || emailSent then markOrCount job.id
      else
        let _ ← incrementAttempts job.id
        return ()

/-- What happens to a job after the lookup of its recipient. -/
def handleJob (env : Env) (job : NotificationJob) : Option Uuid → NotifyProgram Unit
  | some userId => deliver env job userId
  | none => markOrCount job.id

/-- What `run` does for one job. -/
def processJob (env : Env) (job : NotificationJob) : NotifyProgram Unit := do
  Program.issue (NotifyOp.takeUp job)
  let user ← lookupUserId job.recipientPubkey
  handleJob env job user
  Program.issue (NotifyOp.finish job)

def processJobs (env : Env) : List NotificationJob → NotifyProgram Unit
  | [] => pure ()
  | job :: jobs => do
      processJob env job
      processJobs env jobs

/-- One cycle of the loop. -/
def cycle (env : Env) : NotifyProgram Unit := do
  match ← fetchPendingJobs 10 with
  | .ok jobs => processJobs env jobs
  | .error _ => return ()

def run (env : Env) : ℕ → NotifyProgram Unit
  | 0 => pure ()
  | n + 1 => do
      cycle env
      run env n

end PactumCodex.NotificationWorker
