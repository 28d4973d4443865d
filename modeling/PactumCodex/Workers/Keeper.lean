import PactumCodex.World

/-!
# The keeper

The scans of `workers/keeper.rs` that touch invitations and payments: reminders
(scan 1), expiry of invitations (scan 2), expiry of payments (scan 5) and
reconciliation of late payments (scan 6).  Scan 7, which deletes authentication
records, is in `Auth.Handlers`.  The check of the balances and the treasury sweep
(scans 3 and 4) are in `Workers.Loops`, with the loop that runs all seven.
-/

namespace PactumCodex

open Interaction

/-! ## Scan 1: invitation reminders -/

/-- The loop over the invitations that are due. -/
def remindInvitations : List Uuid → Backend Unit
  | [] => pure ()
  | invId :: rest => do
      -- the recipient is a placeholder in the source
      match ← Program.issue (Op.sendEmail "invited@example.com") with
      | .error _ => remindInvitations rest
      | .ok _ =>
          let now ← Program.issue Op.utcNow
          let _ ← sql (.invitation (.markReminded now invId))
          remindInvitations rest

def sendInvitationReminders (env : Env) : Backend Unit := do
  let now ← Program.issue Op.utcNow
  let threshold := now - env.config.inviteReminderAfterSeconds.toInt64.toInt
  match ← sql (.invitation (.remindersDue threshold)) with
  | .ok rows => remindInvitations rows
  | .error _ => return ()

/-! ## Scan 2: expire stale invitations -/

def expireStaleInvitations : Backend Unit := do
  let now ← Program.issue Op.utcNow
  let _ ← sql (.invitation (.expireStale now))
  return ()

/-! ## Scan 5: expire timed-out payments -/

def expireTimedOutPayments : Backend Unit := do
  let now ← Program.issue Op.utcNow
  let _ ← sql (.payment (.expireTimedOut (now - 900)))
  return ()

/-! ## Scan 6: reconcile late payments -/

/-- Queue the refund of one late payment if its reference exists on chain. -/
def reconcilePayment (env : Env) (paymentId : Uuid) (reference : String) : Backend Unit := do
  match env.crates.pubkeyFromStr reference with
  | none => return ()
  | some refPubkey =>
      match ← Program.issue (Op.accountExists refPubkey) with
      | some true =>
          let now ← Program.issue Op.dbNow
          let _ ← sql (.payment (.reconcile now paymentId))
          return ()
      | _ => return ()

/-- The loop over the expired payments. -/
def reconcilePayments (env : Env) : List (Uuid × String) → Backend Unit
  | [] => pure ()
  | (paymentId, reference) :: rest => do
      reconcilePayment env paymentId reference
      reconcilePayments env rest

def reconcileLatePayments (env : Env) : Backend Unit := do
  let now ← Program.issue Op.utcNow
  match ← sql (.payment (.expiredSince (now - 3600))) with
  | .ok payments => reconcilePayments env payments
  | .error _ => return ()

end PactumCodex
