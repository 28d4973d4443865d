import PactumCodex.Auth.Schema
import PactumCodex.Handlers.Ws
import PactumCodex.Services.Notification

/-!
# The world of the notification worker

The SQL statements and the other operations of `workers/notification_worker.rs`
and of the functions it calls, and what they do to a `NotifyWorld`.

* A statement that names a column its table does not have is never executed.  Any
  other statement can fail too, and then changes nothing.
* `send_to_user` acts on the channels of the WebSocket sessions, and the email
  provider takes mail for the addresses in `mailable`.  What decryption gives is
  arbitrary.
* `takeUp` and `finish` do nothing; they mark where the worker takes up a job and
  where it is done with it.
* `enqueue`, `accounts`, `session` and `provider` are not the worker's: they are what
  the rest of the backend, the clients and the provider can do at any time.
-/

namespace PactumCodex

open Interaction Relational

/-! ## The world -/

/-- The tables the worker uses, the WebSocket sessions, and the addresses the email provider takes
mail for. -/
structure NotifyWorld where
  notifications : Table Notification NotificationsValid
  wallets : Table Wallet WalletsValid
  contacts : Table UserContact UserContactsValid
  ws : Ws.State
  mailable : List String

/-! ## Statements -/

/-- The tables. -/
inductive NotifyTable : Type
  | notificationQueue
  | authWallet
  | userContacts
  deriving DecidableEq, Repr

/-- The columns a table has after the migrations. -/
def NotifyTable.columns : NotifyTable → List String
  | notificationQueue => ["id", "event_type", "agreement_pda", "recipient_pubkey", "status",
      "attempts", "created_at", "scheduled_at"]
  | authWallet => ["user_id", "pubkey", "linked_at"]
  | userContacts => ["user_id", "email_enc", "email_nonce", "email_index", "phone_enc",
      "phone_nonce", "push_token_enc", "push_token_nonce", "updated_at"]

/-- A statement of the worker. -/
inductive NotifyStmt : Type
  /-- `SELECT id, event_type, agreement_pda, recipient_pubkey, scheduled_at, status, attempts
  FROM notification_queue WHERE status = 'pending' AND scheduled_at <= $1
  ORDER BY scheduled_at ASC LIMIT $2` -/
  | fetchPending (now : ℤ) (limit : ℕ)
  /-- `UPDATE notification_queue SET status = 'sent', sent_at = $1 WHERE id = $2` -/
  | markSent (now : ℤ) (id : Uuid)
  /-- `UPDATE notification_queue SET attempts = attempts + 1 WHERE id = $1` -/
  | incrementAttempts (id : Uuid)
  /-- `SELECT user_id FROM auth_wallet WHERE pubkey = $1` -/
  | userOfWallet (pubkey : String)
  /-- `SELECT email_enc, email_nonce FROM user_contacts
  WHERE user_id = $1 AND email_enc IS NOT NULL` -/
  | emailOf (userId : Uuid)
  deriving DecidableEq

namespace NotifyStmt

/-- What the statement returns. -/
@[reducible] def Out : NotifyStmt → Type
  | fetchPending .. => List Notification
  | markSent .. => Unit
  | incrementAttempts _ => Unit
  | userOfWallet _ => Option Uuid
  | emailOf _ => Option (List UInt8 × Option (List UInt8))

def table : NotifyStmt → NotifyTable
  | fetchPending .. => .notificationQueue
  | markSent .. => .notificationQueue
  | incrementAttempts _ => .notificationQueue
  | userOfWallet _ => .authWallet
  | emailOf _ => .userContacts

/-- The columns that the statement names. -/
def names : NotifyStmt → List String
  | fetchPending .. => ["id", "event_type", "agreement_pda", "recipient_pubkey", "scheduled_at",
      "status", "attempts"]
  | markSent .. => ["status", "sent_at", "id"]
  | incrementAttempts _ => ["attempts", "id"]
  | userOfWallet _ => ["user_id", "pubkey"]
  | emailOf _ => ["email_enc", "email_nonce", "user_id"]

/-- The database accepts the statement: its table has all columns it names. -/
def accepted (s : NotifyStmt) : Bool := s.names.all fun column => column ∈ s.table.columns

/-- The world after the statement. -/
def exec : (s : NotifyStmt) → s.Out → NotifyWorld → Option NotifyWorld
  | fetchPending now limit, rows, w =>
      provided (TopBy Notification.scheduledAt limit (w.notifications.rows.filter fun row =>
        row.status = .pending ∧ row.scheduledAt ≤ now) rows) w
  | markSent _ id, _, w =>
      (commit (updateWhere (·.id = id) ({ · with status := .sent }) w.notifications.rows)).map
        fun notifications => { w with notifications }
  | incrementAttempts id, _, w =>
      -- the column is an `INT`
      if ∀ row ∈ w.notifications.rows, row.id = id → row.attempts + 1 < 2 ^ 31 then
        (commit (updateWhere (·.id = id) (fun row => { row with attempts := row.attempts + 1 })
          w.notifications.rows)).map fun notifications => { w with notifications }
      else none
  | userOfWallet pubkey, found, w =>
      provided (found = (lookup Wallet.pubkey pubkey w.wallets.rows).map Wallet.userId) w
  | emailOf userId, found, w =>
      provided (found = (lookup UserContact.userId userId w.contacts.rows).bind fun row =>
        row.emailEnc.map fun emailEnc => (emailEnc, row.emailNonce)) w

end NotifyStmt

/-! ## Operations -/

/-- An operation of the worker, or of what surrounds it. -/
inductive NotifyOp : Type
  | sql (s : NotifyStmt)
  /-- `chrono::Utc::now().timestamp()` -/
  | utcNow
  /-- `crypto::decrypt` -/
  | decrypt (ciphertext : List UInt8) (nonce : Bytes 12) (key : Bytes 32)
  /-- `send_to_user` -/
  | sendToUser (userId : Uuid) (event : WsEvent)
  /-- `send_email` through the provider -/
  | sendEmail (recipient : String) (event : NotificationEvent) (agreementPda : Option String)
  | takeUp (job : NotificationJob)
  | finish (job : NotificationJob)
  /-- the `INSERT` of `enqueue_notification` -/
  | enqueue (s : NotificationStmt)
  /-- the tables of wallets and contacts are written -/
  | accounts (wallets : Table Wallet WalletsValid) (contacts : Table UserContact UserContactsValid)
  /-- a step of the WebSocket sessions -/
  | session (action : Ws.Action)
  /-- the email provider changes what it takes -/
  | provider (mailable : List String)

/-- The answer of an operation. -/
@[reducible] def NotifyOp.Ans : NotifyOp → Type
  | sql s => Except Failure s.Out
  | utcNow => ℤ
  | decrypt .. => Except Failure String
  | sendToUser .. => Bool
  | sendEmail .. => Except Failure Unit
  | takeUp _ => Unit
  | finish _ => Unit
  | enqueue _ => Uuid
  | accounts .. => Unit
  | session _ => Unit
  | provider _ => Unit

/-- The world after a statement that succeeded with the given result. -/
def performNotifySql (s : NotifyStmt) (out : s.Out) (w : NotifyWorld) : Option NotifyWorld :=
  if s.accepted then s.exec out w else none

/-- The world after an insertion into the queue. -/
def performEnqueue (s : NotificationStmt) (id : Uuid) (w : NotifyWorld) : Option NotifyWorld :=
  (s.exec id { Db.empty with notifications := w.notifications }).map fun notifications =>
    { w with notifications }

/-- The meaning of the operations. -/
def performNotify : (op : NotifyOp) → op.Ans → NotifyWorld → Option NotifyWorld
  | .sql s, .ok out, w => performNotifySql s out w
  | .sql _, .error _, w => some w
  | .sendToUser userId event, delivered, w =>
      provided (delivered = (Ws.sendToUser userId event w.ws).1)
        { w with ws := (Ws.sendToUser userId event w.ws).2 }
  | .sendEmail recipient .., .ok _, w => provided (recipient ∈ w.mailable) w
  | .sendEmail recipient .., .error _, w => provided (recipient ∉ w.mailable) w
  | .enqueue s, id, w => performEnqueue s id w
  | .accounts wallets contacts, _, w => some { w with wallets, contacts }
  | .session action, _, w => (Ws.step w.ws action).map fun ws => { w with ws }
  | .provider mailable, _, w => some { w with mailable }
  | .utcNow, _, w => some w
  | .decrypt .., _, w => some w
  | .takeUp _, _, w => some w
  | .finish _, _, w => some w

/-- A program over these operations. -/
abbrev NotifyProgram (α : Type) := Program NotifyOp NotifyOp.Ans α

end PactumCodex
