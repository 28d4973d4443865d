import PactumCodex.World

/-!
# Notification jobs

`NotificationJob` and `NotificationEvent` of `services/notification.rs`, and
`build_ws_event`.  What an email says is not modelled.
-/

namespace PactumCodex

/-- `NotificationJob`: a job of the queue. -/
structure NotificationJob where
  id : Uuid
  eventType : String
  agreementPda : Option String
  recipientPubkey : String
  scheduledAt : ℤ
  status : NotificationStatus
  attempts : ℕ
  deriving DecidableEq

/-- The job of a row. -/
def Notification.job (row : Notification) : NotificationJob :=
  ⟨row.id, row.eventType, some row.agreementPda, row.recipientPubkey, row.scheduledAt, row.status,
    row.attempts⟩

/-- `NotificationEvent`. -/
inductive NotificationEvent : Type
  | agreementCreated
  | signed
  | completed
  | cancelled
  | expired
  | revokeVote
  | revoked
  | draftReadyToSubmit
  | invitationExpired
  | invitationReminder
  | paymentConfirmed
  | refundInitiated
  | refundCompleted
  deriving DecidableEq, Repr

/-- The event that the worker reads from the event type of a job. -/
def NotificationEvent.ofType : String → Option NotificationEvent
  | "AgreementCreated" => some .agreementCreated
  | "Signed" => some .signed
  | "Completed" => some .completed
  | "Cancelled" => some .cancelled
  | "Expired" => some .expired
  | "RevokeVote" => some .revokeVote
  | "Revoked" => some .revoked
  | "DraftReadyToSubmit" => some .draftReadyToSubmit
  | "InvitationExpired" => some .invitationExpired
  | "InvitationReminder" => some .invitationReminder
  | "PaymentConfirmed" => some .paymentConfirmed
  | "RefundInitiated" => some .refundInitiated
  | "RefundCompleted" => some .refundCompleted
  | _ => none

/-- `build_ws_event`. -/
def buildWsEvent (job : NotificationJob) : WsEvent :=
  let agreementPda := job.agreementPda.getD ""
  match job.eventType with
  | "AgreementCreated" => .agreementCreated agreementPda
  | "Signed" => .agreementSigned agreementPda
  | "Completed" => .agreementCompleted agreementPda
  | "Cancelled" => .agreementCancelled agreementPda
  | "Expired" => .agreementExpired agreementPda
  | "RevokeVote" => .agreementRevokeVote agreementPda
  | "Revoked" => .agreementRevoked agreementPda
  | "DraftReadyToSubmit" => .draftReady agreementPda
  | "InvitationExpired" => .draftInvitationExpired agreementPda
  | "PaymentConfirmed" => .paymentConfirmed agreementPda
  | "RefundCompleted" => .refundCompleted agreementPda
  | _ => .genericNotification ("Event: " ++ job.eventType)

end PactumCodex
