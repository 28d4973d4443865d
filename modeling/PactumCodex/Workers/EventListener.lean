import PactumCodex.Services.ProgramLog
import PactumCodex.Services.Solana

/-!
# The event listener

`workers/event_listener.rs`: what happens to a notification of the log
subscription, from `connect_and_stream` through `parse_logs` to `handle_event`.
Errors of `handle_event` are logged and processing goes on; they are written as
`internalError` here.
-/

namespace PactumCodex

open Interaction

/-! ## Recipients -/

/-- Lookup user_id by wallet pubkey. -/
def lookupUserId (pubkey : String) : Backend (Option Uuid) := do
  match ← sql (.account (.userOf pubkey)) with
  | .ok userId => return userId
  | .error _ => return none

/-- Send a WebSocket event to every party that has an account. -/
def broadcast (event : WsEvent) : List String → Backend Unit
  | [] => pure ()
  | party :: parties => do
      match ← lookupUserId party with
      | some userId =>
          let _ ← Program.issue (Op.sendToUser userId event)
          broadcast event parties
      | none => broadcast event parties

/-- Enqueue a notification for every party; a failure is logged. -/
def enqueueAll (eventType agreementPda : String) : List String → Backend Unit
  | [] => pure ()
  | party :: parties => do
      Handler.logged (enqueueNotification eventType (some agreementPda) party)
      enqueueAll eventType agreementPda parties

/-! ## Instructions -/

/-- Insert agreement parties into the database. -/
def insertParties (agreementPda creator : String) : List String → Handler Unit
  | [] => pure ()
  | party :: parties => do
      let now ← Handler.ask .dbNow
      Handler.query (.party (.insert party agreementPda creator now))
      insertParties agreementPda creator parties

/-- Handle CreateAgreement instruction. -/
def handleCreateAgreement (event : ParsedEvent) : Handler Unit := do
  insertParties event.agreementPda (event.creator.getD "unknown") event.parties
  enqueueAll "AgreementCreated" event.agreementPda event.parties
  broadcast (.agreementCreated event.agreementPda) event.parties

/-- Handle SignAgreement instruction. -/
def handleSignAgreement (event : ParsedEvent) : Handler Unit := do
  let agreementPda := event.agreementPda
  let signer := event.signer.getD "unknown"
  let now ← Handler.ask .dbNow
  let result ← Handler.query (.party (.sign now agreementPda signer))
  match result with
  | none => return ()
  | some _ =>
      let unsignedCount ← Handler.query (.party (.unsignedCount agreementPda))
      let isFullySigned := unsignedCount = 0
      let eventType := if isFullySigned then "Completed" else "Signed"
      Handler.logged (enqueueNotification eventType (some agreementPda) signer)
      let parties ← Handler.query (.party (.partiesOf agreementPda))
      broadcast (if isFullySigned then .agreementCompleted agreementPda
        else .agreementSigned agreementPda) parties

/-- Initiate refund for cancelled/expired agreement if payment was made. -/
def initiateRefundIfEligible (agreementPda : String) : Handler Unit := do
  let paymentId ← Handler.query (.payment (.confirmedOf agreementPda))
  match paymentId with
  | some id =>
      let now ← Handler.ask .dbNow
      Handler.query (.payment (.initiateRefund now id))
  | none => return ()

/-- The name of the notification of a cancellation. -/
def cancellationEventType (status : PartyStatus) : String :=
  if status = .cancelled then "Cancelled" else "Expired"

/-- The WebSocket event of a cancellation. -/
def cancellationEvent (status : PartyStatus) (agreementPda : String) : WsEvent :=
  if status = .cancelled then .agreementCancelled agreementPda else .agreementExpired agreementPda

/-- Common handler for cancellation events. -/
def handleCancellation (event : ParsedEvent) (status : PartyStatus) : Handler Unit := do
  let agreementPda := event.agreementPda
  Handler.query (.party (.setStatus status agreementPda))
  let parties ← Handler.query (.party (.partiesOf agreementPda))
  enqueueAll (cancellationEventType status) agreementPda parties
  broadcast (cancellationEvent status agreementPda) parties
  Handler.logged (initiateRefundIfEligible agreementPda)

/-- Handle CancelAgreement instruction. -/
def handleCancelAgreement (event : ParsedEvent) : Handler Unit :=
  handleCancellation event .cancelled

/-- Handle ExpireAgreement instruction. -/
def handleExpireAgreement (event : ParsedEvent) : Handler Unit := handleCancellation event .expired

/-- Handle VoteRevoke instruction. -/
def handleVoteRevoke (event : ParsedEvent) : Handler Unit := do
  let agreementPda := event.agreementPda
  let signer := event.signer.getD "unknown"
  Handler.logged (enqueueNotification "RevokeVote" (some agreementPda) signer)
  let parties ← Handler.query (.party (.partiesOf agreementPda))
  broadcast (.agreementRevokeVote agreementPda) parties

/-- Handle a parsed program log event. -/
def handleEvent (event : ParsedEvent) : Handler Unit :=
  match event.instruction with
  | .createAgreement => handleCreateAgreement event
  | .signAgreement => handleSignAgreement event
  | .cancelAgreement => handleCancelAgreement event
  | .expireAgreement => handleExpireAgreement event
  | .voteRevoke => handleVoteRevoke event

/-! ## Notifications of the subscription -/

/-- The event the listener detects in a notification, as forwarded by `connect_and_stream`. -/
def detectedEvent (env : Env) (response : RpcLogsResponse) : Option ParsedEvent :=
  let log := connectAndStream response
  parseLogs env.crates log.signature log.slot log.logs

/-- What the loop of `connect_and_listen` does for one notification. -/
def processNotification (env : Env) (response : RpcLogsResponse) : Backend Unit :=
  match detectedEvent env response with
  | some event => Handler.logged (handleEvent event)
  | none => return ()

end PactumCodex
