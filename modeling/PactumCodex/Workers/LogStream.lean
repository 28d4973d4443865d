import PactumCodex.Lib.Trace
import PactumCodex.Workers.EventListener
import PactumCodex.Workers.Health

/-!
# The log subscription

`run` and `connect_and_listen` of `workers/event_listener.rs` with
`subscribe_logs` of `services/solana_logs.rs`.  A subscription is a task that
waits for notifications of the node and sends them through a bounded channel to
the loop of `connect_and_listen`, which takes one log after the other and
handles its event before it takes the next one.  When the channel is closed and
empty the loop ends, and `run` connects again.

Task and loop take their steps in any order (`Listener.next`).  The tasks of all
subscriptions so far are kept in the state: that the earlier ones have ended is
proved, not assumed.  How long `run` sleeps and what is logged is left out.
-/

namespace PactumCodex

open Interaction

/-! ## Subscriptions -/

/-- The capacity of `mpsc::channel`. -/
def logChannelCapacity : ℕ := 100

/-- Where the task of `subscribe_logs` is. -/
inductive StreamTask : Type
  /-- in `PubsubClient::logs_subscribe` -/
  | connecting
  /-- in `receiver.recv()` -/
  | receiving
  /-- in `tx.blocking_send(log)` -/
  | sending (log : ProgramLog)
  /-- It has returned and dropped its sender. -/
  | ended
  deriving DecidableEq

/-- A task and its channel. -/
structure Subscription where
  task : StreamTask
  channel : List ProgramLog
  deriving DecidableEq

/-- The event listener: all subscriptions, the one whose receiver `connect_and_listen` holds, and
what the worker reports. -/
structure Listener where
  subscriptions : List Subscription
  current : Option ℕ
  status : WorkerStatus
  processHealth : ProcessHealthState
  deriving DecidableEq

inductive ListenerAction : Type
  /-- `connect_and_listen` is called. -/
  | connect
  /-- `logs_subscribe` returns; it may have failed. -/
  | subscribed (i : ℕ) (ok : Bool)
  /-- `receiver.recv()` returns a notification. -/
  | received (i : ℕ) (response : RpcLogsResponse)
  /-- `receiver.recv()` returns an error. -/
  | failed (i : ℕ)
  /-- `tx.blocking_send(log)` returns. -/
  | sent (i : ℕ)
  /-- `rx.recv()` returns a log. -/
  | taken
  /-- `rx.recv()` returns `None`. -/
  | closed

namespace Listener

/-- When the worker is spawned. -/
def spawned : Listener := ⟨[], none, .healthy, .new .healthy⟩

/-- `connect_and_listen` has returned. -/
def disconnected (s : Listener) : Listener :=
  let (status, processHealth) := transitionToDegraded s.status s.processHealth
  { s with current := none, status, processHealth }

/-- Let the task of a subscription take a step. -/
def updateSubscription (s : Listener) (i : ℕ) (f : Subscription → Option Subscription) :
    Option Listener :=
  (s.subscriptions[i]?.bind f).map fun subscription =>
    { s with subscriptions := s.subscriptions.set i subscription }

/-- The listener after an action; `none` if the action is not possible. -/
def next (crates : Crates) (programId : String) (s : Listener) : ListenerAction → Option Listener
  | .connect =>
      if s.current.isSome then none
      else match crates.pubkeyFromStr programId with
        | none => some s.disconnected
        | some _ => some
            { s with
              subscriptions := s.subscriptions ++ [⟨.connecting, []⟩]
              current := some s.subscriptions.length
              status := transitionToHealthy s.status }
  | .subscribed i ok => s.updateSubscription i fun subscription =>
      match subscription.task with
      | .connecting => some { subscription with task := if ok then .receiving else .ended }
      | _ => none
  | .received i response => s.updateSubscription i fun subscription =>
      match subscription.task with
      | .receiving => some { subscription with task := .sending (connectAndStream response) }
      | _ => none
  | .failed i => s.updateSubscription i fun subscription =>
      match subscription.task with
      | .receiving => some { subscription with task := .ended }
      | _ => none
  | .sent i => s.updateSubscription i fun subscription =>
      match subscription.task with
      | .sending log =>
          -- without a receiver `blocking_send` returns an error, which ends the task
          if s.current ≠ some i then some { subscription with task := .ended }
          else if subscription.channel.length < logChannelCapacity then
            some ⟨.receiving, subscription.channel ++ [log]⟩
          else none
      | _ => none
  | .taken => s.current.bind fun i => s.updateSubscription i fun subscription =>
      match subscription.channel with
      | [] => none
      | _ :: rest => some { subscription with channel := rest }
  | .closed => s.current.bind fun i => s.subscriptions[i]?.bind fun subscription =>
      if subscription.channel = [] ∧ subscription.task = .ended then some s.disconnected else none

/-- The subscription whose receiver `connect_and_listen` holds. -/
def subscription? (s : Listener) : Option Subscription :=
  s.current.bind fun i => s.subscriptions[i]?

/-- The log that is taken. -/
def takenBy (s : Listener) : ListenerAction → Option ProgramLog
  | .taken => s.subscription?.bind fun subscription => subscription.channel.head?
  | _ => none

end Listener

/-- The notification that is received. -/
def ListenerAction.notification? : ListenerAction → Option RpcLogsResponse
  | .received _ response => some response
  | _ => none

/-- The log that a notification is turned into. -/
def ListenerAction.log? : ListenerAction → Option ProgramLog
  | .received _ response => some (connectAndStream response)
  | _ => none

/-! ## The loop -/

/-- The event that the listener detects in a log. -/
def ProgramLog.event? (crates : Crates) (log : ProgramLog) : Option ParsedEvent :=
  parseLogs crates log.signature log.slot log.logs

/-- The body of the loop of `connect_and_listen`. -/
def processLog (crates : Crates) (log : ProgramLog) : Backend Unit :=
  match log.event? crates with
  | some event => Handler.logged (handleEvent event)
  | none => return ()

/-- This is what the backend does with a notification. -/
theorem processNotification_eq (env : Env) (response : RpcLogsResponse) :
    processNotification env response = processLog env.crates (connectAndStream response) := rfl

end PactumCodex
