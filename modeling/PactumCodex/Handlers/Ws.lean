import PactumCodex.World

/-!
# WebSocket sessions

The session handling of `handlers/ws.rs`, as the steps that the tasks of the
server take.  `handle_upgrade` runs once for every connection: it creates a
broadcast channel, puts the sender into `ws_channels` under the user's id, runs
`handle_ws_connection` until its loop ends, and then removes the entry of the
user's id.  `ws_channels` holds the only sender of a channel, so overwriting or
removing an entry drops that sender and closes the channel.

A session is the task of one connection.  `State.channels` tells whose sender is
registered for a user.
-/

namespace PactumCodex.Ws

/-! ## Sessions and channels -/

/-- How far `handle_upgrade` has come. -/
inductive Phase : Type
  /-- the channel is not registered yet -/
  | upgraded
  /-- in the loop of `handle_ws_connection` -/
  | receiving
  /-- the loop has ended, the receiver is dropped -/
  | left
  /-- `remove_user_channel` is done -/
  | done
  deriving DecidableEq, Repr

/-- The task of one connection, with the receiving end of its channel. -/
structure Session where
  userId : Uuid
  phase : Phase
  /-- the connection is open on the client side -/
  clientOpen : Bool
  /-- events not received yet -/
  queue : List WsEvent
  /-- events overwritten since the last `Lagged` -/
  skipped : ℕ
  deriving DecidableEq

/-- `ws_channels`, with each sender given by its session, and the sessions. -/
structure State where
  channels : Uuid → Option ℕ
  sessions : ℕ → Option Session

/-- Nobody is connected. -/
def State.initial : State := ⟨fun _ => none, fun _ => none⟩

/-- Replace the state of a session. -/
def State.setSession (state : State) (s : ℕ) (session : Session) : State :=
  { state with sessions := Function.update state.sessions s (some session) }

/-- The sender of the session's channel has not been dropped. -/
def State.hasSender (state : State) (s : ℕ) (session : Session) : Bool :=
  state.channels session.userId = some s

/-- `broadcast::channel(64)`. -/
def channelCapacity : ℕ := 64

/-- An event enters the channel; if the channel is full, it overwrites the oldest one. -/
def Session.push (session : Session) (event : WsEvent) : Session :=
  if session.queue.length < channelCapacity then { session with queue := session.queue ++ [event] }
  else { session with
    queue := session.queue.tail ++ [event], skipped := session.skipped + 1 }

/-- What `rx.recv()` gives. -/
inductive Received : Type
  | event (event : WsEvent)
  | lagged
  | closed
  deriving DecidableEq

/-- `rx.recv()`; `none` while there is nothing to receive. -/
def recv (hasSender : Bool) (session : Session) : Option (Received × Session) :=
  if 0 < session.skipped then some (.lagged, { session with skipped := 0 })
  else
    match session.queue with
    | event :: rest => some (.event event, { session with queue := rest })
    | [] => if hasSender then none else some (.closed, session)

/-- `send_to_user`: whether the event was sent, and the state after it. -/
def sendToUser (userId : Uuid) (event : WsEvent) (state : State) : Bool × State :=
  match state.channels userId with
  | none => (false, state)
  | some s =>
      match state.sessions s with
      | none => (false, state)
      | some session =>
          -- sending fails if the receiver has been dropped
          if session.phase = .receiving then (true, state.setSession s (session.push event))
          else (false, state)

/-! ## The loop of `handle_ws_connection` -/

/-- What `socket.recv()` gives. -/
inductive Incoming : Type
  /-- `Some(Ok(Message::Close(_)))` -/
  | close
  /-- `None` -/
  | ended
  /-- `Some(Err(_))` -/
  | failed
  /-- any other message -/
  | other
  deriving DecidableEq

/-- The branch of `select!` taken by an iteration. -/
inductive Selected : Type
  | incoming (message : Incoming)
  /-- a reception, and whether a received event could be sent to the client -/
  | event (sent : Bool)
  deriving DecidableEq

/-- One iteration.  The socket ends or fails only if the client does not hold it open any more. -/
def iterate (hasSender : Bool) (session : Session) : Selected → Option Session
  | .incoming .other => some session
  | .incoming _ => if session.clientOpen then none else some { session with phase := .left }
  | .event sent =>
      match recv hasSender session with
      | none => none
      | some (.event _, session) =>
          if sent then some session
          else if session.clientOpen then none
          else some { session with phase := .left }
      | some (.lagged, session) => some session
      | some (.closed, session) => some { session with phase := .left }

/-! ## Steps -/

/-- A step of a session's task, of its client, or of a task that sends an event. -/
inductive Action : Type
  | connect (userId : Uuid) (s : ℕ)
  /-- `state.ws_channels.insert(user_id, tx)` -/
  | register (userId : Uuid) (s : ℕ)
  | clientClose (s : ℕ)
  | iterate (s : ℕ) (selected : Selected)
  /-- `remove_user_channel(&state, user_id)` -/
  | cleanup (userId : Uuid) (s : ℕ)
  | send (userId : Uuid) (event : WsEvent)
  deriving DecidableEq

/-- The state after an action, if it can be taken. -/
def step (state : State) : Action → Option State
  | .connect userId s =>
      if state.sessions s = none then some (state.setSession s ⟨userId, .upgraded, true, [], 0⟩)
      else none
  | .register userId s => do
      let session ← state.sessions s
      if session.userId = userId ∧ session.phase = .upgraded then
        some { state.setSession s { session with phase := .receiving } with
          channels := Function.update state.channels userId (some s) }
      else none
  | .clientClose s => do
      let session ← state.sessions s
      some (state.setSession s { session with clientOpen := false })
  | .iterate s selected => do
      let session ← state.sessions s
      if session.phase = .receiving then
        (iterate (state.hasSender s session) session selected).map (state.setSession s)
      else none
  | .cleanup userId s => do
      let session ← state.sessions s
      if session.userId = userId ∧ session.phase = .left then
        some { state.setSession s { session with phase := .done } with
          channels := Function.update state.channels userId none }
      else none
  | .send userId event => some (sendToUser userId event state).2

end PactumCodex.Ws
