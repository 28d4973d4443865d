import PactumCodex.Agreements.Notices
import PactumCodex.Lib.Embedding
import PactumCodex.Notifications.Queue
import PactumCodex.Sessions.Delivery

/-!
# The messaging system

The backend and the notification workers on one world.  They share the queue, the
wallets and the WebSocket sessions; meanwhile sessions come and go, wallets are
linked, contacts change, and so does what the email provider takes.

`Participant` lists the programs, and `MessagingStep` says what a step of one of them
is: one of the backend, one of a worker, or one of their surroundings.  All of them
keep the parties, the holders of wallets and the pending jobs (`MessagingKept`).
-/

namespace PactumCodex

open Interaction Relational

/-! ## The world and the operations -/

/-- The world of the backend, and what the notification worker uses besides. -/
structure MessagingWorld where
  backend : World
  contacts : Table UserContact UserContactsValid
  ws : Ws.State
  mailable : List String

namespace MessagingWorld

/-- What a notification worker sees. -/
def notify (w : MessagingWorld) : NotifyWorld :=
  ⟨w.backend.db.notifications, w.backend.db.wallets, w.contacts, w.ws, w.mailable⟩

/-- The world after a notification worker has left its part as `v`. -/
def withNotify (w : MessagingWorld) (v : NotifyWorld) : MessagingWorld where
  backend := { w.backend with db := { w.backend.db with
    notifications := v.notifications, wallets := v.wallets } }
  contacts := v.contacts
  ws := v.ws
  mailable := v.mailable

@[simp] theorem notify_withNotify (w : MessagingWorld) (v : NotifyWorld) :
    (w.withNotify v).notify = v := rfl

end MessagingWorld

/-- An operation of the backend, of a notification worker, or of a request that changes accounts. -/
inductive MessagingOp : Type
  | backend (op : Op)
  | notify (op : NotifyOp)
  /-- `INSERT INTO auth_wallet (user_id, pubkey) VALUES ($1, $2)` -/
  | linkWallet (wallet : Wallet)
  /-- `user_contacts` is written; the backend reads other columns of it than the worker -/
  | writeContacts (contacts : Table Contact ContactsValid)
      (userContacts : Table UserContact UserContactsValid)

/-- The answer of an operation. -/
@[reducible] def MessagingOp.Ans : MessagingOp → Type
  | backend op => op.Ans
  | notify op => op.Ans
  | linkWallet _ => Except Failure Unit
  | writeContacts .. => Unit

/-- The WebSocket sessions after an operation of the backend. -/
def performPush : (op : Op) → op.Ans → Ws.State → Option Ws.State
  | .sendToUser userId event, delivered, ws =>
      provided (delivered = (Ws.sendToUser userId event ws).1) (Ws.sendToUser userId event ws).2
  | _, _, ws => some ws

/-- The meaning of the operations. -/
def performMessaging : (op : MessagingOp) → op.Ans → MessagingWorld → Option MessagingWorld
  | .backend op, answer, w => (performPush op answer w.ws).bind fun ws =>
      (perform op answer w.backend).map fun backend => { w with backend, ws }
  | .notify op, answer, w => (performNotify op answer w.notify).map w.withNotify
  | .linkWallet wallet, .ok _, w =>
      (commit (w.backend.db.wallets.rows ++ [wallet])).map fun wallets =>
        { w with backend := { w.backend with db := { w.backend.db with wallets } } }
  | .linkWallet _, .error _, w => some w
  | .writeContacts contacts userContacts, _, w => some
      { w with
        backend := { w.backend with db := { w.backend.db with contacts } }
        contacts := userContacts }

/-- The operations of the backend, in the messaging system. -/
def backendMessaging : Lifting perform performMessaging where
  lift := .backend
  answer := fun _ answer => answer
  view := MessagingWorld.backend
  performs_lift := fun h => by
    obtain ⟨ws, -, h⟩ := Option.bind_eq_some_iff.mp h
    obtain ⟨backend, hbackend, rfl⟩ := Option.map_eq_some_iff.mp h
    exact hbackend

/-- The operations of a notification worker, in the messaging system. -/
def notifyMessaging : Lifting performNotify performMessaging where
  lift := .notify
  answer := fun _ answer => answer
  view := MessagingWorld.notify
  performs_lift := fun h => by
    obtain ⟨v, hv, rfl⟩ := Option.map_eq_some_iff.mp h
    exact hv

/-! ## Programs and runs -/

/-- The action sends an event. -/
def Ws.Action.isSend : Ws.Action → Bool
  | .send .. => true
  | _ => false

/-- A program of the messaging system. -/
inductive Participant : Type
  | backend (actor : Actor)
  /-- the first cycles of a notification worker -/
  | worker (cycles : ℕ)
  | linkWallet (wallet : Wallet)
  | writeContacts (contacts : Table Contact ContactsValid)
      (userContacts : Table UserContact UserContactsValid)
  /-- a step of a session; events are sent by the programs above -/
  | session (action : Ws.Action) (quiet : action.isSend = false)
  | provider (mailable : List String)

def Participant.program (env : Env) : Participant → Program MessagingOp MessagingOp.Ans Unit
  | .backend actor => (actor.program env).embed backendMessaging
  | .worker cycles => (NotificationWorker.run env cycles).embed notifyMessaging
  | .linkWallet wallet => .ask (.linkWallet wallet) fun _ => .ret ()
  | .writeContacts contacts userContacts =>
      .ask (.writeContacts contacts userContacts) fun _ => .ret ()
  | .session action _ => .ask (.notify (.session action)) fun _ => .ret ()
  | .provider mailable => .ask (.notify (.provider mailable)) fun _ => .ret ()

/-- A step that shows who takes it. -/
abbrev MessagingStep := Step (Participant × MessagingOp) (TaggedAns Participant MessagingOp.Ans)
  MessagingWorld

/-- The step of an actor that this is, in the world of the backend. -/
def MessagingStep.actorStep? : MessagingStep → Option ActorStep
  | ⟨w, (.backend actor, .backend op), answer, w'⟩ =>
      some ⟨w.backend, (actor, op), answer, w'.backend⟩
  | _ => none

/-- The steps of the actors. -/
def actorSteps (steps : List MessagingStep) : List ActorStep :=
  steps.filterMap MessagingStep.actorStep?

section Sessions

variable {w w' : MessagingWorld}

end Sessions

end PactumCodex
