import PactumCodex.Auth.Replay
import PactumCodex.Notifications.Runs

/-!
# Replaying the notification worker

A way of answering every operation, for histories that are found by evaluation:
statements return what the tables hold, and fail only if they name a column that
their table does not have.
-/

namespace PactumCodex

open Interaction Relational

/-- The worker's tables without rows, and nobody connected. -/
def NotifyWorld.empty : NotifyWorld :=
  ⟨Db.empty.notifications, Db.empty.wallets, AuthDb.empty.contacts, Ws.State.initial, []⟩

/-- What a statement returns. -/
def NotifyStmt.result (w : NotifyWorld) : (s : NotifyStmt) → s.Out
  | fetchPending now limit =>
      ((w.notifications.rows.filter fun row => row.status = .pending ∧
        row.scheduledAt ≤ now).insertionSort
        fun row row' => row.scheduledAt ≤ row'.scheduledAt).take limit
  | markSent .. => ()
  | incrementAttempts _ => ()
  | userOfWallet pubkey => (lookup Wallet.pubkey pubkey w.wallets.rows).map Wallet.userId
  | emailOf userId => (lookup UserContact.userId userId w.contacts.rows).bind fun row =>
      row.emailEnc.map fun emailEnc => (emailEnc, row.emailNonce)

/-- The answer of every operation, where only statements that name a missing column fail. -/
def cooperateNotify : (op : NotifyOp) → NotifyWorld → op.Ans
  | .sql s, w => if s.accepted then .ok (s.result w) else .error .failed
  | .utcNow, _ => 0
  | .decrypt ciphertext _ _, _ =>
      match sampleCiphertexts.find? fun sample => sample.2.1 = ciphertext with
      | some sample => .ok sample.1
      | none => .error .failed
  | .sendToUser userId event, w => (Ws.sendToUser userId event w.ws).1
  | .sendEmail recipient .., w => if recipient ∈ w.mailable then .ok () else .error .failed
  | .enqueue _, w => BitVec.ofNat 128 (w.notifications.rows.length + 1)
  | .takeUp _, _ => ()
  | .finish _, _ => ()
  | .accounts .., _ => ()
  | .session _, _ => ()
  | .provider _, _ => ()

/-- A statement fails only because it names a missing column. -/
def failsUnaccepted : NotifyEvent → Bool
  | .ran _ ⟨_, .sql s, .error _, _⟩ => !s.accepted
  | _ => true

/-- Programs take their turns, each given by its number and the number of its steps. -/
def notifyMoves (programs : List (NotifyProgram Unit)) (turns : List (ℕ × ℕ)) :
    List (Move NotifyOp NotifyOp.Ans NotifyWorld) :=
  programs.map .start ++ turns.flatMap fun turn =>
    List.replicate turn.2 (.run turn.1 cooperateNotify)

/-- What is recorded is a history. -/
theorem notifyHistory_of_moves {env : Env} {programs : List (NotifyProgram Unit)}
    (turns : List (ℕ × ℕ)) (test : List NotifyEvent → Bool)
    (hentry : ∀ p ∈ programs, NotifyEntry env p)
    (h : (record performNotify [] ⟨NotifyWorld.empty, []⟩ (notifyMoves programs turns)).any
      (fun result => test result.1) = true) :
    ∃ events pool, NotifyHistory env ⟨NotifyWorld.empty, []⟩ events pool ∧ test events = true := by
  exact exists_history_of_record (fun events _ => test events)
    (fun p hp => hentry p (mem_of_start_mem hp)) h

/-- The wallet of a user is linked, one job is enqueued for it, and a worker runs two cycles; the
user has a WebSocket session that can be closed. -/
def oneJob : List (NotifyProgram Unit) :=
  [.ask (.accounts ⟨[⟨1, aliceKey⟩], by decide⟩ AuthDb.empty.contacts) fun _ => .ret (),
    .ask (.enqueue ⟨"Signed", some "agreement", aliceKey, 0⟩) fun _ => .ret (),
    NotificationWorker.run sampleEnv 2,
    .ask (.session (.connect 1 0)) fun _ => .ret (),
    .ask (.session (.register 1 0)) fun _ => .ret (),
    .ask (.session (.clientClose 0)) fun _ => .ret (),
    .ask (.session (.iterate 0 (.incoming .close))) fun _ => .ret ()]

theorem oneJob_entries : ∀ p ∈ oneJob, NotifyEntry sampleEnv p := by
  simp only [oneJob, List.forall_mem_cons]
  exact ⟨.accounts .., .enqueue _, .worker 2, .session _, .session _, .session _, .session _, nofun⟩

/-- A worker is done with a job, and the test holds. -/
def finished (test : NotifyPhase → NotifyWorld → NotificationJob → Bool) (past : List NotifyEvent) :
    NotifyEvent → Option NotificationJob
  | .ran i ⟨v, .finish job, _, _⟩ => if test (notifyPhase i past) v job then some job else none
  | _ => none

theorem exists_finished {test : NotifyPhase → NotifyWorld → NotificationJob → Bool}
    {events : List NotifyEvent} (h : (collect (finished test) events).isEmpty = false) :
    ∃ before i v job v' after, events = before ++ .ran i ⟨v, .finish job, (), v'⟩ :: after ∧
      test (notifyPhase i before) v job = true := by
  obtain ⟨job, hjob⟩ := List.exists_mem_of_ne_nil _ (List.isEmpty_eq_false_iff.mp h)
  obtain ⟨before, event, after, rfl, hfinished⟩ := mem_collect.mp hjob
  unfold finished at hfinished
  split at hfinished
  · obtain ⟨htest, -⟩ := Option.ite_none_right_eq_some.mp hfinished
    exact ⟨before, _, _, _, _, after, rfl, htest⟩
  · cases hfinished

end PactumCodex
