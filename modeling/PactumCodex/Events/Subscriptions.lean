import PactumCodex.Agreements.Listener
import PactumCodex.Workers.LogStream

/-!
# From subscriptions to events

However the tasks of the subscriptions and the loop of the listener take turns,
the logs received so far are those the loop has taken, followed by those in
flight in the current subscription (`Streams`).  No log is lost between the node
and the loop, none is handled twice, and no task outlives its receiver.  So the
listener handles the events of the logs received, one after the other, as if
there were no channel in between (`log_stream_refines`).

## Strategy

`Listener.Moves` says once what an action can do: the node refuses a connection, a
subscription is opened, the loop closes the current one, or one subscription goes
on, with what this does to its logs in flight.  `Listener.moves` proves it of the
code's actions, and the invariant looks at the four cases only.

`Streams` says that only the current subscription has a running task, that channels
keep to their capacity, and where the logs are.  A subscription is closed after its
task has ended and its channel is empty, which is why nothing is lost on the way
to the next one.

## The refinement

Taking a log from the channel and handling it is what `process_notification` does
with the notification itself, so a run of the listener handles the notifications
of the logs that were taken, in the order in which they were received (`Refines`).
-/

namespace PactumCodex

open Interaction Transition

/-! ## Logs in flight -/

def StreamTask.pending : StreamTask → List ProgramLog
  | .sending log => [log]
  | _ => []

/-- The logs that have been received and not been taken. -/
def Subscription.inFlight (subscription : Subscription) : List ProgramLog :=
  subscription.channel ++ subscription.task.pending

def Listener.inFlight (s : Listener) : List ProgramLog :=
  s.subscription?.elim [] Subscription.inFlight

/-- The logs of the notifications that the tasks have received. -/
def receivedLogs (actions : List ListenerAction) : List ProgramLog :=
  actions.filterMap ListenerAction.log?

/-- The notifications that the tasks have received. -/
def receivedNotifications (actions : List ListenerAction) : List RpcLogsResponse :=
  actions.filterMap ListenerAction.notification?

theorem receivedLogs_eq (actions : List ListenerAction) :
    receivedLogs actions = (receivedNotifications actions).map connectAndStream := by
  unfold receivedLogs receivedNotifications
  rw [List.map_filterMap]
  congr 1
  funext action
  cases action <;> rfl

/-- The logs that the loop has taken. -/
def takenLogs (crates : Crates) (programId : String) (actions : List ListenerAction) :
    List ProgramLog :=
  observe (Listener.next crates programId) Listener.takenBy .spawned actions

/-! ## What an action does -/

section Action

variable {crates : Crates} {programId : String} {s s' : Listener} {action : ListenerAction}

/-- What an action does to the listener. -/
inductive Listener.Moves (s : Listener) (action : ListenerAction) : Listener → Prop
  | refused : action = .connect → s.current = none → Moves s action s.disconnected
  | connected : action = .connect → s.current = none →
      Moves s action ⟨s.subscriptions ++ [⟨.connecting, []⟩], some s.subscriptions.length,
        transitionToHealthy s.status, s.processHealth⟩
  | closed : action = .closed → s.current ≠ none → s.inFlight = [] →
      (∀ i subscription, s.current = some i → s.subscriptions[i]? = some subscription →
        subscription.task = .ended) → Moves s action s.disconnected
  /-- A task that has not ended goes on, or the loop takes a log of the current subscription. -/
  | stepped (i : ℕ) (old new : Subscription) : s.subscriptions[i]? = some old →
      (old.task ≠ .ended ∨ s.current = some i) →
      (s.current = some i → (old.channel.length ≤ logChannelCapacity →
          new.channel.length ≤ logChannelCapacity) ∧
        old.inFlight ++ action.log?.toList = (s.takenBy action).toList ++ new.inFlight) →
      Moves s action { s with subscriptions := s.subscriptions.set i new }

theorem Listener.updateSubscription_eq_some {i : ℕ} {f : Subscription → Option Subscription} :
    s.updateSubscription i f = some s' ↔ ∃ old new, s.subscriptions[i]? = some old ∧
      f old = some new ∧ { s with subscriptions := s.subscriptions.set i new } = s' := by
  unfold updateSubscription
  simp only [Option.map_eq_some_iff, Option.bind_eq_some_iff]
  constructor
  · rintro ⟨new, ⟨old, hold, hnew⟩, rfl⟩
    exact ⟨old, new, hold, hnew, rfl⟩
  · rintro ⟨old, new, hold, hnew, rfl⟩
    exact ⟨new, ⟨old, hold, hnew⟩, rfl⟩

theorem Listener.moves (h : s.next crates programId action = some s') : s.Moves action s' := by
  cases action with
  | connect =>
      simp only [next, Option.ite_none_left_eq_some, Option.not_isSome_iff_eq_none] at h
      obtain ⟨hcurrent, h⟩ := h
      split at h
      · obtain rfl := Option.some.inj h
        exact .refused rfl hcurrent
      · obtain rfl := Option.some.inj h
        exact .connected rfl hcurrent
  -- the four actions of a task require their phase of the task
  | subscribed i ok =>
      obtain ⟨old, new, hold, hnew, rfl⟩ := updateSubscription_eq_some.mp h
      split at hnew
      · rename_i htask
        obtain rfl := Option.some.inj hnew
        refine .stepped i old _ hold (.inl (by simp [htask])) fun _ => ⟨id, ?_⟩
        cases ok <;> simp [Subscription.inFlight, htask, StreamTask.pending, ListenerAction.log?,
          takenBy]
      · cases hnew
  | received i response =>
      obtain ⟨old, new, hold, hnew, rfl⟩ := updateSubscription_eq_some.mp h
      split at hnew
      · rename_i htask
        obtain rfl := Option.some.inj hnew
        refine .stepped i old _ hold (.inl (by simp [htask])) fun _ => ⟨id, ?_⟩
        simp [Subscription.inFlight, htask, StreamTask.pending, ListenerAction.log?, takenBy]
      · cases hnew
  | failed i =>
      obtain ⟨old, new, hold, hnew, rfl⟩ := updateSubscription_eq_some.mp h
      split at hnew
      · rename_i htask
        obtain rfl := Option.some.inj hnew
        refine .stepped i old _ hold (.inl (by simp [htask])) fun _ => ⟨id, ?_⟩
        simp [Subscription.inFlight, htask, StreamTask.pending, ListenerAction.log?, takenBy]
      · cases hnew
  | sent i =>
      obtain ⟨old, new, hold, hnew, rfl⟩ := updateSubscription_eq_some.mp h
      split at hnew
      · rename_i log htask
        refine .stepped i old new hold (.inl (by simp [htask])) fun hcurrent => ?_
        simp only [hcurrent, ne_eq, not_true_eq_false, if_false, Option.ite_none_right_eq_some,
          Option.some.injEq] at hnew
        obtain ⟨hroom, rfl⟩ := hnew
        refine ⟨fun _ => ?_, ?_⟩
        · rw [List.length_append, List.length_singleton]
          exact hroom
        · simp [Subscription.inFlight, htask, StreamTask.pending, ListenerAction.log?, takenBy]
      · cases hnew
  | taken =>
      obtain ⟨i, hcurrent, h⟩ := Option.bind_eq_some_iff.mp h
      obtain ⟨old, new, hold, hnew, rfl⟩ := updateSubscription_eq_some.mp h
      split at hnew
      · cases hnew
      · rename_i log rest hchannel
        obtain rfl := Option.some.inj hnew
        refine .stepped i old _ hold (.inr hcurrent) fun _ => ⟨fun hle => ?_, ?_⟩
        · rw [hchannel, List.length_cons] at hle
          exact Nat.le_of_succ_le hle
        · simp [Subscription.inFlight, ListenerAction.log?, takenBy, subscription?, hcurrent, hold,
            hchannel]
  -- the channel is empty and its task has ended
  | closed =>
      obtain ⟨i, hcurrent, h⟩ := Option.bind_eq_some_iff.mp h
      obtain ⟨subscription, hold, h⟩ := Option.bind_eq_some_iff.mp h
      obtain ⟨⟨hchannel, htask⟩, h⟩ := Option.ite_none_right_eq_some.mp h
      obtain rfl := Option.some.inj h
      refine .closed rfl (by simp [hcurrent]) ?_ fun j other hj hother => ?_
      · simp [inFlight, subscription?, hcurrent, hold, Subscription.inFlight, hchannel, htask,
          StreamTask.pending]
      · obtain rfl : i = j := Option.some.inj (hcurrent.symm.trans hj)
        obtain rfl : subscription = other := Option.some.inj (hold.symm.trans hother)
        exact htask

end Action

/-! ## Along a run -/

/-- What holds after the given actions. -/
structure Streams (crates : Crates) (programId : String) (past : List ListenerAction)
    (s : Listener) : Prop where
  /-- Only the current subscription has a task that has not ended. -/
  alone : ∀ i subscription, s.subscriptions[i]? = some subscription → subscription.task ≠ .ended →
    s.current = some i
  bounded : ∀ (i : ℕ) (subscription : Subscription), s.subscriptions[i]? = some subscription →
    subscription.channel.length ≤ logChannelCapacity
  /-- Logs are taken as they were received, without loss or repetition. -/
  accounted : receivedLogs past = takenLogs crates programId past ++ s.inFlight
  /-- The worker reports whether it is subscribed. -/
  healthy : s.current ≠ none → s.status = .healthy
  degraded : s.current = none → past ≠ [] → s.status = .degraded

section Run

variable {crates : Crates} {programId : String} {s s' : Listener}
variable {past : List ListenerAction} {action : ListenerAction}

theorem receivedLogs_snoc :
    receivedLogs (past ++ [action]) = receivedLogs past ++ action.log?.toList := by
  unfold receivedLogs
  cases h : action.log? <;> simp [h]

theorem takenLogs_snoc (h : Trace (Listener.next crates programId) .spawned past s) :
    takenLogs crates programId (past ++ [action]) =
      takenLogs crates programId past ++ (s.takenBy action).toList :=
  observe_snoc h

@[simp] theorem disconnected_status : s.disconnected.status = .degraded := by
  show (transitionToDegraded s.status s.processHealth).1 = .degraded
  unfold transitionToDegraded
  split
  · assumption
  · rfl

@[simp] theorem disconnected_current : s.disconnected.current = none := rfl

@[simp] theorem disconnected_subscriptions : s.disconnected.subscriptions = s.subscriptions := rfl

@[simp] theorem disconnected_inFlight : s.disconnected.inFlight = [] := rfl

theorem inFlight_of_none (h : s.current = none) : s.inFlight = [] := by
  simp [Listener.inFlight, Listener.subscription?, h]

theorem inFlight_of_some {i : ℕ} {subscription : Subscription} (h : s.current = some i)
    (hget : s.subscriptions[i]? = some subscription) : s.inFlight = subscription.inFlight := by
  simp [Listener.inFlight, Listener.subscription?, h, hget]

theorem transitionToHealthy_eq (status : WorkerStatus) : transitionToHealthy status = .healthy := by
  unfold transitionToHealthy
  split
  · assumption
  · rfl

theorem streams_spawned : Streams crates programId [] .spawned :=
  ⟨by simp [Listener.spawned], by simp [Listener.spawned], rfl, fun _ => rfl,
    fun _ h => absurd rfl h⟩

/-- An action that neither receives nor takes a log. -/
theorem Streams.accounted_quiet (h : Streams crates programId past s)
    (htrace : Trace (Listener.next crates programId) .spawned past s) (hlog : action.log? = none)
    (htaken : s.takenBy action = none) (hinFlight : s'.inFlight = s.inFlight) :
    receivedLogs (past ++ [action]) = takenLogs crates programId (past ++ [action]) ++
      s'.inFlight := by
  rw [receivedLogs_snoc, takenLogs_snoc htrace, hlog, htaken, hinFlight, h.accounted]
  simp

/-- **Step lemma.** -/
theorem Streams.next (h : Streams crates programId past s)
    (htrace : Trace (Listener.next crates programId) .spawned past s)
    (hnext : s.next crates programId action = some s') :
    Streams crates programId (past ++ [action]) s' := by
  cases Listener.moves hnext with
  | refused haction hnone =>
      subst haction
      refine ⟨fun i subscription hget htask => ?_, h.bounded, ?_, by simp, by simp⟩
      · exact absurd (h.alone i subscription hget htask) (by simp [hnone])
      · exact h.accounted_quiet htrace rfl rfl (inFlight_of_none hnone).symm
  -- a new subscription, with nothing in flight
  | connected haction hnone =>
      subst haction
      have hold : ∀ i subscription,
        (s.subscriptions ++ [⟨.connecting, []⟩])[i]? = some subscription →
          s.subscriptions[i]? = some subscription ∨
            (i = s.subscriptions.length ∧ subscription = ⟨.connecting, []⟩) := by
        intro i subscription hget
        rw [List.getElem?_append] at hget
        split at hget
        · exact .inl hget
        · rw [List.getElem?_singleton] at hget
          split at hget
          · exact .inr ⟨by omega, (Option.some.inj hget).symm⟩
          · cases hget
      refine ⟨fun i subscription hget htask => ?_, fun i subscription hget => ?_, ?_,
        fun _ => transitionToHealthy_eq _, nofun⟩
      · rcases hold i subscription hget with hget | ⟨rfl, -⟩
        · exact absurd (h.alone i subscription hget htask) (by simp [hnone])
        · rfl
      · rcases hold i subscription hget with hget | ⟨-, rfl⟩
        · exact h.bounded i subscription hget
        · exact Nat.zero_le _
      · refine h.accounted_quiet htrace rfl rfl ?_
        rw [inFlight_of_none hnone]
        simp [Listener.inFlight, Listener.subscription?, Subscription.inFlight, StreamTask.pending]
  | closed haction hcurrent hinFlight hended =>
      subst haction
      refine ⟨fun i subscription hget htask => ?_, h.bounded, ?_, by simp, by simp⟩
      · have hi := h.alone i subscription hget htask
        exact absurd (hended i subscription hi hget) htask
      · exact h.accounted_quiet htrace rfl rfl hinFlight.symm
  -- a subscription that does something is the current one
  | stepped i old new hget hlive heffect =>
      have hcurrent : s.current = some i := by
        rcases hlive with htask | hcurrent
        · exact h.alone i old hget htask
        · exact hcurrent
      obtain ⟨hbounded, hlogs⟩ := heffect hcurrent
      have hnew : (s.subscriptions.set i new)[i]? = some new := by
        have hlt := (List.getElem?_eq_some_iff.mp hget).1
        simp [hlt]
      have hinFlight : ({ s with subscriptions := s.subscriptions.set i new } : Listener).inFlight =
          new.inFlight := inFlight_of_some hcurrent hnew
      have hother : ∀ j subscription, (s.subscriptions.set i new)[j]? = some subscription → j ≠ i →
          s.subscriptions[j]? = some subscription := by
        intro j subscription hj hne
        rwa [List.getElem?_set_ne (Ne.symm hne)] at hj
      refine ⟨fun j subscription hj htask => ?_, fun j subscription hj => ?_, ?_, h.healthy,
        fun hnone => by simp [hcurrent] at hnone⟩
      · by_cases hji : j = i
        · exact hji ▸ hcurrent
        · exact h.alone j subscription (hother j subscription hj hji) htask
      · by_cases hji : j = i
        · subst hji
          obtain rfl := Option.some.inj (hnew.symm.trans hj)
          exact hbounded (h.bounded j old hget)
        · exact h.bounded j subscription (hother j subscription hj hji)
      · rw [receivedLogs_snoc, takenLogs_snoc htrace, h.accounted, inFlight_of_some hcurrent hget,
          List.append_assoc, hlogs, ← List.append_assoc, hinFlight]

/-- **Run lemma.** -/
theorem streams_run {actions : List ListenerAction}
    (h : Trace (Listener.next crates programId) .spawned actions s) :
    Streams crates programId actions s :=
  h.invariant (Streams crates programId) streams_spawned fun _ _ _ _ htrace hpast hnext =>
    hpast.next htrace hnext

theorem length_inFlight_le {actions : List ListenerAction}
    (h : Streams crates programId actions s) : s.inFlight.length ≤ logChannelCapacity + 1 := by
  cases hcurrent : s.subscription? with
  | none => simp [Listener.inFlight, hcurrent]
  | some subscription =>
      obtain ⟨i, -, hget⟩ := Option.bind_eq_some_iff.mp hcurrent
      have hbounded := h.bounded i subscription hget
      have hpending : subscription.task.pending.length ≤ 1 := by
        cases subscription.task <;> simp [StreamTask.pending]
      simp only [Listener.inFlight, hcurrent, Option.elim_some, Subscription.inFlight,
        List.length_append]
      omega

end Run

/-! ## Handling the logs -/

/-- The loop handles the logs one after the other. -/
inductive Processes (crates : Crates) : World → List ProgramLog → World → Prop
  | nil (w : World) : Processes crates w [] w
  | snoc {w w₁ w' : World} {logs : List ProgramLog} {log : ProgramLog} {steps : List BackendStep} :
      Processes crates w logs w₁ → Runs perform (processLog crates log) w₁ steps () w' →
      Processes crates w (logs ++ [log]) w'

/-- Only logs with an event do anything. -/
theorem Processes.listens {crates : Crates} {w w' : World} {logs : List ProgramLog}
    (h : Processes crates w logs w') : ∃ history, Listens w history w' ∧
      history.map Prod.fst = logs.filterMap (ProgramLog.event? crates) := by
  induction h with
  | nil => exact ⟨[], .nil w, rfl⟩
  | @snoc w₁ w' logs log steps _ hrun ih =>
      obtain ⟨history, hlistens, hevents⟩ := ih
      unfold processLog at hrun
      cases hevent : log.event? crates with
      | none =>
          simp only [hevent] at hrun
          obtain ⟨-, -, rfl⟩ := hrun
          exact ⟨history, hlistens, by simp [hevents, hevent]⟩
      | some event =>
          simp only [hevent] at hrun
          exact ⟨history ++ [(event, steps)], .snoc hlistens hrun, by simp [hevents, hevent]⟩

/-- The backend handles the notifications one after the other. -/
inductive Handles (env : Env) : World → List RpcLogsResponse → World → Prop
  | nil (w : World) : Handles env w [] w
  | snoc {w w₁ w' : World} {responses : List RpcLogsResponse} {response : RpcLogsResponse}
      {steps : List BackendStep} : Handles env w responses w₁ →
      Runs perform (processNotification env response) w₁ steps () w' →
      Handles env w (responses ++ [response]) w'

/-- The loop does with the logs what the backend does with their notifications. -/
theorem Processes.handles {env : Env} {w w' : World} {logs : List ProgramLog}
    (h : Processes env.crates w logs w') {responses : List RpcLogsResponse}
    (hlogs : logs = responses.map connectAndStream) : Handles env w responses w' := by
  induction h generalizing responses with
  | nil =>
      rw [List.map_eq_nil_iff.mp hlogs.symm]
      exact .nil w
  | snoc _ hrun ih =>
      obtain ⟨before, last, rfl, hbefore, hlast⟩ := List.map_eq_append_iff.mp hlogs.symm
      obtain ⟨response, rfl, rfl⟩ := List.map_eq_singleton_iff.mp hlast
      rw [← processNotification_eq] at hrun
      exact .snoc (ih hbefore.symm) hrun

/-- A run of the worker: the actions of task and loop, and what the loop does with the logs
taken. -/
structure ListenerRun (env : Env) (actions : List ListenerAction) (s : Listener) (w w' : World) :
    Prop where
  trace : Trace (Listener.next env.crates env.config.programId) .spawned actions s
  processes : Processes env.crates w (takenLogs env.crates env.config.programId actions) w'

/-- What a run of the worker amounts to. -/
structure Refines (env : Env) (actions : List ListenerAction) (s : Listener)
    (w w' : World) : Prop where
  /-- The events of the logs received, but for those in flight, were handled one after the other. -/
  sequential : ∃ handled history, receivedLogs actions = handled ++ s.inFlight ∧
    Listens w history w' ∧ history.map Prod.fst = handled.filterMap (ProgramLog.event? env.crates)
  /-- To the backend it is as if the notifications had come without a channel in between. -/
  notified : ∃ handled waiting, receivedNotifications actions = handled ++ waiting ∧
    waiting.map connectAndStream = s.inFlight ∧ Handles env w handled w'
  bounded : s.inFlight.length ≤ logChannelCapacity + 1
  drained : s.current = none → s.inFlight = []
  alone : ∀ i subscription, s.subscriptions[i]? = some subscription → subscription.task ≠ .ended →
    s.current = some i
  healthy : s.current ≠ none → s.status = .healthy
  degraded : s.current = none → actions ≠ [] → s.status = .degraded

/-- **Log stream.**  Across any number of subscriptions, the listener handles the events of the logs
received in their order and each once, with at most 101 logs in flight, all of them in the one
subscription that is alive, and none once it is disconnected. -/
theorem log_stream_refines {env : Env} {actions : List ListenerAction} {s : Listener} {w w' : World}
    (h : ListenerRun env actions s w w') : Refines env actions s w w' := by
  have hstreams := streams_run h.trace
  obtain ⟨history, hlistens, hevents⟩ := h.processes.listens
  have hreceived := (receivedLogs_eq actions).symm.trans hstreams.accounted
  obtain ⟨handled, waiting, hsplit, hhandled, hwaiting⟩ := List.map_eq_append_iff.mp hreceived
  exact ⟨⟨_, history, hstreams.accounted, hlistens, hevents⟩,
    ⟨handled, waiting, hsplit, hwaiting, h.processes.handles hhandled.symm⟩,
    length_inFlight_le hstreams, inFlight_of_none, hstreams.alone, hstreams.healthy,
    hstreams.degraded⟩

/-- The first subscription is lost after its log has been handled, the second has one in flight. -/
def resubscribed : List ListenerAction :=
  [.connect, .subscribed 0 true, .received 0 cancelNotification, .sent 0, .failed 0, .taken,
    .closed,
    .connect, .subscribed 1 true, .received 1 cancelNotification]

theorem log_stream_refines_resubscribed : ∃ s w',
    ListenerRun sampleEnv resubscribed s (World.ofDb (onePaymentDb linkedPayment)) w' ∧
    w'.db.parties.rows.map Party.status = [.cancelled] ∧ s.inFlight.length = 1 ∧
    Refines sampleEnv resubscribed s (World.ofDb (onePaymentDb linkedPayment)) w' := by
  have hhandle : (interpret perform (cooperate 0)
      (processLog sampleEnv.crates (connectAndStream cancelNotification))
      (World.ofDb (onePaymentDb linkedPayment))).any
        (fun result => result.2.2.db.parties.rows.map Party.status = [.cancelled]) = true := by
    decide +kernel
  obtain ⟨steps, _, w', hrun, htest⟩ := runs_of_interpret _ _
    (fun _ _ w' => w'.db.parties.rows.map Party.status = [.cancelled]) hhandle
  have hstream : (resubscribed.foldlM (Listener.next sampleEnv.crates sampleEnv.config.programId)
      .spawned).any (fun s => s.inFlight.length = 1) = true := by decide +kernel
  obtain ⟨s, htrace, hinFlight⟩ := (Option.any_eq_true _ _).mp hstream
  have htaken : takenLogs sampleEnv.crates sampleEnv.config.programId resubscribed =
      [] ++ [connectAndStream cancelNotification] := by decide +kernel
  have hlistener : ListenerRun sampleEnv resubscribed s
    (World.ofDb (onePaymentDb linkedPayment)) w' :=
    ⟨htrace, htaken ▸ .snoc (.nil _) hrun⟩
  exact ⟨s, w', hlistener, of_decide_eq_true htest, of_decide_eq_true hinFlight,
    log_stream_refines hlistener⟩

end PactumCodex
