import PactumCodex.Sessions.NewestSession

/-!
# What a client receives

Events enter the channel of a session by `send_to_user` and leave it by the
receptions of its loop.  `accepted`, `written` and `overwritten` list the events
that have entered the channel, that have been written to the client, and that
were overwritten while 64 newer ones were waiting.  In every run the events
accepted are those that have passed followed by those still in the channel
(`Accounted`), so the client gets events of its own user only, in their order and
each at most once.

## Accounts

The lists are observations of the run: each step adds at most one event to each
of them, which depends on the action and the state before it (`acceptedBy`,
`writtenBy`, `overwrittenIn`).  For one session a step is

* idle, if it adds nothing and leaves the channel alone (`Accounted.idle`);
* a sending, which adds an event at the end of the channel and, if the channel is
  full, drops the first one (`Accounted.push`);
* a reception, which takes the first event (`Accounted.receive`).

`Delivery` states the accounts of all sessions, and that an entry of `ws_channels`
belongs to a session of its user.  A step changes one session, so `Delivery.change`
reduces each action to the accounts of that session.

While the loop of a session runs, what has passed is what was written or
overwritten, up to order.  After the loop has ended an event may have been taken
from the channel without being written, and nothing is said of it.
-/

namespace PactumCodex.Ws

open Transition

/-! ## Observations -/

/-- The event that enters the channel of the session. -/
def acceptedBy (s : ℕ) (state : State) : Action → Option WsEvent
  | .send userId event =>
      if state.channels userId = some s ∧ (sendToUser userId event state).1 = true then some event
      else none
  | _ => none

/-- The event that is overwritten in the channel of the session. -/
def overwrittenIn (s : ℕ) (state : State) (action : Action) : Option WsEvent :=
  (acceptedBy s state action).bind fun _ => (state.sessions s).bind fun session =>
    if session.queue.length < channelCapacity then none else session.queue.head?

/-- The event that a reception gives. -/
def Received.event? : Received → Option WsEvent
  | .event e => some e
  | _ => none

/-- The event that the loop of the session receives. -/
def received (s : ℕ) (state : State) : Option WsEvent := do
  let session ← state.sessions s
  let (got, _) ← recv (state.hasSender s session) session
  got.event?

/-- The event that is written to the client of the session. -/
def writtenBy (s : ℕ) (state : State) : Action → Option WsEvent
  | .iterate s' (.event true) => if s' = s then received s state else none
  | _ => none

/-- The events of a run that entered the channel of the session. -/
def accepted (s : ℕ) (actions : List Action) : List WsEvent :=
  observe step (acceptedBy s) State.initial actions

/-- The events of a run that were overwritten in the channel of the session. -/
def overwritten (s : ℕ) (actions : List Action) : List WsEvent :=
  observe step (overwrittenIn s) State.initial actions

/-- The events of a run that were written to the client of the session. -/
def written (s : ℕ) (actions : List Action) : List WsEvent :=
  observe step (writtenBy s) State.initial actions

/-- The event of an action that sends to the user. -/
def Action.addresses (userId : Uuid) : Action → Option WsEvent
  | .send userId' event => if userId' = userId then some event else none
  | _ => none

/-- The events that were sent to the user, whether or not a session took them. -/
def addressed (userId : Uuid) (actions : List Action) : List WsEvent :=
  actions.filterMap (Action.addresses userId)

/-! ## Accounting -/

/-- The loop of the session has not ended. -/
def Session.Open (session : Session) : Prop :=
  session.phase = .upgraded ∨ session.phase = .receiving

/-- Where the events of a session are. -/
structure Accounted (s : ℕ) (past : List Action) (session : Session) : Prop where
  bounded : session.queue.length ≤ channelCapacity
  own : (accepted s past).Sublist (addressed session.userId past)
  /-- Those accepted have passed or are in the channel; those written are among those that have
  passed, and the others were overwritten while the loop was running. -/
  passed : ∃ passed, accepted s past = passed ++ session.queue ∧ (written s past).Sublist passed ∧
    (session.Open → passed.Perm (written s past ++ overwritten s past))

/-- The state after a run: entries belong to registered sessions of their user, and the events of
all sessions are accounted for. -/
structure Delivery (past : List Action) (state : State) : Prop where
  registered : ∀ userId s, state.channels userId = some s →
    ∃ session, state.sessions s = some session ∧ session.userId = userId
  absent : ∀ s, state.sessions s = none →
    accepted s past = [] ∧ written s past = [] ∧ overwritten s past = []
  accounted : ∀ s session, state.sessions s = some session → Accounted s past session

section Preservation

variable {past : List Action} {state state' : State} {action : Action} {s : ℕ}
variable {session session' : Session}

theorem accepted_snoc (h : Run past state) :
    accepted s (past ++ [action]) = accepted s past ++ (acceptedBy s state action).toList :=
  observe_snoc h

theorem written_snoc (h : Run past state) :
    written s (past ++ [action]) = written s past ++ (writtenBy s state action).toList :=
  observe_snoc h

theorem overwritten_snoc (h : Run past state) :
    overwritten s (past ++ [action]) =
      overwritten s past ++ (overwrittenIn s state action).toList :=
  observe_snoc h

theorem addressed_snoc (userId : Uuid) : addressed userId (past ++ [action]) =
    addressed userId past ++ (action.addresses userId).toList := by
  unfold addressed
  cases h : action.addresses userId <;> simp [h]

/-- The action does nothing to the channel of the session. -/
structure Idle (s : ℕ) (state : State) (action : Action) : Prop where
  accepts : acceptedBy s state action = none
  writes : writtenBy s state action = none

theorem Idle.overwrites (h : Idle s state action) : overwrittenIn s state action = none := by
  rw [overwrittenIn, h.accepts]
  rfl

/-- An idle action keeps the accounts, if the session keeps its channel. -/
theorem Accounted.idle (h : Accounted s past session) (htrace : Run past state)
    (hidle : Idle s state action) (huser : session'.userId = session.userId)
    (hqueue : session'.queue = session.queue) (hopen : session'.Open → session.Open) :
    Accounted s (past ++ [action]) session' := by
  obtain ⟨passed, haccepted, hwritten, hpassed⟩ := h.passed
  refine ⟨hqueue ▸ h.bounded, ?_, passed, ?_, ?_, fun hstill => ?_⟩
  · rw [accepted_snoc htrace, hidle.accepts, addressed_snoc, huser]
    simpa using h.own.trans (List.sublist_append_left _ _)
  · rw [accepted_snoc htrace, hidle.accepts, hqueue]
    simpa using haccepted
  · rw [written_snoc htrace, hidle.writes]
    simpa using hwritten
  · rw [written_snoc htrace, overwritten_snoc htrace, hidle.writes, hidle.overwrites]
    simpa using hpassed (hopen hstill)

/-- A session that is not there yet has no events. -/
theorem Delivery.absent_idle (h : Delivery past state) (htrace : Run past state)
    (hnone : state.sessions s = none) (hidle : Idle s state action) :
    accepted s (past ++ [action]) = [] ∧ written s (past ++ [action]) = [] ∧
      overwritten s (past ++ [action]) = [] := by
  obtain ⟨haccepted, hwritten, hoverwritten⟩ := h.absent s hnone
  rw [accepted_snoc htrace, written_snoc htrace, overwritten_snoc htrace, haccepted, hwritten,
    hoverwritten, hidle.accepts, hidle.writes, hidle.overwrites]
  exact ⟨rfl, rfl, rfl⟩

theorem push_userId (session : Session) (event : WsEvent) :
    (session.push event).userId = session.userId := by
  unfold Session.push
  split <;> rfl

/-- An event enters the channel. -/
theorem Accounted.push (h : Accounted s past session) (htrace : Run past state)
    (hsession : state.sessions s = some session) {event : WsEvent}
    (haccepts : acceptedBy s state (.send session.userId event) = some event) :
    Accounted s (past ++ [.send session.userId event]) (session.push event) := by
  obtain ⟨passed, haccepted, hwritten, hpassed⟩ := h.passed
  have hwrites : writtenBy s state (.send session.userId event) = none := rfl
  have haddressed : (Action.send session.userId event).addresses session.userId = some event :=
    if_pos rfl
  have hopen : (session.push event).Open → session.Open := by
    unfold Session.Open Session.push
    split <;> exact id
  have hsublist : (accepted s (past ++ [.send session.userId event])).Sublist
      (addressed (session.push event).userId (past ++ [.send session.userId event])) := by
    rw [accepted_snoc htrace, addressed_snoc, push_userId, haccepts, haddressed]
    exact h.own.append (List.Sublist.refl _)
  -- there is room in the channel, or its oldest event makes way
  by_cases hroom : session.queue.length < channelCapacity
  · have hpush : session.push event = { session with queue := session.queue ++ [event] } :=
      if_pos hroom
    have hkeeps : overwrittenIn s state (.send session.userId event) = none := by
      simp [overwrittenIn, haccepts, hsession, hroom]
    have hbounded : (session.push event).queue.length ≤ channelCapacity := by
      simp only [hpush, List.length_append, List.length_singleton]
      exact hroom
    refine ⟨hbounded, hsublist, passed, ?_, ?_, fun hstill => ?_⟩
    · rw [accepted_snoc htrace, haccepts, haccepted, hpush]
      simp
    · rw [written_snoc htrace, hwrites]
      simpa using hwritten
    · rw [written_snoc htrace, overwritten_snoc htrace, hwrites, hkeeps]
      simpa using hpassed (hopen hstill)
  · -- the oldest event is overwritten
    have hpush : session.push event =
        { session with queue := session.queue.tail ++ [event], skipped := session.skipped + 1 } :=
      if_neg hroom
    have hbounded := h.bounded
    cases hqueue : session.queue with
    | nil => simp [hqueue, channelCapacity] at hroom
    | cons oldest rest =>
        have hlost : overwrittenIn s state (.send session.userId event) = some oldest := by
          rw [overwrittenIn, haccepts, hsession, Option.bind_some, Option.bind_some, if_neg hroom,
            hqueue, List.head?_cons]
        rw [hqueue] at hpush haccepted hbounded
        refine ⟨by simpa [hpush] using hbounded, hsublist, passed ++ [oldest], ?_, ?_,
          fun hstill => ?_⟩
        · rw [accepted_snoc htrace, haccepts, haccepted, hpush]
          simp
        · rw [written_snoc htrace, hwrites]
          simpa using hwritten.trans (List.sublist_append_left _ _)
        · rw [written_snoc htrace, overwritten_snoc htrace, hwrites, hlost]
          rw [Option.toList_none, Option.toList_some, List.append_nil, ← List.append_assoc]
          exact (hpassed (hopen hstill)).append_right [oldest]

/-- An event is taken from the channel, and written to the client if the session stays open. -/
theorem Accounted.receive (h : Accounted s past session) (htrace : Run past state)
    {event : WsEvent} {rest : List WsEvent} (hqueue : session.queue = event :: rest)
    (huser : session'.userId = session.userId) (hrest : session'.queue = rest)
    (haccepts : acceptedBy s state action = none)
    (haddressed : action.addresses session.userId = none)
    (hwrites : writtenBy s state action = some event ∨
      writtenBy s state action = none ∧ ¬ session'.Open)
    (hopen : session'.Open → session.Open) :
    Accounted s (past ++ [action]) session' := by
  obtain ⟨passed, haccepted, hwritten, hpassed⟩ := h.passed
  have hkeeps : overwrittenIn s state action = none := by
    rw [overwrittenIn, haccepts]
    rfl
  have hbounded := h.bounded
  rw [hqueue] at haccepted hbounded
  -- the event passes; it may get lost only if the session does not go on
  refine ⟨hrest ▸ Nat.le_of_succ_le hbounded, ?_, passed ++ [event], ?_, ?_, fun hstill => ?_⟩
  · rw [accepted_snoc htrace, haccepts, addressed_snoc, huser, haddressed]
    simpa using h.own
  · rw [accepted_snoc htrace, haccepts, haccepted, hrest]
    simp
  · rw [written_snoc htrace]
    rcases hwrites with hevent | ⟨hnone, -⟩
    · rw [hevent]
      exact hwritten.append (List.Sublist.refl _)
    · rw [hnone]
      simpa using hwritten.trans (List.sublist_append_left _ _)
  · have hevent := hwrites.resolve_right fun hnone => hnone.2 hstill
    rw [written_snoc htrace, overwritten_snoc htrace, hevent, hkeeps, Option.toList_some,
      Option.toList_none, List.append_nil, List.append_assoc]
    have hreceived := (hpassed (hopen hstill)).append_right [event]
    rw [List.append_assoc] at hreceived
    exact hreceived.trans (List.perm_append_comm.append_left (written s past))

/-- One session changes and the action is idle for the others. -/
theorem Delivery.change (h : Delivery past state) (htrace : Run past state)
    {n : ℕ} (session' : Session) (hsession : state.sessions n = some session)
    (huser : session'.userId = session.userId)
    (hsessions : state'.sessions = (state.setSession n session').sessions)
    (hchannels : ∀ userId m, state'.channels userId = some m →
      state.channels userId = some m ∨ m = n ∧ userId = session.userId)
    (hchanged : Accounted n (past ++ [action]) session')
    (hothers : ∀ m, m ≠ n → Idle m state action) : Delivery (past ++ [action]) state' := by
  -- the entries, the sessions that are not there, and the accounts of each session
  refine ⟨fun userId m hm => ?_, fun m hm => ?_, fun m session₁ hm => ?_⟩
  · have hold : ∃ session₁, state.sessions m = some session₁ ∧ session₁.userId = userId := by
      rcases hchannels userId m hm with hm | ⟨rfl, rfl⟩
      · exact h.registered userId m hm
      · exact ⟨session, hsession, rfl⟩
    obtain ⟨session₁, hm', hown⟩ := hold
    rw [hsessions, sessions_setSession]
    split
    · rename_i heq
      subst heq
      obtain rfl := Option.some.inj (hsession.symm.trans hm')
      exact ⟨session', rfl, huser.trans hown⟩
    · exact ⟨session₁, hm', hown⟩
  · rw [hsessions, sessions_setSession] at hm
    split at hm
    · exact nomatch hm
    · rename_i hne
      exact h.absent_idle htrace hm (hothers m hne)
  · rw [hsessions, sessions_setSession] at hm
    split at hm
    · rename_i heq
      subst heq
      exact Option.some.inj hm ▸ hchanged
    · rename_i hne
      exact (h.accounted m session₁ hm).idle htrace (hothers m hne) rfl rfl id

/-- Only sending puts an event into a channel. -/
theorem idle_of_quiet {action : Action} (hsend : ∀ userId event, action ≠ .send userId event)
    (hwrites : writtenBy s state action = none) : Idle s state action := by
  refine ⟨?_, hwrites⟩
  cases action <;> first | rfl | exact absurd rfl (hsend _ _)

theorem writtenBy_other {n : ℕ} {selected : Selected} (hne : s ≠ n) :
    writtenBy s state (.iterate n selected) = none := by
  cases selected with
  | incoming => rfl
  | event sent => cases sent <;> simp [writtenBy, Ne.symm hne]

/-- Only a received event leaves the queue, from its front. -/
theorem recv_queue {hasSender : Bool} {received : Received}
    (h : recv hasSender session = some (received, session')) :
    session.queue = received.event?.toList ++ session'.queue := by
  unfold recv at h
  split at h
  · simp only [Option.some.injEq, Prod.mk.injEq] at h
    obtain ⟨rfl, rfl⟩ := h
    rfl
  · split at h
    · rename_i hqueue
      simp only [Option.some.injEq, Prod.mk.injEq] at h
      obtain ⟨rfl, rfl⟩ := h
      exact hqueue
    · split at h
      · simp at h
      · simp only [Option.some.injEq, Prod.mk.injEq] at h
        obtain ⟨rfl, rfl⟩ := h
        rfl

theorem not_open_left : ¬ ({ session with phase := .left } : Session).Open := by
  simp [Session.Open]

/-- What an iteration of the session's loop does to its accounts. -/
theorem Accounted.iterate (h : Accounted s past session) (htrace : Run past state)
    (hsession : state.sessions s = some session) (hphase : session.phase = .receiving)
    {selected : Selected}
    (hiterate : Ws.iterate (state.hasSender s session) session selected = some session') :
    Accounted s (past ++ [.iterate s selected]) session' := by
  have hopen : session'.Open → session.Open := fun _ => Or.inr hphase
  have hquiet : ∀ userId event, Action.iterate s selected ≠ .send userId event := nofun
  have huser := (iterate_advances hphase hiterate).userId_eq
  -- a message of the client leaves the channel alone
  cases selected with
  | incoming message =>
      have hqueue : session'.queue = session.queue := by
        cases message <;> simp only [Ws.iterate, Option.ite_none_left_eq_some, Option.some.injEq]
          at hiterate
        case other => rw [hiterate]
        all_goals rw [← hiterate.2]
      exact h.idle htrace (idle_of_quiet hquiet rfl) huser hqueue hopen
  | event sent =>
      simp only [Ws.iterate] at hiterate
      cases hrecv : recv (state.hasSender s session) session with
      | none => simp [hrecv] at hiterate
      | some result =>
          obtain ⟨got, session₁⟩ := result
          have hqueue := recv_queue hrecv
          have hreceived : received s state = got.event? := by
            simp [received, hsession, hrecv]
          have hwrites : writtenBy s state (.iterate s (.event sent)) =
              if sent then received s state else none := by
            cases sent <;> simp [writtenBy]
          cases got with
          | lagged =>
              simp only [hrecv, Option.some.injEq] at hiterate
              refine h.idle htrace (idle_of_quiet hquiet ?_) huser (hiterate ▸ hqueue.symm) hopen
              simp [hwrites, hreceived, Received.event?]
          | closed =>
              simp only [hrecv, Option.some.injEq] at hiterate
              refine h.idle htrace (idle_of_quiet hquiet ?_) huser (hiterate ▸ hqueue.symm) hopen
              simp [hwrites, hreceived, Received.event?]
          | event event =>
              simp only [hrecv] at hiterate
              rw [hreceived] at hwrites
              have hfront : session.queue = event :: session₁.queue := hqueue
              refine h.receive htrace hfront huser ?_ rfl rfl ?_ hopen
              · split at hiterate
                · rw [Option.some.inj hiterate]
                · simp only [Option.ite_none_left_eq_some, Option.some.injEq] at hiterate
                  rw [← hiterate.2]
              · rw [hwrites]
                cases sent with
                | true => exact Or.inl rfl
                | false =>
                    simp only [Bool.false_eq_true, if_false, Option.ite_none_left_eq_some,
                      Option.some.injEq] at hiterate
                    exact Or.inr ⟨rfl, hiterate.2 ▸ not_open_left⟩

/-- A new session has no events. -/
theorem Delivery.connect (h : Delivery past state) (htrace : Run past state) {userId : Uuid}
    {n : ℕ} (hnone : state.sessions n = none) : Delivery (past ++ [.connect userId n])
      (state.setSession n ⟨userId, .upgraded, true, [], 0⟩) := by
  have hidle : ∀ m, Idle m state (.connect userId n) := fun m => ⟨rfl, rfl⟩
  obtain ⟨haccepted, hwritten, hoverwritten⟩ := h.absent_idle htrace hnone (hidle n)
  refine ⟨fun userId' m hm => ?_, fun m hm => ?_, fun m session₁ hm => ?_⟩
  · obtain ⟨session₁, hm', hown⟩ := h.registered userId' m hm
    have hne : m ≠ n := by
      rintro rfl
      exact nomatch hm'.symm.trans hnone
    exact ⟨session₁, ((sessions_setSession ..).trans (if_neg hne)).trans hm', hown⟩
  · rw [sessions_setSession] at hm
    split at hm
    · exact nomatch hm
    · exact h.absent_idle htrace hm (hidle m)
  · rw [sessions_setSession] at hm
    split at hm
    · rename_i heq
      subst heq
      obtain rfl := Option.some.inj hm
      refine ⟨Nat.zero_le _, haccepted ▸ List.nil_sublist _, [], haccepted,
        hwritten ▸ List.Sublist.refl _, fun _ => ?_⟩
      rw [hwritten, hoverwritten]
      exact .nil
    · exact (h.accounted m session₁ hm).idle htrace (hidle m) rfl rfl id

/-- An event that is sent enters the channel of the registered session, or none. -/
theorem Delivery.send (h : Delivery past state) (htrace : Run past state) (userId : Uuid)
    (event : WsEvent) :
    Delivery (past ++ [.send userId event]) (sendToUser userId event state).2 := by
  -- without a receiving session the event is dropped
  have hdropped : sendToUser userId event state = (false, state) →
      Delivery (past ++ [.send userId event]) (sendToUser userId event state).2 := by
    intro hsend
    have hidle : ∀ m, Idle m state (.send userId event) :=
      fun m => ⟨by simp [acceptedBy, hsend], rfl⟩
    rw [hsend]
    exact ⟨h.registered, fun m hm => h.absent_idle htrace hm (hidle m),
      fun m session hm => (h.accounted m session hm).idle htrace (hidle m) rfl rfl id⟩
  cases hchannel : state.channels userId with
  | none => exact hdropped (by simp [sendToUser, hchannel])
  | some n =>
      obtain ⟨session, hsession, rfl⟩ := h.registered userId n hchannel
      by_cases hphase : session.phase = .receiving
      · have hsend : sendToUser session.userId event state =
            (true, state.setSession n (session.push event)) := by
          simp only [sendToUser, hchannel, hsession, hphase, if_true]
        have haccepts : ∀ m, acceptedBy m state (.send session.userId event) =
            if m = n then some event else none := by
          intro m
          simp [acceptedBy, hchannel, hsend, eq_comm]
        have hpushed := (h.accounted n session hsession).push htrace hsession
          ((haccepts n).trans (if_pos rfl))
        rw [hsend]
        exact h.change htrace (session.push event) hsession (push_userId session event) rfl
          (fun _ _ hm => Or.inl hm) hpushed
          fun m hne => ⟨(haccepts m).trans (if_neg hne), rfl⟩
      · exact hdropped (by simp [sendToUser, hchannel, hsession, hphase])

/-- Every step keeps the accounts of all sessions. -/
theorem Delivery.step (h : Delivery past state) (htrace : Run past state)
    (hstep : Ws.step state action = some state') : Delivery (past ++ [action]) state' := by
  -- only sending and an iteration of the loop touch a channel
  cases action with
  | connect userId n =>
      simp only [Ws.step, Option.ite_none_right_eq_some, Option.some.injEq] at hstep
      obtain ⟨hnone, rfl⟩ := hstep
      exact h.connect htrace hnone
  | register userId n =>
      obtain ⟨session, hsession, hstep⟩ := Option.bind_eq_some_iff.mp hstep
      simp only [Option.ite_none_right_eq_some, Option.some.injEq] at hstep
      obtain ⟨⟨rfl, hphase⟩, rfl⟩ := hstep
      have hidle : ∀ m, Idle m state (.register session.userId n) := fun m => ⟨rfl, rfl⟩
      refine h.change htrace { session with phase := .receiving } hsession rfl rfl
        (fun userId m hm => ?_)
        ((h.accounted n session hsession).idle htrace (hidle n) rfl rfl fun _ => Or.inl hphase)
        fun m _ => hidle m
      simp only [Function.update_apply] at hm
      split at hm
      · rename_i heq
        exact Or.inr ⟨(Option.some.inj hm).symm, heq⟩
      · exact Or.inl hm
  | cleanup userId n =>
      obtain ⟨session, hsession, hstep⟩ := Option.bind_eq_some_iff.mp hstep
      simp only [Option.ite_none_right_eq_some, Option.some.injEq] at hstep
      obtain ⟨⟨rfl, hphase⟩, rfl⟩ := hstep
      have hidle : ∀ m, Idle m state (.cleanup session.userId n) := fun m => ⟨rfl, rfl⟩
      refine h.change htrace { session with phase := .done } hsession rfl rfl
        (fun userId m hm => ?_)
        ((h.accounted n session hsession).idle htrace (hidle n) rfl rfl fun hopen => ?_)
        fun m _ => hidle m
      · simp only [Function.update_apply] at hm
        split at hm
        · cases hm
        · exact Or.inl hm
      · rcases hopen with hopen | hopen <;> cases hopen
  | clientClose n =>
      obtain ⟨session, hsession, hstep⟩ := Option.bind_eq_some_iff.mp hstep
      obtain rfl := Option.some.inj hstep
      have hidle : ∀ m, Idle m state (.clientClose n) := fun m => ⟨rfl, rfl⟩
      exact h.change htrace { session with clientOpen := false } hsession rfl rfl
        (fun _ _ hm => Or.inl hm)
        ((h.accounted n session hsession).idle htrace (hidle n) rfl rfl id) fun m _ => hidle m
  | iterate n selected =>
      obtain ⟨session, hsession, hstep⟩ := Option.bind_eq_some_iff.mp hstep
      simp only [Option.ite_none_right_eq_some, Option.map_eq_some_iff] at hstep
      obtain ⟨hphase, session', hiterate, rfl⟩ := hstep
      exact h.change htrace session' hsession (iterate_advances hphase hiterate).userId_eq rfl
        (fun _ _ hm => Or.inl hm)
        ((h.accounted n session hsession).iterate htrace hsession hphase hiterate)
        fun m hne => idle_of_quiet (fun _ _ hsend => by cases hsend) (writtenBy_other hne)
  | send userId event =>
      obtain rfl := Option.some.inj hstep
      exact h.send htrace userId event

theorem Delivery.initial : Delivery [] State.initial :=
  ⟨nofun, fun _ _ => ⟨rfl, rfl, rfl⟩, nofun⟩

theorem delivery (h : Run past state) : Delivery past state :=
  Trace.invariant Delivery Delivery.initial
    (fun _ _ _ _ htrace hinv hstep => hinv.step htrace hstep) h

end Preservation

/-! ## Whole runs -/

/-- What a client is written was sent to its user. -/
theorem written_addressed {actions : List Action} {state : State} (h : Run actions state) {s : ℕ}
    {session : Session} (hsession : state.sessions s = some session) :
    (written s actions).Sublist (addressed session.userId actions) := by
  have haccounted := (delivery h).accounted s session hsession
  obtain ⟨passed, haccepted, hwritten, -⟩ := haccounted.passed
  have hsublist : (written s actions).Sublist (accepted s actions) := by
    rw [haccepted]
    exact hwritten.trans (List.sublist_append_left _ _)
  exact hsublist.trans haccounted.own

/-- **Delivery.**  In every run the events that the client of a session has been written are events
sent to its user, in the order of the sends and none of them twice; at most 64 wait in the channel;
and as long as the loop of the session runs, the events that the channel accepted are those written,
those overwritten while the channel was full and those waiting, each as often as it was accepted. -/
theorem events_delivered_in_order {actions : List Action} {state : State} (h : Run actions state)
    {s : ℕ} {session : Session} (hsession : state.sessions s = some session) :
    (written s actions).Sublist (addressed session.userId actions) ∧
      session.queue.length ≤ channelCapacity ∧
      (session.Open →
        (accepted s actions).Perm
          (written s actions ++ overwritten s actions ++ session.queue) ∧
        (overwritten s actions = [] →
          accepted s actions = written s actions ++ session.queue)) := by
  have haccounted := (delivery h).accounted s session hsession
  obtain ⟨passed, haccepted, hwritten, hpassed⟩ := haccounted.passed
  refine ⟨written_addressed h hsession, haccounted.bounded, fun hopen => ⟨?_, fun hnone => ?_⟩⟩
  · rw [haccepted]
    exact (hpassed hopen).append_right session.queue
  · have hlength := (hpassed hopen).length_eq
    rw [hnone, List.append_nil] at hlength
    rw [haccepted, hwritten.eq_of_length hlength.symm]

/-- Two events reach the client of the second session; the third one waits. -/
def threeSent : List Action :=
  secondConnection ++ [.send 11 (.draftReady "d"), .send 11 (.paymentConfirmed "d"),
    .iterate 1 (.event true), .iterate 1 (.event true), .send 11 (.refundCompleted "d")]

theorem events_delivered_in_order_three_sent : ∃ state session, Run threeSent state ∧
    state.sessions 1 = some session ∧
    (written 1 threeSent).Sublist (addressed session.userId threeSent) ∧
      session.queue.length ≤ channelCapacity ∧
      (session.Open →
        (accepted 1 threeSent).Perm
          (written 1 threeSent ++ overwritten 1 threeSent ++ session.queue) ∧
        (overwritten 1 threeSent = [] →
          accepted 1 threeSent = written 1 threeSent ++ session.queue)) := by
  have hrun : (threeSent.foldlM step State.initial).any fun state => (state.sessions 1).isSome := by
    decide
  obtain ⟨state, hstate, hsome⟩ := (Option.any_eq_true _ _).mp hrun
  obtain ⟨session, hsession⟩ := Option.isSome_iff_exists.mp hsome
  exact ⟨state, session, hstate, hsession, events_delivered_in_order hstate hsession⟩

end PactumCodex.Ws
