import PactumCodex.Handlers.Ws
import PactumCodex.Lib.Trace

/-!
# The newest session of a user

A later connection takes over the user's entry in `ws_channels`, which ends the
earlier session; but the cleanup of a session removes whatever entry the user
has.  Everything rests on the order of cleanups: as long as a session cleans up
only while it is the newest one, or after the newest one has cleaned up itself,
the entry is that of the newest session until its own cleanup (`Inv.channels`).

## Steps

`step_cases` says once what a step of the server can do to the sessions: a
connection, a registration, a cleanup, or progress of one session that keeps its
user and leaves the channels alone (`Session.Advances`).  A session leaves its
loop only if its client is gone or its channel is closed.

## The invariant

`Inv` relates the state to the trace of actions: the entry of a user is that of
the session registered last, unless that session has cleaned up, and a session
still receives unless it was replaced or its client is gone.  Each of the four
kinds of step preserves it; the cleanup does so because it is the one of the
newest session or comes after it.

## The condition

`CleansOwn` (a cleanup never removes the entry of another session) is what the
invariant needs, and `CleansInTurn` says the same about the order of cleanups
alone.  `newest_reached_iff` shows that the order is also necessary.
-/

namespace PactumCodex.Ws

open Transition

/-! ## Registrations and cleanups of a trace -/

/-- The session registered by an action. -/
def Action.registers? (userId : Uuid) : Action → Option ℕ
  | .register userId' s => if userId' = userId then some s else none
  | _ => none

/-- The most recently registered session of a user. -/
def lastRegistered (userId : Uuid) (actions : List Action) : Option ℕ :=
  (actions.filterMap (Action.registers? userId)).getLast?

theorem lastRegistered_snoc (userId : Uuid) (past : List Action) (action : Action) :
    lastRegistered userId (past ++ [action]) =
      (action.registers? userId).or (lastRegistered userId past) := by
  unfold lastRegistered
  cases h : action.registers? userId with
  | none => simp [h]
  | some s => simp [h]

/-- The action neither registers nor unregisters a session. -/
def Action.Quiet : Action → Prop
  | .register .. => False
  | .cleanup .. => False
  | _ => True

theorem lastRegistered_quiet {action : Action} (h : action.Quiet) (userId : Uuid)
    (past : List Action) :
    lastRegistered userId (past ++ [action]) = lastRegistered userId past := by
  rw [lastRegistered_snoc]
  cases action <;> first | rfl | exact h.elim

theorem cleanup_mem_quiet {action : Action} (h : action.Quiet) {userId : Uuid} {s : ℕ}
    {past : List Action} : .cleanup userId s ∈ past ++ [action] ↔ .cleanup userId s ∈ past := by
  cases action <;> first | exact h.elim | simp

/-! ## What a step does -/

/-- How a session changes without being registered or cleaned up: it leaves its loop only if the
client is gone or its sender was dropped. -/
structure Session.Advances (hasSender : Bool) (session session' : Session) : Prop where
  userId_eq : session'.userId = session.userId
  clientOpen : session'.clientOpen → session.clientOpen
  phase : session'.phase = session.phase ∨ session.phase = .receiving ∧ session'.phase = .left ∧
    (session'.clientOpen = false ∨ hasSender = false)

section Steps

variable {state state' : State} {action : Action} {session session' : Session} {hasSender : Bool}

theorem push_advances (session : Session) (event : WsEvent) :
    session.Advances hasSender (session.push event) := by
  unfold Session.push
  split <;> exact ⟨rfl, id, Or.inl rfl⟩

theorem recv_eq {received : Received} (h : recv hasSender session = some (received, session')) :
    session'.userId = session.userId ∧ session'.clientOpen = session.clientOpen ∧
      session'.phase = session.phase ∧ (received = .closed → hasSender = false) := by
  unfold recv at h
  split at h
  · simp only [Option.some.injEq, Prod.mk.injEq] at h
    obtain ⟨rfl, rfl⟩ := h
    simp
  · split at h
    · simp only [Option.some.injEq, Prod.mk.injEq] at h
      obtain ⟨rfl, rfl⟩ := h
      simp
    · split at h
      · simp at h
      · rename_i hdropped
        simp only [Option.some.injEq, Prod.mk.injEq] at h
        obtain ⟨rfl, rfl⟩ := h
        exact ⟨rfl, rfl, rfl, fun _ => Bool.eq_false_iff.mpr hdropped⟩

theorem iterate_advances {selected : Selected} (hphase : session.phase = .receiving)
    (h : iterate hasSender session selected = some session') :
    session.Advances hasSender session' := by
  have hleave : ∀ {session₁ : Session}, session₁.userId = session.userId →
      session₁.clientOpen = session.clientOpen → (session.clientOpen = false ∨ hasSender = false) →
      session.Advances hasSender { session₁ with phase := .left } := by
    intro session₁ huserId hclient hreason
    refine ⟨huserId, fun hopen => hclient ▸ hopen, Or.inr ⟨hphase, rfl, ?_⟩⟩
    exact hreason.imp (fun hclosed => hclient.trans hclosed) id
  -- the client sent a message, or an event was taken from the channel
  cases selected with
  | incoming message =>
      cases message with
      | other =>
          obtain rfl : session = session' := Option.some.inj h
          exact ⟨rfl, id, Or.inl rfl⟩
      | close | ended | failed =>
          simp only [iterate, Option.ite_none_left_eq_some, Option.some.injEq] at h
          obtain ⟨hclosed, rfl⟩ := h
          exact hleave rfl rfl (Or.inl (by simpa using hclosed))
  | event sent =>
      simp only [iterate] at h
      cases hrecv : recv hasSender session with
      | none => simp [hrecv] at h
      | some result =>
          obtain ⟨received, session₁⟩ := result
          obtain ⟨huserId, hclient, hphase₁, hsender⟩ := recv_eq hrecv
          have hstay : session.Advances hasSender session₁ :=
            ⟨huserId, fun hopen => hclient ▸ hopen, Or.inl hphase₁⟩
          cases received with
          | lagged =>
              simp only [hrecv, Option.some.injEq] at h
              exact h ▸ hstay
          -- the sender was dropped, since the entry belongs to another session
          | closed =>
              simp only [hrecv, Option.some.injEq] at h
              exact h ▸ hleave huserId hclient (Or.inr (hsender rfl))
          | event event =>
              simp only [hrecv] at h
              split at h
              · exact Option.some.inj h ▸ hstay
              · split at h
                · simp at h
                · rename_i hclosed
                  refine Option.some.inj h ▸ hleave huserId hclient (Or.inl ?_)
                  rw [← hclient]
                  simpa using hclosed

/-- All steps: a new connection, a registration, a cleanup, or progress of one session. -/
theorem step_cases (h : step state action = some state') :
    (∃ userId s, action = .connect userId s ∧ state.sessions s = none ∧
      state' = state.setSession s ⟨userId, .upgraded, true, [], 0⟩) ∨
    (∃ s session, action = .register session.userId s ∧ state.sessions s = some session ∧
      session.phase = .upgraded ∧
      state' = { state.setSession s { session with phase := .receiving } with
        channels := Function.update state.channels session.userId (some s) }) ∨
    (∃ s session, action = .cleanup session.userId s ∧ state.sessions s = some session ∧
      session.phase = .left ∧
      state' = { state.setSession s { session with phase := .done } with
        channels := Function.update state.channels session.userId none }) ∨
    (∃ s session session', action.Quiet ∧ state.sessions s = some session ∧
      session.Advances (state.hasSender s session) session' ∧
      state' = state.setSession s session') ∨
    (action.Quiet ∧ state' = state) := by
  cases action with
  | connect userId s =>
      simp only [step, Option.ite_none_right_eq_some, Option.some.injEq] at h
      obtain ⟨hnone, rfl⟩ := h
      exact Or.inl ⟨userId, s, rfl, hnone, rfl⟩
  | register userId s =>
      obtain ⟨session, hsession, h⟩ := Option.bind_eq_some_iff.mp h
      simp only [Option.ite_none_right_eq_some, Option.some.injEq] at h
      obtain ⟨⟨rfl, hphase⟩, rfl⟩ := h
      exact Or.inr (Or.inl ⟨s, session, rfl, hsession, hphase, rfl⟩)
  | cleanup userId s =>
      obtain ⟨session, hsession, h⟩ := Option.bind_eq_some_iff.mp h
      simp only [Option.ite_none_right_eq_some, Option.some.injEq] at h
      obtain ⟨⟨rfl, hphase⟩, rfl⟩ := h
      exact Or.inr (Or.inr (Or.inl ⟨s, session, rfl, hsession, hphase, rfl⟩))
  | clientClose s =>
      obtain ⟨session, hsession, h⟩ := Option.bind_eq_some_iff.mp h
      refine Or.inr (Or.inr (Or.inr (Or.inl ⟨s, session, _, trivial, hsession, ?_,
        (Option.some.inj h).symm⟩)))
      exact ⟨rfl, fun hopen => by simp at hopen, Or.inl rfl⟩
  | iterate s selected =>
      obtain ⟨session, hsession, h⟩ := Option.bind_eq_some_iff.mp h
      simp only [Option.ite_none_right_eq_some, Option.map_eq_some_iff] at h
      obtain ⟨hphase, session', hiterate, rfl⟩ := h
      exact Or.inr (Or.inr (Or.inr (Or.inl ⟨s, session, session', trivial, hsession,
        iterate_advances hphase hiterate, rfl⟩)))
  -- no entry, no session behind it, or an event for it
  | send userId event =>
      obtain rfl : (sendToUser userId event state).2 = state' := Option.some.inj h
      unfold sendToUser
      split
      · exact Or.inr (Or.inr (Or.inr (Or.inr ⟨trivial, rfl⟩)))
      · split
        · exact Or.inr (Or.inr (Or.inr (Or.inr ⟨trivial, rfl⟩)))
        · split
          · rename_i s _ _ session hsession _
            exact Or.inr (Or.inr (Or.inr (Or.inl ⟨s, session, session.push event, trivial, hsession,
              push_advances session event, rfl⟩)))
          · exact Or.inr (Or.inr (Or.inr (Or.inr ⟨trivial, rfl⟩)))

end Steps

/-! ## The invariant -/

/-- The state after a trace in which no cleanup has removed the entry of another session. -/
structure Inv (past : List Action) (state : State) : Prop where
  /-- the entry of a user is that of the newest session, until its cleanup -/
  channels : ∀ userId, state.channels userId =
    (lastRegistered userId past).filter fun n => .cleanup userId n ∉ past
  registered : ∀ {userId n}, lastRegistered userId past = some n →
    ∃ session, state.sessions n = some session ∧ session.userId = userId ∧
      session.phase ≠ .upgraded
  cleaned : ∀ {userId n}, .cleanup userId n ∈ past →
    ∃ session, state.sessions n = some session ∧ session.phase = .done
  /-- the newest session leaves its loop only if its client is gone -/
  ended : ∀ {n session}, state.sessions n = some session →
    session.phase = .left ∨ session.phase = .done →
    lastRegistered session.userId past = some n → session.clientOpen = false

section Preservation

variable {past : List Action} {state state' : State} {action : Action}

theorem sessions_setSession (state : State) (s : ℕ) (session : Session) (n : ℕ) :
    (state.setSession s session).sessions n = if n = s then some session else state.sessions n :=
  Function.update_apply ..

/-- A session that is the newest one and not cleaned up has the entry. -/
theorem Inv.channels_of_last (h : Inv past state) {userId : Uuid} {n : ℕ}
    (hlast : lastRegistered userId past = some n) (hclean : .cleanup userId n ∉ past) :
    state.channels userId = some n := by
  rw [h.channels, hlast]
  simp [hclean]

theorem Inv.not_cleaned (h : Inv past state) {n : ℕ} {session : Session}
    (hsession : state.sessions n = some session) (hphase : session.phase ≠ .done) (userId : Uuid) :
    .cleanup userId n ∉ past := by
  intro hclean
  obtain ⟨session', hsession', hdone⟩ := h.cleaned hclean
  obtain rfl := Option.some.inj (hsession.symm.trans hsession')
  exact hphase hdone

/-- The channel of a newest session that still receives is open. -/
theorem Inv.hasSender (h : Inv past state) {n : ℕ} {session : Session}
    (hsession : state.sessions n = some session) (hphase : session.phase = .receiving)
    (hlast : lastRegistered session.userId past = some n) : state.hasSender n session = true := by
  have hclean := h.not_cleaned hsession (by simp [hphase]) session.userId
  simp [State.hasSender, h.channels_of_last hlast hclean]

theorem Inv.connect (h : Inv past state) {userId : Uuid} {s : ℕ} (hnone : state.sessions s = none) :
    Inv (past ++ [.connect userId s]) (state.setSession s ⟨userId, .upgraded, true, [], 0⟩) := by
  have hquiet : (Action.connect userId s).Quiet := trivial
  have hold : ∀ {n : ℕ} {session : Session}, state.sessions n = some session →
      (state.setSession s ⟨userId, .upgraded, true, [], 0⟩).sessions n = some session := by
    intro n session hsession
    rw [sessions_setSession, if_neg, hsession]
    rintro rfl
    rw [hnone] at hsession
    exact nomatch hsession
  -- the new session is not registered yet, and the others are untouched
  refine ⟨fun userId' => ?_, fun hlast => ?_, fun hmem => ?_, fun hsession hphase hlast => ?_⟩
  · simp only [lastRegistered_quiet hquiet, cleanup_mem_quiet hquiet]
    exact h.channels userId'
  · rw [lastRegistered_quiet hquiet] at hlast
    obtain ⟨session, hsession, hrest⟩ := h.registered hlast
    exact ⟨session, hold hsession, hrest⟩
  · obtain ⟨session, hsession, hdone⟩ := h.cleaned ((cleanup_mem_quiet hquiet).mp hmem)
    exact ⟨session, hold hsession, hdone⟩
  · rw [lastRegistered_quiet hquiet] at hlast
    rw [sessions_setSession] at hsession
    split at hsession
    · obtain rfl := Option.some.inj hsession
      simp at hphase
    · exact h.ended hsession hphase hlast

theorem Inv.register (h : Inv past state) {s : ℕ} {session : Session}
    (hsession : state.sessions s = some session) (hphase : session.phase = .upgraded) :
    Inv (past ++ [.register session.userId s])
      { state.setSession s { session with phase := .receiving } with
        channels := Function.update state.channels session.userId (some s) } := by
  have hmem : ∀ {userId n}, .cleanup userId n ∈ past ++ [.register session.userId s] ↔
      .cleanup userId n ∈ past := by simp
  -- the session was neither registered nor cleaned up before
  have hfresh : ∀ {userId : Uuid} {n : ℕ}, .cleanup userId n ∈ past → n ≠ s := by
    rintro userId n hclean rfl
    exact h.not_cleaned hsession (by simp [hphase]) userId hclean
  have hlater : ∀ {userId : Uuid} {n : ℕ}, lastRegistered userId past = some n → n ≠ s := by
    rintro userId n hlast rfl
    obtain ⟨session', hsession', -, hne⟩ := h.registered hlast
    obtain rfl := Option.some.inj (hsession.symm.trans hsession')
    exact hne hphase
  have hlast : ∀ userId, lastRegistered userId (past ++ [.register session.userId s]) =
      if session.userId = userId then some s else lastRegistered userId past := by
    intro userId
    rw [lastRegistered_snoc, Action.registers?]
    split <;> simp
  refine ⟨fun userId => ?_, fun hlast' => ?_, fun hclean => ?_, fun hsession' hphase' hlast' => ?_⟩
  · simp only [hlast, hmem, Function.update_apply]
    by_cases huser : userId = session.userId
    · subst huser
      have hclean : .cleanup session.userId s ∉ past := fun hclean => hfresh hclean rfl
      simp [Option.filter, hclean]
    · rw [if_neg huser, if_neg (Ne.symm huser)]
      exact h.channels userId
  · rw [hlast] at hlast'
    split at hlast'
    · rename_i huser
      obtain rfl := Option.some.inj hlast'
      exact ⟨_, (sessions_setSession ..).trans (if_pos rfl), huser, by simp⟩
    · obtain ⟨session', hsession', hrest⟩ := h.registered hlast'
      exact ⟨session', ((sessions_setSession ..).trans (if_neg (hlater hlast'))).trans hsession',
        hrest⟩
  · obtain ⟨session', hsession', hdone⟩ := h.cleaned (hmem.mp hclean)
    exact ⟨session',
      ((sessions_setSession ..).trans (if_neg (hfresh (hmem.mp hclean)))).trans hsession',
      hdone⟩
  · rw [hlast] at hlast'
    replace hsession' := (sessions_setSession ..).symm.trans hsession'
    split at hsession'
    · obtain rfl := Option.some.inj hsession'
      simp at hphase'
    · rename_i n session' hn
      split at hlast'
      · exact absurd (Option.some.inj hlast').symm hn
      · exact h.ended hsession' hphase' hlast'

theorem Inv.cleanup (h : Inv past state) {s : ℕ} {session : Session}
    (hsession : state.sessions s = some session) (hphase : session.phase = .left)
    (hown : ∀ n, state.channels session.userId = some n → n = s) :
    Inv (past ++ [.cleanup session.userId s])
      { state.setSession s { session with phase := .done } with
        channels := Function.update state.channels session.userId none } := by
  have hlast : ∀ userId, lastRegistered userId (past ++ [.cleanup session.userId s]) =
      lastRegistered userId past := fun userId => lastRegistered_snoc ..
  have hmem : ∀ {userId n}, .cleanup userId n ∈ past ++ [.cleanup session.userId s] ↔
      .cleanup userId n ∈ past ∨ userId = session.userId ∧ n = s := by simp
  refine ⟨fun userId => ?_, fun hlast' => ?_, fun hclean => ?_, fun hsession' hphase' hlast' => ?_⟩
  · simp only [hlast, hmem, Function.update_apply]
    by_cases huser : userId = session.userId
    · subst huser
      rw [if_pos rfl, eq_comm, Option.filter_eq_none_iff]
      intro n hn
      -- an entry that is still there is the session's own
      have hcleaned : .cleanup session.userId n ∈ past ∨ n = s := by
        by_contra hcontra
        rw [not_or] at hcontra
        exact hcontra.2 (hown n (h.channels_of_last hn hcontra.1))
      simpa [or_iff_not_imp_left] using hcleaned
    · simp only [huser, if_false, false_and, or_false]
      exact h.channels userId
  · rw [hlast] at hlast'
    obtain ⟨session', hsession', huserId, hne⟩ := h.registered hlast'
    rename_i userId n
    by_cases hn : n = s
    · subst hn
      obtain rfl := Option.some.inj (hsession.symm.trans hsession')
      exact ⟨_, (sessions_setSession ..).trans (if_pos rfl), huserId, by simp⟩
    · exact ⟨session', ((sessions_setSession ..).trans (if_neg hn)).trans hsession', huserId, hne⟩
  · rename_i userId n
    by_cases hn : n = s
    · exact ⟨_, (sessions_setSession ..).trans (if_pos hn), rfl⟩
    · have hold : .cleanup userId n ∈ past := (hmem.mp hclean).resolve_right fun h => hn h.2
      obtain ⟨session', hsession', hdone⟩ := h.cleaned hold
      exact ⟨session', ((sessions_setSession ..).trans (if_neg hn)).trans hsession', hdone⟩
  · rw [hlast] at hlast'
    replace hsession' := (sessions_setSession ..).symm.trans hsession'
    split at hsession'
    · rename_i hn
      subst hn
      obtain rfl := Option.some.inj hsession'
      -- the session that is cleaned up has left its loop before
      have hgone : session.clientOpen = false := h.ended hsession (Or.inl hphase) hlast'
      exact hgone
    · exact h.ended hsession' hphase' hlast'

theorem Inv.advance (h : Inv past state) (hquiet : action.Quiet) {s : ℕ}
    {session session' : Session}
    (hsession : state.sessions s = some session)
    (hadvances : session.Advances (state.hasSender s session) session') :
    Inv (past ++ [action]) (state.setSession s session') := by
  refine ⟨fun userId => ?_, fun hlast => ?_, fun hclean => ?_, fun hn hphase hlast => ?_⟩
  · simp only [lastRegistered_quiet hquiet, cleanup_mem_quiet hquiet]
    exact h.channels userId
  · rw [lastRegistered_quiet hquiet] at hlast
    obtain ⟨session₁, hsession₁, huserId, hne⟩ := h.registered hlast
    rename_i userId n
    by_cases hn : n = s
    · subst hn
      obtain rfl := Option.some.inj (hsession.symm.trans hsession₁)
      refine ⟨session', (sessions_setSession ..).trans (if_pos rfl),
        hadvances.userId_eq.trans huserId, ?_⟩
      rcases hadvances.phase with hsame | ⟨-, hleft, -⟩
      · rwa [hsame]
      · rw [hleft]
        exact nofun
    · exact ⟨session₁, ((sessions_setSession ..).trans (if_neg hn)).trans hsession₁, huserId, hne⟩
  · obtain ⟨session₁, hsession₁, hdone⟩ := h.cleaned ((cleanup_mem_quiet hquiet).mp hclean)
    rename_i userId n
    by_cases hn : n = s
    · subst hn
      obtain rfl := Option.some.inj (hsession.symm.trans hsession₁)
      refine ⟨session', (sessions_setSession ..).trans (if_pos rfl), ?_⟩
      rcases hadvances.phase with hsame | ⟨hreceiving, -, -⟩
      · exact hsame.trans hdone
      · rw [hdone] at hreceiving
        exact nomatch hreceiving
    · exact ⟨session₁, ((sessions_setSession ..).trans (if_neg hn)).trans hsession₁, hdone⟩
  · rw [lastRegistered_quiet hquiet] at hlast
    rw [sessions_setSession] at hn
    split at hn
    · rename_i n session₁ heq
      subst heq
      obtain rfl := Option.some.inj hn
      rw [hadvances.userId_eq] at hlast
      -- a session that leaves its loop now has lost its client, for its channel is still open
      rcases hadvances.phase with hsame | ⟨hreceiving, -, hclosed | hdropped⟩
      · have hgone := h.ended hsession (hsame ▸ hphase) hlast
        exact Bool.eq_false_iff.mpr fun hopen => by simp [hadvances.clientOpen hopen] at hgone
      · exact hclosed
      · rw [h.hasSender hsession hreceiving hlast] at hdropped
        exact nomatch hdropped
    · exact h.ended hn hphase hlast

theorem Inv.step (h : Inv past state) (hstep : step state action = some state')
    (hown : ∀ userId s, action = .cleanup userId s → ∀ n, state.channels userId = some n → n = s) :
    Inv (past ++ [action]) state' := by
  rcases step_cases hstep with ⟨userId, s, rfl, hnone, rfl⟩ |
    ⟨s, session, rfl, hsession, hphase, rfl⟩ |
    ⟨s, session, rfl, hsession, hphase, rfl⟩ |
    ⟨s, session, session', hquiet, hsession, hadvances, rfl⟩ |
    ⟨hquiet, rfl⟩
  · exact h.connect hnone
  · exact h.register hsession hphase
  · exact h.cleanup hsession hphase (hown _ _ rfl)
  · exact h.advance hquiet hsession hadvances
  · refine ⟨fun userId => ?_, fun hlast => ?_, fun hclean => ?_, fun hsession hphase hlast => ?_⟩
    · simp only [lastRegistered_quiet hquiet, cleanup_mem_quiet hquiet]
      exact h.channels userId
    · exact h.registered (lastRegistered_quiet hquiet .. ▸ hlast)
    · exact h.cleaned ((cleanup_mem_quiet hquiet).mp hclean)
    · exact h.ended hsession hphase (lastRegistered_quiet hquiet .. ▸ hlast)

end Preservation

/-! ## Whole runs -/

/-- The runs of the server's WebSocket sessions. -/
abbrev Run (actions : List Action) (state : State) : Prop :=
  Trace step State.initial actions state

/-- A cleanup never removes the entry of another session. -/
def CleansOwn (actions : List Action) : Prop :=
  ∀ before state userId s, before ++ [.cleanup userId s] <+: actions → Run before state →
    ∀ n, state.channels userId = some n → n = s

/-- A session cleans up while it is the newest one of its user, or after the newest one has. -/
def CleansInTurn (actions : List Action) : Prop :=
  ∀ before userId s, before ++ [.cleanup userId s] <+: actions →
    ∀ n, lastRegistered userId before = some n → n = s ∨ .cleanup userId n ∈ before

/-- At every moment of the run the newest session of a user, while its client holds it open, is the
one that `send_to_user` reaches; no session unregisters another one; and a session whose channel
is closed has been replaced by a newer one. -/
structure NewestReached (actions : List Action) : Prop where
  mapped : ∀ before state, before <+: actions → Run before state →
    ∀ userId n session, lastRegistered userId before = some n → state.sessions n = some session →
      session.clientOpen → state.channels userId = some n ∧
        ∀ event, sendToUser userId event state = (true, state.setSession n (session.push event))
  unregistered : CleansOwn actions
  terminated : ∀ before state, before <+: actions → Run before state →
    ∀ n session session', state.sessions n = some session → session.phase = .receiving →
      recv (state.hasSender n session) session = some (.closed, session') →
      lastRegistered session.userId before ≠ some n

section Runs

variable {actions : List Action} {state : State}

theorem Inv.initial : Inv [] State.initial :=
  ⟨fun _ => rfl, nofun, nofun, nofun⟩

/-- The invariant holds as long as no cleanup removes the entry of another session. -/
theorem inv_of_run (hcleans : ∀ past state userId s, past ++ [.cleanup userId s] <+: actions →
      Run past state → Inv past state → ∀ n, state.channels userId = some n → n = s)
    {before : List Action} (hbefore : before <+: actions) (h : Run before state) :
    Inv before state := by
  refine Trace.invariant (fun before state => before <+: actions → Inv before state)
    (fun _ => Inv.initial) (fun past s action s' hpast hinv hstep hbegins => ?_) h hbefore
  have hpast' := hinv ((List.prefix_append past [action]).trans hbegins)
  refine hpast'.step hstep fun userId n haction => ?_
  subst haction
  exact hcleans past s userId n hbegins hpast hpast'

theorem CleansOwn.inv (hown : CleansOwn actions) {before : List Action}
    (hbefore : before <+: actions) (h : Run before state) : Inv before state :=
  inv_of_run (fun past state userId s hbegins hpast _ => hown past state userId s hbegins hpast)
    hbefore h

/-- A cleanup in turn finds no entry of another session. -/
theorem Inv.own (hinv : Inv actions state) {userId : Uuid} {s : ℕ}
    (hturn : ∀ n, lastRegistered userId actions = some n → n = s ∨ .cleanup userId n ∈ actions) :
    ∀ n, state.channels userId = some n → n = s := by
  intro n hn
  rw [hinv.channels, Option.filter_eq_some_iff] at hn
  have hclean : .cleanup userId n ∉ actions := by simpa using hn.2
  exact (hturn n hn.1).resolve_right hclean

theorem CleansInTurn.inv (hturn : CleansInTurn actions) {before : List Action}
    (hbefore : before <+: actions) (h : Run before state) : Inv before state :=
  inv_of_run (fun past _ userId s hbegins _ hinv => hinv.own (hturn past userId s hbegins))
    hbefore h

/-- Cleanups in turn remove no entry of another session. -/
theorem CleansInTurn.own (hturn : CleansInTurn actions) : CleansOwn actions := by
  intro before state userId s hcleanup hrun
  have hinv := hturn.inv ((List.prefix_append before _).trans hcleanup) hrun
  exact hinv.own (hturn before userId s hcleanup)

theorem CleansOwn.inTurn (hown : CleansOwn actions) (h : Run actions state) :
    CleansInTurn actions := by
  intro before userId s hcleanup n hlast
  have hbefore : before <+: actions := (List.prefix_append before _).trans hcleanup
  obtain ⟨state', hrun⟩ := h.of_prefix hbefore
  have hinv := hown.inv hbefore hrun
  by_cases hclean : .cleanup userId n ∈ before
  · exact Or.inr hclean
  · exact Or.inl (hown before state' userId s hcleanup hrun n (hinv.channels_of_last hlast hclean))

/-- The newest session, open on the client side, is still receiving. -/
theorem Inv.receiving (hinv : Inv actions state) {userId : Uuid} {n : ℕ} {session : Session}
    (hlast : lastRegistered userId actions = some n) (hsession : state.sessions n = some session)
    (hopen : session.clientOpen) : session.phase = .receiving ∧ state.channels userId = some n := by
  obtain ⟨session', hsession', huserId, hupgraded⟩ := hinv.registered hlast
  obtain rfl := Option.some.inj (hsession.symm.trans hsession')
  have hstays : ¬ (session.phase = .left ∨ session.phase = .done) := by
    intro hphase
    rw [hinv.ended hsession hphase (huserId ▸ hlast)] at hopen
    exact nomatch hopen
  rw [not_or] at hstays
  constructor
  · cases hphase : session.phase with
    | upgraded => exact absurd hphase hupgraded
    | receiving => rfl
    | left => exact absurd hphase hstays.1
    | done => exact absurd hphase hstays.2
  · exact hinv.channels_of_last hlast (hinv.not_cleaned hsession hstays.2 userId)

/-- **Newest session.**  In a run the newest session of every user stays registered and reachable
if and only if the sessions clean up in turn. -/
theorem newest_reached_iff (h : Run actions state) :
    NewestReached actions ↔ CleansInTurn actions := by
  constructor
  · intro hreached
    exact hreached.unregistered.inTurn h
  · intro hturn
    refine ⟨?_, hturn.own, ?_⟩
    · intro before state hbefore hrun userId n session hlast hsession hopen
      obtain ⟨hphase, hchannel⟩ := (hturn.inv hbefore hrun).receiving hlast hsession hopen
      refine ⟨hchannel, fun event => ?_⟩
      simp only [sendToUser, hchannel, hsession, hphase, if_true]
    · intro before state hbefore hrun n session session' hsession hphase hrecv hlast
      have hinv := hturn.inv hbefore hrun
      have hdropped : state.hasSender n session = false := (recv_eq hrecv).2.2.2 rfl
      rw [hinv.hasSender hsession hphase hlast] at hdropped
      exact nomatch hdropped

end Runs

/-- A user connects again while the first session is open. -/
def secondConnection : List Action :=
  [.connect 11 0, .register 11 0, .connect 11 1, .register 11 1]

theorem newest_reached_iff_second_connection : ∃ state, Run secondConnection state ∧
    (NewestReached secondConnection ↔ CleansInTurn secondConnection) := by
  have hrun : (secondConnection.foldlM step State.initial).isSome := by decide
  obtain ⟨state, hstate⟩ := Option.isSome_iff_exists.mp hrun
  exact ⟨state, hstate, newest_reached_iff hstate⟩

/-- The first session finds its channel closed and cleans up. -/
def supersededCleanup : List Action :=
  secondConnection ++ [.iterate 0 (.event true), .cleanup 11 0]

/-- The cleanup of the older session unregisters the newer one. -/
theorem newer_session_unregistered :
    ¬ ∀ (actions : List Action) (state : State), Run actions state → NewestReached actions := by
  intro hclaim
  have htest : (supersededCleanup.foldlM step State.initial).any (fun state =>
      state.channels 11 = none ∧ (state.sessions 1).any (·.clientOpen)) := by decide
  obtain ⟨state, hrun, hstate⟩ := (Option.any_eq_true _ _).mp htest
  simp only [decide_eq_true_eq] at hstate
  obtain ⟨hnone, hopen⟩ := hstate
  obtain ⟨session, hsession, hopen⟩ := (Option.any_eq_true _ _).mp hopen
  obtain ⟨hchannel, -⟩ := (hclaim supersededCleanup state hrun).mapped supersededCleanup state
    List.prefix_rfl hrun 11 1 session (by decide) hsession hopen
  rw [hnone] at hchannel
  exact nomatch hchannel

end PactumCodex.Ws
