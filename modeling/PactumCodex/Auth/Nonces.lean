import Mathlib.Tactic.Linarith
import PactumCodex.Auth.Replay
import PactumCodex.Auth.Steps

/-!
# Nonces are used once

A nonce that `verify` or `link_wallet` accepts was stored by `challenge`, and nobody
has consumed it before, whatever other requests and the keeper do at the same
time.  Its age counts from the stored time of insertion, which is rounded to whole
seconds: it is less than 300 seconds then, and less than 300.5 seconds on the
database clock, but it can be more than 300 (`nonce_accepted_late`).

The texts of the generated ids are the keys of a one-time store, as in
`OneTime`: generating an id draws a key, `challenge` puts it, the `DELETE …
RETURNING` of step 1 takes it, and the cleanup discards keys.

From the store it follows that a nonce is consumed at most once and that it was
put before.  Who has put it and when is read from the table: every row was inserted
by a `challenge` at the time that it shows, rounded (`nonces_challenged`), and the
consumption compares this time with its own.  A request that returns tokens has
consumed the nonce in a step of its own (`presented_of_nonce`).
-/

namespace PactumCodex

open Interaction Relational

theorem Uuid.toText_injective : Function.Injective Uuid.toText := by
  intro id id' h
  have hparse := Uuid.parseStr_toText id
  rw [h, Uuid.parseStr_toText] at hparse
  exact (Option.some.inj hparse).symm

/-! ## The store of nonces -/

section Store

/-- The texts of the ids generated so far. -/
def usedNonces (w : AuthWorld) : Set String := Uuid.toText '' {id | id ∈ w.uuids}

/-- The nonces in the table. -/
def storedNonces (w : AuthWorld) : Set String := keysOf SiwsNonce.nonce w.db.nonces.rows

/-- The nonce a program may store. -/
def heldNonce (phase : AuthPhase) : Option String := phase.uuid.map Uuid.toText

/-- What a step does to nonces. -/
def nonceAction (i : ℕ) : AuthStep → OneTime.Action String
  | ⟨_, .newUuid, id, _⟩ => .draw i id.toText
  | ⟨_, .sql (.insertNonce nonce _), .ok _, _⟩ => .put i nonce
  | ⟨_, .sql (.consumeNonce nonce _), .ok (some _), _⟩ => .take i nonce
  | ⟨w, .sql (.deleteNoncesBefore threshold), .ok _, _⟩ =>
      .discard {nonce |
        ∃ row ∈ w.db.nonces.rows, row.nonce = nonce ∧ (row.createdAt < threshold : Bool)}
  | _ => .idle

theorem usedNonces_mono {op : AuthOp} {answer : op.Ans} {w w' : AuthWorld}
    (h : AuthEffect op answer w w') : usedNonces w ⊆ usedNonces w' :=
  Set.image_mono fun _ hid => h.uuids hid

theorem storedNonces_after {op : AuthOp} {answer : op.Ans} {w w' : AuthWorld}
    (h : AuthEffect op answer w w') :
    storedNonces w' = keysOf SiwsNonce.nonce (noncesAfter op answer w.db.nonces.rows) := by
  rw [storedNonces, h.nonces]

/-- Every allowed step uses nonces as keys of a one-time store. -/
theorem nonceAction_acts {env : Env} {i : ℕ} {step : AuthStep} {phases : ℕ → AuthPhase}
    (hvalid : step.Valid performAuth) (hallowed : (phases i).Allows env step.op) :
    OneTime.Acts ⟨usedNonces step.pre, fun j => heldNonce (phases j), storedNonces step.pre⟩
      (nonceAction i step)
      ⟨usedNonces step.post, Function.update (fun j => heldNonce (phases j)) i
        (heldNonce ((phases i).next step.op step.ans)), storedNonces step.post⟩ := by
  obtain ⟨w, op, answer, w'⟩ := step
  have heffect := authEffect_of_valid hvalid
  have hused := usedNonces_mono heffect
  have hstored := storedNonces_after heffect
  have hnodup := w.db.nonces.valid
  cases op with
  | sql s =>
      cases answer with
      | error e => cases s <;> exact OneTime.acts_idle hused rfl hstored
      | ok out =>
          cases s with
          | insertNonce nonce now =>
              obtain ⟨-, -, id, hid, rfl⟩ := hallowed
              refine OneTime.acts_put ?_ hused rfl (hstored.trans keysOf_append_singleton)
              rw [heldNonce, hid]
              rfl
          | consumeNonce nonce now =>
              cases out with
              | none =>
                  -- no row matched
                  refine OneTime.acts_idle hused rfl (hstored.trans (congrArg _ ?_))
                  exact deleteWhere_eq_self (consumeNonce_none hvalid)
              | some consumed =>
                  obtain ⟨row, hrow, hconsumed⟩ := consumeNonce_some hvalid
                  have hkey : ∀ row : SiwsNonce, row.consumed nonce now = true →
                    row.nonce = nonce :=
                    fun row h => (SiwsNonce.consumed_iff.mp h).1
                  refine OneTime.acts_take ⟨row, hrow, hkey row hconsumed⟩ hused rfl
                    (hstored.trans ?_)
                  exact keysOf_deleteWhere_key hnodup hkey ⟨row, hrow, hconsumed⟩
          | deleteNoncesBefore threshold =>
              exact OneTime.acts_discard hused rfl (hstored.trans (keysOf_deleteWhere hnodup _))
          | userOfWallet _ | walletOfUser _ | consumeToken _ _ =>
              cases out <;> exact OneTime.acts_idle hused rfl hstored
          | _ => exact OneTime.acts_idle hused rfl hstored
  | newUuid =>
      obtain ⟨hfresh, huuids⟩ := newUuid_fresh hvalid
      refine OneTime.acts_draw ?_ ?_ hused rfl hstored
      · rintro ⟨id, hid, htext⟩
        rw [Uuid.toText_injective htext] at hid
        exact hfresh hid
      · exact ⟨answer, by rw [Set.mem_ofPred_eq, huuids]; exact List.mem_cons_self, rfl⟩
  | _ => exact OneTime.acts_idle hused rfl hstored

variable {env : Env} {w : AuthWorld} {events : List AuthEvent}
variable {pool : Pool AuthOp AuthOp.Ans AuthWorld}

/-- A history uses nonces as keys of a one-time store. -/
theorem nonceRun (h : AuthHistory env ⟨w, []⟩ events pool) :
    OneTime.Run (OneTime.stateOf usedNonces storedNonces heldNonce (fun _ => AuthPhase.start) w)
      (events.map (OneTime.actionOf nonceAction))
      (OneTime.stateOf usedNonces storedNonces heldNonce (fun i => authPhase i events)
        pool.world) :=
  OneTime.run_of_history (fun _ => trivial) (fun _ hp => hp.conforms) (fun _ _ => True)
    (fun _ _ _ _ hvalid hallowed _ => nonceAction_acts hvalid hallowed) h fun _ _ _ _ => trivial

theorem blank_nonces (hempty : w.db.nonces.rows = []) :
    (OneTime.stateOf usedNonces storedNonces heldNonce (fun _ => AuthPhase.start) w).Blank := by
  refine ⟨fun _ => rfl, Set.eq_empty_of_forall_notMem ?_⟩
  rintro nonce ⟨row, hrow, -⟩
  rw [hempty] at hrow
  cases hrow

end Store

/-! ## Consumptions -/

/-- A consumption of the nonce. -/
def consumes (nonce : String) : AuthEvent → Bool
  | .ran _ ⟨_, .sql (.consumeNonce consumed _), .ok (some _), _⟩ => consumed = nonce
  | _ => false

theorem consumes_iff {nonce : String} {event : AuthEvent} :
    consumes nonce event = true ↔ ∃ i, OneTime.actionOf nonceAction event = .take i nonce := by
  constructor
  · intro h
    unfold consumes at h
    split at h
    · rename_i i _ consumed _ _ _
      exact ⟨i, by rw [← of_decide_eq_true h]; rfl⟩
    · cases h
  · rintro ⟨i, haction⟩
    cases event with
    | stopped j => cases haction
    | ran j step =>
        rw [OneTime.actionOf] at haction
        unfold nonceAction at haction
        split at haction <;> cases haction
        exact decide_eq_true rfl

section Consumptions

variable {env : Env} {w : AuthWorld} {events before after : List AuthEvent}
variable {pool : Pool AuthOp AuthOp.Ans AuthWorld} {nonce : String}

/-- After a consumption of a nonce there is no other one. -/
theorem not_consumed_again {event : AuthEvent}
    (h : AuthHistory env ⟨w, []⟩ (before ++ event :: after) pool) (hempty : w.db.nonces.rows = [])
    (hconsumes : consumes nonce event = true) : ∀ later ∈ after, consumes nonce later = false := by
  intro later hlater
  obtain ⟨i, haction⟩ := consumes_iff.mp hconsumes
  have hrun := nonceRun h
  rw [List.map_append, List.map_cons, haction] at hrun
  have honce := (OneTime.taken_once (blank_nonces hempty) hrun).2
  rw [← Bool.not_eq_true]
  intro hagain
  obtain ⟨j, hj⟩ := consumes_iff.mp hagain
  exact honce j (hj ▸ List.mem_map_of_mem hlater)

/-- Nothing consumes a nonce before its consumption. -/
theorem not_consumed_before {event : AuthEvent}
    (h : AuthHistory env ⟨w, []⟩ (before ++ event :: after) pool) (hempty : w.db.nonces.rows = [])
    (hconsumes : consumes nonce event = true) :
    ∀ earlier ∈ before, consumes nonce earlier = false := by
  intro earlier hearlier
  obtain ⟨past, between, rfl⟩ := List.append_of_mem hearlier
  rw [← Bool.not_eq_true]
  intro hagain
  rw [List.append_assoc, List.cons_append] at h
  have hlater := not_consumed_again h hempty hagain event (by simp)
  rw [hconsumes] at hlater
  cases hlater

/-- At most one request consumes a nonce. -/
theorem countP_consumes_le (h : AuthHistory env ⟨w, []⟩ events pool)
    (hempty : w.db.nonces.rows = [])
    (nonce : String) : events.countP (consumes nonce) ≤ 1 := by
  refine countP_le_one fun before event after heq hconsumes => ?_
  subst heq
  exact not_consumed_again h hempty hconsumes

/-- The program consumes the nonce at the given time of the database clock. -/
def ConsumesAt (i : ℕ) (nonce : String) (now : ℚ) (past : List AuthEvent)
    (event : AuthEvent) : Prop :=
  (∃ v out v', event = .ran i ⟨v, .sql (.consumeNonce nonce now), .ok (some out), v'⟩) ∧
    ∃ v v', .ran i ⟨v, .dbNow, now, v'⟩ ∈ past

/-- A `challenge` inserts the nonce at the given time of the database clock. -/
def ChallengedAt (nonce : String) (created : ℚ) (past : List AuthEvent)
    (event : AuthEvent) : Prop :=
  ∃ j, (authPhase j past).request = some .challenge ∧
    (∃ v v', event = .ran j ⟨v, .sql (.insertNonce nonce created), .ok (), v'⟩) ∧
    ∃ v v', .ran j ⟨v, .dbNow, created, v'⟩ ∈ past

/-- The program has consumed the nonce, which nobody had consumed before and which a `challenge` had
inserted when it was still fresh; `fresh created now` compares readings of the database clock. -/
def Presented (fresh : ℚ → ℚ → Prop) (i : ℕ) (nonce : String) (events : List AuthEvent) : Prop :=
  Occurs (fun past event => ∃ now, ConsumesAt i nonce now past event ∧
    (∀ earlier ∈ past, consumes nonce earlier = false) ∧
    Occurs (fun before insertion => ∃ created, ChallengedAt nonce created before insertion ∧
      fresh created now) past) events

/-- Less than the given time has passed on the database clock. -/
def Within (seconds created now : ℚ) : Prop := now - created < seconds

/-- Less than 300 seconds have passed since the stored time. -/
def FreshAsStored (created now : ℚ) : Prop := now - wholeSeconds created < 300

/-- Rounding makes a nonce younger by half a second at most. -/
theorem FreshAsStored.within {created now : ℚ} (h : FreshAsStored created now) :
    Within (300 + 1 / 2) created now := by
  have hrounded : (wholeSeconds created : ℚ) ≤ created + 1 / 2 := round_le_add_half created
  calc now - created ≤ now - wholeSeconds created + 1 / 2 := by linarith
    _ < 300 + 1 / 2 := add_lt_add_left h (1 / 2)

/-- At most one request consumes a nonce, and a `verify` or `link_wallet` that returns tokens
presented a nonce that was fresh, with a valid signature. -/
structure NoncesGuarded (env : Env) (fresh : ℚ → ℚ → Prop) (events : List AuthEvent) : Prop where
  once : ∀ nonce, events.countP (consumes nonce) ≤ 1
  presented : ∀ i v request response v' before after,
    events = before ++ .ran i ⟨v, .respond request (.ok (.tokens response)), (), v'⟩ :: after →
    ∀ body, request.siws = some body →
      body.signed env = true ∧ Presented fresh i body.nonce before

/-- Every row of the table was inserted by a `challenge`, at the time that it shows rounded. -/
theorem nonces_challenged (h : AuthHistory env ⟨w, []⟩ events pool)
    (hempty : w.db.nonces.rows = []) :
    ∀ row ∈ pool.world.db.nonces.rows, Occurs (fun past event => ∃ created,
      row.createdAt = wholeSeconds created ∧ ChallengedAt row.nonce created past event) events := by
  refine rows_inserted (fun w => w.db.nonces.rows) (fun row past event => ∃ created,
    row.createdAt = wholeSeconds created ∧ ChallengedAt row.nonce created past event) ?_ h hempty
  rintro past i ⟨v, op, answer, v'⟩ hvalid hallowed row hrow
  rcases nonce_of_step (authEffect_of_valid hvalid) hrow with hold | ⟨created, hstored, hnew⟩
  · exact Or.inl hold
  · right
    rw [hnew] at hallowed ⊢
    obtain ⟨hrequest, hreading, -⟩ := hallowed
    exact ⟨created, hstored, i, hrequest, ⟨v, v', rfl⟩, reading_was_read hreading⟩

/-- What a program has as its nonce, it has presented. -/
theorem presented_of_nonce {i : ℕ} (h : AuthHistory env ⟨w, []⟩ (before ++ after) pool)
    (hempty : w.db.nonces.rows = []) (hnonce : (authPhase i before).nonce = some nonce) :
    Presented FreshAsStored i nonce before := by
  obtain ⟨past, event, rest, rfl, v, now, out, v', rfl⟩ := nonce_was_consumed hnonce
  rw [List.append_assoc, List.cons_append] at h
  refine ⟨past, _, rest, rfl, now, ⟨⟨v, out, v', rfl⟩, ?_⟩, ?_, ?_⟩
  · obtain ⟨hreading, -⟩ := authHistory_allowed h rfl
    exact reading_was_read hreading
  · exact not_consumed_before h hempty (decide_eq_true rfl)
  · obtain ⟨hvalid, threads, hpast⟩ := h.at_step
    obtain ⟨row, hrow, hconsumed⟩ := consumeNonce_some hvalid
    obtain ⟨rfl, hage⟩ := SiwsNonce.consumed_iff.mp hconsumed
    refine (nonces_challenged hpast hempty row hrow).mono ?_
    rintro before insertion ⟨created, hstored, hinsertion⟩
    rw [hstored] at hage
    exact ⟨created, hinsertion, sub_lt_comm.mp hage⟩

theorem Presented.mono {fresh fresh' : ℚ → ℚ → Prop} {i : ℕ} (h : Presented fresh i nonce events)
    (himp : ∀ created now, fresh created now → fresh' created now) :
    Presented fresh' i nonce events := by
  refine Occurs.mono h ?_
  rintro past event ⟨now, hconsumes, hfirst, hinserted⟩
  refine ⟨now, hconsumes, hfirst, hinserted.mono ?_⟩
  rintro before insertion ⟨created, hchallenged, hfresh⟩
  exact ⟨created, hchallenged, himp created now hfresh⟩

/-- **No replay.**  In every history that starts without nonces, at most one request consumes a
nonce, and a `verify` or `link_wallet` that returns tokens presented a nonce with a valid signature,
less than 300 seconds after its stored time and less than 300.5 seconds after its insertion. -/
theorem nonce_used_once (h : AuthHistory env ⟨w, []⟩ events pool) (hempty : w.db.nonces.rows = []) :
    NoncesGuarded env (fun created now => FreshAsStored created now ∧
      Within (300 + 1 / 2) created now) events := by
  refine ⟨countP_consumes_le h hempty, ?_⟩
  intro i v request response v' before after hevents body hbody
  obtain ⟨-, hearned⟩ := authHistory_allowed h hevents
  obtain ⟨-, hnonce, hsigned⟩ := (AuthPhase.earned_iff_presents hbody).mp (hearned response rfl)
  subst hevents
  have hpresented := presented_of_nonce h hempty hnonce
  exact ⟨hsigned, hpresented.mono fun _ _ hfresh => ⟨hfresh, hfresh.within⟩⟩

end Consumptions

/-- A challenge, and two requests that present the same signed nonce. -/
def racingLogins : List AuthRequest := [.challenge, .verify firstLogin, .verify firstLogin]

/-- The first request reads the clock before the second one consumes the nonce. -/
def racingTurns : List AuthTurn :=
  [⟨0, 5, 0, 0⟩, ⟨1, 2, 1, 1⟩, ⟨2, 13, 1, 1⟩, ⟨1, 2, 1, 1⟩]

/-- One of them gets tokens. -/
theorem nonce_used_once_racing : ∃ events pool,
    AuthHistory sampleEnv ⟨AuthWorld.ofDb AuthDb.empty, []⟩ events pool ∧
    events.countP (tokensFor (.verify firstLogin)) = 1 ∧
    NoncesGuarded sampleEnv (fun created now => FreshAsStored created now ∧
      Within (300 + 1 / 2) created now) events := by
  obtain ⟨events, pool, hhistory, htest⟩ := authHistory_of_turns sampleEnv
    (racingLogins.map (serve sampleEnv)) racingTurns
    (fun events _ => events.countP (tokensFor (.verify firstLogin)) = 1)
    (fun p hp => by
      obtain ⟨request, -, rfl⟩ := List.mem_map.mp hp
      exact .serve request)
    (by decide +kernel)
  exact ⟨events, pool, hhistory, of_decide_eq_true htest, nonce_used_once hhistory rfl⟩

/-! ## A late acceptance -/

/-- Nonces are stored at half past 1000 seconds and consumed 300.4 seconds later. -/
def isLate : AuthEvent → Bool
  | .ran _ ⟨_, .sql (.insertNonce _ now), _, _⟩ => now = 2001 / 2
  | .ran _ ⟨_, .sql (.consumeNonce _ now), _, _⟩ => now = 13009 / 10
  | _ => true

theorem not_presented_of_late {events : List AuthEvent} (h : events.all isLate = true) {i : ℕ}
    {nonce : String} : ¬ Presented (Within 300) i nonce events := by
  rintro ⟨past, event, rest, rfl, now, ⟨⟨v, out, v', rfl⟩, -⟩, -, before, insertion, between, rfl,
    created, ⟨j, -, ⟨u, u', rfl⟩, -⟩, hage⟩
  simp only [List.all_append, List.all_cons, Bool.and_eq_true] at h
  have hnow : now = 13009 / 10 := of_decide_eq_true h.2.1
  have hcreated : created = 2001 / 2 := of_decide_eq_true h.1.2.1
  rw [Within, hnow, hcreated] at hage
  norm_num at hage

/-- A tokens answer is somewhere in the history. -/
theorem exists_respond_of_tokensFor {request : AuthRequest} {events : List AuthEvent}
    (h : events.any (tokensFor request) = true) : ∃ i v response v' before after,
      events = before ++
        .ran i ⟨v, .respond request (.ok (.tokens response)), (), v'⟩ :: after := by
  obtain ⟨event, hmem, htokens⟩ := List.any_eq_true.mp h
  obtain ⟨before, after, rfl⟩ := List.append_of_mem hmem
  unfold tokensFor at htokens
  split at htokens
  · rename_i i v answered response answer v'
    obtain rfl := of_decide_eq_true htokens
    exact ⟨i, v, response, v', before, after, rfl⟩
  · cases htokens

/-- The stored time is 1001, so a nonce inserted at 1000.5 is accepted at 1300.9. -/
theorem nonce_accepted_late : ∃ events pool,
    AuthHistory sampleEnv ⟨AuthWorld.ofDb AuthDb.empty, []⟩ events pool ∧
    ¬ NoncesGuarded sampleEnv (Within 300) events := by
  obtain ⟨events, pool, hhistory, htest⟩ := authHistory_of_turns sampleEnv
    ([.challenge, .verify firstLogin].map (serve sampleEnv))
    [⟨0, 5, 2001 / 2, 1000⟩, ⟨1, 13, 13009 / 10, 1300⟩]
    (fun events _ => events.any (tokensFor (.verify firstLogin)) ∧ events.all isLate)
    (fun p hp => by
      obtain ⟨request, -, rfl⟩ := List.mem_map.mp hp
      exact .serve request)
    (by decide +kernel)
  obtain ⟨htokens, hlate⟩ := of_decide_eq_true htest
  obtain ⟨i, v, response, v', before, after, rfl⟩ := exists_respond_of_tokensFor htokens
  refine ⟨_, pool, hhistory, fun hguarded => ?_⟩
  obtain ⟨-, hpresented⟩ := hguarded.presented i v _ response v' before after rfl firstLogin rfl
  rw [List.all_append, Bool.and_eq_true] at hlate
  exact not_presented_of_late hlate.1 hpresented

end PactumCodex
