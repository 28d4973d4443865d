import PactumCodex.Auth.Replay
import PactumCodex.Auth.Steps

/-!
# Refresh tokens are exchanged once

A refresh token is stored once, as the hash of a value that nobody else has
generated, and it is exchanged at most once, before it expires and not after a
logout has deleted it, whatever other requests and the keeper do at the same
time.

The hashes are the keys of a one-time store, as in `OneTime`: generating a token
draws a key, `issue_and_store_refresh_token` puts it, the `DELETE … RETURNING` of
`refresh` takes it, and logouts and the cleanup discard keys.  That a drawn hash
is new rests on `sha256Hex` being injective on the tokens generated
(`HashesApart`).
-/

namespace PactumCodex

open Interaction Relational

/-! ## The store of tokens -/

section Store

/-- The raw tokens generated so far. -/
def rawTokenSet (w : AuthWorld) : Set String := {raw | raw ∈ w.rawTokens}

/-- The hash is injective on the raw tokens generated so far. -/
def HashesApart (env : Env) (w : AuthWorld) : Prop :=
  Set.InjOn env.crates.sha256Hex (rawTokenSet w)

/-- The hashes of the tokens generated so far. -/
def usedTokens (env : Env) (w : AuthWorld) : Set String := env.crates.sha256Hex '' rawTokenSet w

/-- The hashes in the table. -/
def storedTokens (w : AuthWorld) : Set String := keysOf RefreshToken.tokenHash w.db.tokens.rows

/-- The hash a program may store. -/
def heldToken (env : Env) (phase : AuthPhase) : Option String :=
  phase.rawToken.map env.crates.sha256Hex

/-- What a step does to hashes. -/
def tokenAction (env : Env) (i : ℕ) : AuthStep → OneTime.Action String
  | ⟨_, .newToken, raw, _⟩ => .draw i (env.crates.sha256Hex raw)
  | ⟨_, .sql (.insertToken _ tokenHash _ _), .ok _, _⟩ => .put i tokenHash
  | ⟨_, .sql (.consumeToken tokenHash _), .ok (some _), _⟩ => .take i tokenHash
  | ⟨_, .sql (.deleteToken tokenHash), .ok _, _⟩ => .discard {tokenHash}
  | ⟨w, .sql (.deleteTokensBefore threshold), .ok _, _⟩ =>
      .discard {tokenHash | ∃ row ∈ w.db.tokens.rows,
        row.tokenHash = tokenHash ∧ (row.expiresAt < threshold : Bool)}
  | _ => .idle

theorem rawTokenSet_mono {op : AuthOp} {answer : op.Ans} {w w' : AuthWorld}
    (h : AuthEffect op answer w w') : rawTokenSet w ⊆ rawTokenSet w' := by
  intro raw hraw
  rw [rawTokenSet, Set.mem_ofPred_eq, h.rawTokens]
  cases op with
  | newToken => exact List.mem_cons_of_mem _ hraw
  | _ => exact hraw

theorem storedTokens_after {op : AuthOp} {answer : op.Ans} {w w' : AuthWorld}
    (h : AuthEffect op answer w w') :
    storedTokens w' = keysOf RefreshToken.tokenHash (tokensAfter op answer w.db.tokens.rows) := by
  rw [storedTokens, h.tokens]

/-- The hash of a new token is new. -/
theorem newToken_hash_fresh {env : Env} {raw : String} {w w' : AuthWorld}
    (h : performAuth .newToken raw w = some w') (hapart : HashesApart env w') :
    env.crates.sha256Hex raw ∉ usedTokens env w ∧ env.crates.sha256Hex raw ∈ usedTokens env w' := by
  have heffect := authEffect_of_valid h
  have hraw : raw ∈ rawTokenSet w' := by
    rw [rawTokenSet, Set.mem_ofPred_eq, heffect.rawTokens]
    exact List.mem_cons_self
  refine ⟨?_, raw, hraw, rfl⟩
  rintro ⟨old, hold, heq⟩
  obtain rfl := hapart (rawTokenSet_mono heffect hold) hraw heq
  exact newToken_fresh h hold

/-- Every allowed step uses hashes as keys of a one-time store. -/
theorem tokenAction_acts {env : Env} {i : ℕ} {step : AuthStep} {phases : ℕ → AuthPhase}
    (hvalid : step.Valid performAuth) (hallowed : (phases i).Allows env step.op)
    (hapart : HashesApart env step.post) :
    OneTime.Acts ⟨usedTokens env step.pre, fun j => heldToken env (phases j), storedTokens step.pre⟩
      (tokenAction env i step)
      ⟨usedTokens env step.post, Function.update (fun j => heldToken env (phases j)) i
        (heldToken env ((phases i).next step.op step.ans)), storedTokens step.post⟩ := by
  obtain ⟨w, op, answer, w'⟩ := step
  have heffect := authEffect_of_valid hvalid
  have hused : usedTokens env w ⊆ usedTokens env w' := Set.image_mono (rawTokenSet_mono heffect)
  have hstored := storedTokens_after heffect
  have hnodup := w.db.tokens.valid
  cases op with
  | sql s =>
      cases answer with
      | error e => cases s <;> exact OneTime.acts_idle hused rfl hstored
      | ok out =>
          cases s with
          | insertToken userId tokenHash expiresAt createdAt =>
              obtain ⟨-, raw, hraw, rfl⟩ := hallowed
              refine OneTime.acts_put ?_ hused rfl (hstored.trans keysOf_append_singleton)
              rw [heldToken, hraw]
              rfl
          | consumeToken tokenHash now =>
              cases out with
              | none =>
                  -- no row matched
                  refine OneTime.acts_idle hused rfl (hstored.trans (congrArg _ ?_))
                  exact deleteWhere_eq_self (consumeToken_none hvalid)
              | some userId =>
                  obtain ⟨row, hrow, hconsumed, -⟩ := consumeToken_some hvalid
                  have hkey : ∀ row : RefreshToken, row.consumed tokenHash now = true →
                      row.tokenHash = tokenHash :=
                    fun row h => (RefreshToken.consumed_iff.mp h).1
                  refine OneTime.acts_take ⟨row, hrow, hkey row hconsumed⟩ hused rfl
                    (hstored.trans ?_)
                  exact keysOf_deleteWhere_key hnodup hkey ⟨row, hrow, hconsumed⟩
          | deleteToken tokenHash =>
              exact OneTime.acts_discard hused rfl (hstored.trans keysOf_deleteWhere_eq)
          | deleteTokensBefore threshold =>
              exact OneTime.acts_discard hused rfl (hstored.trans (keysOf_deleteWhere hnodup _))
          | userOfWallet _ | walletOfUser _ | consumeNonce _ _ =>
              cases out <;> exact OneTime.acts_idle hused rfl hstored
          | _ => exact OneTime.acts_idle hused rfl hstored
  | newToken =>
      obtain ⟨hfresh, hmem⟩ := newToken_hash_fresh hvalid hapart
      exact OneTime.acts_draw hfresh hmem hused rfl hstored
  | _ => exact OneTime.acts_idle hused rfl hstored

variable {env : Env} {w : AuthWorld} {events before after : List AuthEvent}
variable {pool : Pool AuthOp AuthOp.Ans AuthWorld}

/-- The hash was injective at every earlier time, too. -/
theorem HashesApart.earlier (h : AuthHistory env ⟨w, []⟩ (before ++ after) pool)
    (hapart : HashesApart env pool.world) : HashesApart env (worldAfter w before) :=
  hapart.mono (h.monotone rawTokenSet fun _ hvalid => rawTokenSet_mono (authEffect_of_valid hvalid))

/-- A history uses hashes as keys of a one-time store. -/
theorem tokenRun (h : AuthHistory env ⟨w, []⟩ events pool) (hapart : HashesApart env pool.world) :
    OneTime.Run (OneTime.stateOf (usedTokens env) storedTokens (heldToken env)
        (fun _ => AuthPhase.start) w)
      (events.map (OneTime.actionOf (tokenAction env)))
      (OneTime.stateOf (usedTokens env) storedTokens (heldToken env)
        (fun i => authPhase i events) pool.world) := by
  refine OneTime.run_of_history (fun _ => trivial) (fun _ hp => hp.conforms)
    (fun past event => HashesApart env (event.world (worldAfter w past)))
    (fun _ _ _ _ hvalid hallowed hhere => tokenAction_acts hvalid hallowed hhere) h ?_
  rintro past event rest rfl
  rw [List.append_cons] at h
  rw [← worldAfter_snoc]
  exact hapart.earlier h

theorem blank_tokens (hempty : w.db.tokens.rows = []) :
    (OneTime.stateOf (usedTokens env) storedTokens (heldToken env)
      (fun _ => AuthPhase.start) w).Blank := by
  refine ⟨fun _ => rfl, Set.eq_empty_of_forall_notMem ?_⟩
  rintro tokenHash ⟨row, hrow, -⟩
  rw [hempty] at hrow
  cases hrow

end Store

/-! ## Exchanges -/

/-- The program exchanges the token; `now` is the time of the database clock. -/
def ExchangesAt (i : ℕ) (tokenHash : String) (now : ℚ) (event : AuthEvent) : Prop :=
  ∃ v userId v', event = .ran i ⟨v, .sql (.consumeToken tokenHash now), .ok (some userId), v'⟩

/-- The program stores the token. -/
def StoresUntil (i : ℕ) (tokenHash : String) (expiresAt : ℤ) (event : AuthEvent) : Prop :=
  ∃ v userId createdAt v',
    event = .ran i ⟨v, .sql (.insertToken userId tokenHash expiresAt createdAt), .ok (), v'⟩

/-- A logout of the token commits. -/
def LogsOut (tokenHash : String) (event : AuthEvent) : Prop :=
  ∃ i v v', event = .ran i ⟨v, .sql (.deleteToken tokenHash), .ok (), v'⟩

/-- An exchange of the token. -/
def exchanges (tokenHash : String) : AuthEvent → Bool
  | .ran _ ⟨_, .sql (.consumeToken exchanged _), .ok (some _), _⟩ => exchanged = tokenHash
  | _ => false

/-- An insertion of the token. -/
def stores (tokenHash : String) : AuthEvent → Bool
  | .ran _ ⟨_, .sql (.insertToken _ stored _ _), .ok _, _⟩ => stored = tokenHash
  | _ => false

section Events

variable {env : Env} {tokenHash : String} {event : AuthEvent} {i : ℕ}

theorem exchanges_iff :
    exchanges tokenHash event = true ↔ ∃ i now, ExchangesAt i tokenHash now event := by
  constructor
  · intro h
    unfold exchanges at h
    split at h
    · rename_i i v exchanged now userId v'
      rw [← of_decide_eq_true h]
      exact ⟨i, now, v, userId, v', rfl⟩
    · cases h
  · rintro ⟨i, now, v, userId, v', rfl⟩
    exact decide_eq_true rfl

theorem stores_iff :
    stores tokenHash event = true ↔ ∃ i expiresAt, StoresUntil i tokenHash expiresAt event := by
  constructor
  · intro h
    unfold stores at h
    split at h
    · rename_i i v userId stored expiresAt createdAt _ v'
      rw [← of_decide_eq_true h]
      exact ⟨i, expiresAt, v, userId, createdAt, v', rfl⟩
    · cases h
  · rintro ⟨i, expiresAt, v, userId, createdAt, v', rfl⟩
    exact decide_eq_true rfl

/-- Exchanges are what takes a hash out of the store. -/
theorem take_iff_exchanges : OneTime.actionOf (tokenAction env) event = .take i tokenHash ↔
    ∃ now, ExchangesAt i tokenHash now event := by
  constructor
  · intro haction
    cases event with
    | stopped j => cases haction
    | ran j step =>
        rw [OneTime.actionOf] at haction
        unfold tokenAction at haction
        split at haction <;> cases haction
        exact ⟨_, _, _, _, rfl⟩
  · rintro ⟨now, v, userId, v', rfl⟩
    rfl

/-- Insertions are what puts a hash into the store. -/
theorem put_iff_stores : OneTime.actionOf (tokenAction env) event = .put i tokenHash ↔
    ∃ expiresAt, StoresUntil i tokenHash expiresAt event := by
  constructor
  · intro haction
    cases event with
    | stopped j => cases haction
    | ran j step =>
        rw [OneTime.actionOf] at haction
        unfold tokenAction at haction
        split at haction <;> cases haction
        exact ⟨_, _, _, _, _, rfl⟩
  · rintro ⟨expiresAt, v, userId, createdAt, v', rfl⟩
    rfl

/-- Where no action takes the hash, no event exchanges the token. -/
theorem not_exchanges_of_not_take {events : List AuthEvent}
    (h : ∀ i, .take i tokenHash ∉ events.map (OneTime.actionOf (tokenAction env))) :
    ∀ event ∈ events, exchanges tokenHash event = false := by
  intro event hevent
  rw [← Bool.not_eq_true]
  intro hexchanges
  obtain ⟨i, hat⟩ := exchanges_iff.mp hexchanges
  exact h i (take_iff_exchanges.mpr hat ▸ List.mem_map_of_mem hevent)

end Events

section Exchanges

variable {env : Env} {w : AuthWorld} {events before after : List AuthEvent} {event : AuthEvent}
variable {pool : Pool AuthOp AuthOp.Ans AuthWorld} {tokenHash : String}

/-- After its exchange, a token is not stored any more and not exchanged again. -/
theorem spent_after_exchange (h : AuthHistory env ⟨w, []⟩ (before ++ event :: after) pool)
    (hempty : w.db.tokens.rows = []) (hapart : HashesApart env pool.world)
    (hexchanges : exchanges tokenHash event = true) :
    tokenHash ∉ storedTokens pool.world ∧ ∀ later ∈ after, exchanges tokenHash later = false := by
  obtain ⟨i, hat⟩ := exchanges_iff.mp hexchanges
  have hrun := tokenRun h hapart
  rw [List.map_append, List.map_cons, take_iff_exchanges.mpr hat] at hrun
  obtain ⟨hgone, hnever⟩ := OneTime.taken_once (blank_tokens hempty) hrun
  exact ⟨hgone, not_exchanges_of_not_take hnever⟩

/-- A token is exchanged at most once. -/
theorem countP_exchanges_le (h : AuthHistory env ⟨w, []⟩ events pool)
    (hempty : w.db.tokens.rows = []) (hapart : HashesApart env pool.world) (tokenHash : String) :
    events.countP (exchanges tokenHash) ≤ 1 := by
  refine countP_le_one fun before event after heq hexchanges => ?_
  subst heq
  exact (spent_after_exchange h hempty hapart hexchanges).2

/-- A token is stored at most once. -/
theorem countP_stores_le (h : AuthHistory env ⟨w, []⟩ events pool)
    (hempty : w.db.tokens.rows = []) (hapart : HashesApart env pool.world) (tokenHash : String) :
    events.countP (stores tokenHash) ≤ 1 := by
  refine countP_le_one fun before event after heq hstores later hlater => ?_
  subst heq
  obtain ⟨i, hat⟩ := stores_iff.mp hstores
  have hrun := tokenRun h hapart
  rw [List.map_append, List.map_cons, put_iff_stores.mpr hat] at hrun
  rw [← Bool.not_eq_true]
  intro hagain
  obtain ⟨j, hj⟩ := stores_iff.mp hagain
  exact OneTime.put_once (blank_tokens hempty) hrun j
    (put_iff_stores.mpr hj ▸ List.mem_map_of_mem hlater)

/-- After a logout of a stored token, the token is not exchanged. -/
theorem not_exchanged_after_logout (h : AuthHistory env ⟨w, []⟩ (before ++ event :: after) pool)
    (hempty : w.db.tokens.rows = []) (hapart : HashesApart env pool.world)
    (hlogout : LogsOut tokenHash event)
    (hstored : ∃ stored ∈ before, stores tokenHash stored = true) :
    ∀ later ∈ after, exchanges tokenHash later = false := by
  obtain ⟨i, v, v', rfl⟩ := hlogout
  obtain ⟨stored, hmem, hstores⟩ := hstored
  obtain ⟨j, hat⟩ := stores_iff.mp hstores
  have hput : OneTime.Action.put j tokenHash ∈
      before.map (OneTime.actionOf (tokenAction env)) :=
    put_iff_stores.mpr hat ▸ List.mem_map_of_mem hmem
  have hrun := tokenRun h hapart
  rw [List.map_append, List.map_cons] at hrun
  have hdiscard : OneTime.actionOf (tokenAction env)
      (.ran i ⟨v, .sql (.deleteToken tokenHash), .ok (), v'⟩) = .discard {tokenHash} := rfl
  refine not_exchanges_of_not_take (OneTime.gone_after (blank_tokens hempty) hrun ⟨j, hput⟩ ?_).2
  exact Or.inr ⟨{tokenHash}, hdiscard, rfl⟩

/-- Every row of the table was inserted by a program. -/
theorem tokens_stored (h : AuthHistory env ⟨w, []⟩ events pool) (hempty : w.db.tokens.rows = []) :
    ∀ row ∈ pool.world.db.tokens.rows,
      ∃ stored ∈ events, ∃ i, StoresUntil i row.tokenHash row.expiresAt stored := by
  intro row hrow
  obtain ⟨before, stored, after, rfl, hstored⟩ := rows_inserted (fun w => w.db.tokens.rows)
    (fun row _ event => ∃ i, StoresUntil i row.tokenHash row.expiresAt event)
    (fun past i step hvalid _ row hrow => by
      obtain ⟨v, op, answer, v'⟩ := step
      refine (token_of_step (authEffect_of_valid hvalid) hrow).imp_right fun hnew => ?_
      exact ⟨i, v, row.userId, row.createdAt, v', congrArg _ hnew⟩) h hempty row hrow
  exact ⟨stored, by simp, hstored⟩

/-- A token is exchanged before it expires, on the database clock. -/
theorem exchanged_in_time {i : ℕ} {now : ℚ}
    (h : AuthHistory env ⟨w, []⟩ (before ++ event :: after) pool) (hempty : w.db.tokens.rows = [])
    (hexchanges : ExchangesAt i tokenHash now event) :
    (∃ v v', .ran i ⟨v, .dbNow, now, v'⟩ ∈ before) ∧
      ∃ stored ∈ before, ∃ j expiresAt,
        StoresUntil j tokenHash expiresAt stored ∧ now < expiresAt := by
  obtain ⟨v, userId, v', rfl⟩ := hexchanges
  obtain ⟨hreading, -⟩ := authHistory_allowed h rfl
  obtain ⟨hvalid, threads, hpast⟩ := h.at_step
  obtain ⟨row, hrow, hconsumed, -⟩ := consumeToken_some hvalid
  obtain ⟨rfl, hage⟩ := RefreshToken.consumed_iff.mp hconsumed
  obtain ⟨stored, hmem, j, hstored⟩ := tokens_stored hpast hempty row hrow
  exact ⟨reading_was_read hreading, stored, hmem, j, row.expiresAt, hstored, hage⟩

end Exchanges

end PactumCodex
