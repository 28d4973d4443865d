import Mathlib.Logic.Relation
import PactumCodex.Auth.RefreshTokens

/-!
# Rotation of refresh tokens

`refresh` exchanges a token for its successor.  A token has at most one
successor, and once it has one it is gone, so of all tokens that descend from one
login at most one is stored.

The keeper deletes expired tokens by the clock of its host, while `refresh`
compares with the database clock.  If the host is ahead, the keeper deletes
tokens that `refresh` would still accept; this is the only way in which the
tokens are not `RefreshTokensSafe`.

The first part is about keys that are used once: a program stores one token
(`stores_unique`), and a token is exchanged at most once, so succession is a relation
with one successor at most (`rotates_rightUnique`).  Two stored descendants of one
token lie on one line of successors, and all but the last of them have been exchanged.
-/

namespace PactumCodex

open Interaction Relational

/-! ## Successors -/

/-- A program that has exchanged the token stores its successor. -/
def Rotates (events : List AuthEvent) (tokenHash successor : String) : Prop :=
  Occurs (fun past event => ∃ i, (∃ exchange ∈ past, ∃ now, ExchangesAt i tokenHash now exchange) ∧
    ∃ expiresAt, StoresUntil i successor expiresAt event) events

/-- A token descends from another one by successive refreshes. -/
abbrev Descends (events : List AuthEvent) : String → String → Prop :=
  Relation.ReflTransGen (Rotates events)

/-- The program has stored the token it generates. -/
def AuthPhase.TokenDone (phase : AuthPhase) : Prop := phase.issued = true ∧ phase.rawToken = none

theorem AuthPhase.TokenDone.next {env : Env} {phase : AuthPhase} {op : AuthOp} (answer : op.Ans)
    (hallowed : phase.Allows env op) (h : phase.TokenDone) : (phase.next op answer).TokenDone := by
  unfold AuthPhase.next
  split
  case h_10 =>
    -- a second token is not generated
    have hnot : phase.issued = false := hallowed
    rw [h.1] at hnot
    cases hnot
  case h_11 => exact ⟨h.1, rfl⟩
  all_goals exact h

section Successors

variable {env : Env} {w : AuthWorld} {events before after : List AuthEvent} {event : AuthEvent}
variable {pool : Pool AuthOp AuthOp.Ans AuthWorld} {i : ℕ}

/-- A program stores no second token. -/
theorem stores_no_more {tokenHash later : String} {expiresAt expiresAt' : ℤ} {event' : AuthEvent}
    {between : List AuthEvent}
    (h : AuthHistory env ⟨w, []⟩ (before ++ event :: (between ++ event' :: after)) pool)
    (hstores : StoresUntil i tokenHash expiresAt event) :
    ¬ StoresUntil i later expiresAt' event' := by
  rintro ⟨v₂, userId₂, createdAt₂, v₂', rfl⟩
  obtain ⟨v, userId, createdAt, v', rfl⟩ := hstores
  obtain ⟨hissued, -⟩ := authHistory_allowed h rfl
  rw [List.append_cons, ← List.append_assoc] at h
  obtain ⟨-, raw, hraw, -⟩ := authHistory_allowed h rfl
  obtain ⟨threads, hpast⟩ := h.of_append
  have hdone : AuthPhase.TokenDone (authPhase i (before ++
      [.ran i ⟨v, .sql (.insertToken userId tokenHash expiresAt createdAt), .ok (), v'⟩])) := by
    rw [authPhase, phase_ran, if_pos rfl]
    exact ⟨hissued, rfl⟩
  have hlasts := authPhase_lasts (fun _ _ answer => AuthPhase.TokenDone.next answer) hpast hdone
  rw [hlasts.2] at hraw
  cases hraw

/-- A program stores one token. -/
theorem stores_unique {tokenHash tokenHash' : String} {expiresAt expiresAt' : ℤ}
    {event' : AuthEvent} (h : AuthHistory env ⟨w, []⟩ events pool) (hmem : event ∈ events)
    (hmem' : event' ∈ events) (hstores : StoresUntil i tokenHash expiresAt event)
    (hstores' : StoresUntil i tokenHash' expiresAt' event') : tokenHash = tokenHash' := by
  obtain ⟨before, after, rfl⟩ := List.append_of_mem hmem
  obtain ⟨before', after', heq⟩ := List.append_of_mem hmem'
  rcases positions_trichotomy heq with ⟨-, rfl⟩ | ⟨between, rfl⟩ | ⟨between, rfl⟩
  · obtain ⟨v, userId, createdAt, v', rfl⟩ := hstores
    obtain ⟨_, _, _, _, hsame⟩ := hstores'
    cases hsame
    rfl
  · rw [heq, List.append_assoc, List.cons_append] at h
    exact absurd hstores' (stores_no_more h hstores)
  · rw [List.append_assoc, List.cons_append] at h
    exact absurd hstores (stores_no_more h hstores')

/-- A token has at most one successor. -/
theorem rotates_rightUnique (h : AuthHistory env ⟨w, []⟩ events pool)
    (hempty : w.db.tokens.rows = []) (hapart : HashesApart env pool.world) :
    Relator.RightUnique (Rotates events) := by
  rintro tokenHash successor successor'
    ⟨before, event, after, hevents, i, ⟨exchange, hpast, now, hat⟩, expiresAt, hstores⟩
    ⟨before', event', after', hevents', j, ⟨exchange', hpast', now', hat'⟩, expiresAt', hstores'⟩
  have hsame : exchange = exchange' := by
    refine eq_of_countP_le_one (countP_exchanges_le h hempty hapart tokenHash) ?_ ?_
      (exchanges_iff.mpr ⟨i, now, hat⟩) (exchanges_iff.mpr ⟨j, now', hat'⟩)
    · rw [hevents]
      exact List.mem_append_left _ hpast
    · rw [hevents']
      exact List.mem_append_left _ hpast'
  have hij : i = j := by
    obtain ⟨v, userId, v', rfl⟩ := hat
    obtain ⟨_, _, _, heq⟩ := hat'
    rw [heq] at hsame
    exact (Event.ran.inj hsame).1
  subst hij
  refine stores_unique h ?_ ?_ hstores hstores'
  · rw [hevents]
    simp
  · rw [hevents']
    simp

/-- A token that is stored has no successor yet. -/
theorem eq_of_descends_of_stored (h : AuthHistory env ⟨w, []⟩ events pool)
    (hempty : w.db.tokens.rows = []) (hapart : HashesApart env pool.world)
    {tokenHash descendant : String} (hstored : tokenHash ∈ storedTokens pool.world)
    (hdescends : Descends events tokenHash descendant) : tokenHash = descendant := by
  rcases hdescends.cases_head with heq | ⟨successor, hrotates, -⟩
  · exact heq
  · obtain ⟨before, event, after, rfl, i, ⟨exchange, hpast, now, hat⟩, -⟩ := hrotates
    obtain ⟨past, between, rfl⟩ := List.append_of_mem hpast
    rw [List.append_assoc, List.cons_append] at h
    have hgone := (spent_after_exchange h hempty hapart (exchanges_iff.mpr ⟨i, now, hat⟩)).1
    exact absurd hstored hgone

/-- **Of the descendants of a token, at most one is stored.** -/
theorem stored_descendants_subsingleton (h : AuthHistory env ⟨w, []⟩ events pool)
    (hempty : w.db.tokens.rows = []) (hapart : HashesApart env pool.world) (root : String) :
    {tokenHash | Descends events root tokenHash ∧
      tokenHash ∈ storedTokens pool.world}.Subsingleton := by
  rintro one ⟨hone, hstored⟩ other ⟨hother, hstored'⟩
  rcases Relation.ReflTransGen.total_of_right_unique
    (rotates_rightUnique h hempty hapart) hone hother
    with hdescends | hdescends
  · exact eq_of_descends_of_stored h hempty hapart hstored hdescends
  · exact (eq_of_descends_of_stored h hempty hapart hstored' hdescends).symm

end Successors

/-! ## Cleanup -/

/-- From now on, `refresh` can still exchange the token. -/
def Accepts (w : AuthWorld) (tokenHash : String) : Prop :=
  ∃ now userId, w.clock ≤ now ∧
    (performAuth (.sql (.consumeToken tokenHash now)) (.ok (some userId))
      { w with clock := now }).isSome = true

/-- A cleanup deletes no token that `refresh` would still accept. -/
def SparesAccepted : AuthEvent → Prop
  | .ran _ ⟨w, .sql (.deleteTokensBefore _), .ok _, w'⟩ =>
      ∀ tokenHash ∈ storedTokens w, tokenHash ∉ storedTokens w' → ¬ Accepts w tokenHash
  | _ => True

/-- A cleanup finds a token that expires after the time of the database clock and before that of the
host. -/
def cleansEarly : AuthEvent → Bool
  | .ran _ ⟨w, .sql (.deleteTokensBefore hostNow), .ok _, _⟩ =>
      w.db.tokens.rows.any fun row => w.clock < row.expiresAt ∧ row.expiresAt < hostNow
  | _ => false

section Cleanup

variable {w w' : AuthWorld}

/-- Accepted are the tokens in the table that have not expired. -/
theorem accepts_iff {tokenHash : String} : Accepts w tokenHash ↔
    ∃ row ∈ w.db.tokens.rows, row.tokenHash = tokenHash ∧ w.clock < row.expiresAt := by
  constructor
  · rintro ⟨now, userId, hnow, hsome⟩
    obtain ⟨w', hperform⟩ := Option.isSome_iff_exists.mp hsome
    obtain ⟨row, hrow, hconsumed, -⟩ := consumeToken_some hperform
    obtain ⟨hkey, hage⟩ := RefreshToken.consumed_iff.mp hconsumed
    exact ⟨row, hrow, hkey, lt_of_le_of_lt hnow hage⟩
  · rintro ⟨row, hrow, hkey, hage⟩
    have hfound : (w.db.tokens.rows.find? (·.consumed tokenHash w.clock)).isSome = true := by
      rw [List.find?_isSome]
      exact ⟨row, hrow, RefreshToken.consumed_iff.mpr ⟨hkey, hage⟩⟩
    obtain ⟨found, hfind⟩ := Option.isSome_iff_exists.mp hfound
    have hvalid : TokensValid (deleteWhere (·.consumed tokenHash w.clock) w.db.tokens.rows) :=
      w.db.tokens.valid.sublist (List.filter_sublist.map _)
    refine ⟨w.clock, found.userId, le_refl _, ?_⟩
    simp [performAuth, performAuthSql, AuthStmt.generated, AuthStmt.exec, hfind,
      commit_of_valid hvalid]

/-- A cleanup spares what is accepted if and only if it does not clean early. -/
theorem sparesAccepted_iff {i : ℕ} {step : AuthStep} (hvalid : step.Valid performAuth) :
    SparesAccepted (.ran i step) ↔ cleansEarly (.ran i step) = false := by
  unfold SparesAccepted
  split
  -- the step is a cleanup; any other step spares everything
  case h_1 i w hostNow out w' heq =>
    obtain ⟨rfl, rfl⟩ := Event.ran.inj heq
    have hstored : storedTokens w' = storedTokens w \ {tokenHash | ∃ row ∈ w.db.tokens.rows,
        row.tokenHash = tokenHash ∧ (row.expiresAt < hostNow : Bool)} :=
      (storedTokens_after (authEffect_of_valid hvalid)).trans
        (keysOf_deleteWhere w.db.tokens.valid _)
    rw [cleansEarly, ← Bool.not_eq_true, List.any_eq_true]
    constructor
    · rintro hspares ⟨row, hrow, hearly⟩
      obtain ⟨hlive, hlate⟩ := of_decide_eq_true hearly
      refine hspares row.tokenHash ⟨row, hrow, rfl⟩ ?_ (accepts_iff.mpr ⟨row, hrow, rfl, hlive⟩)
      rw [hstored]
      exact fun hkept => hkept.2 ⟨row, hrow, rfl, decide_eq_true hlate⟩
    · intro hnone tokenHash hmem hgone haccepts
      obtain ⟨row, hrow, rfl, hlive⟩ := accepts_iff.mp haccepts
      rw [hstored] at hgone
      refine hgone ⟨hmem, ?_⟩
      rintro ⟨row', hrow', hkey, hlate⟩
      obtain rfl := eq_of_key_eq w.db.tokens.valid hrow' hrow hkey
      exact hnone ⟨row', hrow', decide_eq_true ⟨hlive, of_decide_eq_true hlate⟩⟩
  case h_2 hnot =>
    refine iff_of_true trivial ?_
    unfold cleansEarly
    split
    · rename_i heq
      exact (hnot _ _ _ _ _ heq).elim
    · rfl

/-- A cleanup on a host whose clock is not ahead does not clean early. -/
theorem not_cleansEarly {i : ℕ} {hostNow : ℤ} {out : Unit} (h : hostNow ≤ w.clock + 1) :
    cleansEarly (.ran i ⟨w, .sql (.deleteTokensBefore hostNow), .ok out, w'⟩) = false := by
  rw [cleansEarly, List.any_eq_false]
  intro row _ hearly
  obtain ⟨hlive, hlate⟩ := of_decide_eq_true hearly
  have hnext : (row.expiresAt + 1 : ℚ) ≤ hostNow := by exact_mod_cast hlate
  linarith

/-- The same for all events of a history. -/
theorem all_sparesAccepted_iff {env : Env} {events : List AuthEvent}
    {pool : Pool AuthOp AuthOp.Ans AuthWorld} (h : AuthHistory env ⟨w, []⟩ events pool) :
    (∀ event ∈ events, SparesAccepted event) ↔ ∀ event ∈ events, cleansEarly event = false := by
  refine forall₂_congr fun event hevent => ?_
  cases event with
  | stopped i => exact iff_of_true trivial rfl
  | ran i step =>
      obtain ⟨before, after, rfl⟩ := List.append_of_mem hevent
      exact sparesAccepted_iff h.at_step.1

end Cleanup

/-! ## Safety -/

/-- What is expected of refresh tokens in a history that starts in the world `w`. -/
structure RefreshTokensSafe (env : Env) (w : AuthWorld) (events : List AuthEvent) : Prop where
  stored_once : ∀ tokenHash, events.countP (stores tokenHash) ≤ 1
  exchanged_once : ∀ tokenHash, events.countP (exchanges tokenHash) ≤ 1
  /-- tokens are only returned by a `refresh` that has exchanged the token it was sent -/
  answered : ∀ before i v body response v' after,
    events = before ++
      .ran i ⟨v, .respond (.refresh body) (.ok (.tokens response)), (), v'⟩ :: after →
    ∃ exchange ∈ before, ∃ now,
      ExchangesAt i (env.crates.sha256Hex body.refreshToken) now exchange
  not_after_logout : ∀ before event after tokenHash, events = before ++ event :: after →
    LogsOut tokenHash event → (∃ stored ∈ before, stores tokenHash stored = true) →
    ∀ later ∈ after, exchanges tokenHash later = false
  /-- on the database clock -/
  in_time : ∀ before event after i tokenHash now, events = before ++ event :: after →
    ExchangesAt i tokenHash now event →
    (∃ v v', .ran i ⟨v, .dbNow, now, v'⟩ ∈ before) ∧
      ∃ stored ∈ before, ∃ j expiresAt, StoresUntil j tokenHash expiresAt stored ∧ now < expiresAt
  one_live : ∀ before after, events = before ++ after → ∀ root,
    {tokenHash | Descends before root tokenHash ∧
      tokenHash ∈ storedTokens (worldAfter w before)}.Subsingleton
  cleanup_spares : ∀ event ∈ events, SparesAccepted event

section Safety

variable {env : Env} {w : AuthWorld} {events : List AuthEvent}
variable {pool : Pool AuthOp AuthOp.Ans AuthWorld}

/-- Tokens are returned for an exchange. -/
theorem exchanged_of_answer {before after : List AuthEvent} {i : ℕ} {v v' : AuthWorld}
    {body : RefreshRequest} {response : AuthResponse}
    (h : AuthHistory env ⟨w, []⟩ events pool) (hevents : events =
      before ++ .ran i ⟨v, .respond (.refresh body) (.ok (.tokens response)), (), v'⟩ :: after) :
    ∃ exchange ∈ before, ∃ now,
      ExchangesAt i (env.crates.sha256Hex body.refreshToken) now exchange := by
  obtain ⟨-, hearned⟩ := authHistory_allowed h hevents
  obtain ⟨past, exchange, rest, rfl, u, now, userId, u', rfl⟩ :=
    token_was_exchanged (hearned response rfl)
  exact ⟨_, by simp, now, u, userId, u', rfl⟩

/-- **Refresh tokens are safe exactly if no cleanup is early.**  The history starts without refresh
tokens, and the hashes of the tokens generated in it are distinct. -/
theorem refreshTokens_safe_iff (h : AuthHistory env ⟨w, []⟩ events pool)
    (hempty : w.db.tokens.rows = []) (hapart : HashesApart env pool.world) :
    RefreshTokensSafe env w events ↔ ∀ event ∈ events, cleansEarly event = false := by
  constructor
  · intro hsafe
    exact (all_sparesAccepted_iff h).mp hsafe.cleanup_spares
  · intro hearly
    constructor
    · exact countP_stores_le h hempty hapart
    · exact countP_exchanges_le h hempty hapart
    · intro before i v body response v' after hevents
      exact exchanged_of_answer h hevents
    · rintro before event after tokenHash rfl hlogout hstored
      exact not_exchanged_after_logout h hempty hapart hlogout hstored
    · rintro before event after i tokenHash now rfl hexchanges
      exact exchanged_in_time h hempty hexchanges
    · rintro before after rfl root
      obtain ⟨threads, hbefore⟩ := h.of_append
      exact stored_descendants_subsingleton hbefore hempty (hapart.earlier h) root
    · exact (all_sparesAccepted_iff h).mpr hearly

end Safety

/-- The hashes of the tokens generated are distinct. -/
def distinctHashes (w : AuthWorld) : Bool := (w.rawTokens.map sampleEnv.crates.sha256Hex).Nodup

theorem hashesApart_of_distinct {w : AuthWorld} (h : distinctHashes w = true) :
    HashesApart sampleEnv w :=
  fun _ hraw _ hraw' heq => List.inj_on_of_nodup_map (of_decide_eq_true h) hraw hraw' heq

/-- A login, a refresh with its token, and a cleanup after seven days. -/
def refreshTurns : List AuthTurn :=
  [⟨0, 5, 0, 0⟩, ⟨1, 13, 1, 1⟩, ⟨2, 11, 2, 2⟩, ⟨3, 1, 604803, 604803⟩, ⟨4, 4, 604803, 604803⟩]

def refreshPrograms : List (AuthProgram Unit) :=
  [serve sampleEnv .challenge, serve sampleEnv (.verify firstLogin),
    serve sampleEnv (.refresh ⟨sampleToken '1'⟩), Program.issue AuthOp.dbNow >>= fun _ => pure (),
    cleanupExpiredAuthRecords]

/-- The refresh succeeds, and the cleanup deletes its token when it has expired. -/
theorem refreshTokens_safe_week : ∃ events pool,
    AuthHistory sampleEnv ⟨AuthWorld.ofDb AuthDb.empty, []⟩ events pool ∧
    events.countP (tokensFor (.refresh ⟨sampleToken '1'⟩)) = 1 ∧ pool.world.db.tokens.rows = [] ∧
    RefreshTokensSafe sampleEnv (AuthWorld.ofDb AuthDb.empty) events := by
  obtain ⟨events, pool, hhistory, htest⟩ :=
    authHistory_of_turns sampleEnv refreshPrograms refreshTurns
    (fun events w => events.countP (tokensFor (.refresh ⟨sampleToken '1'⟩)) = 1 ∧
      w.db.tokens.rows = [] ∧ distinctHashes w ∧ events.all fun event => ! cleansEarly event)
    (fun p hp => by
      simp only [refreshPrograms, List.mem_cons, List.not_mem_nil, or_false] at hp
      rcases hp with rfl | rfl | rfl | rfl | rfl
      exacts [.serve _, .serve _, .serve _, .tick, .cleanup])
    (by decide +kernel)
  obtain ⟨hanswered, hdeleted, hdistinct, hearly⟩ := of_decide_eq_true htest
  refine ⟨events, pool, hhistory, hanswered, hdeleted,
    (refreshTokens_safe_iff hhistory rfl (hashesApart_of_distinct hdistinct)).mpr ?_⟩
  simpa using hearly

/-- A login, and a cleanup at the end of the week, on a host whose clock is ten seconds ahead. -/
def aheadTurns : List AuthTurn :=
  [⟨0, 5, 0, 0⟩, ⟨1, 13, 1, 1⟩, ⟨2, 1, 604795, 604805⟩, ⟨3, 4, 604795, 604805⟩]

def aheadPrograms : List (AuthProgram Unit) :=
  [serve sampleEnv .challenge, serve sampleEnv (.verify firstLogin),
    Program.issue AuthOp.dbNow >>= fun _ => pure (), cleanupExpiredAuthRecords]

/-- The cleanup deletes a token that `refresh` would still accept. -/
theorem refreshTokens_unsafe_ahead : ∃ events pool,
    AuthHistory sampleEnv ⟨AuthWorld.ofDb AuthDb.empty, []⟩ events pool ∧
    HashesApart sampleEnv pool.world ∧
    ¬ RefreshTokensSafe sampleEnv (AuthWorld.ofDb AuthDb.empty) events := by
  obtain ⟨events, pool, hhistory, htest⟩ := authHistory_of_turns sampleEnv aheadPrograms aheadTurns
    (fun events w => distinctHashes w ∧ events.any cleansEarly)
    (fun p hp => by
      simp only [aheadPrograms, List.mem_cons, List.not_mem_nil, or_false] at hp
      rcases hp with rfl | rfl | rfl | rfl
      exacts [.serve _, .serve _, .tick, .cleanup])
    (by decide +kernel)
  obtain ⟨hdistinct, hearly⟩ := of_decide_eq_true htest
  refine ⟨events, pool, hhistory, hashesApart_of_distinct hdistinct, fun hsafe => ?_⟩
  obtain ⟨event, hevent, hcleans⟩ := List.any_eq_true.mp hearly
  rw [(all_sparesAccepted_iff hhistory).mp hsafe.cleanup_spares event hevent] at hcleans
  cases hcleans

end PactumCodex
