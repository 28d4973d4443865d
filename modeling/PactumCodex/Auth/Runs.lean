import PactumCodex.Auth.Handlers
import PactumCodex.Lib.OneTime

/-!
# Interleaved authentication requests

Histories of any number of programs that serve authentication requests, of the
keeper's cleanup and of readings of the database clock, interleaved in any order
and stopped anywhere.

## The discipline

What a program may do depends on what it has done before: it stores only the
nonce or token it has generated, links only a wallet whose signature it has
checked, and so on.  `AuthPhase` is what a program has done so far:

* the request it serves, and its last reading of the clock;
* the nonce it has consumed and the refresh token it has exchanged;
* the rows of `auth_wallet` it knows, from which it may put a wallet into a token;
* the id and the refresh token it has generated and not stored yet;
* whether it has issued a refresh token.

`Allows` is the discipline: which operations may be issued in a phase.

## Conformance

The handlers conform (`AuthEntry.conforms`).  Most of them only read: their
operations are `Quiet`, always allowed and without a trace in the phase, so one
lemma about the operations of a handler is enough (`conforms_quiet_bind`).  What
remains are the operations that consume a nonce, exchange a token, link a wallet
or issue tokens; there the proof follows the text of the handler and carries
`Answers`: the request is the same, and tokens are only returned if they were
earned.

## Histories

`authHistory_invariant` and `rows_inserted` are the rules for the tables.  The last
lemmas read a phase backwards: what it says the program has received, read,
consumed or exchanged, the program has received, read, consumed or exchanged in
a step of its own.
-/

namespace PactumCodex

open Interaction

/-- The signed body of a request. -/
def AuthRequest.siws : AuthRequest → Option VerifyRequest
  | .verify body => some body
  | .linkWallet _ body => some body
  | _ => none

/-- What a program has done so far. -/
structure AuthPhase where
  /-- the request it serves -/
  request : Option AuthRequest
  /-- its last reading of the database clock -/
  reading : Option ℚ
  /-- the id it has generated last, and not stored as a nonce -/
  uuid : Option Uuid
  /-- the nonce it has consumed -/
  nonce : Option String
  /-- rows of `auth_wallet` it has read or inserted -/
  wallets : List Wallet
  /-- the hash of the refresh token it has exchanged -/
  exchanged : Option String
  /-- a refresh token it has generated and not stored -/
  rawToken : Option String
  /-- whether it has generated a refresh token -/
  issued : Bool

namespace AuthPhase

def start : AuthPhase := ⟨none, none, none, none, [], none, none, false⟩

/-- The phase after an operation. -/
def next (phase : AuthPhase) : (op : AuthOp) → op.Ans → AuthPhase
  | .receive request, _ => { phase with request := some request }
  | .dbNow, now => { phase with reading := some now }
  | .newUuid, id => { phase with uuid := some id }
  | .sql (.insertNonce ..), .ok _ => { phase with uuid := none }
  | .sql (.consumeNonce nonce _), .ok (some _) => { phase with nonce := some nonce }
  | .sql (.userOfWallet pubkey), .ok (some userId) =>
      { phase with wallets := ⟨userId, pubkey⟩ :: phase.wallets }
  | .sql (.walletOfUser userId), .ok (some pubkey) =>
      { phase with wallets := ⟨userId, pubkey⟩ :: phase.wallets }
  | .sql (.insertWallet userId pubkey), .ok _ =>
      { phase with wallets := ⟨userId, pubkey⟩ :: phase.wallets }
  | .sql (.consumeToken tokenHash _), .ok (some _) => { phase with exchanged := some tokenHash }
  | .newToken, raw => { phase with rawToken := some raw, issued := true }
  | .sql (.insertToken ..), .ok _ => { phase with rawToken := none }
  | _, _ => phase

section Next

variable {phase : AuthPhase} {op : AuthOp} {answer : op.Ans} {v v' : AuthWorld}

theorem request_of_next {request : AuthRequest} (h : (phase.next op answer).request = some request)
    (hnot : phase.request ≠ some request) :
    (⟨v, op, answer, v'⟩ : AuthStep) = ⟨v, .receive request, (), v'⟩ := by
  unfold next at h
  split at h
  case h_1 =>
    obtain rfl := Option.some.inj h
    rfl
  all_goals exact absurd h hnot

theorem reading_of_next {now : ℚ} (h : (phase.next op answer).reading = some now)
    (hnot : phase.reading ≠ some now) :
    (⟨v, op, answer, v'⟩ : AuthStep) = ⟨v, .dbNow, now, v'⟩ := by
  unfold next at h
  split at h
  case h_2 =>
    obtain rfl := Option.some.inj h
    rfl
  all_goals exact absurd h hnot

theorem nonce_of_next {nonce : String} (h : (phase.next op answer).nonce = some nonce)
    (hnot : phase.nonce ≠ some nonce) : ∃ now out,
    (⟨v, op, answer, v'⟩ : AuthStep) = ⟨v, .sql (.consumeNonce nonce now), .ok (some out), v'⟩ := by
  unfold next at h
  split at h
  case h_5 =>
    obtain rfl := Option.some.inj h
    exact ⟨_, _, rfl⟩
  all_goals exact absurd h hnot

theorem exchanged_of_next {tokenHash : String}
    (h : (phase.next op answer).exchanged = some tokenHash)
    (hnot : phase.exchanged ≠ some tokenHash) : ∃ now userId,
    (⟨v, op, answer, v'⟩ : AuthStep) =
      ⟨v, .sql (.consumeToken tokenHash now), .ok (some userId), v'⟩ := by
  unfold next at h
  split at h
  case h_9 =>
    obtain rfl := Option.some.inj h
    exact ⟨_, _, rfl⟩
  all_goals exact absurd h hnot

end Next

/-- The program has consumed the nonce of its request, which carries a valid signature of it. -/
structure Presents (env : Env) (phase : AuthPhase) (body : VerifyRequest) : Prop where
  request : phase.request.bind AuthRequest.siws = some body
  nonce : phase.nonce = some body.nonce
  signed : body.signed env = true

/-- What a program has done when it answers the request with tokens. -/
def Earned (env : Env) (phase : AuthPhase) : AuthRequest → Prop
  | .verify body => phase.Presents env body
  | .linkWallet _ body => phase.Presents env body
  | .refresh body => phase.exchanged = some (env.crates.sha256Hex body.refreshToken)
  | _ => True

/-- The operations a program may issue. -/
def Allows (env : Env) (phase : AuthPhase) : AuthOp → Prop
  | .receive _ => phase.request = none
  | .respond request result => phase.request = some request ∧
      ∀ response, result = .ok (.tokens response) → phase.Earned env request
  | .sql (.insertNonce nonce now) => phase.request = some .challenge ∧ phase.reading = some now ∧
      ∃ id, phase.uuid = some id ∧ nonce = id.toText
  | .sql (.consumeNonce nonce now) => phase.reading = some now ∧
      ∃ body, phase.request.bind AuthRequest.siws = some body ∧ nonce = body.nonce
  | .sql (.insertWallet _ pubkey) => ∃ body, phase.Presents env body ∧ pubkey = body.pubkey
  | .sql (.insertToken _ tokenHash _ _) => phase.issued = true ∧
      ∃ raw, phase.rawToken = some raw ∧ tokenHash = env.crates.sha256Hex raw
  | .sql (.consumeToken tokenHash now) =>
      phase.reading = some now ∧ phase.exchanged = none ∧ phase.issued = false ∧
        ∃ body, phase.request = some (.refresh body) ∧
          tokenHash = env.crates.sha256Hex body.refreshToken
  | .newToken => phase.issued = false
  | .encodeToken claims =>
      ∀ pubkey, claims.pubkey = some pubkey → ⟨claims.sub, pubkey⟩ ∈ phase.wallets
  | _ => True

end AuthPhase

/-! ## Programs -/

/-- Programs that take part: a request is served, the keeper cleans up, or time passes on the
database clock. -/
inductive AuthEntry (env : Env) : AuthProgram Unit → Prop
  | serve (request : AuthRequest) : AuthEntry env (serve env request)
  | cleanup : AuthEntry env cleanupExpiredAuthRecords
  | tick : AuthEntry env (Program.issue AuthOp.dbNow >>= fun _ => pure ())

/-- An event of a history. -/
abbrev AuthEvent := Event AuthOp AuthOp.Ans AuthWorld

/-- Histories of authentication requests. -/
abbrev AuthHistory (env : Env) (start : Pool AuthOp AuthOp.Ans AuthWorld) (events : List AuthEvent)
    (pool : Pool AuthOp AuthOp.Ans AuthWorld) : Prop :=
  History performAuth (AuthEntry env) start events pool

/-- What a program has done in a history; a stop changes nothing. -/
abbrev authPhase (i : ℕ) (events : List AuthEvent) : AuthPhase :=
  phase AuthPhase.next id AuthPhase.start i events

/-! ## Conformance -/

section Conformance

variable {env : Env} {α β : Type}

/-- The program conforms, starting in the given phase. -/
abbrev AuthConforms (env : Env) (p : AuthProgram α) (phase : AuthPhase)
    (Φ : α → AuthPhase → Prop) : Prop :=
  Conforms AuthPhase.next (AuthPhase.Allows env) p phase Φ

theorem conforms_query {s : AuthStmt} {phase : AuthPhase}
    {Φ : Except AppError s.Out → AuthPhase → Prop}
    (hs : phase.Allows env (.sql s)) (hok : ∀ out, Φ (.ok out) (phase.next (.sql s) (.ok out)))
    (herror : ∀ e, Φ (.error .internalError) (phase.next (.sql s) (.error e))) :
    AuthConforms env s.query.run phase Φ := by
  refine conforms_orFail.mpr ⟨hs, fun answer => ?_⟩
  constructor
  · rintro out rfl
    exact hok out
  · rintro e rfl
    exact herror e

theorem conforms_query_bind {s : AuthStmt} {f : s.Out → AuthHandler β} {phase : AuthPhase}
    {Φ : Except AppError β → AuthPhase → Prop} (hs : phase.Allows env (.sql s))
    (hok : ∀ out, AuthConforms env (f out).run (phase.next (.sql s) (.ok out)) Φ)
    (herror : ∀ e, Φ (.error .internalError) (phase.next (.sql s) (.error e))) :
    AuthConforms env (s.query >>= f).run phase Φ :=
  conforms_run_bind.mpr (conforms_query hs hok herror)

/-- At most the reading of the clock is another one. -/
def AuthPhase.SameButClock (phase phase' : AuthPhase) : Prop :=
  ∃ reading, phase' = { phase with reading }

theorem AuthPhase.SameButClock.trans {phase phase' phase'' : AuthPhase}
    (h : phase.SameButClock phase') (h' : phase'.SameButClock phase'') :
    phase.SameButClock phase'' := by
  obtain ⟨reading, rfl⟩ := h
  obtain ⟨reading', rfl⟩ := h'
  exact ⟨reading', rfl⟩

theorem AuthPhase.SameButClock.request {phase phase' : AuthPhase} (h : phase.SameButClock phase') :
    phase'.request = phase.request := by
  obtain ⟨reading, rfl⟩ := h
  rfl

theorem AuthPhase.SameButClock.issued {phase phase' : AuthPhase} (h : phase.SameButClock phase') :
    phase'.issued = phase.issued := by
  obtain ⟨reading, rfl⟩ := h
  rfl

/-- The operation is always allowed, and changes at most the reading of the clock. -/
def AuthOp.Quiet (env : Env) (op : AuthOp) : Prop :=
  ∀ phase : AuthPhase, phase.Allows env op ∧ ∀ answer, phase.SameButClock (phase.next op answer)

theorem conforms_quiet {p : AuthProgram α} {phase : AuthPhase} (hp : p.Issues (AuthOp.Quiet env)) :
    AuthConforms env p phase fun _ phase' => phase.SameButClock phase' := by
  refine conforms_keeping hp (fun phase' op hsame hop => ?_) ⟨phase.reading, rfl⟩
  obtain ⟨reading, rfl⟩ := hsame
  refine ⟨(hop _).1, fun answer => ?_⟩
  obtain ⟨reading', hnext⟩ := (hop { phase with reading }).2 answer
  exact ⟨reading', hnext⟩

/-- After operations that are always allowed, the rest goes on in the same phase. -/
theorem conforms_quiet_bind {x : AuthHandler α} {f : α → AuthHandler β} {phase : AuthPhase}
    {Φ : Except AppError β → AuthPhase → Prop} (hx : x.run.Issues (AuthOp.Quiet env))
    (hok : ∀ a phase', phase.SameButClock phase' → AuthConforms env (f a).run phase' Φ)
    (herror : ∀ e phase', phase.SameButClock phase' → Φ (.error e) phase') :
    AuthConforms env (x >>= f).run phase Φ := by
  refine conforms_run_bind.mpr ((conforms_quiet hx).mono ?_)
  rintro (e | a) phase' hsame
  · exact herror e phase' hsame
  · exact hok a phase' hsame

/-- The request of the phase and what it has consumed are the same. -/
structure AuthPhase.SameRequest (phase phase' : AuthPhase) : Prop where
  request : phase'.request = phase.request
  nonce : phase'.nonce = phase.nonce
  exchanged : phase'.exchanged = phase.exchanged

theorem AuthPhase.SameRequest.trans {phase phase' phase'' : AuthPhase}
    (h : phase.SameRequest phase') (h' : phase'.SameRequest phase'') : phase.SameRequest phase'' :=
  ⟨h'.request.trans h.request, h'.nonce.trans h.nonce, h'.exchanged.trans h.exchanged⟩

/-- A token may carry a wallet that the program knows. -/
theorem issueAccessToken_conforms {userId : Uuid} {pubkey : Option String} {phase : AuthPhase}
    (hwallet : ∀ p, pubkey = some p → ⟨userId, p⟩ ∈ phase.wallets) :
    AuthConforms env (issueAccessToken env userId pubkey).run phase fun _ phase' =>
      phase.SameRequest phase' ∧ phase'.issued = phase.issued := by
  refine conforms_ask_bind.mpr ⟨trivial, fun now => ?_⟩
  refine conforms_ask_bind.mpr ⟨trivial, fun jti => ?_⟩
  refine conforms_orFail.mpr ⟨hwallet, fun _ => ⟨fun _ _ => ?_, fun _ _ => ?_⟩⟩
  · exact ⟨⟨rfl, rfl, rfl⟩, rfl⟩
  · exact ⟨⟨rfl, rfl, rfl⟩, rfl⟩

theorem issueAndStoreRefreshToken_conforms {userId : Uuid} {phase : AuthPhase}
    (hissued : phase.issued = false) :
    AuthConforms env (issueAndStoreRefreshToken env userId).run phase fun _ phase' =>
      phase.SameRequest phase' := by
  refine conforms_ask_bind.mpr ⟨hissued, fun raw => ?_⟩
  refine conforms_ask_bind.mpr ⟨trivial, fun now => ?_⟩
  exact conforms_query_bind ⟨rfl, raw, rfl, rfl⟩ (fun _ => ⟨rfl, rfl, rfl⟩) fun _ => ⟨rfl, rfl, rfl⟩

/-- A program issues tokens once. -/
theorem issueTokens_conforms {userId : Uuid} {pubkey : Option String} {phase : AuthPhase}
    (hwallet : ∀ p, pubkey = some p → ⟨userId, p⟩ ∈ phase.wallets)
    (hissued : phase.issued = false) :
    AuthConforms env (issueTokens env userId pubkey).run phase fun _ phase' =>
      phase.SameRequest phase' := by
  refine conforms_run_bind.mpr ((issueAccessToken_conforms hwallet).mono ?_)
  rintro (e | accessToken) phase₁ ⟨hsame, hissued₁⟩
  · exact hsame
  · refine conforms_run_bind.mpr
      ((issueAndStoreRefreshToken_conforms (hissued₁.trans hissued)).mono ?_)
    rintro (e | refreshToken) phase₂ hsame₂
    · exact hsame.trans hsame₂
    · exact hsame.trans hsame₂

/-- What a handler leaves: the request is the same, and tokens are only returned if they were
earned. -/
def Answers (env : Env) (request : AuthRequest) (r : Except AppError AuthReply)
    (phase : AuthPhase) :
    Prop :=
  phase.request = some request ∧ ∀ response, r = .ok (.tokens response) → phase.Earned env request

theorem answers_error {request : AuthRequest} {e : AppError} {phase : AuthPhase}
    (hrequest : phase.request = some request) : Answers env request (.error e) phase :=
  ⟨hrequest, nofun⟩

theorem challenge_conforms {phase : AuthPhase} (hrequest : phase.request = some .challenge) :
    AuthConforms env challenge.run phase (Answers env .challenge) := by
  refine conforms_ask_bind.mpr ⟨trivial, fun id => ?_⟩
  refine conforms_ask_bind.mpr ⟨trivial, fun now => ?_⟩
  refine conforms_query_bind ⟨hrequest, rfl, id, rfl, rfl⟩ (fun _ => ?_) fun _ => ?_
  · exact ⟨hrequest, fun _ _ => trivial⟩
  · exact ⟨hrequest, fun _ _ => trivial⟩

/-- Steps 1 and 2 of `verify` and `link_wallet`. -/
theorem consumeSignedNonce_conforms {body : VerifyRequest} {phase : AuthPhase}
    (hbody : phase.request.bind AuthRequest.siws = some body) :
    AuthConforms env (consumeSignedNonce env body).run phase fun r phase' =>
      phase'.request = phase.request ∧ phase'.issued = phase.issued ∧
        (r = .ok () → phase'.Presents env body) := by
  refine conforms_ask_bind.mpr ⟨trivial, fun now => ?_⟩
  refine conforms_query_bind ⟨rfl, body, hbody, rfl⟩ (fun row => ?_) fun _ => ⟨rfl, rfl, nofun⟩
  cases row with
  | none => exact ⟨rfl, rfl, nofun⟩
  | some consumed =>
      by_cases hsigned : body.signed env = true
      · simp only [Option.isNone_some, Bool.false_eq_true, if_false, hsigned, not_true]
        exact ⟨rfl, rfl, fun _ => ⟨hbody, rfl, hsigned⟩⟩
      · simp only [Option.isNone_some, Bool.false_eq_true, if_false, hsigned, not_false_eq_true,
          if_true]
        exact ⟨rfl, rfl, nofun⟩

/-- Tokens for a signed body are earned by presenting it. -/
theorem AuthPhase.earned_iff_presents {phase : AuthPhase} {request : AuthRequest}
    {body : VerifyRequest} (hsiws : request.siws = some body) :
    phase.Earned env request ↔ phase.Presents env body := by
  cases request with
  | verify body' =>
      obtain rfl : body' = body := Option.some.inj hsiws
      exact Iff.rfl
  | linkWallet authorization body' =>
      obtain rfl : body' = body := Option.some.inj hsiws
      exact Iff.rfl
  | challenge | oauthCallback _ _ _ | refresh _ | logout _ | updateContacts _ _
  | deleteContacts _ =>
      cases hsiws

/-- A program that presents the nonce may link the wallet and issue tokens for it. -/
theorem AuthPhase.Presents.answers {phase phase' : AuthPhase} {request : AuthRequest}
    {body : VerifyRequest} {r : Except AppError AuthReply} (hrequest : phase.request = some request)
    (h : phase.Presents env body) (hsame : phase.SameRequest phase') :
    Answers env request r phase' := by
  have hpresents : phase'.Presents env body :=
    ⟨by rw [hsame.request]; exact h.request, hsame.nonce.trans h.nonce, h.signed⟩
  have hsiws : request.siws = some body := by
    have hbody := h.request
    rwa [hrequest] at hbody
  exact ⟨hsame.request.trans hrequest, fun _ _ =>
    (AuthPhase.earned_iff_presents hsiws).mpr hpresents⟩

/-- A wallet that was found, or that the program may link. -/
theorem userOfKey_conforms {body : VerifyRequest} {phase : AuthPhase} {existing : Option Uuid}
    (hfound : ∀ userId, existing = some userId → ⟨userId, body.pubkey⟩ ∈ phase.wallets)
    (hpresents : phase.Presents env body) :
    AuthConforms env (userOfKey body.pubkey existing).run phase fun r phase' =>
      phase.SameRequest phase' ∧ phase'.issued = phase.issued ∧
        ∀ userId, r = .ok userId → ⟨userId, body.pubkey⟩ ∈ phase'.wallets := by
  cases existing with
  | some userId =>
      refine ⟨⟨rfl, rfl, rfl⟩, rfl, fun userId' heq => ?_⟩
      rw [← Except.ok.inj heq]
      exact hfound userId rfl
  | none =>
      refine conforms_query_bind trivial (fun userId => ?_) fun _ => ⟨⟨rfl, rfl, rfl⟩, rfl, nofun⟩
      refine conforms_query_bind ⟨body, ?_, rfl⟩ (fun _ => ?_) fun _ =>
        ⟨⟨rfl, rfl, rfl⟩, rfl, nofun⟩
      · exact ⟨hpresents.request, hpresents.nonce, hpresents.signed⟩
      · refine ⟨⟨rfl, rfl, rfl⟩, rfl, fun userId' heq => ?_⟩
        rw [← Except.ok.inj heq]
        exact List.mem_cons_self

/-- The end of `verify`. -/
theorem verify_conforms {body : VerifyRequest} {phase : AuthPhase}
    (hrequest : phase.request = some (.verify body)) (hissued : phase.issued = false) :
    AuthConforms env (verify env body).run phase (Answers env (.verify body)) := by
  have hbody : phase.request.bind AuthRequest.siws = some body := by
    rw [hrequest]
    rfl
  refine conforms_run_bind.mpr ((consumeSignedNonce_conforms hbody).mono ?_)
  rintro (e | ⟨⟩) phase₁ ⟨hrequest₁, hissued₁, hpresents⟩
  · exact answers_error (hrequest₁.trans hrequest)
  have hpresents := hpresents rfl
  have hanswers : ∀ {r : Except AppError AuthReply} {phase' : AuthPhase},
      phase₁.SameRequest phase' → Answers env (.verify body) r phase' :=
    hpresents.answers (hrequest₁.trans hrequest)
  refine conforms_query_bind trivial (fun existing => ?_) fun _ => hanswers ⟨rfl, rfl, rfl⟩
  have hkey : AuthConforms env (userOfKey body.pubkey existing).run
      (phase₁.next (.sql (.userOfWallet body.pubkey)) (.ok existing)) fun r phase' =>
        phase₁.SameRequest phase' ∧ phase'.issued = phase₁.issued ∧
          ∀ userId, r = .ok userId → ⟨userId, body.pubkey⟩ ∈ phase'.wallets := by
    -- the wallet is known to the database, or the program registers it
    cases existing with
    | none => exact userOfKey_conforms nofun hpresents
    | some userId =>
        refine (userOfKey_conforms ?_ ?_).mono fun _ _ h =>
          ⟨⟨h.1.request, h.1.nonce, h.1.exchanged⟩, h.2⟩
        · intro userId' heq
          rw [← Option.some.inj heq]
          exact List.mem_cons_self
        · exact ⟨hpresents.request, hpresents.nonce, hpresents.signed⟩
  refine conforms_run_bind.mpr (hkey.mono ?_)
  rintro (e | userId) phase₂ ⟨hsame, hissued₂, hwallet⟩
  · exact hanswers hsame
  -- the token carries the wallet that was signed for
  · refine (issueTokens_conforms ?_ ?_).mono fun _ _ hsame' => hanswers (hsame.trans hsame')
    · rintro p heq
      rw [← Option.some.inj heq]
      exact hwallet userId rfl
    · exact hissued₂.trans (hissued₁.trans hissued)

theorem linkWallet_conforms {auth : AuthUser} {authorization : Option String} {body : VerifyRequest}
    {phase : AuthPhase} (hrequest : phase.request = some (.linkWallet authorization body))
    (hissued : phase.issued = false) :
    AuthConforms env (linkWallet env auth body).run phase
      (Answers env (.linkWallet authorization body)) := by
  have hbody : phase.request.bind AuthRequest.siws = some body := by
    rw [hrequest]
    rfl
  -- the token of the request may name a wallet already
  by_cases hlinked : auth.pubkey.isSome = true
  · simp only [linkWallet, hlinked, if_true]
    exact answers_error hrequest
  simp only [linkWallet, hlinked, Bool.false_eq_true, if_false]
  refine conforms_run_bind.mpr ((consumeSignedNonce_conforms hbody).mono ?_)
  rintro (e | ⟨⟩) phase₁ ⟨hrequest₁, hissued₁, hpresents⟩
  · exact answers_error (hrequest₁.trans hrequest)
  have hpresents := hpresents rfl
  have hanswers : ∀ {r : Except AppError AuthReply} {phase' : AuthPhase},
      phase₁.SameRequest phase' → Answers env (.linkWallet authorization body) r phase' :=
    hpresents.answers (hrequest₁.trans hrequest)
  refine conforms_query_bind trivial (fun existing => ?_) fun _ => hanswers ⟨rfl, rfl, rfl⟩
  cases existing with
  -- the wallet belongs to an account
  | some userId => exact hanswers ⟨rfl, rfl, rfl⟩
  | none =>
      refine conforms_query_bind ⟨body, hpresents, rfl⟩ (fun _ => ?_) fun _ =>
        hanswers ⟨rfl, rfl, rfl⟩
      refine (issueTokens_conforms ?_ ?_).mono fun _ _ hsame =>
        hanswers ⟨hsame.request, hsame.nonce, hsame.exchanged⟩
      · rintro p heq
        rw [← Option.some.inj heq]
        exact List.mem_cons_self
      · exact hissued₁.trans hissued

/-! ### Providers, refresh and logout -/

theorem quiet_ask {op : AuthOp} (h : op.Quiet env) :
    (Fallible.ask op : AuthHandler op.Ans).run.Issues (AuthOp.Quiet env) := issues_run_ask h

theorem quiet_query {s : AuthStmt} (h : AuthOp.Quiet env (.sql s)) :
    s.query.run.Issues (AuthOp.Quiet env) :=
  issues_run_orFail ⟨h, fun _ => trivial⟩

theorem exchangeCodeAndFetchIdentity_quiet (provider : OAuthProvider) (code : String) :
    (exchangeCodeAndFetchIdentity env provider code).run.Issues (AuthOp.Quiet env) := by
  refine issues_run_bind
    (issues_run_orFail ⟨fun _ => ⟨trivial, fun _ => ⟨_, rfl⟩⟩, fun _ => trivial⟩)
    fun tokenJson => ?_
  refine issues_run_bind issues_run_okOr fun accessToken => ?_
  refine issues_run_bind
    (issues_run_orFail ⟨fun _ => ⟨trivial, fun _ => ⟨_, rfl⟩⟩, fun _ => trivial⟩)
    fun profileJson => ?_
  refine issues_run_bind issues_run_okOr fun providerId => ?_
  exact issues_run_bind issues_run_okOr fun email => trivial

theorem upsertEmailContact_quiet (userId : Uuid) (email : String) :
    (upsertEmailContact env userId email).run.Issues (AuthOp.Quiet env) := by
  refine issues_run_bind issues_run_ofExcept fun key => ?_
  refine issues_run_bind issues_run_ofExcept fun idxKey => ?_
  refine issues_run_bind
    (issues_run_orFail ⟨fun _ => ⟨trivial, fun _ => ⟨_, rfl⟩⟩, fun _ => trivial⟩)
    fun encrypted => ?_
  refine issues_run_bind (quiet_ask fun _ => ⟨trivial, fun _ => ⟨_, rfl⟩⟩) fun now => ?_
  exact quiet_query fun _ => ⟨trivial, fun _ => ⟨_, rfl⟩⟩

theorem userOfIdentity_quiet (provider : OAuthProvider) (emailIndex : List UInt8)
    (existing : Option Uuid) :
    (userOfIdentity provider emailIndex existing).run.Issues (AuthOp.Quiet env) := by
  cases existing with
  | some id => trivial
  | none =>
      refine issues_run_bind (quiet_query fun _ => ⟨trivial, fun _ => ⟨_, rfl⟩⟩) fun found => ?_
      cases found with
      | some id => trivial
      | none => exact quiet_query fun _ => ⟨trivial, fun _ => ⟨_, rfl⟩⟩

theorem resolveOrCreateOAuthUser_quiet (provider : OAuthProvider) (providerId email : String) :
    (resolveOrCreateOAuthUser env provider providerId email).run.Issues (AuthOp.Quiet env) := by
  refine issues_run_bind (quiet_query fun _ => ⟨trivial, fun _ => ⟨_, rfl⟩⟩) fun userIdByOAuth => ?_
  refine issues_run_bind issues_run_ofExcept fun idxKey => ?_
  refine issues_run_bind (quiet_query fun _ => ⟨trivial, fun _ => ⟨_, rfl⟩⟩) fun conflicting => ?_
  split
  · trivial
  · refine issues_run_bind (userOfIdentity_quiet _ _ _) fun userId => ?_
    refine issues_run_bind (quiet_query fun _ => ⟨trivial, fun _ => ⟨_, rfl⟩⟩) fun _ => ?_
    exact issues_run_bind (upsertEmailContact_quiet _ _) fun _ => trivial

theorem oauthCallback_conforms {provider : OAuthProvider} {jar : List (String × String)}
    {query : OAuthCallbackQuery} {phase : AuthPhase}
    (hrequest : phase.request = some (.oauthCallback provider jar query))
    (hissued : phase.issued = false) :
    AuthConforms env (oauthCallback env jar query provider).run phase
      (Answers env (.oauthCallback provider jar query)) := by
  have hanswers : ∀ {r : Except AppError AuthReply} {phase' : AuthPhase},
      phase'.request = phase.request → Answers env (.oauthCallback provider jar query) r phase' :=
    fun hsame => ⟨hsame.trans hrequest, fun _ _ => trivial⟩
  -- the state parameter, the provider and the accounts are only read or written quietly
  refine conforms_quiet_bind issues_run_ofExcept (fun _ phase₁ hsame₁ => ?_)
    fun _ _ hsame => hanswers hsame.request
  refine conforms_quiet_bind (exchangeCodeAndFetchIdentity_quiet _ _)
    (fun identity phase₂ hsame₂ => ?_)
    fun _ _ hsame => hanswers (hsame₁.trans hsame).request
  have hsame₂ := hsame₁.trans hsame₂
  refine conforms_quiet_bind (resolveOrCreateOAuthUser_quiet _ _ _)
    (fun resolution phase₃ hsame₃ => ?_)
    fun _ _ hsame => hanswers (hsame₂.trans hsame).request
  have hsame₃ := hsame₂.trans hsame₃
  cases resolution with
  | user userId =>
      refine (issueTokens_conforms ?_ (hsame₃.issued.trans hissued)).mono fun _ _ hsame =>
        hanswers (hsame.request.trans hsame₃.request)
      intro p heq
      cases heq
  | conflict details => exact hanswers hsame₃.request

theorem refresh_conforms {body : RefreshRequest} {phase : AuthPhase}
    (hrequest : phase.request = some (.refresh body)) (hexchanged : phase.exchanged = none)
    (hissued : phase.issued = false) :
    AuthConforms env (refresh env body).run phase (Answers env (.refresh body)) := by
  have herror : ∀ {e : AppError} {phase' : AuthPhase}, phase'.request = phase.request →
      Answers env (.refresh body) (.error e) phase' :=
    fun hsame => ⟨hsame.trans hrequest, nofun⟩
  have htokens : ∀ {r : Except AppError AuthReply} {phase₁ phase₂ : AuthPhase},
      phase₁.request = phase.request →
      phase₁.exchanged = some (env.crates.sha256Hex body.refreshToken) →
      phase₁.SameRequest phase₂ → Answers env (.refresh body) r phase₂ :=
    fun hsame htoken hsame' => ⟨(hsame'.request.trans hsame).trans hrequest,
      fun _ _ => hsame'.exchanged.trans htoken⟩
  refine conforms_ask_bind.mpr ⟨trivial, fun now => ?_⟩
  refine conforms_query_bind ⟨rfl, hexchanged, hissued, body, hrequest, rfl⟩ (fun row => ?_)
    fun _ => herror rfl
  cases row with
  | none => exact herror rfl
  | some userId =>
      refine conforms_query_bind trivial (fun pubkey => ?_) fun _ => herror rfl
      -- the token may carry the wallet that was just looked up
      cases pubkey with
      | none =>
          refine (issueTokens_conforms ?_ ?_).mono fun _ _ hsame => htokens ?_ ?_ hsame
          · intro p heq
            cases heq
          · exact hissued
          · rfl
          · rfl
      | some key =>
          refine (issueTokens_conforms ?_ ?_).mono fun _ _ hsame => htokens ?_ ?_ hsame
          · rintro p heq
            rw [← Option.some.inj heq]
            exact List.mem_cons_self
          · exact hissued
          · rfl
          · rfl

theorem logout_conforms {body : RefreshRequest} {phase : AuthPhase}
    (hrequest : phase.request = some (.logout body)) :
    AuthConforms env (logout env body).run phase (Answers env (.logout body)) :=
  conforms_query_bind trivial (fun _ => ⟨hrequest, fun _ _ => trivial⟩) fun _ => ⟨hrequest, nofun⟩

/-! ### Contacts -/

theorem encryptContact_quiet (key : Bytes 32) (value : Option String) :
    (encryptContact key value).run.Issues (AuthOp.Quiet env) := by
  cases value with
  | none => trivial
  | some value =>
      refine issues_run_bind ?_ fun _ => trivial
      exact issues_run_orFail ⟨fun _ => ⟨trivial, fun _ => ⟨_, rfl⟩⟩, fun _ => trivial⟩

theorem updateContacts_quiet (auth : AuthUser) (body : UpdateContactsRequest) :
    (updateContacts env auth body).run.Issues (AuthOp.Quiet env) := by
  refine issues_run_bind issues_run_ofExcept fun key => ?_
  refine issues_run_bind issues_run_ofExcept fun idxKey => ?_
  refine issues_run_bind (encryptContact_quiet key body.email) fun email => ?_
  refine issues_run_bind (encryptContact_quiet key body.phone) fun phone => ?_
  refine issues_run_bind (encryptContact_quiet key body.pushToken) fun push => ?_
  refine issues_run_bind (quiet_ask fun _ => ⟨trivial, fun _ => ⟨_, rfl⟩⟩) fun now => ?_
  exact issues_run_bind (quiet_query fun _ => ⟨trivial, fun _ => ⟨_, rfl⟩⟩) fun _ => trivial

theorem deleteContacts_quiet (auth : AuthUser) :
    (deleteContacts auth).run.Issues (AuthOp.Quiet env) :=
  issues_run_bind (quiet_query fun _ => ⟨trivial, fun _ => ⟨_, rfl⟩⟩) fun _ => trivial

/-- A request that may be answered with any tokens, by a program that issues none. -/
theorem answers_of_quiet {handler : AuthHandler AuthReply} {request : AuthRequest}
    {phase : AuthPhase}
    (hrequest : phase.request = some request)
    (hearned : ∀ phase : AuthPhase, phase.Earned env request)
    (hquiet : handler.run.Issues (AuthOp.Quiet env)) :
    AuthConforms env handler.run phase (Answers env request) :=
  (conforms_quiet hquiet).mono fun _ phase' hsame =>
    ⟨hsame.request.trans hrequest, fun _ _ => hearned phase'⟩

/-! ### All programs -/

theorem reply_conforms {handler : AuthHandler AuthReply} {request : AuthRequest} {phase : AuthPhase}
    (h : AuthConforms env handler.run phase (Answers env request)) :
    AuthConforms env handler.reply phase fun result phase' =>
      phase'.Allows env (.respond request result) := by
  refine conforms_bind.mpr (h.mono ?_)
  rintro (e | reply) phase' ⟨hrequest, htokens⟩
  · exact ⟨hrequest, nofun⟩
  · refine ⟨hrequest, fun response heq => htokens response ?_⟩
    rw [Except.ok.inj heq]

/-- The extractor goes before the handler of its route. -/
theorem withAuthUser_conforms {authorization : Option String}
    {handler : AuthUser → AuthHandler AuthReply}
    {request : AuthRequest} {phase : AuthPhase} (hrequest : phase.request = some request)
    (h : ∀ auth phase', phase.SameButClock phase' →
      AuthConforms env (handler auth).run phase' (Answers env request)) :
    AuthConforms env (withAuthUser authorization handler) phase fun result phase' =>
      phase'.Allows env (.respond request result) := by
  have hextract : (AuthUser.fromRequestParts authorization).run.Issues (AuthOp.Quiet env) := by
    refine issues_run_bind issues_run_okOr fun token => ?_
    exact issues_run_bind
      (issues_run_orFail ⟨fun _ => ⟨trivial, fun _ => ⟨_, rfl⟩⟩, fun _ => trivial⟩)
      fun claims => trivial
  refine conforms_bind.mpr ((conforms_quiet hextract).mono ?_)
  rintro (text | auth) phase' hsame
  · exact ⟨hsame.request.trans hrequest, nofun⟩
  · exact reply_conforms (h auth phase' hsame)

theorem handler_conforms {request : AuthRequest} {phase : AuthPhase}
    (hrequest : phase.request = some request) (hexchanged : phase.exchanged = none)
    (hissued : phase.issued = false) :
    AuthConforms env (request.handler env) phase fun result phase' =>
      phase'.Allows env (.respond request result) := by
  cases request with
  | challenge => exact reply_conforms (challenge_conforms hrequest)
  | verify body => exact reply_conforms (verify_conforms hrequest hissued)
  | linkWallet authorization body =>
      refine withAuthUser_conforms hrequest fun auth phase' hsame => ?_
      exact linkWallet_conforms (hsame.request.trans hrequest) (hsame.issued.trans hissued)
  | oauthCallback provider jar query =>
      exact reply_conforms (oauthCallback_conforms hrequest hissued)
  | refresh body => exact reply_conforms (refresh_conforms hrequest hexchanged hissued)
  | logout body => exact reply_conforms (logout_conforms hrequest)
  | updateContacts authorization body =>
      refine withAuthUser_conforms hrequest fun auth phase' hsame => ?_
      exact answers_of_quiet (hsame.request.trans hrequest) (fun _ => trivial)
        (updateContacts_quiet auth body)
  | deleteContacts authorization =>
      refine withAuthUser_conforms hrequest fun auth phase' hsame => ?_
      exact answers_of_quiet (hsame.request.trans hrequest) (fun _ => trivial)
        (deleteContacts_quiet auth)

/-- **Every program keeps to the discipline.** -/
theorem AuthEntry.conforms {p : AuthProgram Unit} (h : AuthEntry env p) :
    AuthConforms env p AuthPhase.start fun _ _ => True := by
  cases h with
  | serve request =>
      refine conforms_bind.mpr (conforms_issue.mpr ⟨rfl, fun _ => ?_⟩)
      refine conforms_bind.mpr ((handler_conforms rfl rfl rfl).mono ?_)
      exact fun result phase hrespond => ⟨hrespond, fun _ => trivial⟩
  | cleanup =>
      exact ⟨trivial, fun _ => ⟨trivial, fun _ => ⟨trivial, fun _ => ⟨trivial, fun _ => trivial⟩⟩⟩⟩
  | tick => exact ⟨trivial, fun _ => trivial⟩

end Conformance

/-! ## Histories -/

section Histories

variable {env : Env} {w : AuthWorld} {events : List AuthEvent}
variable {pool : Pool AuthOp AuthOp.Ans AuthWorld}

/-- What allowed steps preserve, a history preserves. -/
theorem authHistory_invariant (cond : List AuthEvent → AuthEvent → Prop)
    (Inv : List AuthEvent → AuthWorld → Prop) (hinit : Inv [] w)
    (hran : ∀ past i (step : AuthStep), step.Valid performAuth →
      (authPhase i past).Allows env step.op → cond past (.ran i step) → Inv past step.pre →
      Inv (past ++ [.ran i step]) step.post)
    (hstopped : ∀ past i w', Inv past w' → Inv (past ++ [.stopped i]) w')
    (h : AuthHistory env ⟨w, []⟩ events pool) (hcond : Meets cond events) :
    Inv events pool.world := by
  have hentry : ∀ p, AuthEntry env p → AuthConforms env p AuthPhase.start fun _ _ => True :=
    fun p hp => hp.conforms
  refine History.invariant ?_ hentry cond Inv hinit hran (fun past i _ => hstopped past i _) h hcond
  exact fun _ => trivial

/-- Rows that were not there at the start were inserted by steps of the history. -/
theorem rows_inserted {ρ : Type} (rows : AuthWorld → List ρ)
    (inserts : ρ → List AuthEvent → AuthEvent → Prop)
    (hstep : ∀ past i (step : AuthStep), step.Valid performAuth →
      (authPhase i past).Allows env step.op → ∀ row ∈ rows step.post,
        row ∈ rows step.pre ∨ inserts row past (.ran i step))
    (h : AuthHistory env ⟨w, []⟩ events pool) (hempty : rows w = []) :
    ∀ row ∈ rows pool.world, Occurs (inserts row) events := by
  refine authHistory_invariant (fun _ _ => True)
    (fun events w' => ∀ row ∈ rows w', Occurs (inserts row) events) ?_ ?_ ?_ h
      fun _ _ _ _ => trivial
  · intro row hrow
    rw [hempty] at hrow
    cases hrow
  · intro past i step hvalid hallowed _ hpast row hrow
    rcases hstep past i step hvalid hallowed row hrow with hold | hnew
    · exact occurs_snoc.mpr (Or.inl (hpast row hold))
    · exact occurs_snoc.mpr (Or.inr hnew)
  · intro past i w' hpast row hrow
    exact occurs_snoc.mpr (Or.inl (hpast row hrow))

/-- Every step was allowed in the phase of its program. -/
theorem authHistory_allowed (h : AuthHistory env ⟨w, []⟩ events pool)
    {before after : List AuthEvent}
    {i : ℕ} {step : AuthStep} (hevents : events = before ++ .ran i step :: after) :
    (authPhase i before).Allows env step.op := by
  have hentry : ∀ p, AuthEntry env p → AuthConforms env p AuthPhase.start fun _ _ => True :=
    fun p hp => hp.conforms
  refine History.step_allowed ?_ hentry h hevents
  exact fun _ => trivial

/-- What allowed steps preserve of the phase of a program, lasts. -/
theorem authPhase_lasts {Q : AuthPhase → Prop} {i : ℕ} (hnext : ∀ phase op answer,
      AuthPhase.Allows env phase op → Q phase → Q (phase.next op answer))
    {before after : List AuthEvent} (h : AuthHistory env ⟨w, []⟩ (before ++ after) pool)
    (hQ : Q (authPhase i before)) : Q (authPhase i (before ++ after)) := by
  have hentry : ∀ p, AuthEntry env p → AuthConforms env p AuthPhase.start fun _ _ => True :=
    fun p hp => hp.conforms
  refine History.phase_lasts ?_ hentry hnext (fun _ => id) h hQ
  exact fun _ => trivial

/-- The request that a program serves, it has received. -/
theorem request_was_received {i : ℕ} {request : AuthRequest}
    (h : (authPhase i events).request = some request) :
    ∃ v v', .ran i ⟨v, .receive request, (), v'⟩ ∈ events := by
  have hstart : AuthPhase.start.request ≠ some request := nofun
  obtain ⟨before, event, after, rfl, ⟨v, op, answer, v'⟩, rfl, hnot, hnext⟩ :=
    occurs_of_phase (P := fun phase : AuthPhase => phase.request = some request) hstart
      (fun _ => id) h
  refine ⟨v, v', ?_⟩
  rw [AuthPhase.request_of_next hnext hnot]
  simp

/-- What a program has as its reading of the clock, it has read itself. -/
theorem reading_was_read {i : ℕ} {now : ℚ} (h : (authPhase i events).reading = some now) :
    ∃ v v', .ran i ⟨v, .dbNow, now, v'⟩ ∈ events := by
  have hstart : AuthPhase.start.reading ≠ some now := nofun
  obtain ⟨before, event, after, rfl, ⟨v, op, answer, v'⟩, rfl, hnot, hnext⟩ :=
    occurs_of_phase (P := fun phase : AuthPhase => phase.reading = some now) hstart (fun _ => id) h
  refine ⟨v, v', ?_⟩
  rw [AuthPhase.reading_of_next hnext hnot]
  simp

/-- The nonce that a program has consumed, it has consumed in a step of its own. -/
theorem nonce_was_consumed {i : ℕ} {nonce : String} (h : (authPhase i events).nonce = some nonce) :
    Occurs (fun _ event => ∃ v now out v',
      event = .ran i ⟨v, .sql (.consumeNonce nonce now), .ok (some out), v'⟩) events := by
  have hstart : AuthPhase.start.nonce ≠ some nonce := nofun
  refine (occurs_of_phase (P := fun phase : AuthPhase => phase.nonce = some nonce) hstart
    (fun _ => id) h).mono ?_
  rintro before event ⟨⟨v, op, answer, v'⟩, rfl, hnot, hnext⟩
  obtain ⟨now, out, hstep⟩ := AuthPhase.nonce_of_next hnext hnot
  exact ⟨v, now, out, v', congrArg _ hstep⟩

/-- The token that a program has exchanged, it has exchanged in a step of its own. -/
theorem token_was_exchanged {i : ℕ} {tokenHash : String}
    (h : (authPhase i events).exchanged = some tokenHash) :
    Occurs (fun _ event => ∃ v now userId v',
      event = .ran i ⟨v, .sql (.consumeToken tokenHash now), .ok (some userId), v'⟩) events := by
  have hstart : AuthPhase.start.exchanged ≠ some tokenHash := nofun
  refine (occurs_of_phase (P := fun phase : AuthPhase => phase.exchanged = some tokenHash) hstart
    (fun _ => id) h).mono ?_
  rintro before event ⟨⟨v, op, answer, v'⟩, rfl, hnot, hnext⟩
  obtain ⟨now, userId, hstep⟩ := AuthPhase.exchanged_of_next hnext hnot
  exact ⟨v, now, userId, v', congrArg _ hstep⟩

end Histories

end PactumCodex
