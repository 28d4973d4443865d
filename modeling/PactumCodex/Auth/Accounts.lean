import PactumCodex.Auth.Steps

/-!
# What programs know about accounts

The discipline of `Auth/Runs` is about nonces, wallets and refresh tokens.  Here
is the one about users: a program links, binds, stores and signs only for a user
it has found, been told or created, it keeps a user it has created to itself
until it links a wallet or binds an identity to it, and what it writes to
`user_contacts` it has encrypted itself.

`AccountPhase` is what a program has done so far, `Allows` the discipline, and
the handlers conform to it (`AuthEntry.conforms_account`).

## Strategy

The proofs follow the handlers, as in `Auth/Runs`.  Parts that stay in their phase
(`Stays`) may come first (`accountConforms_stays_bind`); the others are the lookups of
users, the statements that link or bind, and the encryptions.

* `resolveOrCreateOAuthUser_account` says that the user who is answered is known and
  not kept any more, since the identity was bound to it.
* `updateContacts_account` says that the columns of one call hold encryptions of its
  own fields.

At the end phases are read backwards: what a program has encrypted or received, it
has encrypted or received in a step of its own.
-/

namespace PactumCodex

open Interaction

/-- What a program has encrypted. -/
structure Encryption where
  plaintext : String
  key : Bytes 32
  ciphertext : List UInt8
  nonce : List UInt8

/-- What a program has done so far, as far as accounts are concerned. -/
structure AccountPhase where
  /-- the request it serves -/
  request : Option AuthRequest
  /-- the user of the access token it was given -/
  bearer : Option Uuid
  /-- the users it knows -/
  known : List Uuid
  /-- a user it has created and keeps to itself -/
  created : Option Uuid
  /-- the user whose wallet it has not found -/
  unlinked : Option Uuid
  /-- the identity it has looked up -/
  identity : Option (String × String)
  /-- the user that was bound to this identity -/
  bound : Option Uuid
  /-- the user it has found with the same email and provider -/
  sameEmail : Option Uuid
  /-- what it has written to `auth_oauth` -/
  resolved : Option OAuthAccount
  encrypted : List Encryption

namespace AccountPhase

def start : AccountPhase := ⟨none, none, [], none, none, none, none, none, none, []⟩

/-- The phase after an operation. -/
def next (phase : AccountPhase) : (op : AuthOp) → op.Ans → AccountPhase
  | .receive request, _ => { phase with request := some request }
  | .decodeToken _, .ok claims =>
      { phase with bearer := some claims.sub, known := claims.sub :: phase.known }
  | .encrypt plaintext key, .ok (ciphertext, nonce) =>
      { phase with encrypted := ⟨plaintext, key, ciphertext, nonce⟩ :: phase.encrypted }
  | .sql .insertUser, .ok userId =>
      { phase with created := some userId, known := userId :: phase.known }
  | .sql (.insertWallet ..), .ok _ => { phase with created := none }
  | .sql (.userOfWallet _), .ok (some userId) => { phase with known := userId :: phase.known }
  | .sql (.consumeToken ..), .ok (some userId) => { phase with known := userId :: phase.known }
  | .sql (.walletOfUser userId), .ok none => { phase with unlinked := some userId }
  | .sql (.userOfOAuth provider providerId), .ok found =>
      { phase with
        identity := some (provider, providerId)
        bound := found
        known := found.toList ++ phase.known }
  | .sql (.sameProviderUser ..), .ok found =>
      { phase with sameEmail := found, known := found.toList ++ phase.known }
  | .sql (.upsertOAuth userId provider providerId), .ok _ =>
      { phase with resolved := some ⟨userId, provider, providerId⟩, created := none }
  | _, _ => phase

section Next

variable {phase : AccountPhase} {op : AuthOp} {answer : op.Ans} {v v' : AuthWorld}

theorem request_of_next {request : AuthRequest} (h : (phase.next op answer).request = some request)
    (hnot : phase.request ≠ some request) :
    (⟨v, op, answer, v'⟩ : AuthStep) = ⟨v, .receive request, (), v'⟩ := by
  unfold next at h
  split at h
  case h_1 =>
    obtain rfl := Option.some.inj h
    rfl
  all_goals exact absurd h hnot

theorem encrypted_of_next {encryption : Encryption}
    (h : encryption ∈ (phase.next op answer).encrypted) (hnot : encryption ∉ phase.encrypted) :
    (⟨v, op, answer, v'⟩ : AuthStep) = ⟨v, .encrypt encryption.plaintext encryption.key,
      .ok (encryption.ciphertext, encryption.nonce), v'⟩ := by
  unfold next at h
  split at h
  case h_3 =>
    rcases List.mem_cons.mp h with rfl | hold
    · rfl
    · exact absurd hold hnot
  all_goals exact absurd h hnot

end Next

/-- The two columns hold the encryption of the value, or nothing if there is none. -/
def Holds (phase : AccountPhase) (key : Bytes 32) (value : Option String)
    (ciphertext nonce : Option (List UInt8)) : Prop :=
  value = none ∧ ciphertext = none ∧ nonce = none ∨
    ∃ encryption ∈ phase.encrypted, value = some encryption.plaintext ∧ encryption.key = key ∧
      ciphertext = some encryption.ciphertext ∧ nonce = some encryption.nonce

/-- The row is what `update_contacts` stores for the body. -/
structure Stores (env : Env) (phase : AccountPhase) (body : UpdateContactsRequest)
    (key idxKey : Bytes 32) (row : UserContact) : Prop where
  key_eq : decodeHexKey32 env.config.encryptionKey = .ok key
  idxKey_eq : decodeHexKey32 env.config.encryptionIndexKey = .ok idxKey
  email : phase.Holds key body.email row.emailEnc row.emailNonce
  index : row.emailIndex = body.email.map fun email => env.crates.hmacIndex email idxKey
  phone : phase.Holds key body.phone row.phoneEnc row.phoneNonce
  push : phase.Holds key body.pushToken row.pushTokenEnc row.pushTokenNonce

/-- The program issues its access token without a wallet: it serves an OAuth callback, or a refresh
that has not found a wallet of the user. -/
def OmitsWallet (phase : AccountPhase) (userId : Uuid) : Prop :=
  (∃ provider jar query, phase.request = some (.oauthCallback provider jar query)) ∨
    (∃ body, phase.request = some (.refresh body)) ∧ phase.unlinked = some userId

/-- The operations a program may issue. -/
def Allows (env : Env) (phase : AccountPhase) : AuthOp → Prop
  | .receive _ => phase.request = none
  | .sql (.insertWallet userId _) => userId ∈ phase.known ∧
      (phase.created = some userId ∨
        ∃ authorization body, phase.request = some (.linkWallet authorization body))
  | .sql (.upsertOAuth userId provider providerId) => userId ∈ phase.known ∧
      phase.identity = some (provider, providerId) ∧
      (phase.bound = some userId ∨ phase.bound = none ∧ (phase.sameEmail = some userId ∨
        phase.sameEmail = none ∧ phase.created = some userId))
  | .sql (.upsertEmail userId emailEnc emailNonce emailIndex _) =>
      (∃ account, phase.resolved = some account ∧ account.userId = userId) ∧
      ∃ encryption ∈ phase.encrypted, ∃ idxKey,
        decodeHexKey32 env.config.encryptionKey = .ok encryption.key ∧
        decodeHexKey32 env.config.encryptionIndexKey = .ok idxKey ∧
        emailEnc = encryption.ciphertext ∧ emailNonce = encryption.nonce ∧
        emailIndex = env.crates.hmacIndex encryption.plaintext idxKey
  | .sql (.mergeContact row) => phase.bearer = some row.userId ∧
      ∃ authorization body key idxKey, phase.request = some (.updateContacts authorization body) ∧
        phase.Stores env body key idxKey row
  | .sql (.insertToken userId ..) => userId ∈ phase.known ∧ phase.created ≠ some userId
  | .encodeToken claims => claims.sub ∈ phase.known ∧ phase.created ≠ some claims.sub ∧
      (claims.pubkey = none ↔ phase.OmitsWallet claims.sub)
  | _ => True

/-- The operation is allowed in the phase, and does not change it. -/
def Stays (env : Env) (phase : AccountPhase) (op : AuthOp) : Prop :=
  phase.Allows env op ∧ ∀ answer, phase.next op answer = phase

end AccountPhase

/-! ## Conformance -/

section Conformance

variable {env : Env} {α β : Type}

/-- The program conforms, starting in the given phase. -/
abbrev AccountConforms (env : Env) (p : AuthProgram α) (phase : AccountPhase)
    (Φ : α → AccountPhase → Prop) : Prop :=
  Conforms AccountPhase.next (AccountPhase.Allows env) p phase Φ

theorem accountConforms_query {s : AuthStmt} {phase : AccountPhase}
    {Φ : Except AppError s.Out → AccountPhase → Prop} (hs : phase.Allows env (.sql s))
    (hok : ∀ out, Φ (.ok out) (phase.next (.sql s) (.ok out)))
    (herror : ∀ e, Φ (.error .internalError) (phase.next (.sql s) (.error e))) :
    AccountConforms env s.query.run phase Φ := by
  refine conforms_orFail.mpr ⟨hs, fun answer => ?_⟩
  constructor
  · rintro out rfl
    exact hok out
  · rintro e rfl
    exact herror e

theorem accountConforms_query_bind {s : AuthStmt} {f : s.Out → AuthHandler β} {phase : AccountPhase}
    {Φ : Except AppError β → AccountPhase → Prop} (hs : phase.Allows env (.sql s))
    (hok : ∀ out, AccountConforms env (f out).run (phase.next (.sql s) (.ok out)) Φ)
    (herror : ∀ e, Φ (.error .internalError) (phase.next (.sql s) (.error e))) :
    AccountConforms env (s.query >>= f).run phase Φ :=
  conforms_run_bind.mpr (accountConforms_query hs hok herror)

/-- Operations that stay in the phase may come first. -/
theorem accountConforms_stays_bind {ε : Type} {x : Fallible AuthOp AuthOp.Ans ε α}
    {f : α → Fallible AuthOp AuthOp.Ans ε β} {phase : AccountPhase}
    {Φ : Except ε β → AccountPhase → Prop} (hx : x.run.Issues (phase.Stays env))
    (hok : ∀ a, AccountConforms env (f a).run phase Φ) (herror : ∀ e, Φ (.error e) phase) :
    AccountConforms env (x >>= f).run phase Φ :=
  conforms_quiet_run_bind hx (fun _ hop => hop) hok herror

theorem accountConforms_stays {p : AuthProgram α} {phase : AccountPhase}
    (hp : p.Issues (phase.Stays env)) : AccountConforms env p phase fun _ _ => True :=
  (conforms_of_issues hp fun _ hop => hop).mono fun _ _ _ => trivial

theorem stays_ask {phase : AccountPhase} {op : AuthOp} (h : phase.Stays env op) :
    (Fallible.ask op : AuthHandler op.Ans).run.Issues (phase.Stays env) := issues_run_ask h

theorem stays_query {phase : AccountPhase} {s : AuthStmt} (h : phase.Stays env (.sql s)) :
    s.query.run.Issues (phase.Stays env) := issues_run_orFail ⟨h, fun _ => trivial⟩

/-! ### Tokens -/

/-- Tokens are issued for a user that is known and not kept; this changes nothing. -/
theorem issueTokens_stays {userId : Uuid} {pubkey : Option String} {phase : AccountPhase}
    (hknown : userId ∈ phase.known) (hcreated : phase.created ≠ some userId)
    (hpubkey : pubkey = none ↔ phase.OmitsWallet userId) :
    (issueTokens env userId pubkey).run.Issues (phase.Stays env) := by
  have haccess : (issueAccessToken env userId pubkey).run.Issues (phase.Stays env) := by
    refine issues_run_bind (stays_ask ⟨trivial, fun _ => rfl⟩) fun now => ?_
    refine issues_run_bind (stays_ask ⟨trivial, fun _ => rfl⟩) fun jti => ?_
    exact issues_run_orFail ⟨⟨⟨hknown, hcreated, hpubkey⟩, fun _ => rfl⟩, fun _ => trivial⟩
  have hrefresh : (issueAndStoreRefreshToken env userId).run.Issues (phase.Stays env) := by
    refine issues_run_bind (stays_ask ⟨trivial, fun _ => rfl⟩) fun raw => ?_
    refine issues_run_bind (stays_ask ⟨trivial, fun _ => rfl⟩) fun now => ?_
    refine issues_run_bind (stays_query ⟨⟨hknown, hcreated⟩, ?_⟩) fun _ => trivial
    rintro (e | out) <;> rfl
  exact issues_run_bind haccess fun _ => issues_run_bind hrefresh fun _ => trivial

theorem consumeSignedNonce_stays {body : VerifyRequest} {phase : AccountPhase} :
    (consumeSignedNonce env body).run.Issues (phase.Stays env) := by
  refine issues_run_bind (stays_ask ⟨trivial, fun _ => rfl⟩) fun now => ?_
  refine issues_run_bind (stays_query ⟨trivial, ?_⟩) fun row => ?_
  · rintro (e | out) <;> rfl
  cases row with
  | none => trivial
  | some consumed =>
      by_cases hsigned : body.signed env = true
      · simp only [Option.isNone_some, Bool.false_eq_true, if_false, hsigned, not_true]
        trivial
      · simp only [Option.isNone_some, Bool.false_eq_true, if_false, hsigned, not_false_eq_true,
          if_true]
        trivial

/-! ### Sign in with a wallet -/

theorem challenge_account {phase : AccountPhase} :
    AccountConforms env challenge.run phase fun _ _ => True := by
  refine accountConforms_stays (issues_run_bind (stays_ask ⟨trivial, fun _ => rfl⟩) fun id => ?_)
  refine issues_run_bind (stays_ask ⟨trivial, fun _ => rfl⟩) fun now => ?_
  refine issues_run_bind (stays_query ⟨trivial, ?_⟩) fun _ => trivial
  rintro (e | out) <;> rfl

/-- A wallet that was found has a known user; otherwise the wallet is linked to a new one. -/
theorem userOfKey_account {pubkey : String} {phase : AccountPhase} {existing : Option Uuid}
    (hknown : ∀ userId, existing = some userId → userId ∈ phase.known)
    (hcreated : phase.created = none) :
    AccountConforms env (userOfKey pubkey existing).run phase fun r phase' =>
      ∀ userId, r = .ok userId → phase'.request = phase.request ∧ userId ∈ phase'.known ∧
        phase'.created = none := by
  cases existing with
  | some userId =>
      intro userId' heq
      rw [← Except.ok.inj heq]
      exact ⟨rfl, hknown userId rfl, hcreated⟩
  | none =>
      refine accountConforms_query_bind trivial (fun userId => ?_) fun _ => nofun
      refine accountConforms_query_bind ⟨List.mem_cons_self, Or.inl rfl⟩ (fun _ => ?_)
        fun _ => nofun
      intro userId' heq
      rw [← Except.ok.inj heq]
      exact ⟨rfl, List.mem_cons_self, rfl⟩

/-- A token with a wallet is right where the request is neither an OAuth callback nor a refresh. -/
theorem names_wallet_iff {phase : AccountPhase} {request : AuthRequest} {pubkey : String}
    {userId : Uuid}
    (hrequest : phase.request = some request)
    (hoauth : ∀ provider jar query, request ≠ .oauthCallback provider jar query)
    (hrefresh : ∀ body, request ≠ .refresh body) :
    some pubkey = none ↔ phase.OmitsWallet userId := by
  refine ⟨nofun, ?_⟩
  rintro (⟨provider, jar, query, h⟩ | ⟨⟨body, h⟩, -⟩)
  · exact absurd (Option.some.inj (hrequest.symm.trans h)) (hoauth provider jar query)
  · exact absurd (Option.some.inj (hrequest.symm.trans h)) (hrefresh body)

theorem verify_account {body : VerifyRequest} {phase : AccountPhase}
    (hrequest : phase.request = some (.verify body)) (hcreated : phase.created = none) :
    AccountConforms env (verify env body).run phase fun _ _ => True := by
  refine accountConforms_stays_bind consumeSignedNonce_stays (fun _ => ?_) fun _ => trivial
  refine accountConforms_query_bind trivial (fun existing => ?_) fun _ => trivial
  -- what the lookup tells, and what it leaves as it was
  have hfound : ∀ userId, existing = some userId →
      userId ∈ (phase.next (.sql (.userOfWallet body.pubkey)) (.ok existing)).known := by
    rintro userId rfl
    exact List.mem_cons_self
  have hkept : (phase.next (.sql (.userOfWallet body.pubkey)) (.ok existing)).created = none := by
    cases existing <;> exact hcreated
  have hsame : (phase.next (.sql (.userOfWallet body.pubkey)) (.ok existing)).request =
      some (.verify body) := by
    cases existing <;> exact hrequest
  refine conforms_run_bind.mpr ((userOfKey_account hfound hkept).mono ?_)
  rintro (e | userId) phase' huser
  · trivial
  · obtain ⟨hrequest', hknown, hcreated'⟩ := huser userId rfl
    refine accountConforms_stays (issueTokens_stays hknown ?_ ?_)
    · rw [hcreated']
      exact nofun
    · exact names_wallet_iff (hrequest'.trans hsame) (fun _ _ _ => nofun) fun _ => nofun

theorem linkWallet_account {auth : AuthUser} {authorization : Option String} {body : VerifyRequest}
    {phase : AccountPhase} (hrequest : phase.request = some (.linkWallet authorization body))
    (hknown : auth.userId ∈ phase.known) :
    AccountConforms env (linkWallet env auth body).run phase fun _ _ => True := by
  by_cases hlinked : auth.pubkey.isSome = true
  · -- a token with a wallet is refused
    simp only [linkWallet, hlinked, if_true]
    trivial
  simp only [linkWallet, hlinked, Bool.false_eq_true, if_false]
  refine accountConforms_stays_bind consumeSignedNonce_stays (fun _ => ?_) fun _ => trivial
  refine accountConforms_query_bind trivial (fun existing => ?_) fun _ => trivial
  cases existing with
  | some userId => trivial
  | none =>
      refine accountConforms_query_bind
        ⟨hknown, Or.inr ⟨authorization, body, hrequest⟩⟩ (fun _ => ?_)
        fun _ => trivial
      refine accountConforms_stays (issueTokens_stays hknown ?_ ?_)
      · intro hcreated
        cases hcreated
      · exact names_wallet_iff hrequest (by simp) (by simp)

/-! ### Sign in with a provider -/

theorem exchangeCodeAndFetchIdentity_stays {provider : OAuthProvider} {code : String}
    {phase : AccountPhase} :
    (exchangeCodeAndFetchIdentity env provider code).run.Issues (phase.Stays env) := by
  refine issues_run_bind (issues_run_orFail ⟨⟨trivial, fun _ => rfl⟩, fun _ => trivial⟩)
    fun tokenJson => ?_
  refine issues_run_bind issues_run_okOr fun accessToken => ?_
  refine issues_run_bind (issues_run_orFail ⟨⟨trivial, fun _ => rfl⟩, fun _ => trivial⟩)
    fun profileJson => ?_
  refine issues_run_bind issues_run_okOr fun providerId => ?_
  exact issues_run_bind issues_run_okOr fun email => trivial

/-- The email is stored for the user the identity was bound to. -/
theorem upsertEmailContact_account {userId : Uuid} {email : String} {phase : AccountPhase}
    (hresolved : ∃ account, phase.resolved = some account ∧ account.userId = userId) :
    AccountConforms env (upsertEmailContact env userId email).run phase fun _ phase' =>
      phase'.known = phase.known ∧ phase'.created = phase.created ∧
        phase'.request = phase.request := by
  unfold upsertEmailContact
  cases hkey : decodeHexKey32 env.config.encryptionKey with
  | error e => exact ⟨rfl, rfl, rfl⟩
  | ok key =>
      cases hidx : decodeHexKey32 env.config.encryptionIndexKey with
      | error e => exact ⟨rfl, rfl, rfl⟩
      | ok idxKey =>
          refine conforms_orFail_bind.mpr ⟨trivial, fun encrypted => ⟨?_, ?_⟩⟩
          · rintro ⟨emailEnc, nonce⟩ rfl
            refine conforms_ask_bind.mpr ⟨trivial, fun now => ?_⟩
            refine accountConforms_query ⟨hresolved, ?_⟩ (fun _ => ⟨rfl, rfl, rfl⟩)
              fun _ => ⟨rfl, rfl, rfl⟩
            exact ⟨⟨email, key, emailEnc, nonce⟩, List.mem_cons_self, idxKey, hkey, hidx,
              rfl, rfl, rfl⟩
          · rintro e rfl
            exact ⟨rfl, rfl, rfl⟩

/-- The user of an identity, and where it comes from. -/
theorem userOfIdentity_account {provider : OAuthProvider} {emailIndex : List UInt8}
    {phase : AccountPhase} (hknown : ∀ userId, phase.bound = some userId → userId ∈ phase.known) :
    AccountConforms env (userOfIdentity provider emailIndex phase.bound).run phase fun r phase' =>
      phase'.identity = phase.identity ∧ phase'.request = phase.request ∧
        ∀ userId, r = .ok userId → userId ∈ phase'.known ∧
          (phase'.bound = some userId ∨ phase'.bound = none ∧ (phase'.sameEmail = some userId ∨
            phase'.sameEmail = none ∧ phase'.created = some userId)) := by
  cases hbound : phase.bound with
  | some userId =>
      refine ⟨rfl, rfl, fun userId' heq => ?_⟩
      rw [← Except.ok.inj heq]
      exact ⟨hknown userId hbound, Or.inl hbound⟩
  | none =>
      refine accountConforms_query_bind trivial (fun found => ?_) fun _ => ⟨rfl, rfl, nofun⟩
      cases found with
      | some userId =>
          refine ⟨rfl, rfl, fun userId' heq => ?_⟩
          rw [← Except.ok.inj heq]
          exact ⟨List.mem_cons_self, Or.inr ⟨hbound, Or.inl rfl⟩⟩
      | none =>
          refine accountConforms_query trivial (fun userId => ⟨rfl, rfl, fun userId' heq => ?_⟩)
            fun _ => ⟨rfl, rfl, nofun⟩
          rw [← Except.ok.inj heq]
          exact ⟨List.mem_cons_self, Or.inr ⟨hbound, Or.inr ⟨rfl, rfl⟩⟩⟩

theorem bindIdentity_account {provider : OAuthProvider} {providerId email : String}
    {emailIndex : List UInt8} {phase : AccountPhase}
    (hidentity : phase.identity = some (provider.asStr, providerId))
    (hknown : ∀ userId, phase.bound = some userId → userId ∈ phase.known) :
    AccountConforms env
      (bindIdentity env provider providerId email phase.bound emailIndex).run phase
      fun r phase' => phase'.request = phase.request ∧
        ∀ userId, r = .ok (.user userId) → userId ∈ phase'.known ∧ phase'.created = none := by
  refine conforms_run_bind.mpr ((userOfIdentity_account hknown).mono ?_)
  rintro (e | userId) phase₁ ⟨hidentity₁, hrequest₁, huser⟩
  · exact ⟨hrequest₁, nofun⟩
  obtain ⟨hknown₁, hsource⟩ := huser userId rfl
  refine accountConforms_query_bind ⟨hknown₁, hidentity₁.trans hidentity, hsource⟩ (fun _ => ?_)
    fun _ => ⟨hrequest₁, nofun⟩
  have hresolved : ∃ account, (phase₁.next (.sql (.upsertOAuth userId provider.asStr providerId))
      (.ok ())).resolved = some account ∧ account.userId = userId :=
    ⟨⟨userId, provider.asStr, providerId⟩, rfl, rfl⟩
  refine conforms_run_bind.mpr ((upsertEmailContact_account hresolved).mono ?_)
  rintro (e | ⟨⟩) phase₂ ⟨hknown₂, hcreated₂, hrequest₂⟩
  · exact ⟨hrequest₂.trans hrequest₁, nofun⟩
  · refine ⟨hrequest₂.trans hrequest₁, fun userId' heq => ?_⟩
    obtain rfl : userId = userId' := OAuthUserResolution.user.inj (Except.ok.inj heq)
    exact ⟨hknown₂ ▸ hknown₁, hcreated₂⟩

theorem resolveOrCreateOAuthUser_account {provider : OAuthProvider} {providerId email : String}
    {phase : AccountPhase} :
    AccountConforms env (resolveOrCreateOAuthUser env provider providerId email).run phase
      fun r phase' => phase'.request = phase.request ∧
        ∀ userId, r = .ok (.user userId) → userId ∈ phase'.known ∧ phase'.created = none := by
  refine accountConforms_query_bind trivial (fun found => ?_) fun _ => ⟨rfl, nofun⟩
  refine accountConforms_stays_bind issues_run_ofExcept (fun idxKey => ?_) fun _ => ⟨rfl, nofun⟩
  refine accountConforms_stays_bind (stays_query ⟨trivial, ?_⟩) (fun conflicting => ?_)
    fun _ => ⟨rfl, nofun⟩
  · rintro (e | out) <;> rfl
  split
  · exact ⟨rfl, nofun⟩
  · let phase' := phase.next (.sql (.userOfOAuth provider.asStr providerId)) (.ok found)
    have hknown : ∀ userId, phase'.bound = some userId → userId ∈ phase'.known := by
      rintro userId hbound
      obtain rfl : found = some userId := hbound
      exact List.mem_cons_self
    have hidentity : phase'.identity = some (provider.asStr, providerId) := rfl
    exact bindIdentity_account hidentity hknown

theorem oauthCallback_account {provider : OAuthProvider} {jar : List (String × String)}
    {query : OAuthCallbackQuery} {phase : AccountPhase}
    (hrequest : phase.request = some (.oauthCallback provider jar query)) :
    AccountConforms env (oauthCallback env jar query provider).run phase fun _ _ => True := by
  refine accountConforms_stays_bind issues_run_ofExcept (fun _ => ?_) fun _ => trivial
  refine accountConforms_stays_bind exchangeCodeAndFetchIdentity_stays (fun identity => ?_)
    fun _ => trivial
  refine conforms_run_bind.mpr (resolveOrCreateOAuthUser_account.mono ?_)
  rintro (e | userId | details) phase' ⟨hrequest', huser⟩
  · trivial
  · obtain ⟨hknown, hcreated'⟩ := huser userId rfl
    refine accountConforms_stays (issueTokens_stays hknown ?_ ⟨fun _ => Or.inl ?_, fun _ => rfl⟩)
    · rw [hcreated']
      exact nofun
    · exact ⟨provider, jar, query, hrequest'.trans hrequest⟩
  · trivial

/-! ### Refresh and logout -/

theorem refresh_account {body : RefreshRequest} {phase : AccountPhase}
    (hrequest : phase.request = some (.refresh body)) (hcreated : phase.created = none)
    (hunlinked : phase.unlinked = none) :
    AccountConforms env (refresh env body).run phase fun _ _ => True := by
  refine accountConforms_stays_bind (stays_ask ⟨trivial, fun _ => rfl⟩) (fun now => ?_)
    fun _ => trivial
  refine accountConforms_query_bind trivial (fun row => ?_) fun _ => trivial
  cases row with
  | none => trivial
  | some userId =>
      refine accountConforms_query_bind trivial (fun pubkey => ?_) fun _ => trivial
      cases pubkey with
      | none =>
          refine accountConforms_stays (issueTokens_stays List.mem_cons_self ?_
            ⟨fun _ => Or.inr ⟨⟨body, hrequest⟩, rfl⟩, fun _ => rfl⟩)
          exact fun heq => nomatch hcreated.symm.trans heq
      | some key =>
          refine accountConforms_stays (issueTokens_stays List.mem_cons_self ?_ ⟨nofun, ?_⟩)
          · exact fun heq => nomatch hcreated.symm.trans heq
          · rintro (⟨provider, jar, query, heq⟩ | ⟨-, heq⟩)
            · exact nomatch hrequest.symm.trans heq
            · exact nomatch hunlinked.symm.trans heq

theorem logout_account {body : RefreshRequest} {phase : AccountPhase} :
    AccountConforms env (logout env body).run phase fun _ _ => True := by
  refine accountConforms_stays (issues_run_bind (stays_query ⟨trivial, ?_⟩) fun _ => trivial)
  rintro (e | out) <;> rfl

/-! ### Contacts -/

/-- An encryption adds to what has been encrypted, and says what the columns hold. -/
theorem encryptContact_account {key : Bytes 32} {value : Option String} {phase : AccountPhase} :
    AccountConforms env (encryptContact key value).run phase fun r phase' =>
      ∀ encrypted, r = .ok encrypted →
        (∃ encrypted, phase' = { phase with encrypted } ∧ phase.encrypted ⊆ encrypted) ∧
        phase'.Holds key value (encrypted.map Prod.fst) (encrypted.map Prod.snd) := by
  cases value with
  | none =>
      intro encrypted heq
      rw [← Except.ok.inj heq]
      exact ⟨⟨phase.encrypted, rfl, List.Subset.refl _⟩, Or.inl ⟨rfl, rfl, rfl⟩⟩
  | some value =>
      refine conforms_orFail_bind.mpr ⟨trivial, fun answer => ⟨?_, fun _ _ => nofun⟩⟩
      rintro ⟨ciphertext, nonce⟩ rfl encrypted heq
      rw [← Except.ok.inj heq]
      refine ⟨⟨_, rfl, List.subset_cons_self _ _⟩, Or.inr ?_⟩
      exact ⟨⟨value, key, ciphertext, nonce⟩, List.mem_cons_self, rfl, rfl, rfl, rfl⟩

theorem AccountPhase.Holds.mono {phase phase' : AccountPhase} {key : Bytes 32}
    {value : Option String}
    {ciphertext nonce : Option (List UInt8)} (h : phase.Holds key value ciphertext nonce)
    (hsubset : phase.encrypted ⊆ phase'.encrypted) : phase'.Holds key value ciphertext nonce := by
  rcases h with hnone | ⟨encryption, hmem, hsome⟩
  · exact Or.inl hnone
  · exact Or.inr ⟨encryption, hsubset hmem, hsome⟩

theorem updateContacts_account {auth : AuthUser} {authorization : Option String}
    {body : UpdateContactsRequest} {phase : AccountPhase}
    (hrequest : phase.request = some (.updateContacts authorization body))
    (hbearer : phase.bearer = some auth.userId) :
    AccountConforms env (updateContacts env auth body).run phase fun _ _ => True := by
  unfold updateContacts
  cases hkey : decodeHexKey32 env.config.encryptionKey with
  | error e => trivial
  | ok key =>
      cases hidx : decodeHexKey32 env.config.encryptionIndexKey with
      | error e => trivial
      | ok idxKey =>
          show AccountConforms env (encryptContact key body.email >>= _).run phase _
          refine conforms_run_bind.mpr (encryptContact_account.mono ?_)
          rintro (e | email) phase₁ hemail
          · trivial
          obtain ⟨⟨encrypted₁, rfl, hsubset₁⟩, hemail⟩ := hemail email rfl
          refine conforms_run_bind.mpr (encryptContact_account.mono ?_)
          rintro (e | phone) phase₂ hphone
          · trivial
          obtain ⟨⟨encrypted₂, rfl, hsubset₂⟩, hphone⟩ := hphone phone rfl
          refine conforms_run_bind.mpr (encryptContact_account.mono ?_)
          rintro (e | push) phase₃ hpush
          · trivial
          obtain ⟨⟨encrypted₃, rfl, hsubset₃⟩, hpush⟩ := hpush push rfl
          refine conforms_ask_bind.mpr ⟨trivial, fun now => ?_⟩
          refine accountConforms_query_bind ⟨hbearer, ?_⟩ (fun _ => trivial) fun _ => trivial
          -- the three encryptions of this call, of which later ones keep the earlier
          refine ⟨authorization, body, key, idxKey, hrequest, hkey, hidx, ?_, rfl, ?_, hpush⟩
          · exact hemail.mono (List.Subset.trans hsubset₂ hsubset₃)
          · exact hphone.mono hsubset₃

theorem deleteContacts_account {auth : AuthUser} {phase : AccountPhase} :
    AccountConforms env (deleteContacts auth).run phase fun _ _ => True := by
  refine accountConforms_stays (issues_run_bind (stays_query ⟨trivial, ?_⟩) fun _ => trivial)
  rintro (e | out) <;> rfl

/-! ### All programs -/

theorem reply_account {handler : AuthHandler AuthReply} {phase : AccountPhase}
    (h : AccountConforms env handler.run phase fun _ _ => True) :
    AccountConforms env handler.reply phase fun _ _ => True := by
  refine conforms_bind.mpr (h.mono ?_)
  rintro (e | reply) _ _ <;> trivial

/-- The extractor makes the user of the token known. -/
theorem withAuthUser_account {authorization : Option String}
    {handler : AuthUser → AuthHandler AuthReply}
    {phase : AccountPhase} (h : ∀ auth phase', phase'.request = phase.request →
      phase'.bearer = some auth.userId → auth.userId ∈ phase'.known →
      AccountConforms env (handler auth).run phase' fun _ _ => True) :
    AccountConforms env (withAuthUser authorization handler) phase fun _ _ => True := by
  have hextract : AccountConforms env (AuthUser.fromRequestParts authorization).run phase
      fun r phase' => ∀ auth, r = .ok auth → phase'.request = phase.request ∧
        phase'.bearer = some auth.userId ∧ auth.userId ∈ phase'.known := by
    refine accountConforms_stays_bind issues_run_okOr (fun token => ?_) fun _ => nofun
    refine conforms_orFail_bind.mpr ⟨trivial, fun answer => ⟨?_, fun _ _ => nofun⟩⟩
    rintro claims rfl auth heq
    rw [← Except.ok.inj heq]
    exact ⟨rfl, rfl, List.mem_cons_self⟩
  refine conforms_bind.mpr (hextract.mono ?_)
  rintro (text | auth) phase' hauth
  · trivial
  · obtain ⟨hrequest, hbearer, hknown⟩ := hauth auth rfl
    exact reply_account (h auth phase' hrequest hbearer hknown)

theorem handler_account {request : AuthRequest} {phase : AccountPhase}
    (hrequest : phase.request = some request) (hcreated : phase.created = none)
    (hunlinked : phase.unlinked = none) :
    AccountConforms env (request.handler env) phase fun _ _ => True := by
  cases request with
  | challenge => exact reply_account challenge_account
  | verify body => exact reply_account (verify_account hrequest hcreated)
  | linkWallet authorization body =>
      refine withAuthUser_account fun auth phase' hsame _ hknown => ?_
      exact linkWallet_account (hsame.trans hrequest) hknown
  | oauthCallback provider jar query => exact reply_account (oauthCallback_account hrequest)
  | refresh body => exact reply_account (refresh_account hrequest hcreated hunlinked)
  | logout body => exact reply_account logout_account
  | updateContacts authorization body =>
      refine withAuthUser_account fun auth phase' hsame hbearer _ => ?_
      exact updateContacts_account (hsame.trans hrequest) hbearer
  | deleteContacts authorization =>
      exact withAuthUser_account fun auth phase' _ _ _ => deleteContacts_account

/-- **Every program keeps to the discipline.** -/
theorem AuthEntry.conforms_account {p : AuthProgram Unit} (h : AuthEntry env p) :
    AccountConforms env p AccountPhase.start fun _ _ => True := by
  cases h with
  | serve request =>
      refine conforms_bind.mpr (conforms_issue.mpr ⟨rfl, fun _ => ?_⟩)
      refine conforms_bind.mpr ((handler_account rfl rfl rfl).mono fun result phase _ => ?_)
      exact ⟨trivial, fun _ => trivial⟩
  | cleanup =>
      exact ⟨trivial, fun _ => ⟨trivial, fun _ => ⟨trivial, fun _ => ⟨trivial, fun _ => trivial⟩⟩⟩⟩
  | tick => exact ⟨trivial, fun _ => trivial⟩

end Conformance

/-! ## Histories -/

/-- What a program has done in a history; a stop changes nothing. -/
abbrev accountPhase (i : ℕ) (events : List AuthEvent) : AccountPhase :=
  phase AccountPhase.next id AccountPhase.start i events

section Histories

variable {env : Env} {w : AuthWorld} {events : List AuthEvent} {i : ℕ}
variable {pool : Pool AuthOp AuthOp.Ans AuthWorld}

/-- What allowed steps preserve, a history preserves. -/
theorem accountHistory_invariant (cond : List AuthEvent → AuthEvent → Prop)
    (Inv : List AuthEvent → AuthWorld → Prop) (hinit : Inv [] w)
    (hran : ∀ past i (step : AuthStep), step.Valid performAuth →
      (accountPhase i past).Allows env step.op → cond past (.ran i step) → Inv past step.pre →
      Inv (past ++ [.ran i step]) step.post)
    (hstopped : ∀ past i w', Inv past w' → Inv (past ++ [.stopped i]) w')
    (h : AuthHistory env ⟨w, []⟩ events pool) (hcond : Meets cond events) :
    Inv events pool.world := by
  have hentry : ∀ p, AuthEntry env p → AccountConforms env p AccountPhase.start fun _ _ => True :=
    fun p hp => hp.conforms_account
  refine History.invariant ?_ hentry cond Inv hinit hran (fun past i _ => hstopped past i _) h hcond
  exact fun _ => trivial

/-- Every step was allowed in the phase of its program. -/
theorem accountHistory_allowed (h : AuthHistory env ⟨w, []⟩ events pool)
    {before after : List AuthEvent} {step : AuthStep}
    (hevents : events = before ++ .ran i step :: after) :
    (accountPhase i before).Allows env step.op := by
  have hentry : ∀ p, AuthEntry env p → AccountConforms env p AccountPhase.start fun _ _ => True :=
    fun p hp => hp.conforms_account
  refine History.step_allowed ?_ hentry h hevents
  exact fun _ => trivial

/-! ### What a program has done, it has done in steps of its own -/

/-- The program encrypted the text under the key, with this result. -/
def Encrypted (i : ℕ) (encryption : Encryption) (events : List AuthEvent) : Prop :=
  ∃ v v', .ran i ⟨v, .encrypt encryption.plaintext encryption.key,
    .ok (encryption.ciphertext, encryption.nonce), v'⟩ ∈ events

/-- The program received the request. -/
def Received (i : ℕ) (request : AuthRequest) (events : List AuthEvent) : Prop :=
  ∃ v v', .ran i ⟨v, .receive request, (), v'⟩ ∈ events

/-- What a program has among its encryptions, it has encrypted in a step of its own. -/
theorem encrypted_of_phase {encryption : Encryption}
    (h : encryption ∈ (accountPhase i events).encrypted) : Encrypted i encryption events := by
  have hstart : encryption ∉ AccountPhase.start.encrypted := List.not_mem_nil
  obtain ⟨before, event, after, rfl, ⟨v, op, answer, v'⟩, rfl, hnot, hnext⟩ :=
    occurs_of_phase (P := fun phase : AccountPhase => encryption ∈ phase.encrypted) hstart
      (fun _ => id) h
  refine ⟨v, v', ?_⟩
  rw [AccountPhase.encrypted_of_next hnext hnot]
  simp

/-- The request that a program serves, it has received. -/
theorem received_of_phase {request : AuthRequest}
    (h : (accountPhase i events).request = some request) : Received i request events := by
  have hstart : AccountPhase.start.request ≠ some request := nofun
  obtain ⟨before, event, after, rfl, ⟨v, op, answer, v'⟩, rfl, hnot, hnext⟩ :=
    occurs_of_phase (P := fun phase : AccountPhase => phase.request = some request) hstart
      (fun _ => id) h
  refine ⟨v, v', ?_⟩
  rw [AccountPhase.request_of_next hnext hnot]
  simp

end Histories

end PactumCodex
