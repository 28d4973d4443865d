import PactumCodex.Auth.Nonces

/-!
# Wallets in access tokens

An access token that names a wallet names one that is linked to its user, every
linked wallet was linked by a request that presented a signature of it over a
fresh nonce, and a wallet is linked to one user only.  This is what the routes
that ask for an `AuthUserWithWallet` rely on.

A program only writes into a token what it has read from `auth_wallet` or
inserted there (`AuthPhase.wallets`), and rows of that table stay.
-/

namespace PactumCodex

open Interaction Relational

/-! ## Linked wallets -/

/-- The rows of `auth_wallet`. -/
def linkedWallets (w : AuthWorld) : Set Wallet := {row | row ∈ w.db.wallets.rows}

theorem linkedWallets_mono {op : AuthOp} {answer : op.Ans} {w w' : AuthWorld}
    (h : AuthEffect op answer w w') : linkedWallets w ⊆ linkedWallets w' := by
  intro row hrow
  rw [linkedWallets, Set.mem_ofPred_eq, h.wallets]
  unfold walletsAfter
  split
  · exact List.mem_append_left _ hrow
  · exact hrow

/-- A wallet has one user. -/
theorem linkedWallets_unique {w : AuthWorld} {userId userId' : Uuid} {pubkey : String}
    (h : ⟨userId, pubkey⟩ ∈ linkedWallets w) (h' : ⟨userId', pubkey⟩ ∈ linkedWallets w) :
    userId = userId' := congrArg Wallet.userId (eq_of_key_eq w.db.wallets.valid h h' rfl)

section Known

variable {w w' : AuthWorld} {userId : Uuid} {pubkey : String}

theorem userOfWallet_some
    (h : performAuth (.sql (.userOfWallet pubkey)) (.ok (some userId)) w = some w') :
    ⟨userId, pubkey⟩ ∈ linkedWallets w := by
  obtain ⟨-, db, hexec, -⟩ := performAuth_sql h
  obtain ⟨row, hlookup, rfl⟩ := Option.map_eq_some_iff.mp (provided_eq_some.mp hexec).1.symm
  obtain ⟨hrow, rfl⟩ := (lookup_eq_some w.db.wallets.valid).mp hlookup
  exact hrow

theorem walletOfUser_some
    (h : performAuth (.sql (.walletOfUser userId)) (.ok (some pubkey)) w = some w') :
    ⟨userId, pubkey⟩ ∈ linkedWallets w := by
  obtain ⟨-, db, hexec, -⟩ := performAuth_sql h
  obtain ⟨row, hfilter, rfl⟩ := List.mem_map.mp (provided_eq_some.mp hexec).1
  obtain ⟨hrow, huser⟩ := List.mem_filter.mp hfilter
  obtain rfl := of_decide_eq_true huser
  exact hrow

/-- What a program knows to be linked after a step, it knew before, or it is linked. -/
theorem wallets_of_next {phase : AuthPhase} {op : AuthOp} {answer : op.Ans} {row : Wallet}
    (hvalid : performAuth op answer w = some w') (hrow : row ∈ (phase.next op answer).wallets) :
    row ∈ phase.wallets ∨ row ∈ linkedWallets w' := by
  have heffect := authEffect_of_valid hvalid
  unfold AuthPhase.next at hrow
  split at hrow
  case h_6 =>
    -- a wallet is looked up by its key or by its user, or inserted
    refine (List.mem_cons.mp hrow).symm.imp_right fun heq => ?_
    exact heq ▸ linkedWallets_mono heffect (userOfWallet_some hvalid)
  case h_7 =>
    refine (List.mem_cons.mp hrow).symm.imp_right fun heq => ?_
    exact heq ▸ linkedWallets_mono heffect (walletOfUser_some hvalid)
  case h_8 =>
    refine (List.mem_cons.mp hrow).symm.imp_right fun heq => ?_
    rw [heq, linkedWallets, Set.mem_ofPred_eq, heffect.wallets]
    exact List.mem_append_right _ (List.mem_singleton_self _)
  all_goals exact Or.inl hrow

end Known

/-! ## Tokens and links -/

/-- An access token with the given claims is issued. -/
def IssuesToken (claims : Claims) (event : AuthEvent) : Prop :=
  ∃ i v token v', event = .ran i ⟨v, .encodeToken claims, .ok token, v'⟩

/-- A request links the wallet, which has received a signature of it over a nonce of the server and
has consumed this nonce. -/
def LinksSigned (env : Env) (row : Wallet) (past : List AuthEvent) (event : AuthEvent) : Prop :=
  ∃ i v v', event = .ran i ⟨v, .sql (.insertWallet row.userId row.pubkey), .ok (), v'⟩ ∧
    ∃ request body u u', .ran i ⟨u, .receive request, (), u'⟩ ∈ past ∧
      request.siws = some body ∧ body.pubkey = row.pubkey ∧ body.signed env = true ∧
      Presented FreshAsStored i body.nonce past

/-- What is expected of access tokens in a history that starts in the world `w`. -/
structure WalletClaimsSound (env : Env) (w : AuthWorld) (events : List AuthEvent) : Prop where
  linked : ∀ before after, events = before ++ after → ∀ issued ∈ before, ∀ claims pubkey,
    IssuesToken claims issued → claims.pubkey = some pubkey →
    ⟨claims.sub, pubkey⟩ ∈ linkedWallets (worldAfter w before)
  signed : ∀ before after, events = before ++ after →
    ∀ row ∈ linkedWallets (worldAfter w before), Occurs (LinksSigned env row) before
  one_sub : ∀ issued ∈ events, ∀ issued' ∈ events, ∀ claims claims' pubkey,
    IssuesToken claims issued → IssuesToken claims' issued' →
    claims.pubkey = some pubkey → claims'.pubkey = some pubkey → claims.sub = claims'.sub

section Claims

variable {env : Env} {w : AuthWorld} {events before after : List AuthEvent}
variable {pool : Pool AuthOp AuthOp.Ans AuthWorld}

/-- What a program knows to be linked, is linked. -/
theorem known_wallets_linked (h : AuthHistory env ⟨w, []⟩ events pool) (i : ℕ) :
    ∀ row ∈ (authPhase i events).wallets, row ∈ linkedWallets pool.world := by
  refine authHistory_invariant (fun _ _ => True)
    (fun events w' => ∀ row ∈ (authPhase i events).wallets, row ∈ linkedWallets w') ?_ ?_ ?_ h
    fun _ _ _ _ => trivial
  · intro row hrow
    cases hrow
  · intro past j step hvalid _ _ hpast row hrow
    have hmono := linkedWallets_mono (authEffect_of_valid hvalid)
    rw [authPhase, phase_ran] at hrow
    by_cases hij : j = i
    · subst hij
      rw [if_pos rfl] at hrow
      exact (wallets_of_next hvalid hrow).elim (fun hknown => hmono (hpast row hknown)) id
    · rw [if_neg hij] at hrow
      exact hmono (hpast row hrow)
  · intro past j w' hpast row hrow
    rw [authPhase, phase_stopped, id, ite_self] at hrow
    exact hpast row hrow

/-- A wallet that an access token names is linked to its user. -/
theorem claimed_wallet_linked (h : AuthHistory env ⟨w, []⟩ events pool) {issued : AuthEvent}
    (hmem : issued ∈ events) {claims : Claims} {pubkey : String}
    (hissues : IssuesToken claims issued)
    (hclaims : claims.pubkey = some pubkey) : ⟨claims.sub, pubkey⟩ ∈ linkedWallets pool.world := by
  obtain ⟨i, v, token, v', rfl⟩ := hissues
  obtain ⟨before, after, rfl⟩ := List.append_of_mem hmem
  obtain ⟨-, threads, hpast⟩ := h.at_step
  have hknown := known_wallets_linked hpast i _ (authHistory_allowed h rfl pubkey hclaims)
  have hstays : linkedWallets (worldAfter w before) ⊆ linkedWallets pool.world :=
    h.monotone linkedWallets fun _ hvalid => linkedWallets_mono (authEffect_of_valid hvalid)
  rw [← hpast.world_eq] at hstays
  exact hstays hknown

/-- A wallet that a program may link, it has received with a signature. -/
theorem linksSigned_of_allowed {i : ℕ} {v v' : AuthWorld} {row : Wallet}
    (h : AuthHistory env ⟨w, []⟩ (before ++ after) pool) (hempty : w.db.nonces.rows = [])
    (hallowed : (authPhase i before).Allows env (.sql (.insertWallet row.userId row.pubkey))) :
    LinksSigned env row before
      (.ran i ⟨v, .sql (.insertWallet row.userId row.pubkey), .ok (), v'⟩) := by
  obtain ⟨body, hpresents, hkey⟩ := hallowed
  obtain ⟨request, hrequest, hsiws⟩ := Option.bind_eq_some_iff.mp hpresents.request
  obtain ⟨u, u', hreceived⟩ := request_was_received hrequest
  exact ⟨i, v, v', rfl, request, body, u, u', hreceived, hsiws, hkey.symm, hpresents.signed,
    presented_of_nonce h hempty hpresents.nonce⟩

/-- Every linked wallet was linked by a request that presented a signature of it. -/
theorem linked_wallets_signed (h : AuthHistory env ⟨w, []⟩ events pool)
    (hwallets : w.db.wallets.rows = []) (hnonces : w.db.nonces.rows = []) :
    ∀ row ∈ linkedWallets pool.world, Occurs (LinksSigned env row) events := by
  intro row hrow
  obtain ⟨before, event, after, rfl, i, v, v', rfl⟩ := rows_inserted (fun w => w.db.wallets.rows)
    (fun row _ event => ∃ i v v',
      event = .ran i ⟨v, .sql (.insertWallet row.userId row.pubkey), .ok (), v'⟩)
    (fun past i step hvalid _ row hrow => by
      obtain ⟨v, op, answer, v'⟩ := step
      refine (wallet_of_step (authEffect_of_valid hvalid) hrow).imp_right fun hnew => ?_
      exact ⟨i, v, v', congrArg _ hnew⟩) h hwallets row hrow
  exact ⟨before, _, after, rfl, linksSigned_of_allowed h hnonces (authHistory_allowed h rfl)⟩

/-- **Wallet claims are sound.**  In every history that starts without linked wallets and nonces, a
wallet named by an access token is linked to its user from then on, every linked wallet was linked
by a request with a valid signature over a fresh nonce, and tokens that name the same wallet have
the same user. -/
theorem wallet_claims_sound (h : AuthHistory env ⟨w, []⟩ events pool)
    (hwallets : w.db.wallets.rows = []) (hnonces : w.db.nonces.rows = []) :
    WalletClaimsSound env w events := by
  constructor
  · rintro before after rfl issued hissued claims pubkey hissues hclaims
    obtain ⟨threads, hbefore⟩ := h.of_append
    exact claimed_wallet_linked hbefore hissued hissues hclaims
  · rintro before after rfl row hrow
    obtain ⟨threads, hbefore⟩ := h.of_append
    exact linked_wallets_signed hbefore hwallets hnonces row hrow
  · intro issued hissued issued' hissued' claims claims' pubkey hissues hissues' hclaims hclaims'
    exact linkedWallets_unique (claimed_wallet_linked h hissued hissues hclaims)
      (claimed_wallet_linked h hissued' hissues' hclaims')

end Claims

/-- While a refresh is under way, its user links a wallet. -/
def linkPrograms : List AuthRequest :=
  [.challenge, googleLogin, .linkWallet (some "access-token") firstLogin,
    .refresh ⟨sampleToken '1'⟩]

/-- The refresh reads `auth_wallet` after the link. -/
def linkTurns : List AuthTurn :=
  [⟨0, 5, 0, 0⟩, ⟨1, 18, 1, 1⟩, ⟨3, 3, 2, 2⟩, ⟨2, 13, 3, 3⟩, ⟨3, 8, 4, 4⟩]

/-- A token with a wallet is issued. -/
def namesWallet : AuthEvent → Bool
  | .ran _ ⟨_, .encodeToken claims, .ok _, _⟩ => claims.pubkey = some carolKey
  | _ => false

/-- Two tokens name the wallet. -/
theorem wallet_claims_sound_linking : ∃ events pool,
    AuthHistory sampleEnv ⟨AuthWorld.ofDb AuthDb.empty, []⟩ events pool ∧
    events.countP namesWallet = 2 ∧
    WalletClaimsSound sampleEnv (AuthWorld.ofDb AuthDb.empty) events := by
  obtain ⟨events, pool, hhistory, htest⟩ := authHistory_of_turns sampleEnv
    (linkPrograms.map (serve sampleEnv)) linkTurns (fun events _ => events.countP namesWallet = 2)
    (fun p hp => by
      obtain ⟨request, -, rfl⟩ := List.mem_map.mp hp
      exact .serve request)
    (by decide +kernel)
  exact ⟨events, pool, hhistory, of_decide_eq_true htest, wallet_claims_sound hhistory rfl rfl⟩

end PactumCodex
