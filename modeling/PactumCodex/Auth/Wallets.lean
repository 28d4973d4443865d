import PactumCodex.Auth.Accounts
import PactumCodex.Auth.WalletClaims
import PactumCodex.Lib.Secrets

/-!
# One wallet for each user

`link_wallet` refuses an access token that names a wallet, but tokens without one
stay valid after a wallet is linked, and the OAuth callback keeps issuing them.
So a user has one row in `auth_wallet` exactly as long as no `link_wallet`
inserts a second one (`one_wallet_each_iff`), and a token names the wallet of its
user exactly as long as none is issued without looking (`tokens_name_wallet_iff`).

The wallets that `verify` inserts do no harm: it inserts them for users that it
has just created, and whom no other program can know (`Lib/Secrets`).

## Users as secrets

The identifier of a new user is known to the program that has created it and to
nobody else, until it is stored or put into a token.  `userSecrets` says who knows
which user; programs learn of users from the tables and from access tokens
(`known_of_next`), and bring into circulation what they know and do not keep
(`circulates_of_step`).  That tokens are authentic is needed here: a forged one
could name any user.

## Strategy

With secrecy, an insertion of `verify` is the first one for its user
(`inserts_first`), so the condition on `link_wallet` is one on all insertions.
`oneWalletEach_step` compares the state after a step with the condition in both
directions, and the history follows by induction.
-/

namespace PactumCodex

open Interaction Relational

/-! ## Users in circulation -/

/-- A user that programs can come to know: one in the tables, or in an access token. -/
inductive Circulates (past : List AuthEvent) (w : AuthWorld) : Uuid → Prop
  | wallet (row : Wallet) : row ∈ w.db.wallets.rows → Circulates past w row.userId
  | identity (row : OAuthAccount) : row ∈ w.db.oauthAccounts.rows → Circulates past w row.userId
  | refresh (row : RefreshToken) : row ∈ w.db.tokens.rows → Circulates past w row.userId
  | access (claims : Claims) (token : String) (i : ℕ) (v v' : AuthWorld) :
      .ran i ⟨v, .encodeToken claims, .ok token, v'⟩ ∈ past → Circulates past w claims.sub

/-- An access token that is accepted has been issued with the claims it is decoded to. -/
def AcceptsIssued (past : List AuthEvent) (event : AuthEvent) : Prop :=
  ∀ i v token claims v', event = .ran i ⟨v, .decodeToken token, .ok claims, v'⟩ →
    ∃ j u u', .ran j ⟨u, .encodeToken claims, .ok token, u'⟩ ∈ past

/-- Access tokens are not forged. -/
abbrev TokensAuthentic (events : List AuthEvent) : Prop := Meets AcceptsIssued events

/-- Who knows which user. -/
def userSecrets (past : List AuthEvent) (w : AuthWorld) : Secrets.State Uuid where
  used := {userId | userId ∈ w.uuids}
  known i := {userId | userId ∈ (accountPhase i past).known}
  kept i := (accountPhase i past).created
  shared := {userId | Circulates past w userId}

section Users

variable {env : Env} {past : List AuthEvent} {i : ℕ} {v v' : AuthWorld} {op : AuthOp}
variable {answer : op.Ans}

/-- What a program learns in a step was in circulation, or is new. -/
theorem known_of_next {phase : AccountPhase} {userId : Uuid}
    (hvalid : performAuth op answer v = some v')
    (hauthentic : AcceptsIssued past (.ran i ⟨v, op, answer, v'⟩))
    (hknown : userId ∈ (phase.next op answer).known) :
    userId ∈ phase.known ∨ Circulates past v userId ∨ (userId ∉ v.uuids ∧ userId ∈ v'.uuids) := by
  unfold AccountPhase.next at hknown
  split at hknown
  case h_2 token claims =>
    -- an access token is decoded: it was issued to this user
    rcases List.mem_cons.mp hknown with rfl | hold
    · obtain ⟨j, u, u', hissued⟩ := hauthentic i v token claims v' rfl
      exact Or.inr (Or.inl (.access claims token j u u' hissued))
    · exact Or.inl hold
  case h_4 =>
    -- the user is inserted
    rcases List.mem_cons.mp hknown with rfl | hold
    · exact Or.inr (Or.inr (insertUser_fresh hvalid))
    · exact Or.inl hold
  case h_6 =>
    -- the user of a wallet, of a refresh token, of an identity, or of an email is looked up
    rcases List.mem_cons.mp hknown with rfl | hold
    · exact Or.inr (Or.inl (.wallet _ (userOfWallet_some hvalid)))
    · exact Or.inl hold
  case h_7 =>
    rcases List.mem_cons.mp hknown with rfl | hold
    · obtain ⟨row, hrow, -, rfl⟩ := consumeToken_some hvalid
      exact Or.inr (Or.inl (.refresh row hrow))
    · exact Or.inl hold
  case h_9 found =>
    rcases List.mem_append.mp hknown with hfound | hold
    · obtain rfl := Option.mem_toList.mp hfound
      exact Or.inr (Or.inl (.identity _ (userOfOAuth_some hvalid)))
    · exact Or.inl hold
  case h_10 found =>
    rcases List.mem_append.mp hknown with hfound | hold
    · obtain rfl := Option.mem_toList.mp hfound
      obtain ⟨row, hrow, rfl⟩ := sameProviderUser_some hvalid
      exact Or.inr (Or.inl (.identity row hrow))
    · exact Or.inl hold
  all_goals exact Or.inl hknown

/-- A user that is kept was kept before, or is new. -/
theorem created_of_next {phase : AccountPhase} {userId : Uuid}
    (hvalid : performAuth op answer v = some v')
    (hcreated : (phase.next op answer).created = some userId) :
    phase.created = some userId ∨ (userId ∉ v.uuids ∧ userId ∈ v'.uuids) := by
  unfold AccountPhase.next at hcreated
  split at hcreated
  case h_4 =>
    obtain rfl := Option.some.inj hcreated
    exact Or.inr (insertUser_fresh hvalid)
  -- a user that gets a wallet or an identity is no longer kept
  case h_5 => cases hcreated
  case h_11 => cases hcreated
  all_goals exact Or.inl hcreated

/-- A program brings into circulation what it knows and does not keep. -/
theorem circulates_of_step {phase : AccountPhase} {userId : Uuid}
    (hvalid : performAuth op answer v = some v') (hallowed : phase.Allows env op)
    (h : Circulates (past ++ [.ran i ⟨v, op, answer, v'⟩]) v' userId) :
    Circulates past v userId ∨
      userId ∈ phase.known ∧ (phase.next op answer).created ≠ some userId := by
  cases h with
  | wallet row hrow =>
      rcases wallet_of_step (authEffect_of_valid hvalid) hrow with hold | hstep
      · exact Or.inl (.wallet row hold)
      · cases hstep
        exact Or.inr ⟨hallowed.1, nofun⟩
  | identity row hrow =>
      rcases account_of_step (accountEffect_of_valid hvalid) hrow with hold | hstep
      · exact Or.inl (.identity row hold)
      · cases hstep
        exact Or.inr ⟨hallowed.1, nofun⟩
  | refresh row hrow =>
      rcases token_of_step (authEffect_of_valid hvalid) hrow with hold | hstep
      · exact Or.inl (.refresh row hold)
      · cases hstep
        exact Or.inr hallowed
  | access claims token j u u' hissued =>
      rcases List.mem_append.mp hissued with hold | hnew
      · exact Or.inl (.access claims token j u u' hold)
      · cases List.mem_singleton.mp hnew
        exact Or.inr ⟨hallowed.1, hallowed.2.1⟩

/-- **Step lemma.**  Programs treat users as names that may be secret. -/
theorem userSecrets_acts (hvalid : performAuth op answer v = some v')
    (hallowed : (accountPhase i past).Allows env op)
    (hauthentic : AcceptsIssued past (.ran i ⟨v, op, answer, v'⟩)) :
    Secrets.Acts i (userSecrets past v)
      (userSecrets (past ++ [.ran i ⟨v, op, answer, v'⟩]) v') := by
  have hsame : ∀ j, j ≠ i →
      accountPhase j (past ++ [.ran i ⟨v, op, answer, v'⟩]) = accountPhase j past := by
    intro j hj
    rw [accountPhase, phase_ran, if_neg (Ne.symm hj)]
  have hnext : accountPhase i (past ++ [.ran i ⟨v, op, answer, v'⟩]) =
      (accountPhase i past).next op answer := by
    rw [accountPhase, phase_ran, if_pos rfl]
  constructor
  case used => exact fun userId hused => (authEffect_of_valid hvalid).uuids hused
  case others_known =>
    intro j hj
    simp only [userSecrets, hsame j hj]
  case others_kept =>
    intro j hj
    simp only [userSecrets, hsame j hj]
  case learns =>
    intro userId hknown
    simp only [userSecrets, hnext] at hknown
    exact known_of_next hvalid hauthentic hknown
  case keeps =>
    intro userId hkept
    simp only [userSecrets, hnext] at hkept
    exact created_of_next hvalid hkept
  case shares =>
    intro userId hshared
    simp only [userSecrets, hnext]
    exact circulates_of_step hvalid hallowed hshared

/-- A stop tells nothing. -/
theorem userSecrets_acts_of_stopped {w : AuthWorld} (i : ℕ) :
    Secrets.Acts i (userSecrets past w) (userSecrets (past ++ [.stopped i]) w) := by
  have hsame : ∀ j, accountPhase j (past ++ [.stopped i]) = accountPhase j past := by
    intro j
    rw [accountPhase, phase_stopped, id, ite_self]
  constructor
  case used => exact fun _ => id
  case others_known =>
    intro j _
    simp only [userSecrets, hsame]
  case others_kept =>
    intro j _
    simp only [userSecrets, hsame]
  case learns =>
    intro userId hknown
    simp only [userSecrets, hsame] at hknown
    exact Or.inl hknown
  case keeps =>
    intro userId hkept
    simp only [userSecrets, hsame] at hkept
    exact Or.inl hkept
  case shares =>
    rintro userId (⟨row, hrow⟩ | ⟨row, hrow⟩ | ⟨row, hrow⟩ | ⟨claims, token, j, u, u', hissued⟩)
    · exact Or.inl (.wallet row hrow)
    · exact Or.inl (.identity row hrow)
    · exact Or.inl (.refresh row hrow)
    · refine Or.inl (.access claims token j u u' ?_)
      simpa using hissued

end Users

section Histories

variable {env : Env} {w : AuthWorld} {events : List AuthEvent}
variable {pool : Pool AuthOp AuthOp.Ans AuthWorld}

/-- In every history that starts with empty tables, a user that is kept is nobody else's. -/
theorem userSecrets_sound (h : AuthHistory env ⟨w, []⟩ events pool) (hempty : w.db = AuthDb.empty)
    (hauthentic : TokensAuthentic events) : Secrets.Sound (userSecrets events pool.world) := by
  refine accountHistory_invariant AcceptsIssued (fun past w' => Secrets.Sound (userSecrets past w'))
    ?_ ?_ ?_ h hauthentic
  · have hnone : ∀ userId, ¬ Circulates [] w userId := by
      rintro userId (⟨row, hrow⟩ | ⟨row, hrow⟩ | ⟨row, hrow⟩ | ⟨claims, token, i, v, v', hissued⟩)
      · rw [hempty] at hrow
        cases hrow
      · rw [hempty] at hrow
        cases hrow
      · rw [hempty] at hrow
        cases hrow
      · cases hissued
    exact ⟨fun userId hshared => absurd hshared (hnone userId), fun _ _ => nofun, fun _ _ => nofun,
      fun _ _ => nofun, fun _ _ => nofun⟩
  · intro past i step hvalid hallowed haccepts hpast
    exact hpast.acts (userSecrets_acts hvalid hallowed haccepts)
  · intro past i w' hpast
    exact hpast.acts (userSecrets_acts_of_stopped i)

/-! ## One wallet for each user -/

/-- Every user has at most one row in `auth_wallet`. -/
def OneWalletEach (w : AuthWorld) : Prop := (w.db.wallets.rows.map Wallet.userId).Nodup

/-- A wallet is inserted only as the first one of its user. -/
def InsertsFirst (event : AuthEvent) : Prop :=
  ∀ i v userId pubkey v', event = .ran i ⟨v, .sql (.insertWallet userId pubkey), .ok (), v'⟩ →
    ∀ row ∈ v.db.wallets.rows, row.userId ≠ userId

/-- A program that serves `link_wallet` inserts a wallet only as the first one of its user. -/
def LinksFirst (past : List AuthEvent) (event : AuthEvent) : Prop :=
  ∀ i v userId pubkey v' authorization body,
    event = .ran i ⟨v, .sql (.insertWallet userId pubkey), .ok (), v'⟩ →
    Received i (.linkWallet authorization body) past →
    ∀ row ∈ v.db.wallets.rows, row.userId ≠ userId

/-- A step keeps one wallet for each user exactly if it inserts none but first ones. -/
theorem oneWalletEach_step {op : AuthOp} {answer : op.Ans} {v v' : AuthWorld} {i : ℕ}
    (hvalid : performAuth op answer v = some v') (h : OneWalletEach v) :
    OneWalletEach v' ↔ InsertsFirst (.ran i ⟨v, op, answer, v'⟩) := by
  rw [OneWalletEach, (authEffect_of_valid hvalid).wallets]
  unfold walletsAfter
  split
  · rename_i userId pubkey _
    rw [List.map_append, List.nodup_append]
    constructor
    · rintro ⟨-, -, hapart⟩ j u userId' pubkey' u' heq row hrow
      cases heq
      exact hapart row.userId (List.mem_map_of_mem hrow) userId (List.mem_singleton_self _)
    · intro hfirst
      refine ⟨h, List.nodup_singleton _, ?_⟩
      rintro _ hold _ hnew rfl
      obtain ⟨row, hrow, huser⟩ := List.mem_map.mp hold
      exact hfirst i v userId pubkey v' rfl row hrow (huser.trans (List.mem_singleton.mp hnew))
  · rename_i hother
    refine iff_of_true h ?_
    rintro j u userId pubkey u' heq
    cases heq
    exact (hother userId pubkey () rfl HEq.rfl).elim

/-- If `link_wallet` inserts only first wallets, everybody does: `verify` inserts them for users
that it keeps. -/
theorem inserts_first (h : AuthHistory env ⟨w, []⟩ events pool) (hempty : w.db = AuthDb.empty)
    (hauthentic : TokensAuthentic events) (hlinks : Meets LinksFirst events) :
    Meets (fun _ event => InsertsFirst event) events := by
  rintro before _ after rfl i v userId pubkey v' rfl row hrow
  obtain ⟨-, hsource⟩ := accountHistory_allowed h rfl
  rcases hsource with hcreated | ⟨authorization, body, hrequest⟩
  · -- the user was created by this program and is still kept, so no row can hold it
    obtain ⟨-, threads, hpast⟩ := h.at_step
    rintro rfl
    have hsound := userSecrets_sound hpast hempty hauthentic.of_append
    exact hsound.kept_unshared i row.userId hcreated (.wallet row hrow)
  · exact hlinks before _ after rfl i v userId pubkey v' authorization body rfl
      (received_of_phase hrequest) row hrow

/-- **Users have one wallet each** in every state that a history reaches, exactly if no
`link_wallet` inserts a wallet of a user who has one at that moment. -/
theorem one_wallet_each_iff (h : AuthHistory env ⟨w, []⟩ events pool) (hempty : w.db = AuthDb.empty)
    (hauthentic : TokensAuthentic events) :
    (∀ before after, events = before ++ after → OneWalletEach (worldAfter w before)) ↔
      Meets LinksFirst events := by
  constructor
  · rintro honce before event after rfl i v userId pubkey v' authorization body rfl -
    obtain ⟨hvalid, threads, hpast⟩ := h.at_step
    have hpre := honce before _ rfl
    have hpost :=
      honce (before ++ [.ran i ⟨v, .sql (.insertWallet userId pubkey), .ok (), v'⟩]) after
      (by simp)
    rw [worldAfter_snoc] at hpost
    rw [← hpast.world_eq] at hpre
    exact (oneWalletEach_step hvalid hpre).mp hpost i v userId pubkey v' rfl
  · rintro hlinks before after rfl
    obtain ⟨threads, hbefore⟩ := h.of_append
    refine accountHistory_invariant (fun _ event => InsertsFirst event)
      (fun _ w' => OneWalletEach w') ?_ ?_ (fun _ _ _ hpast => hpast) hbefore
      (inserts_first h hempty hauthentic hlinks).of_append
    · rw [OneWalletEach, hempty]
      exact List.nodup_nil
    · exact fun past i step hvalid _ hfirst hpast => (oneWalletEach_step hvalid hpast).mpr hfirst

/-! ## Tokens of users with a wallet -/

/-- A token that is issued to a user with a wallet names a wallet of this user. -/
def NamesLinked (event : AuthEvent) : Prop :=
  ∀ i v claims token v', event = .ran i ⟨v, .encodeToken claims, .ok token, v'⟩ →
    (∃ row ∈ v.db.wallets.rows, row.userId = claims.sub) →
    ∃ pubkey, claims.pubkey = some pubkey ∧ ⟨claims.sub, pubkey⟩ ∈ linkedWallets v

/-- A program that does not look for a wallet, or looked when there was none, issues its token to a
user who has none at that moment. -/
def OmitsNone (past : List AuthEvent) (event : AuthEvent) : Prop :=
  ∀ i v claims token v', event = .ran i ⟨v, .encodeToken claims, .ok token, v'⟩ →
    (accountPhase i past).OmitsWallet claims.sub → ∀ row ∈ v.db.wallets.rows,
      row.userId ≠ claims.sub

/-- **Tokens name the wallet** of their user exactly if no OAuth callback issues one to a user who
has a wallet at that moment, and no refresh to a user whose wallet was linked after it looked. -/
theorem tokens_name_wallet_iff (h : AuthHistory env ⟨w, []⟩ events pool) :
    Meets (fun _ event => NamesLinked event) events ↔ Meets OmitsNone events := by
  constructor
  · rintro hnames before _ after rfl i v claims token v' rfl homits row hrow huser
    obtain ⟨-, -, hpubkey⟩ := accountHistory_allowed h rfl
    obtain ⟨pubkey, hclaims, -⟩ :=
      hnames before _ after rfl i v claims token v' rfl ⟨row, hrow, huser⟩
    exact nomatch (hpubkey.mpr homits).symm.trans hclaims
  · rintro homits before _ after rfl i v claims token v' rfl ⟨row, hrow, huser⟩
    obtain ⟨-, -, hpubkey⟩ := accountHistory_allowed h rfl
    -- a wallet in the claims was found or linked, so the one question is when there is none
    cases hclaims : claims.pubkey with
    | none =>
        have hbefore := homits before _ after rfl i v claims token v' rfl (hpubkey.mp hclaims)
        exact absurd huser (hbefore row hrow)
    | some pubkey =>
        obtain ⟨-, threads, hpast⟩ := h.at_step
        refine ⟨pubkey, rfl, ?_⟩
        exact known_wallets_linked hpast i _ (authHistory_allowed h rfl pubkey hclaims)

end Histories

/-! ## Two tokens of one user -/

/-- The request signs in, refreshes or links a wallet, or asks for the nonce that is signed. -/
def AuthRequest.signsIn : AuthRequest → Bool
  | .challenge => true
  | .verify _ => true
  | .linkWallet .. => true
  | .oauthCallback .. => true
  | .refresh _ => true
  | _ => false

/-- Only such requests are received. -/
def onlySignsIn : AuthEvent → Bool
  | .ran _ ⟨_, .receive request, _, _⟩ => request.signsIn
  | _ => true

/-- The event issues the token with the claims. -/
def issuesToken (token : String) (claims : Claims) : AuthEvent → Bool
  | .ran _ ⟨_, .encodeToken encoded, .ok issued, _⟩ => encoded = claims ∧ issued = token
  | _ => false

/-- If the event accepts a token, an earlier one has issued it. -/
def acceptsIssued (past : List AuthEvent) : AuthEvent → Bool
  | .ran _ ⟨_, .decodeToken token, .ok claims, _⟩ => past.any (issuesToken token claims)
  | _ => true

theorem acceptsIssued_sound {past : List AuthEvent} {event : AuthEvent}
    (h : acceptsIssued past event = true) : AcceptsIssued past event := by
  rintro i v token claims v' rfl
  obtain ⟨issued, hissued, hissues⟩ := List.any_eq_true.mp h
  unfold issuesToken at hissues
  split at hissues
  · rename_i j u encoded issuedToken u'
    obtain ⟨rfl, rfl⟩ := of_decide_eq_true hissues
    exact ⟨j, u, u', hissued⟩
  · cases hissues

/-- Dave signs the second nonce. -/
def daveLogin : VerifyRequest := ⟨daveKey, daveSignature, secondNonce.toText⟩

/-- The token of Carol's first login with a provider, after two nonces were generated. -/
def carolClaims : Claims := ⟨2, none, 900, 0, 3⟩

/-- Carol links two wallets with one token. -/
def linkTwice : List AuthRequest :=
  [.challenge, .challenge, googleLogin, .linkWallet (some carolClaims.jti.toText) firstLogin,
    .linkWallet (some carolClaims.jti.toText) daveLogin]

theorem links_two_wallets :
    ¬ ∀ (env : Env) (events : List AuthEvent) (pool : Pool AuthOp AuthOp.Ans AuthWorld),
      AuthHistory env ⟨AuthWorld.ofDb AuthDb.empty, []⟩ events pool →
      TokensAuthentic events → events.all onlySignsIn = true →
      ∀ before after, events = before ++ after →
        OneWalletEach (worldAfter (AuthWorld.ofDb AuthDb.empty) before) := by
  intro hclaim
  obtain ⟨events, pool, hhistory, htest⟩ := authHistory_of_moves twoUsersEnv
    (turnsOf twoUsersEnv linkTwice [(0, 5), (1, 5), (2, 18), (3, 13), (4, 13)]
      (identifyUsers [carolClaims] 0))
    (fun events w => testEach acceptsIssued [] events && events.all onlySignsIn &&
      decide (¬ (w.db.wallets.rows.map Wallet.userId).Nodup))
    (fun p hp => turnsOf_entry hp) (by decide +kernel)
  obtain ⟨htest, htwo⟩ := Bool.and_eq_true_iff.mp htest
  obtain ⟨hauthentic, honly⟩ := Bool.and_eq_true_iff.mp htest
  have hone := hclaim twoUsersEnv events pool hhistory
    (meets_of_testEach (fun _ _ => acceptsIssued_sound) hauthentic) honly events [] (by simp)
  rw [← hhistory.world_eq] at hone
  exact of_decide_eq_true htwo hone

/-- Carol links one of them. -/
theorem one_wallet_each_iff_linked : ∃ events pool,
    AuthHistory twoUsersEnv ⟨AuthWorld.ofDb AuthDb.empty, []⟩ events pool ∧
    pool.world.db.wallets.rows.length = 1 ∧
    ((∀ before after, events = before ++ after →
        OneWalletEach (worldAfter (AuthWorld.ofDb AuthDb.empty) before)) ↔
      Meets LinksFirst events) := by
  obtain ⟨events, pool, hhistory, htest⟩ := authHistory_of_moves twoUsersEnv
    (turnsOf twoUsersEnv linkTwice [(0, 5), (1, 5), (2, 18), (3, 13)]
      (identifyUsers [carolClaims] 0))
    (fun events w => testEach acceptsIssued [] events && decide (w.db.wallets.rows.length = 1))
    (fun p hp => turnsOf_entry hp) (by decide +kernel)
  obtain ⟨hauthentic, hone⟩ := Bool.and_eq_true_iff.mp htest
  exact ⟨events, pool, hhistory, of_decide_eq_true hone, one_wallet_each_iff hhistory rfl
    (meets_of_testEach (fun _ _ => acceptsIssued_sound) hauthentic)⟩

/-- A token is issued to a user with a wallet, and names none. -/
def omitsWallet : AuthEvent → Bool
  | .ran _ ⟨v, .encodeToken claims, .ok _, _⟩ =>
      claims.pubkey.isNone && v.db.wallets.rows.any fun row => row.userId = claims.sub
  | _ => false

/-- Carol links a wallet and signs in again. -/
def linkAndReturn : List AuthRequest :=
  [.challenge, .challenge, googleLogin, .linkWallet (some carolClaims.jti.toText) firstLogin,
    googleLogin]

theorem returning_user_without_wallet :
    ¬ ∀ (env : Env) (events : List AuthEvent) (pool : Pool AuthOp AuthOp.Ans AuthWorld),
      AuthHistory env ⟨AuthWorld.ofDb AuthDb.empty, []⟩ events pool →
      TokensAuthentic events → events.all onlySignsIn = true →
      Meets (fun _ event => NamesLinked event) events := by
  intro hclaim
  obtain ⟨events, pool, hhistory, htest⟩ := authHistory_of_moves twoUsersEnv
    (turnsOf twoUsersEnv linkAndReturn [(0, 5), (1, 5), (2, 18), (3, 13), (4, 16)]
      (identifyUsers [carolClaims] 0))
    (fun events _ => testEach acceptsIssued [] events && events.all onlySignsIn &&
      events.any omitsWallet)
    (fun p hp => turnsOf_entry hp) (by decide +kernel)
  obtain ⟨htest, homits⟩ := Bool.and_eq_true_iff.mp htest
  obtain ⟨hauthentic, honly⟩ := Bool.and_eq_true_iff.mp htest
  have hnames := hclaim twoUsersEnv events pool hhistory
    (meets_of_testEach (fun _ _ => acceptsIssued_sound) hauthentic) honly
  obtain ⟨event, hevent, homitted⟩ := List.any_eq_true.mp homits
  obtain ⟨before, after, rfl⟩ := List.append_of_mem hevent
  unfold omitsWallet at homitted
  split at homitted
  · rename_i i v claims token v' _
    obtain ⟨hnone, hany⟩ := Bool.and_eq_true_iff.mp homitted
    obtain ⟨row, hrow, huser⟩ := List.any_eq_true.mp hany
    obtain ⟨pubkey, hclaims, -⟩ := hnames before _ after rfl i v claims token v' rfl
      ⟨row, hrow, of_decide_eq_true huser⟩
    rw [hclaims] at hnone
    cases hnone
  · cases homitted

/-- Carol's tokens name her wallet as long as she refreshes them. -/
theorem tokens_name_wallet_iff_refreshing : ∃ events pool,
    AuthHistory twoUsersEnv ⟨AuthWorld.ofDb AuthDb.empty, []⟩ events pool ∧
    events.countP namesWallet = 2 ∧
    (Meets (fun _ event => NamesLinked event) events ↔ Meets OmitsNone events) := by
  obtain ⟨events, pool, hhistory, htest⟩ := authHistory_of_moves twoUsersEnv
    (turnsOf twoUsersEnv [.challenge, .challenge, googleLogin,
        .linkWallet (some carolClaims.jti.toText) firstLogin, .refresh ⟨sampleToken '2'⟩]
      [(0, 5), (1, 5), (2, 18), (3, 13), (4, 11)] (identifyUsers [carolClaims] 0))
    (fun events _ => events.countP namesWallet = 2) (fun p hp => turnsOf_entry hp)
      (by decide +kernel)
  exact ⟨events, pool, hhistory, of_decide_eq_true htest, tokens_name_wallet_iff hhistory⟩

end PactumCodex
