import PactumCodex.Auth.Runs
import PactumCodex.Replay

/-!
# Replaying authentication requests

A way of answering every operation, for histories that are found by evaluation:
statements return what the tables hold, nothing fails, and the clocks show the
given times.  The examples sign in with the wallet `carolKey`; where a second user
takes part, access tokens are told apart (`identifyUsers`).
-/

namespace PactumCodex

open Interaction Relational

/-- An id that has not been generated yet; the first two are the nonces of the examples. -/
def AuthWorld.freshUuid (w : AuthWorld) : Uuid :=
  if firstNonce ∉ w.uuids then firstNonce
  else if secondNonce ∉ w.uuids then secondNonce
  else BitVec.ofNat 128 w.uuids.length

/-- What a statement returns. -/
def AuthStmt.result (w : AuthWorld) : (s : AuthStmt) → s.Out
  | insertNonce .. => ()
  | consumeNonce nonce now => (w.db.nonces.rows.find? (·.consumed nonce now)).map SiwsNonce.nonce
  | userOfWallet pubkey => (lookup Wallet.pubkey pubkey w.db.wallets.rows).map Wallet.userId
  | walletOfUser userId => (w.db.wallets.rows.find? (·.userId = userId)).map Wallet.pubkey
  | insertUser => w.freshUuid
  | insertWallet .. => ()
  | userOfOAuth provider providerId =>
      (lookup (fun row : OAuthAccount => (row.provider, row.providerId)) (provider, providerId)
        w.db.oauthAccounts.rows).map OAuthAccount.userId
  | otherProviderOf emailIndex provider =>
      ((w.db.accountsWithEmail emailIndex).find? (·.provider ≠ provider)).map OAuthAccount.provider
  | sameProviderUser emailIndex provider =>
      ((w.db.accountsWithEmail emailIndex).find? (·.provider = provider)).map OAuthAccount.userId
  | upsertOAuth .. => ()
  | upsertEmail .. => ()
  | mergeContact _ => ()
  | deleteContact _ => ()
  | insertToken .. => ()
  | consumeToken tokenHash now =>
      (w.db.tokens.rows.find? (·.consumed tokenHash now)).map RefreshToken.userId
  | deleteToken _ => ()
  | deleteNoncesBefore _ => ()
  | deleteTokensBefore _ => ()

/-- The answer of every operation.  An access token is one of the first user, without a wallet. -/
def cooperateAuth (dbNow : ℚ) (utcNow : ℤ) : (op : AuthOp) → AuthWorld → op.Ans
  | .sql s, w => .ok (s.result w)
  | .dbNow, _ => dbNow
  | .utcNow, _ => utcNow
  | .newUuid, w => w.freshUuid
  | .newToken, w => sampleToken (Nat.digitChar (w.rawTokens.length + 1))
  | .encodeToken _, _ => .ok "access-token"
  | .decodeToken _, w => .ok ⟨w.db.users.rows.headD 0, none, utcNow + 900, utcNow, 0⟩
  | .encrypt .., _ => .ok ([], [])
  | .postForm .., _ => .ok (.obj [("access_token", .str "provider-token")])
  | .getJson .., _ => .ok (.obj [("sub", .str "carol"), ("email", .str "carol@example.com")])
  | .receive _, _ => ()
  | .respond .., _ => ()

/-- A program takes a number of steps, while the clocks show the given times. -/
structure AuthTurn where
  program : ℕ
  count : ℕ
  dbNow : ℚ
  utcNow : ℤ

/-- The decisions of the scheduler in a turn. -/
def AuthTurn.moves (turn : AuthTurn) : List (Move AuthOp AuthOp.Ans AuthWorld) :=
  List.replicate turn.count (.run turn.program (cooperateAuth turn.dbNow turn.utcNow))

/-- Start the programs on empty tables, and let them take their turns. -/
def recordTurns (programs : List (AuthProgram Unit)) (turns : List AuthTurn) :
    Option (List AuthEvent × Pool AuthOp AuthOp.Ans AuthWorld) :=
  record performAuth [] ⟨AuthWorld.ofDb AuthDb.empty, []⟩
    (programs.map .start ++ turns.flatMap AuthTurn.moves)

/-- What is recorded is a history. -/
theorem authHistory_of_moves (env : Env) (moves : List (Move AuthOp AuthOp.Ans AuthWorld))
    (test : List AuthEvent → AuthWorld → Bool) (hentry : ∀ p, .start p ∈ moves → AuthEntry env p)
    (h : (record performAuth [] ⟨AuthWorld.ofDb AuthDb.empty, []⟩ moves).any
      (fun result => test result.1 result.2.world) = true) :
    ∃ events pool, AuthHistory env ⟨AuthWorld.ofDb AuthDb.empty, []⟩ events pool ∧
      test events pool.world = true :=
  exists_history_of_record (fun events pool => test events pool.world) hentry h

theorem authHistory_of_turns (env : Env) (programs : List (AuthProgram Unit))
    (turns : List AuthTurn)
    (test : List AuthEvent → AuthWorld → Bool) (hentry : ∀ p ∈ programs, AuthEntry env p)
    (h : (recordTurns programs turns).any (fun result => test result.1 result.2.world) = true) :
    ∃ events pool, AuthHistory env ⟨AuthWorld.ofDb AuthDb.empty, []⟩ events pool ∧
      test events pool.world = true := by
  exact authHistory_of_moves env _ test (fun p hp => hentry p (mem_of_start_mem hp)) h

/-- Carol signs the first nonce. -/
def firstLogin : VerifyRequest := ⟨carolKey, firstSignature, firstNonce.toText⟩

/-- A first login with a provider. -/
def googleLogin : AuthRequest :=
  .oauthCallback .google [("oauth_google_state", "state")] ⟨"code", "state"⟩

/-- An answer with tokens to a request. -/
def tokensFor (request : AuthRequest) : AuthEvent → Bool
  | .ran _ ⟨_, .respond answered (.ok (.tokens _)), _, _⟩ => answered = request
  | _ => false

/-! ## Two users -/

/-- The wallet of a second user, with its signature of the second nonce. -/
def daveKey : String := "586Z7H2vpX9qNhN2T4e9Utugie3ogjbxzGaMtM3E6HR5"
def daveSignature : String :=
  "4K9wh4uFgh7sT6dAziuncj5cmBeXTyCfDR3b5fbdS6wuu6QydbXxbQxyJFQYwiFgmCkSsuDpAL4RxHyPmoUcZiy5"

/-- The numbers that `daveKey` and the signature spell. -/
def daveValue : ℕ := 0x3d4017c3e843895a92b70aa74d1b7ebc9c982ccf2ec4968cc0cd55f12af4660c
def daveSignatureValue : ℕ :=
  0xa5b4dbc461ad339951c553846cd3e6fbe245d46c0421afa0a9da83d92a71eef4 * 2 ^ 256 +
    0x51c0c6e605307559764e43d4c56ca56df409a7bd074bf1242a6278b41d86e908

/-- The ed25519 signatures of both users. -/
def twoUsersVerify (signature : Bytes 64) (key : Pubkey) (message : String) : Bool :=
  sampleVerify signature key message ||
    key.value = daveValue && signature.value = daveSignatureValue && message = secondNonce.toText

/-- HMAC-SHA256 of the emails of the examples under the index key. -/
def sampleHmac (text : String) (_ : Bytes 32) : List UInt8 :=
  if text = "carol@example.com" then
    [0x7c, 0x04, 0x9b, 0x92, 0xfa, 0x33, 0xad, 0xaa, 0x57, 0x70, 0xd4, 0xe6, 0xaa, 0x41, 0x0f,
      0x53, 0xad, 0x01, 0x08, 0xd1, 0xdf, 0x9f, 0xbb, 0x03, 0xa8, 0x25, 0x51, 0x7e, 0x72, 0x98,
      0x21, 0x96]
  else if text = "dave@example.com" then
    [0x88, 0x88, 0xf3, 0xcb, 0x87, 0x60, 0x87, 0xea, 0x90, 0xf9, 0x9a, 0x4f, 0x33, 0xab, 0x18,
      0x9a, 0x52, 0x8f, 0x47, 0x42, 0x1f, 0x76, 0xf1, 0x42, 0x3b, 0x9b, 0xfe, 0x9b, 0x9f, 0x74,
      0x73, 0x56]
  else []

/-- The numbers of the keys and signatures of both users. -/
def twoUsersKeys : List (String × ℕ) := [(carolKey, carolValue), (daveKey, daveValue)]
def twoUsersSignatures : List (String × ℕ) :=
  [(firstSignature, firstSignatureValue), (secondSignature, secondSignatureValue),
    (daveSignature, daveSignatureValue)]

/-- The bytes that a listed text spells in base 58. -/
def listedBytes (n : ℕ) (listed : List (String × ℕ)) (text : String) : Option (Bytes n) :=
  (listed.lookup text).map fun value =>
    Vector.ofFn fun i => UInt8.ofNat (value / 256 ^ (n - 1 - i.val))

/-- The environment of the examples with two users. -/
def twoUsersEnv : Env :=
  ⟨sampleConfig, { sampleCrates with
    pubkeyFromStr := listedBytes 32 twoUsersKeys
    signatureFromStr := listedBytes 64 twoUsersSignatures
    hmacIndex := sampleHmac
    signatureVerify := twoUsersVerify }⟩

/-- AES-256-GCM of the contacts of the examples under the encryption key: ciphertext and nonce. -/
def sampleCiphertexts : List (String × List UInt8 × List UInt8) :=
  [("carol@example.com",
      [0x4a, 0xa0, 0x56, 0x4d, 0x98, 0x36, 0x02, 0xa4, 0xc8, 0x6d, 0x2d, 0xcd, 0xf4, 0xd1, 0x97,
        0xfa, 0xfc, 0x53, 0x25, 0xce, 0x9a, 0xd5, 0x2b, 0xc9, 0x92, 0x2b, 0x1c, 0xdf, 0x14, 0xc5,
        0x55, 0xc1, 0xef], [0, 0, 0, 0, 0, 0, 0, 0, 0, 0, 0, 1]),
    ("dave@example.com",
      [0xda, 0x4d, 0x40, 0x56, 0xb9, 0x9e, 0xcd, 0x2b, 0x0c, 0xf8, 0xfe, 0xb3, 0xa9, 0x34, 0xd6,
        0x0e, 0x71, 0x2c, 0xc1, 0x38, 0x9b, 0x71, 0x0f, 0xa5, 0xd3, 0x48, 0x27, 0xe0, 0xb2, 0x25,
        0x30, 0x61],
      [0, 0, 0, 0, 0, 0, 0, 0, 0, 0, 0, 2]),
    ("+886912345678",
      [0x80, 0xf6, 0x68, 0x34, 0x9c, 0xb8, 0x1d, 0xec, 0x46, 0x3a, 0x17, 0xc7, 0x88, 0xe2, 0x76,
        0x3b, 0x70, 0x7b, 0x0f, 0xe3, 0x71, 0x00, 0x27, 0x3c, 0xb6, 0x92, 0xd6, 0xa7, 0x52],
      [0, 0, 0, 0, 0, 0, 0, 0, 0, 0, 0, 3])]

/-- The profile of Carol at one provider, and of Dave at the other. -/
def sampleProfile (url : String) : Json :=
  if url = OAuthProvider.google.profileUrl then
    .obj [("sub", .str "carol"), ("email", .str "carol@example.com")]
  else .obj [("sub", .str "dave"), ("email", .str "dave@example.com")]

/-- Access tokens are told apart by their ids and decoded to what was encoded, as far as it is
listed; contacts are encrypted under the configured key. -/
def identifyUsers (issued : List Claims) (now : ℤ) : (op : AuthOp) → AuthWorld → op.Ans
  | .encodeToken claims, _ => .ok claims.jti.toText
  | .decodeToken token, _ =>
      match issued.find? fun claims => claims.jti.toText = token with
      | some claims => .ok claims
      | none => .error .failed
  | .encrypt plaintext _, _ =>
      match sampleCiphertexts.lookup plaintext with
      | some encrypted => .ok encrypted
      | none => .error .failed
  | .getJson url _, _ => .ok (sampleProfile url)
  | op, w => cooperateAuth now now op w

/-- Programs serve the requests and take their turns, each given by its number and the number of its
steps. -/
def turnsOf (env : Env) (requests : List AuthRequest) (turns : List (ℕ × ℕ))
    (answer : (op : AuthOp) → AuthWorld → op.Ans) : List (Move AuthOp AuthOp.Ans AuthWorld) :=
  requests.map (fun request => .start (serve env request)) ++
    turns.flatMap fun turn => List.replicate turn.2 (.run turn.1 answer)

theorem turnsOf_entry {env : Env} {requests : List AuthRequest} {turns : List (ℕ × ℕ)}
    {answer : (op : AuthOp) → AuthWorld → op.Ans} {p : AuthProgram Unit}
    (hp : .start p ∈ turnsOf env requests turns answer) : AuthEntry env p := by
  have hstart : (requests.map fun request => .start (serve env request) :
      List (Move AuthOp AuthOp.Ans AuthWorld)) = (requests.map (serve env)).map .start :=
    List.map_map.symm
  rw [turnsOf, hstart] at hp
  obtain ⟨request, -, rfl⟩ := List.mem_map.mp (mem_of_start_mem hp)
  exact .serve request

/-- A first login with the other provider. -/
def microsoftLogin : AuthRequest :=
  .oauthCallback .microsoft [("oauth_microsoft_state", "state")] ⟨"code", "state"⟩

end PactumCodex
