import PactumCodex.Auth.World
import PactumCodex.Handlers.Agreement

/-!
# Serving authentication requests

`services/jwt.rs`, the extractor of `middleware/auth.rs`, the handlers of
`handlers/auth.rs`, those of `handlers/user.rs` that write contacts, and
`cleanup_expired_auth_records` of the keeper.  `serve` puts a handler between its
`receive` and `respond`.
-/

namespace PactumCodex

open Interaction

/-! ## Tokens -/

def issueAccessToken (env : Env) (userId : Uuid) (pubkey : Option String) : AuthHandler String := do
  let now ← Fallible.ask AuthOp.utcNow
  let exp := now + env.config.jwtAccessExpirySeconds.toNat
  let jti ← Fallible.ask AuthOp.newUuid
  Fallible.orFail .internalError
    (.issue (AuthOp.encodeToken { sub := userId, pubkey, exp, iat := now, jti }))

def issueAndStoreRefreshToken (env : Env) (userId : Uuid) : AuthHandler String := do
  let rawToken ← Fallible.ask AuthOp.newToken
  let tokenHash := env.crates.sha256Hex rawToken
  let now ← Fallible.ask AuthOp.utcNow
  let expiresAt := now + 604800
  AuthStmt.query (.insertToken userId tokenHash expiresAt now)
  return rawToken

/-- The tokens that end every login. -/
def issueTokens (env : Env) (userId : Uuid) (pubkey : Option String) : AuthHandler AuthReply := do
  let accessToken ← issueAccessToken env userId pubkey
  let refreshToken ← issueAndStoreRefreshToken env userId
  return .tokens { accessToken, refreshToken }

/-- `AuthUser::from_request_parts`. -/
def AuthUser.fromRequestParts (authorization : Option String) :
    Fallible AuthOp AuthOp.Ans String AuthUser := do
  let token ← Fallible.okOr "Missing or invalid Authorization header" authorization
  let claims ← Fallible.orFail "Invalid or expired token" (.issue (AuthOp.decodeToken token))
  return { userId := claims.sub, pubkey := claims.pubkey }

/-! ## Sign in with a wallet -/

def challenge : AuthHandler AuthReply := do
  let id ← Fallible.ask AuthOp.newUuid
  let nonce := id.toText
  let now ← Fallible.ask AuthOp.dbNow
  AuthStmt.query (.insertNonce nonce now)
  return .nonce nonce

/-- The body carries a signature of its nonce that is valid for its key. -/
def VerifyRequest.signed (env : Env) (body : VerifyRequest) : Bool :=
  match env.crates.pubkeyFromStr body.pubkey, env.crates.signatureFromStr body.signature with
  | some pubkey, some signature => env.crates.signatureVerify signature pubkey body.nonce
  | _, _ => false

/-- Steps 1 and 2 of `verify` and of `link_wallet`: consume the nonce, then check the signature. -/
def consumeSignedNonce (env : Env) (body : VerifyRequest) : AuthHandler Unit := do
  let now ← Fallible.ask AuthOp.dbNow
  let row ← AuthStmt.query (.consumeNonce body.nonce now)
  if row.isNone then throw .invalidOrExpiredNonce
  if ¬ body.signed env then throw .unauthorized

/-- The user of a wallet: the one that was found, or a new one. -/
def userOfKey (pubkey : String) : Option Uuid → AuthHandler Uuid
  | some userId => pure userId
  | none => do
      let userId ← AuthStmt.query .insertUser
      AuthStmt.query (.insertWallet userId pubkey)
      return userId

def verify (env : Env) (body : VerifyRequest) : AuthHandler AuthReply := do
  consumeSignedNonce env body
  let existingUserId ← AuthStmt.query (.userOfWallet body.pubkey)
  let userId ← userOfKey body.pubkey existingUserId
  issueTokens env userId (some body.pubkey)

def linkWallet (env : Env) (auth : AuthUser) (body : LinkWalletRequest) :
    AuthHandler AuthReply := do
  if auth.pubkey.isSome then throw .walletAlreadyLinked
  consumeSignedNonce env body
  let existingUserId ← AuthStmt.query (.userOfWallet body.pubkey)
  if existingUserId.isSome then throw .walletAlreadyLinked
  AuthStmt.query (.insertWallet auth.userId body.pubkey)
  issueTokens env auth.userId (some body.pubkey)

/-! ## Sign in with a provider -/

namespace OAuthProvider

def asStr : OAuthProvider → String
  | google => "google"
  | microsoft => "microsoft"

def tokenUrl (config : Config) : OAuthProvider → String
  | google => "https://oauth2.googleapis.com/token"
  | microsoft =>
      "https://login.microsoftonline.com/" ++ config.microsoftTenant ++ "/oauth2/v2.0/token"

def profileUrl : OAuthProvider → String
  | google => "https://openidconnect.googleapis.com/v1/userinfo"
  | microsoft => "https://graph.microsoft.com/oidc/userinfo"

def clientId (config : Config) : OAuthProvider → String
  | google => config.googleClientId
  | microsoft => config.microsoftClientId

def clientSecret (config : Config) : OAuthProvider → String
  | google => config.googleClientSecret
  | microsoft => config.microsoftClientSecret

def redirectUri (config : Config) : OAuthProvider → String
  | google => config.googleRedirectUri
  | microsoft => config.microsoftRedirectUri

def stateCookieName : OAuthProvider → String
  | google => "oauth_google_state"
  | microsoft => "oauth_microsoft_state"

end OAuthProvider

/-- `OAuthIdentity`. -/
structure OAuthIdentity where
  providerId : String
  email : String
  deriving DecidableEq

/-- `OAuthUserResolution`. -/
inductive OAuthUserResolution : Type
  | user (userId : Uuid)
  | conflict (details : EmailConflictDetails)
  deriving DecidableEq

def validateOAuthStateCookie (jar : List (String × String)) (provider : OAuthProvider)
    (queryState : String) : Except AppError Unit :=
  match (jar.find? fun cookie => cookie.1 = provider.stateCookieName).map Prod.snd with
  | none => .error .unauthorized
  | some cookieState => if cookieState ≠ queryState then .error .unauthorized else .ok ()

/-- `provider_id` of a profile. -/
def profileId (profile : Json) : Option String :=
  (((profile.get? "sub").or (profile.get? "oid")).or (profile.get? "id")).bind Json.asStr?

/-- `email` of a profile. -/
def profileEmail (profile : Json) : Option String :=
  (((profile.get? "email").or (profile.get? "mail")).or
    (profile.get? "userPrincipalName")).bind Json.asStr?

def exchangeCodeAndFetchIdentity (env : Env) (provider : OAuthProvider) (code : String) :
    AuthHandler OAuthIdentity := do
  let tokenJson ← Fallible.orFail .internalError
    (.issue (AuthOp.postForm (provider.tokenUrl env.config)
      [("client_id", provider.clientId env.config),
        ("client_secret", provider.clientSecret env.config),
        ("grant_type", "authorization_code"),
        ("code", code),
        ("redirect_uri", provider.redirectUri env.config)]))
  let accessToken ← Fallible.okOr .internalError ((tokenJson.get? "access_token").bind Json.asStr?)
  let profileJson ← Fallible.orFail .internalError
    (.issue (AuthOp.getJson provider.profileUrl accessToken))
  let providerId ← Fallible.okOr .internalError (profileId profileJson)
  let email ← Fallible.okOr
    (.emailRequired "Email is required to continue OAuth sign in" "/user/contacts")
    (profileEmail profileJson)
  return { providerId, email }

/-- `str::eq_ignore_ascii_case`. -/
def eqIgnoreAsciiCase (a b : String) : Bool :=
  a.toList.map Char.toLower = b.toList.map Char.toLower

def detectEmailConflict (existingProvider currentProvider : String) : Option EmailConflictDetails :=
  if eqIgnoreAsciiCase existingProvider currentProvider then none
  else some { existingProvider, linkUrl := "/auth/link/oauth" }

def upsertEmailContact (env : Env) (userId : Uuid) (email : String) : AuthHandler Unit := do
  let key ← Fallible.ofExcept (decodeHexKey32 env.config.encryptionKey)
  let idxKey ← Fallible.ofExcept (decodeHexKey32 env.config.encryptionIndexKey)
  let (emailEnc, nonce) ← Fallible.orFail .encryptionFailed (.issue (AuthOp.encrypt email key))
  let emailIndex := env.crates.hmacIndex email idxKey
  let now ← Fallible.ask AuthOp.dbNow
  AuthStmt.query (.upsertEmail userId emailEnc nonce emailIndex now)

/-- The user of an identity: the bound one, one with the same email and provider, or a new one. -/
def userOfIdentity (provider : OAuthProvider) (emailIndex : List UInt8) :
    Option Uuid → AuthHandler Uuid
  | some id => pure id
  | none => do
      match ← AuthStmt.query (.sameProviderUser emailIndex provider.asStr) with
      | some id => pure id
      | none => AuthStmt.query .insertUser

/-- Bind the identity to the user and store the email. -/
def bindIdentity (env : Env) (provider : OAuthProvider) (providerId email : String)
    (userIdByOAuth : Option Uuid) (emailIndex : List UInt8) : AuthHandler OAuthUserResolution := do
  let userId ← userOfIdentity provider emailIndex userIdByOAuth
  AuthStmt.query (.upsertOAuth userId provider.asStr providerId)
  upsertEmailContact env userId email
  return .user userId

def resolveOrCreateOAuthUser (env : Env) (provider : OAuthProvider) (providerId email : String) :
    AuthHandler OAuthUserResolution := do
  let userIdByOAuth ← AuthStmt.query (.userOfOAuth provider.asStr providerId)
  let idxKey ← Fallible.ofExcept (decodeHexKey32 env.config.encryptionIndexKey)
  let emailIndex := env.crates.hmacIndex email idxKey
  let conflictingProvider ← AuthStmt.query (.otherProviderOf emailIndex provider.asStr)
  match conflictingProvider.bind fun existing => detectEmailConflict existing provider.asStr with
  | some details => return .conflict details
  | none => bindIdentity env provider providerId email userIdByOAuth emailIndex

def oauthCallback (env : Env) (jar : List (String × String)) (query : OAuthCallbackQuery)
    (provider : OAuthProvider) : AuthHandler AuthReply := do
  Fallible.ofExcept (validateOAuthStateCookie jar provider query.state)
  let identity ← exchangeCodeAndFetchIdentity env provider query.code
  match ← resolveOrCreateOAuthUser env provider identity.providerId identity.email with
  | .user userId => issueTokens env userId none
  | .conflict details => return .conflict details

/-! ## Refresh and logout -/

def refresh (env : Env) (body : RefreshRequest) : AuthHandler AuthReply := do
  let tokenHash := env.crates.sha256Hex body.refreshToken
  let now ← Fallible.ask AuthOp.dbNow
  let row ← AuthStmt.query (.consumeToken tokenHash now)
  let userId ← Fallible.okOr .invalidRefreshToken row
  let pubkey ← AuthStmt.query (.walletOfUser userId)
  issueTokens env userId pubkey

def logout (env : Env) (body : RefreshRequest) : AuthHandler AuthReply := do
  let tokenHash := env.crates.sha256Hex body.refreshToken
  AuthStmt.query (.deleteToken tokenHash)
  return .message "Logged out successfully"

/-! ## Contacts -/

/-- Encrypt a value if it is given. -/
def encryptContact (key : Bytes 32) :
    Option String → AuthHandler (Option (List UInt8 × List UInt8))
  | none => pure none
  | some value => do
      let encrypted ← Fallible.orFail .encryptionFailed (.issue (AuthOp.encrypt value key))
      return some encrypted

def updateContacts (env : Env) (auth : AuthUser) (body : UpdateContactsRequest) :
    AuthHandler AuthReply := do
  let key ← Fallible.ofExcept (decodeHexKey32 env.config.encryptionKey)
  let idxKey ← Fallible.ofExcept (decodeHexKey32 env.config.encryptionIndexKey)
  let email ← encryptContact key body.email
  let emailIndex := body.email.map fun email => env.crates.hmacIndex email idxKey
  let phone ← encryptContact key body.phone
  let push ← encryptContact key body.pushToken
  let now ← Fallible.ask AuthOp.dbNow
  AuthStmt.query (.mergeContact ⟨auth.userId, email.map Prod.fst, email.map Prod.snd, emailIndex,
    phone.map Prod.fst, phone.map Prod.snd, push.map Prod.fst, push.map Prod.snd,
    wholeSeconds now⟩)
  return .message "Contacts updated successfully"

def deleteContacts (auth : AuthUser) : AuthHandler AuthReply := do
  AuthStmt.query (.deleteContact auth.userId)
  return .message "Contacts deleted successfully"

/-! ## Programs -/

/-- A handler behind its route: an `AppError` becomes the failure of the request. -/
def AuthHandler.reply (handler : AuthHandler AuthReply) :
    AuthProgram (Except AuthFailure AuthReply) := do
  match ← handler.run with
  | .ok reply => return .ok reply
  | .error e => return .error (.app e)

/-- A handler behind the extractor of the user. -/
def withAuthUser (authorization : Option String) (handler : AuthUser → AuthHandler AuthReply) :
    AuthProgram (Except AuthFailure AuthReply) := do
  match ← (AuthUser.fromRequestParts authorization).run with
  | .error text => return .error (.unauthorized text)
  | .ok auth => (handler auth).reply

/-- The handler of a request, with the extractors of its route. -/
def AuthRequest.handler (env : Env) : AuthRequest → AuthProgram (Except AuthFailure AuthReply)
  | .challenge => PactumCodex.challenge.reply
  | .verify body => (PactumCodex.verify env body).reply
  | .linkWallet authorization body =>
      withAuthUser authorization fun auth => PactumCodex.linkWallet env auth body
  | .oauthCallback provider jar query => (PactumCodex.oauthCallback env jar query provider).reply
  | .refresh body => (PactumCodex.refresh env body).reply
  | .logout body => (PactumCodex.logout env body).reply
  | .updateContacts authorization body =>
      withAuthUser authorization fun auth => PactumCodex.updateContacts env auth body
  | .deleteContacts authorization => withAuthUser authorization PactumCodex.deleteContacts

/-- Serve a request. -/
def serve (env : Env) (request : AuthRequest) : AuthProgram Unit := do
  let _ ← Program.issue (AuthOp.receive request)
  let result ← request.handler env
  let _ ← Program.issue (AuthOp.respond request result)
  return ()

/-- Scan 7 of the keeper: failed deletions are only logged. -/
def cleanupExpiredAuthRecords : AuthProgram Unit := do
  let now ← Program.issue AuthOp.utcNow
  let nonceThreshold := now - 300
  let _ ← Program.issue (AuthOp.sql (.deleteNoncesBefore nonceThreshold))
  let now ← Program.issue AuthOp.utcNow
  let _ ← Program.issue (AuthOp.sql (.deleteTokensBefore now))
  return ()

end PactumCodex
