import PactumCodex.Auth.Schema
import PactumCodex.Lib.Fallible
import PactumCodex.World

/-!
# Requests, operations and the world of authentication

The requests of `handlers/auth.rs` and to the contacts of `handlers/user.rs`, with
their bodies and replies, the operations their handlers issue, and what the
operations do to an `AuthWorld`.

* SQL statements and clocks are as in the other parts of the backend: a statement
  can always fail and then changes nothing, the database clock never runs
  backwards, the host clock is arbitrary and read in whole seconds.  Here the
  readings of the database clock are compared as well as stored, so they keep
  their fractional part.
* A generated `uuid` and a raw refresh token have not been generated before.
* What an OAuth provider answers, and what encoding or decoding a JWT and
  encrypting a contact give, is arbitrary.
* `receive` and `respond` do nothing; they mark where a program starts to serve a
  request and what it answers.
-/

namespace PactumCodex

open Interaction Relational

/-! ## Requests and replies -/

/-- `VerifyRequest`. -/
structure VerifyRequest where
  pubkey : String
  signature : String
  nonce : String
  deriving DecidableEq

/-- `LinkWalletRequest` has the same fields. -/
abbrev LinkWalletRequest := VerifyRequest

/-- `OAuthProvider`. -/
inductive OAuthProvider : Type
  | google
  | microsoft
  deriving DecidableEq, Repr

/-- `OAuthCallbackQuery`. -/
structure OAuthCallbackQuery where
  code : String
  state : String
  deriving DecidableEq

/-- `RefreshRequest`. -/
structure RefreshRequest where
  refreshToken : String
  deriving DecidableEq

/-- `UpdateContactsRequest`. -/
structure UpdateContactsRequest where
  email : Option String
  phone : Option String
  pushToken : Option String
  deriving DecidableEq

/-- A request to one of the routes under `/auth` or to `/user/contacts`; `authorization` is what the
header holds after `Bearer `, and the `jar` lists the cookies. -/
inductive AuthRequest : Type
  | challenge
  | verify (body : VerifyRequest)
  | linkWallet (authorization : Option String) (body : LinkWalletRequest)
  | oauthCallback (provider : OAuthProvider) (jar : List (String × String))
      (query : OAuthCallbackQuery)
  | refresh (body : RefreshRequest)
  | logout (body : RefreshRequest)
  | updateContacts (authorization : Option String) (body : UpdateContactsRequest)
  | deleteContacts (authorization : Option String)
  deriving DecidableEq

/-- `AuthResponse`. -/
structure AuthResponse where
  accessToken : String
  refreshToken : String
  deriving DecidableEq

/-- `EmailConflictDetails`. -/
structure EmailConflictDetails where
  existingProvider : String
  linkUrl : String
  deriving DecidableEq

/-- What a request is answered with. -/
inductive AuthReply : Type
  | nonce (nonce : String)
  | tokens (response : AuthResponse)
  /-- `409 CONFLICT` with the error `email_already_registered` -/
  | conflict (details : EmailConflictDetails)
  | message (text : String)
  deriving DecidableEq

/-- Why a request fails: an `AppError`, or `401 UNAUTHORIZED` with a text from the extractor. -/
inductive AuthFailure : Type
  | app (error : AppError)
  | unauthorized (text : String)
  deriving DecidableEq

/-- `Claims` of an access token. -/
structure Claims where
  sub : Uuid
  pubkey : Option String
  exp : ℤ
  iat : ℤ
  jti : Uuid
  deriving DecidableEq

/-! ## Operations -/

/-- An operation of a program that serves a request or cleans up. -/
inductive AuthOp : Type
  | sql (s : AuthStmt)
  /-- `extract(epoch from now())` -/
  | dbNow
  /-- `current_timestamp()` and `chrono::Utc::now().timestamp()` -/
  | utcNow
  /-- `Uuid::new_v4()` -/
  | newUuid
  /-- `hex::encode` of 32 bytes from `rand::random` -/
  | newToken
  /-- `jsonwebtoken::encode` under the secret of the configuration -/
  | encodeToken (claims : Claims)
  /-- `jsonwebtoken::decode` under the secret of the configuration, with validation of `exp` -/
  | decodeToken (token : String)
  /-- `crypto::encrypt`: ciphertext and nonce -/
  | encrypt (plaintext : String) (key : Bytes 32)
  /-- `OAuthHttpClient::post_form` -/
  | postForm (url : String) (form : List (String × String))
  /-- `OAuthHttpClient::get_json` -/
  | getJson (url bearerToken : String)
  | receive (request : AuthRequest)
  | respond (request : AuthRequest) (result : Except AuthFailure AuthReply)

/-- The answer of an operation. -/
@[reducible] def AuthOp.Ans : AuthOp → Type
  | sql s => Except Failure s.Out
  | dbNow => ℚ
  | utcNow => ℤ
  | newUuid => Uuid
  | newToken => String
  | encodeToken _ => Except Failure String
  | decodeToken _ => Except Failure Claims
  | encrypt .. => Except Failure (List UInt8 × List UInt8)
  | postForm .. => Except Failure Json
  | getJson .. => Except Failure Json
  | receive _ => Unit
  | respond .. => Unit

/-- The tables, the database clock, and the identifiers and refresh tokens generated so far. -/
structure AuthWorld where
  db : AuthDb
  clock : ℚ
  uuids : List Uuid
  rawTokens : List String

/-- A world holding the given data. -/
def AuthWorld.ofDb (db : AuthDb) : AuthWorld := ⟨db, 0, [], []⟩

/-- The identifiers the database generates for a statement. -/
def AuthStmt.generated : (s : AuthStmt) → s.Out → List Uuid
  | .insertUser, id => [id]
  | _, _ => []

/-- The world after a statement that succeeded with the given result. -/
def performAuthSql (s : AuthStmt) (out : s.Out) (w : AuthWorld) : Option AuthWorld :=
  if (s.generated out).all fun id => id ∉ w.uuids then
    (s.exec out w.db).map fun db => { w with db, uuids := s.generated out ++ w.uuids }
  else none

/-- The meaning of the operations. -/
def performAuth : (op : AuthOp) → op.Ans → AuthWorld → Option AuthWorld
  | .sql s, .ok out, w => performAuthSql s out w
  | .sql _, .error _, w => some w
  | .dbNow, now, w => provided (w.clock ≤ now) { w with clock := now }
  | .newUuid, id, w => provided (id ∉ w.uuids) { w with uuids := id :: w.uuids }
  | .newToken, raw, w => provided (raw ∉ w.rawTokens) { w with rawTokens := raw :: w.rawTokens }
  | .utcNow, _, w => some w
  | .encodeToken _, _, w => some w
  | .decodeToken _, _, w => some w
  | .encrypt .., _, w => some w
  | .postForm .., _, w => some w
  | .getJson .., _, w => some w
  | .receive _, _, w => some w
  | .respond .., _, w => some w

/-! ## Handlers -/

/-- A program over these operations. -/
abbrev AuthProgram (α : Type) := Program AuthOp AuthOp.Ans α

/-- A handler: a program that returns a value or an `AppError`. -/
abbrev AuthHandler (α : Type) := Fallible AuthOp AuthOp.Ans AppError α

/-- A step of such a program. -/
abbrev AuthStep := Step AuthOp AuthOp.Ans AuthWorld

/-- Issue an SQL statement, `.map_err(|_| AppError::InternalError)?`. -/
def AuthStmt.query (s : AuthStmt) : AuthHandler s.Out :=
  Fallible.orFail .internalError (.issue (AuthOp.sql s))

end PactumCodex
