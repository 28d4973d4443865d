import Mathlib.Algebra.Order.Round
import Mathlib.Data.Rat.Floor
import PactumCodex.Schema

/-!
# The authentication tables and their statements

Rows and constraints of `user_accounts`, `auth_wallet`, `auth_oauth`,
`user_contacts`, `siws_nonces` and `refresh_tokens`, and every SQL statement of
`handlers/auth.rs`, `services/jwt.rs`, the keeper's cleanup and the contact
routes of `handlers/user.rs` that reads or writes them.  The rest of the program
only reads these tables, except that `handlers/user.rs` changes display names.

As in the other tables, `exec s out db` is the database after the statement `s`,
or `none` if `s` cannot return `out` on `db`, and the reading `now` of the
database clock is an argument of the statements that evaluate
`extract(epoch from now())`.  The reading has a fractional part: comparisons use
it as it is, while a `BIGINT` column stores it in whole seconds.
-/

namespace PactumCodex

open Relational

/-! ## Rows -/

/-- `extract(epoch from now())` as a `BIGINT` column stores it: rounded, and half a second goes
up. -/
def wholeSeconds (now : ℚ) : ℤ := round now

/-- A row of `auth_oauth`. -/
structure OAuthAccount where
  userId : Uuid
  provider : String
  providerId : String
  deriving DecidableEq

/-- A row of `user_contacts` with all of its columns. -/
structure UserContact where
  userId : Uuid
  emailEnc : Option (List UInt8)
  emailNonce : Option (List UInt8)
  emailIndex : Option (List UInt8)
  phoneEnc : Option (List UInt8)
  phoneNonce : Option (List UInt8)
  pushTokenEnc : Option (List UInt8)
  pushTokenNonce : Option (List UInt8)
  updatedAt : ℤ
  deriving DecidableEq

/-- A row of `siws_nonces`. -/
structure SiwsNonce where
  nonce : String
  createdAt : ℤ
  deriving DecidableEq

/-- A row of `refresh_tokens`. -/
structure RefreshToken where
  tokenHash : String
  userId : Uuid
  createdAt : ℤ
  expiresAt : ℤ
  deriving DecidableEq

/-! ## Constraints -/

/-- Primary key of `user_accounts`. -/
def UsersValid (rows : List Uuid) : Prop := rows.Nodup

/-- Primary key of `auth_oauth`. -/
def OAuthAccountsValid (rows : List OAuthAccount) : Prop :=
  (rows.map fun row => (row.provider, row.providerId)).Nodup

/-- Primary key of `user_contacts`. -/
def UserContactsValid (rows : List UserContact) : Prop := (rows.map UserContact.userId).Nodup

/-- Primary key of `siws_nonces`. -/
def NoncesValid (rows : List SiwsNonce) : Prop := (rows.map SiwsNonce.nonce).Nodup

/-- Primary key of `refresh_tokens`. -/
def TokensValid (rows : List RefreshToken) : Prop := (rows.map RefreshToken.tokenHash).Nodup

instance usersValidDecidable : DecidablePred UsersValid :=
  fun _ => inferInstanceAs (Decidable (List.Nodup _))
instance oauthAccountsValidDecidable : DecidablePred OAuthAccountsValid :=
  fun _ => inferInstanceAs (Decidable (List.Nodup _))
instance userContactsValidDecidable : DecidablePred UserContactsValid :=
  fun _ => inferInstanceAs (Decidable (List.Nodup _))
instance noncesValidDecidable : DecidablePred NoncesValid :=
  fun _ => inferInstanceAs (Decidable (List.Nodup _))
instance tokensValidDecidable : DecidablePred TokensValid :=
  fun _ => inferInstanceAs (Decidable (List.Nodup _))

/-- The authentication tables; of `user_accounts`, the ids. -/
structure AuthDb where
  users : Table Uuid UsersValid
  wallets : Table Wallet WalletsValid
  oauthAccounts : Table OAuthAccount OAuthAccountsValid
  contacts : Table UserContact UserContactsValid
  nonces : Table SiwsNonce NoncesValid
  tokens : Table RefreshToken TokensValid

/-- The tables right after the migrations. -/
def AuthDb.empty : AuthDb where
  users := ⟨[], by decide⟩
  wallets := Db.empty.wallets
  oauthAccounts := ⟨[], by decide⟩
  contacts := ⟨[], by decide⟩
  nonces := ⟨[], by decide⟩
  tokens := ⟨[], by decide⟩

/-! ## Statements -/

/-- Statements on the authentication tables. -/
inductive AuthStmt : Type
  /-- `INSERT INTO siws_nonces (nonce) VALUES ($1)` -/
  | insertNonce (nonce : String) (now : ℚ)
  /-- `DELETE FROM siws_nonces WHERE nonce = $1 AND created_at > extract(epoch from now()) - 300
  RETURNING nonce` -/
  | consumeNonce (nonce : String) (now : ℚ)
  /-- `SELECT user_id FROM auth_wallet WHERE pubkey = $1` -/
  | userOfWallet (pubkey : String)
  /-- `SELECT pubkey FROM auth_wallet WHERE user_id = $1` -/
  | walletOfUser (userId : Uuid)
  /-- `INSERT INTO user_accounts DEFAULT VALUES RETURNING id` -/
  | insertUser
  /-- `INSERT INTO auth_wallet (user_id, pubkey) VALUES ($1, $2)` -/
  | insertWallet (userId : Uuid) (pubkey : String)
  /-- `SELECT user_id FROM auth_oauth WHERE provider = $1 AND provider_id = $2` -/
  | userOfOAuth (provider providerId : String)
  /-- `SELECT ao.provider FROM user_contacts uc INNER JOIN auth_oauth ao ON ao.user_id = uc.user_id
  WHERE uc.email_index = $1 AND ao.provider <> $2 LIMIT 1` -/
  | otherProviderOf (emailIndex : List UInt8) (provider : String)
  /-- `SELECT ao.user_id FROM user_contacts uc INNER JOIN auth_oauth ao ON ao.user_id = uc.user_id
  WHERE uc.email_index = $1 AND ao.provider = $2 LIMIT 1` -/
  | sameProviderUser (emailIndex : List UInt8) (provider : String)
  /-- `INSERT INTO auth_oauth (user_id, provider, provider_id) VALUES ($1, $2, $3)
  ON CONFLICT (provider, provider_id) DO UPDATE SET user_id = EXCLUDED.user_id` -/
  | upsertOAuth (userId : Uuid) (provider providerId : String)
  /-- `INSERT INTO user_contacts (user_id, email_enc, email_nonce, email_index, updated_at) …
  ON CONFLICT (user_id) DO UPDATE SET email_enc = EXCLUDED.email_enc, …` -/
  | upsertEmail (userId : Uuid) (emailEnc emailNonce emailIndex : List UInt8) (now : ℚ)
  /-- `INSERT INTO user_contacts (…) VALUES (…)` of the row
  `ON CONFLICT (user_id) DO UPDATE SET email_enc = COALESCE($2, user_contacts.email_enc), …` -/
  | mergeContact (row : UserContact)
  /-- `DELETE FROM user_contacts WHERE user_id = $1` -/
  | deleteContact (userId : Uuid)
  /-- `INSERT INTO refresh_tokens (user_id, token_hash, expires_at, created_at)
  VALUES ($1, $2, $3, $4)` -/
  | insertToken (userId : Uuid) (tokenHash : String) (expiresAt createdAt : ℤ)
  /-- `DELETE FROM refresh_tokens WHERE token_hash = $1 AND expires_at > extract(epoch from now())
  RETURNING user_id` -/
  | consumeToken (tokenHash : String) (now : ℚ)
  /-- `DELETE FROM refresh_tokens WHERE token_hash = $1` -/
  | deleteToken (tokenHash : String)
  /-- `DELETE FROM siws_nonces WHERE created_at < $1` -/
  | deleteNoncesBefore (threshold : ℤ)
  /-- `DELETE FROM refresh_tokens WHERE expires_at < $1` -/
  | deleteTokensBefore (threshold : ℤ)
  deriving DecidableEq

/-- The row that the consumption of a nonce deletes. -/
def SiwsNonce.consumed (nonce : String) (now : ℚ) (row : SiwsNonce) : Bool :=
  row.nonce = nonce ∧ now - 300 < row.createdAt

/-- The row that the exchange of a token deletes. -/
def RefreshToken.consumed (tokenHash : String) (now : ℚ) (row : RefreshToken) : Bool :=
  row.tokenHash = tokenHash ∧ now < row.expiresAt

/-- `COALESCE` of every column but the key and the time. -/
def UserContact.coalesce (new old : UserContact) : UserContact where
  userId := old.userId
  emailEnc := new.emailEnc.or old.emailEnc
  emailNonce := new.emailNonce.or old.emailNonce
  emailIndex := new.emailIndex.or old.emailIndex
  phoneEnc := new.phoneEnc.or old.phoneEnc
  phoneNonce := new.phoneNonce.or old.phoneNonce
  pushTokenEnc := new.pushTokenEnc.or old.pushTokenEnc
  pushTokenNonce := new.pushTokenNonce.or old.pushTokenNonce
  updatedAt := new.updatedAt

/-- The rows of `auth_oauth` that belong to a user with the given email. -/
def AuthDb.accountsWithEmail (db : AuthDb) (emailIndex : List UInt8) : List OAuthAccount :=
  (db.contacts.rows.filter fun contact => contact.emailIndex = some emailIndex).flatMap
    fun contact =>
    db.oauthAccounts.rows.filter fun account => account.userId = contact.userId

namespace AuthStmt

/-- What the statement returns. -/
@[reducible] def Out : AuthStmt → Type
  | insertNonce .. => Unit
  | consumeNonce .. => Option String
  | userOfWallet _ => Option Uuid
  | walletOfUser _ => Option String
  | insertUser => Uuid
  | insertWallet .. => Unit
  | userOfOAuth .. => Option Uuid
  | otherProviderOf .. => Option String
  | sameProviderUser .. => Option Uuid
  | upsertOAuth .. => Unit
  | upsertEmail .. => Unit
  | mergeContact _ => Unit
  | deleteContact _ => Unit
  | insertToken .. => Unit
  | consumeToken .. => Option Uuid
  | deleteToken _ => Unit
  | deleteNoncesBefore _ => Unit
  | deleteTokensBefore _ => Unit

/-- The row that the upsert of an email inserts for a user without contacts. -/
def newContact (userId : Uuid) (emailEnc emailNonce emailIndex : List UInt8) (now : ℚ) :
    UserContact :=
  ⟨userId, some emailEnc, some emailNonce, some emailIndex, none, none, none, none,
    wholeSeconds now⟩

/-- The database after the statement. -/
def exec : (s : AuthStmt) → s.Out → AuthDb → Option AuthDb
  | insertNonce nonce now, _, db =>
      (commit (db.nonces.rows ++ [⟨nonce, wholeSeconds now⟩])).map fun nonces => { db with nonces }
  | consumeNonce nonce now, result, db =>
      if result = (db.nonces.rows.find? (·.consumed nonce now)).map SiwsNonce.nonce then
        (commit (deleteWhere (·.consumed nonce now) db.nonces.rows)).map
          fun nonces => { db with nonces }
      else none
  | userOfWallet pubkey, result, db =>
      provided (result = (lookup Wallet.pubkey pubkey db.wallets.rows).map Wallet.userId) db
  | walletOfUser userId, result, db =>
      provided (FetchOptional ((db.wallets.rows.filter fun row => row.userId = userId).map
        Wallet.pubkey) result) db
  | insertUser, id, db => (commit (db.users.rows ++ [id])).map fun users => { db with users }
  | insertWallet userId pubkey, _, db =>
      -- `user_id` references `user_accounts`
      if userId ∈ db.users.rows then
        (commit (db.wallets.rows ++ [⟨userId, pubkey⟩])).map fun wallets => { db with wallets }
      else none
  | userOfOAuth provider providerId, result, db =>
      provided (result = (lookup (fun row : OAuthAccount => (row.provider, row.providerId))
        (provider, providerId) db.oauthAccounts.rows).map OAuthAccount.userId) db
  | otherProviderOf emailIndex provider, result, db =>
      provided (FetchOptional (((db.accountsWithEmail emailIndex).filter fun row =>
        row.provider ≠ provider).map OAuthAccount.provider) result) db
  | sameProviderUser emailIndex provider, result, db =>
      provided (FetchOptional (((db.accountsWithEmail emailIndex).filter fun row =>
        row.provider = provider).map OAuthAccount.userId) result) db
  | upsertOAuth userId provider providerId, _, db =>
      let bound := fun row : OAuthAccount => row.provider = provider ∧ row.providerId = providerId
      if userId ∈ db.users.rows then
        (commit (if db.oauthAccounts.rows.any fun row => bound row then
            updateWhere (fun row => bound row) ({ · with userId }) db.oauthAccounts.rows
          else db.oauthAccounts.rows ++ [⟨userId, provider, providerId⟩])).map
          fun oauthAccounts => { db with oauthAccounts }
      else none
  | upsertEmail userId emailEnc emailNonce emailIndex now, _, db =>
      if userId ∈ db.users.rows then
        (commit (if db.contacts.rows.any fun row => row.userId = userId then
            updateWhere (·.userId = userId)
              ({ · with
                emailEnc := some emailEnc
                emailNonce := some emailNonce
                emailIndex := some emailIndex
                updatedAt := wholeSeconds now })
              db.contacts.rows
          else db.contacts.rows ++ [newContact userId emailEnc emailNonce emailIndex now])).map
          fun contacts => { db with contacts }
      else none
  | mergeContact row, _, db =>
      if row.userId ∈ db.users.rows then
        (commit (if db.contacts.rows.any fun old => old.userId = row.userId then
            updateWhere (·.userId = row.userId) row.coalesce db.contacts.rows
          else db.contacts.rows ++ [row])).map fun contacts => { db with contacts }
      else none
  | deleteContact userId, _, db =>
      (commit (deleteWhere (·.userId = userId) db.contacts.rows)).map
        fun contacts => { db with contacts }
  | insertToken userId tokenHash expiresAt createdAt, _, db =>
      if userId ∈ db.users.rows then
        (commit (db.tokens.rows ++ [⟨tokenHash, userId, createdAt, expiresAt⟩])).map
          fun tokens => { db with tokens }
      else none
  | consumeToken tokenHash now, result, db =>
      if result = (db.tokens.rows.find? (·.consumed tokenHash now)).map RefreshToken.userId then
        (commit (deleteWhere (·.consumed tokenHash now) db.tokens.rows)).map
          fun tokens => { db with tokens }
      else none
  | deleteToken tokenHash, _, db =>
      (commit (deleteWhere (·.tokenHash = tokenHash) db.tokens.rows)).map
        fun tokens => { db with tokens }
  | deleteNoncesBefore threshold, _, db =>
      (commit (deleteWhere (·.createdAt < threshold) db.nonces.rows)).map
        fun nonces => { db with nonces }
  | deleteTokensBefore threshold, _, db =>
      (commit (deleteWhere (·.expiresAt < threshold) db.tokens.rows)).map
        fun tokens => { db with tokens }

end AuthStmt

end PactumCodex
