import PactumCodex.Auth.Runs

/-!
# What a step does to the tables

`AuthEffect` says what a step leaves of the nonces, the refresh tokens, the
linked wallets and the values generated so far, `AccountEffect` what it leaves of
the users, the bound identities and the contacts.  Every valid step has both
(`authEffect_of_valid`, `accountEffect_of_valid`), so the invariants of the
following files never unfold a statement.

The tables after an operation are functions of the operation, its answer and the
table before (`noncesAfter` and the others), each with one line for every
statement that writes it.  Two kinds of lemmas are derived: where a row comes from
that is there after a step (`nonce_of_step`, `token_of_step`, `wallet_of_step`), and what
an answer tells about the table before it (`consumeNonce_some`, `userOfOAuth_some`).
-/

namespace PactumCodex

open Interaction Relational

/-! ## Tables after an operation -/

def noncesAfter : (op : AuthOp) → op.Ans → List SiwsNonce → List SiwsNonce
  | .sql (.insertNonce nonce now), .ok _, rows => rows ++ [⟨nonce, wholeSeconds now⟩]
  | .sql (.consumeNonce nonce now), .ok _, rows => deleteWhere (·.consumed nonce now) rows
  | .sql (.deleteNoncesBefore threshold), .ok _, rows => deleteWhere (·.createdAt < threshold) rows
  | _, _, rows => rows

def tokensAfter : (op : AuthOp) → op.Ans → List RefreshToken → List RefreshToken
  | .sql (.insertToken userId tokenHash expiresAt createdAt), .ok _, rows =>
      rows ++ [⟨tokenHash, userId, createdAt, expiresAt⟩]
  | .sql (.consumeToken tokenHash now), .ok _, rows => deleteWhere (·.consumed tokenHash now) rows
  | .sql (.deleteToken tokenHash), .ok _, rows => deleteWhere (·.tokenHash = tokenHash) rows
  | .sql (.deleteTokensBefore threshold), .ok _, rows => deleteWhere (·.expiresAt < threshold) rows
  | _, _, rows => rows

def walletsAfter : (op : AuthOp) → op.Ans → List Wallet → List Wallet
  | .sql (.insertWallet userId pubkey), .ok _, rows => rows ++ [⟨userId, pubkey⟩]
  | _, _, rows => rows

def usersAfter : (op : AuthOp) → op.Ans → List Uuid → List Uuid
  | .sql .insertUser, .ok userId, rows => rows ++ [userId]
  | _, _, rows => rows

def oauthAccountsAfter : (op : AuthOp) → op.Ans → List OAuthAccount → List OAuthAccount
  | .sql (.upsertOAuth userId provider providerId), .ok _, rows =>
      upsertRow (fun row => row.provider = provider ∧ row.providerId = providerId)
        ({ · with userId }) ⟨userId, provider, providerId⟩ rows
  | _, _, rows => rows

def contactsAfter : (op : AuthOp) → op.Ans → List UserContact → List UserContact
  | .sql (.upsertEmail userId emailEnc emailNonce emailIndex now), .ok _, rows =>
      upsertRow (·.userId = userId)
        ({ · with
          emailEnc := some emailEnc
          emailNonce := some emailNonce
          emailIndex := some emailIndex
          updatedAt := wholeSeconds now })
        (AuthStmt.newContact userId emailEnc emailNonce emailIndex now) rows
  | .sql (.mergeContact row), .ok _, rows => upsertRow (·.userId = row.userId) row.coalesce row rows
  | .sql (.deleteContact userId), .ok _, rows => deleteWhere (·.userId = userId) rows
  | _, _, rows => rows

def rawTokensAfter : (op : AuthOp) → op.Ans → List String → List String
  | .newToken, raw, tokens => raw :: tokens
  | _, _, tokens => tokens

/-- What a step leaves. -/
structure AuthEffect (op : AuthOp) (answer : op.Ans) (w w' : AuthWorld) : Prop where
  nonces : w'.db.nonces.rows = noncesAfter op answer w.db.nonces.rows
  tokens : w'.db.tokens.rows = tokensAfter op answer w.db.tokens.rows
  wallets : w'.db.wallets.rows = walletsAfter op answer w.db.wallets.rows
  rawTokens : w'.rawTokens = rawTokensAfter op answer w.rawTokens
  uuids : w.uuids ⊆ w'.uuids

theorem authEffect_refl {op : AuthOp} {answer : op.Ans} (w : AuthWorld)
    (hnonces : noncesAfter op answer = id) (htokens : tokensAfter op answer = id)
    (hwallets : walletsAfter op answer = id) (hraw : rawTokensAfter op answer = id) :
    AuthEffect op answer w w := by
  constructor
  · rw [hnonces]
    rfl
  · rw [htokens]
    rfl
  · rw [hwallets]
    rfl
  · rw [hraw]
    rfl
  · exact List.Subset.refl _

theorem performAuth_sql {s : AuthStmt} {out : s.Out} {w w' : AuthWorld}
    (h : performAuth (.sql s) (.ok out) w = some w') :
    (∀ id ∈ s.generated out, id ∉ w.uuids) ∧ ∃ db, s.exec out w.db = some db ∧
      w' = { w with db, uuids := s.generated out ++ w.uuids } := by
  have hsql : performAuthSql s out w = some w' := h
  rw [performAuthSql, Option.ite_none_right_eq_some, Option.map_eq_some_iff] at hsql
  obtain ⟨hfresh, db, hexec, rfl⟩ := hsql
  exact ⟨by simpa using hfresh, db, hexec, rfl⟩

/-- The tables after a statement that succeeded. -/
structure TablesAfter (op : AuthOp) (answer : op.Ans) (db db' : AuthDb) : Prop where
  nonces : db'.nonces.rows = noncesAfter op answer db.nonces.rows
  tokens : db'.tokens.rows = tokensAfter op answer db.tokens.rows
  wallets : db'.wallets.rows = walletsAfter op answer db.wallets.rows
  users : db'.users.rows = usersAfter op answer db.users.rows
  oauthAccounts : db'.oauthAccounts.rows = oauthAccountsAfter op answer db.oauthAccounts.rows
  contacts : db'.contacts.rows = contactsAfter op answer db.contacts.rows

theorem tables_of_exec {s : AuthStmt} {out : s.Out} {db db' : AuthDb}
    (h : s.exec out db = some db') : TablesAfter (.sql s) (.ok out) db db' := by
  cases s <;>
    simp only [AuthStmt.exec, provided_eq_some, Option.ite_none_right_eq_some,
      Option.map_eq_some_iff] at h
  case insertNonce | insertUser | deleteContact | deleteToken | deleteNoncesBefore |
      deleteTokensBefore =>
    obtain ⟨table, hcommit, rfl⟩ := h
    constructor <;> first | rfl | exact rows_of_commit hcommit
  case consumeNonce | insertWallet | upsertOAuth | upsertEmail | mergeContact | insertToken |
      consumeToken =>
    obtain ⟨-, table, hcommit, rfl⟩ := h
    constructor <;> first | rfl | exact rows_of_commit hcommit
  case userOfWallet | walletOfUser | userOfOAuth | otherProviderOf | sameProviderUser =>
    obtain ⟨-, rfl⟩ := h
    constructor <;> rfl

/-- **Step lemma.**  Every valid step has its effect. -/
theorem authEffect_of_valid {op : AuthOp} {answer : op.Ans} {w w' : AuthWorld}
    (h : performAuth op answer w = some w') : AuthEffect op answer w w' := by
  cases op with
  | sql s =>
      cases answer with
      | error e =>
          obtain rfl : w = w' := Option.some.inj h
          cases s <;> exact authEffect_refl w rfl rfl rfl rfl
      | ok out =>
          obtain ⟨-, db, hexec, rfl⟩ := performAuth_sql h
          have htables := tables_of_exec hexec
          exact ⟨htables.nonces, htables.tokens, htables.wallets, rfl,
            List.subset_append_right _ _⟩
  | dbNow =>
      obtain ⟨-, rfl⟩ := provided_eq_some.mp h
      exact ⟨rfl, rfl, rfl, rfl, List.Subset.refl _⟩
  | newUuid =>
      obtain ⟨-, rfl⟩ := provided_eq_some.mp h
      exact ⟨rfl, rfl, rfl, rfl, List.subset_cons_self _ _⟩
  | newToken =>
      obtain ⟨-, rfl⟩ := provided_eq_some.mp h
      exact ⟨rfl, rfl, rfl, rfl, List.Subset.refl _⟩
  | utcNow | encodeToken | decodeToken | encrypt | postForm | getJson | receive | respond =>
      obtain rfl : w = w' := Option.some.inj h
      exact authEffect_refl w rfl rfl rfl rfl

/-! ## Users, identities and contacts after an operation -/

/-- What a step leaves of the users, the identities and the contacts. -/
structure AccountEffect (op : AuthOp) (answer : op.Ans) (w w' : AuthWorld) : Prop where
  users : w'.db.users.rows = usersAfter op answer w.db.users.rows
  oauthAccounts : w'.db.oauthAccounts.rows = oauthAccountsAfter op answer w.db.oauthAccounts.rows
  contacts : w'.db.contacts.rows = contactsAfter op answer w.db.contacts.rows

/-- **Step lemma** for users, identities and contacts. -/
theorem accountEffect_of_valid {op : AuthOp} {answer : op.Ans} {w w' : AuthWorld}
    (h : performAuth op answer w = some w') : AccountEffect op answer w w' := by
  cases op with
  | sql s =>
      cases answer with
      | error e =>
          obtain rfl : w = w' := Option.some.inj h
          cases s <;> exact ⟨rfl, rfl, rfl⟩
      | ok out =>
          obtain ⟨-, db, hexec, rfl⟩ := performAuth_sql h
          have htables := tables_of_exec hexec
          exact ⟨htables.users, htables.oauthAccounts, htables.contacts⟩
  | dbNow | newUuid | newToken =>
      obtain ⟨-, rfl⟩ := provided_eq_some.mp h
      exact ⟨rfl, rfl, rfl⟩
  | utcNow | encodeToken | decodeToken | encrypt | postForm | getJson | receive | respond =>
      obtain rfl : w = w' := Option.some.inj h
      exact ⟨rfl, rfl, rfl⟩

/-! ## New rows -/

section NewRows

variable {w w' : AuthWorld} {op : AuthOp} {answer : op.Ans}

/-- A nonce that is in the table after a step was there before or is inserted by it. -/
theorem nonce_of_step (h : AuthEffect op answer w w') {row : SiwsNonce}
    (hrow : row ∈ w'.db.nonces.rows) : row ∈ w.db.nonces.rows ∨ ∃ now,
      row.createdAt = wholeSeconds now ∧ (⟨w, op, answer, w'⟩ : AuthStep) =
        ⟨w, .sql (.insertNonce row.nonce now), .ok (), w'⟩ := by
  rw [h.nonces] at hrow
  unfold noncesAfter at hrow
  split at hrow
  · rcases List.mem_append.mp hrow with hrow | hrow
    · exact Or.inl hrow
    · obtain rfl := List.mem_singleton.mp hrow
      exact Or.inr ⟨_, rfl, rfl⟩
  · exact Or.inl (mem_deleteWhere.mp hrow).1
  · exact Or.inl (mem_deleteWhere.mp hrow).1
  · exact Or.inl hrow

/-- A token that is in the table after a step was there before or is inserted by it. -/
theorem token_of_step (h : AuthEffect op answer w w') {row : RefreshToken}
    (hrow : row ∈ w'.db.tokens.rows) : row ∈ w.db.tokens.rows ∨
      (⟨w, op, answer, w'⟩ : AuthStep) =
        ⟨w, .sql (.insertToken row.userId row.tokenHash row.expiresAt row.createdAt), .ok (),
          w'⟩ := by
  rw [h.tokens] at hrow
  unfold tokensAfter at hrow
  split at hrow
  · rcases List.mem_append.mp hrow with hrow | hrow
    · exact Or.inl hrow
    · obtain rfl := List.mem_singleton.mp hrow
      exact Or.inr rfl
  · exact Or.inl (mem_deleteWhere.mp hrow).1
  · exact Or.inl (mem_deleteWhere.mp hrow).1
  · exact Or.inl (mem_deleteWhere.mp hrow).1
  · exact Or.inl hrow

/-- A linked wallet after a step was linked before or is linked by it. -/
theorem wallet_of_step (h : AuthEffect op answer w w') {row : Wallet}
    (hrow : row ∈ w'.db.wallets.rows) : row ∈ w.db.wallets.rows ∨
      (⟨w, op, answer, w'⟩ : AuthStep) =
        ⟨w, .sql (.insertWallet row.userId row.pubkey), .ok (), w'⟩ := by
  rw [h.wallets] at hrow
  unfold walletsAfter at hrow
  split at hrow
  · rcases List.mem_append.mp hrow with hrow | hrow
    · exact Or.inl hrow
    · obtain rfl := List.mem_singleton.mp hrow
      exact Or.inr rfl
  · exact Or.inl hrow

/-- A bound identity after a step was bound to its user before, or is bound by it. -/
theorem account_of_step (h : AccountEffect op answer w w') {row : OAuthAccount}
    (hrow : row ∈ w'.db.oauthAccounts.rows) : row ∈ w.db.oauthAccounts.rows ∨
      (⟨w, op, answer, w'⟩ : AuthStep) =
        ⟨w, .sql (.upsertOAuth row.userId row.provider row.providerId), .ok (), w'⟩ := by
  rw [h.oauthAccounts] at hrow
  unfold oauthAccountsAfter at hrow
  split at hrow
  · rcases mem_upsertRow hrow with rfl | ⟨old, -, hkey, rfl⟩ | ⟨hkept, -⟩
    · exact Or.inr rfl
    · obtain ⟨rfl, rfl⟩ := of_decide_eq_true hkey
      exact Or.inr rfl
    · exact Or.inl hkept
  · exact Or.inl hrow

end NewRows

/-! ## What an answer tells -/

section Answers

variable {w w' : AuthWorld}

theorem newUuid_fresh {id : Uuid} (h : performAuth .newUuid id w = some w') :
    id ∉ w.uuids ∧ w'.uuids = id :: w.uuids := by
  obtain ⟨hfresh, rfl⟩ := provided_eq_some.mp h
  exact ⟨hfresh, rfl⟩

theorem newToken_fresh {raw : String} (h : performAuth .newToken raw w = some w') :
    raw ∉ w.rawTokens :=
  (provided_eq_some.mp h).1

/-- A nonce that is consumed was stored. -/
theorem consumeNonce_some {nonce out : String} {now : ℚ}
    (h : performAuth (.sql (.consumeNonce nonce now)) (.ok (some out)) w = some w') :
    ∃ row ∈ w.db.nonces.rows, row.consumed nonce now = true := by
  obtain ⟨-, db, hexec, -⟩ := performAuth_sql h
  simp only [AuthStmt.exec, Option.ite_none_right_eq_some] at hexec
  obtain ⟨row, hfind, -⟩ := Option.map_eq_some_iff.mp hexec.1.symm
  exact ⟨row, List.mem_of_find?_eq_some hfind, List.find?_some hfind⟩

/-- A token that is exchanged was stored. -/
theorem consumeToken_some {tokenHash : String} {now : ℚ} {userId : Uuid}
    (h : performAuth (.sql (.consumeToken tokenHash now)) (.ok (some userId)) w = some w') :
    ∃ row ∈ w.db.tokens.rows, row.consumed tokenHash now = true ∧ row.userId = userId := by
  obtain ⟨-, db, hexec, -⟩ := performAuth_sql h
  simp only [AuthStmt.exec, Option.ite_none_right_eq_some] at hexec
  obtain ⟨row, hfind, huser⟩ := Option.map_eq_some_iff.mp hexec.1.symm
  exact ⟨row, List.mem_of_find?_eq_some hfind, List.find?_some hfind, huser⟩

/-- The user that an identity is bound to. -/
theorem userOfOAuth_some {provider providerId : String} {userId : Uuid}
    (h : performAuth (.sql (.userOfOAuth provider providerId)) (.ok (some userId)) w = some w') :
    ⟨userId, provider, providerId⟩ ∈ w.db.oauthAccounts.rows := by
  obtain ⟨-, db, hexec, -⟩ := performAuth_sql h
  obtain ⟨row, hlookup, rfl⟩ := Option.map_eq_some_iff.mp (provided_eq_some.mp hexec).1.symm
  obtain ⟨hrow, hkey⟩ := (lookup_eq_some w.db.oauthAccounts.valid).mp hlookup
  obtain ⟨rfl, rfl⟩ := Prod.mk.inj hkey
  exact hrow

/-- A user found by email has an identity. -/
theorem sameProviderUser_some {emailIndex : List UInt8} {provider : String} {userId : Uuid}
    (h : performAuth (.sql (.sameProviderUser emailIndex provider)) (.ok (some userId))
      w = some w') :
    ∃ row ∈ w.db.oauthAccounts.rows, row.userId = userId := by
  obtain ⟨-, db, hexec, -⟩ := performAuth_sql h
  obtain ⟨row, hfilter, huser⟩ := List.mem_map.mp (provided_eq_some.mp hexec).1
  obtain ⟨contact, -, haccount⟩ := List.mem_flatMap.mp (List.mem_filter.mp hfilter).1
  exact ⟨row, (List.mem_filter.mp haccount).1, huser⟩

/-- A new user has not been generated before. -/
theorem insertUser_fresh {userId : Uuid}
    (h : performAuth (.sql .insertUser) (.ok userId) w = some w') :
    userId ∉ w.uuids ∧ userId ∈ w'.uuids := by
  obtain ⟨hfresh, db, -, rfl⟩ := performAuth_sql h
  exact ⟨hfresh userId List.mem_cons_self, List.mem_cons_self⟩

theorem SiwsNonce.consumed_iff {nonce : String} {now : ℚ} {row : SiwsNonce} :
    row.consumed nonce now = true ↔ row.nonce = nonce ∧ now - 300 < row.createdAt :=
      decide_eq_true_iff

theorem RefreshToken.consumed_iff {tokenHash : String} {now : ℚ} {row : RefreshToken} :
    row.consumed tokenHash now = true ↔ row.tokenHash = tokenHash ∧ now < row.expiresAt :=
  decide_eq_true_iff

/-- A failed consumption found no row. -/
theorem consumeNonce_none {nonce : String} {now : ℚ}
    (h : performAuth (.sql (.consumeNonce nonce now)) (.ok none) w = some w') :
    ∀ row ∈ w.db.nonces.rows, row.consumed nonce now = false := by
  obtain ⟨-, db, hexec, -⟩ := performAuth_sql h
  simp only [AuthStmt.exec, Option.ite_none_right_eq_some] at hexec
  have hnone := Option.map_eq_none_iff.mp hexec.1.symm
  exact fun row hrow => Bool.eq_false_iff.mpr (List.find?_eq_none.mp hnone row hrow)

theorem consumeToken_none {tokenHash : String} {now : ℚ}
    (h : performAuth (.sql (.consumeToken tokenHash now)) (.ok none) w = some w') :
    ∀ row ∈ w.db.tokens.rows, row.consumed tokenHash now = false := by
  obtain ⟨-, db, hexec, -⟩ := performAuth_sql h
  simp only [AuthStmt.exec, Option.ite_none_right_eq_some] at hexec
  have hnone := Option.map_eq_none_iff.mp hexec.1.symm
  exact fun row hrow => Bool.eq_false_iff.mpr (List.find?_eq_none.mp hnone row hrow)

end Answers

end PactumCodex
