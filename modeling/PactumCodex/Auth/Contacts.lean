import PactumCodex.Auth.Accounts
import PactumCodex.Auth.Replay

/-!
# Rows of `user_contacts`

Two writers merge into these rows: `update_contacts` column by column with
`COALESCE`, and the OAuth callback over all columns of the email.  Both write a
ciphertext together with its nonce, and an email together with its index, so the
columns of a value stay together (`rows_together`).  Neither looks for
other users with the same email, so the index is unique only as long as nobody
stores an email that is somebody else's (`emails_unique_iff`).

## Columns of one value

`Together` traces each value of a row back to the steps of the history: one call of
`update_contacts`, or one email that was encrypted and indexed.  `COALESCE` keeps
this because it takes the columns of a value from the same side
(`FromOneCall.or`).  With an encryption that can be inverted, what is stored
then decrypts to the one value that was given (`ContactSound`).

## Emails of several users

`contact_of_step` says where the row of a user comes from after a step, and
`email_of_step` the same for an email: it was there for this user, or the step has
stored it.  So distinct emails stay distinct exactly in steps that store none that
is somebody else's (`emailsDistinct_step`), and for a history this gives both
directions.
-/

namespace PactumCodex

open Interaction Relational

/-! ## Where a row comes from -/

section Rows

variable {op : AuthOp} {answer : op.Ans} {w w' : AuthWorld}

/-- What a step leaves of the contacts of a user. -/
inductive ContactChange (w : AuthWorld) (op : AuthOp) (answer : op.Ans) (w' : AuthWorld) :
    UserContact → Prop
  | kept (row : UserContact) : row ∈ w.db.contacts.rows → ContactChange w op answer w' row
  /-- the OAuth callback stores an email, in a row that may have been there -/
  | email (row : UserContact) (emailEnc emailNonce emailIndex : List UInt8) (now : ℚ) :
      (⟨w, op, answer, w'⟩ : AuthStep) =
        ⟨w, .sql (.upsertEmail row.userId emailEnc emailNonce emailIndex now), .ok (), w'⟩ →
      row.emailEnc = some emailEnc → row.emailNonce = some emailNonce →
      row.emailIndex = some emailIndex →
      (row.phoneEnc = none ∧ row.phoneNonce = none ∧ row.pushTokenEnc = none ∧
          row.pushTokenNonce = none ∨
        ∃ old ∈ w.db.contacts.rows, row.phoneEnc = old.phoneEnc ∧ row.phoneNonce = old.phoneNonce ∧
          row.pushTokenEnc = old.pushTokenEnc ∧ row.pushTokenNonce = old.pushTokenNonce) →
      ContactChange w op answer w' row
  /-- `update_contacts` inserts a row -/
  | inserted (row : UserContact) :
      (⟨w, op, answer, w'⟩ : AuthStep) = ⟨w, .sql (.mergeContact row), .ok (), w'⟩ →
      ContactChange w op answer w' row
  /-- `update_contacts` merges into a row -/
  | merged (new old : UserContact) :
      (⟨w, op, answer, w'⟩ : AuthStep) = ⟨w, .sql (.mergeContact new), .ok (), w'⟩ →
      old ∈ w.db.contacts.rows → old.userId = new.userId →
      ContactChange w op answer w' (new.coalesce old)

theorem contact_of_step (h : AccountEffect op answer w w') {row : UserContact}
    (hrow : row ∈ w'.db.contacts.rows) : ContactChange w op answer w' row := by
  rw [h.contacts] at hrow
  unfold contactsAfter at hrow
  split at hrow
  · rename_i userId emailEnc emailNonce emailIndex now _
    rcases mem_upsertRow hrow with rfl | ⟨old, hold, hkey, rfl⟩ | ⟨hkept, -⟩
    · exact .email _ emailEnc emailNonce emailIndex now rfl rfl rfl rfl
        (Or.inl ⟨rfl, rfl, rfl, rfl⟩)
    · obtain rfl : old.userId = userId := of_decide_eq_true hkey
      exact .email _ emailEnc emailNonce emailIndex now rfl rfl rfl rfl
        (Or.inr ⟨old, hold, rfl, rfl, rfl, rfl⟩)
    · exact .kept row hkept
  · rcases mem_upsertRow hrow with rfl | ⟨old, hold, hkey, rfl⟩ | ⟨hkept, -⟩
    · exact .inserted _ rfl
    · exact .merged _ old rfl hold (of_decide_eq_true hkey)
    · exact .kept row hkept
  · exact .kept row (mem_deleteWhere.mp hrow).1
  · exact .kept row hrow

end Rows

/-! ## The columns of a value stay together -/

/-- A ciphertext and a nonce are both missing, or one call of `update_contacts` has encrypted the
given field of its body to them. -/
def FromOneCall (field : UpdateContactsRequest → Option String) (events : List AuthEvent)
    (ciphertext nonce : Option (List UInt8)) : Prop :=
  ciphertext = none ∧ nonce = none ∨
    ∃ i authorization body encryption, Received i (.updateContacts authorization body) events ∧
      Encrypted i encryption events ∧ field body = some encryption.plaintext ∧
      ciphertext = some encryption.ciphertext ∧ nonce = some encryption.nonce

/-- The columns of an email are all missing, or one email was encrypted to them and is indexed. -/
def FromOneEmail (env : Env) (events : List AuthEvent)
    (ciphertext nonce index : Option (List UInt8)) : Prop :=
  ciphertext = none ∧ nonce = none ∧ index = none ∨
    ∃ i encryption idxKey, Encrypted i encryption events ∧
      decodeHexKey32 env.config.encryptionKey = .ok encryption.key ∧
      decodeHexKey32 env.config.encryptionIndexKey = .ok idxKey ∧
      ciphertext = some encryption.ciphertext ∧ nonce = some encryption.nonce ∧
      index = some (env.crates.hmacIndex encryption.plaintext idxKey)

/-- Every value of the row is in one piece. -/
structure Together (env : Env) (events : List AuthEvent) (row : UserContact) : Prop where
  email : FromOneEmail env events row.emailEnc row.emailNonce row.emailIndex
  phone : FromOneCall UpdateContactsRequest.phone events row.phoneEnc row.phoneNonce
  push : FromOneCall UpdateContactsRequest.pushToken events row.pushTokenEnc row.pushTokenNonce

section Together

variable {env : Env} {events events' : List AuthEvent} {i : ℕ}
variable {field : UpdateContactsRequest → Option String}
variable {ciphertext nonce index ciphertext' nonce' index' : Option (List UInt8)}

theorem FromOneCall.mono (h : FromOneCall field events ciphertext nonce) (hsub : events ⊆ events') :
    FromOneCall field events' ciphertext nonce := by
  rcases h with hnone |
    ⟨j, authorization, body, encryption, ⟨v, v', hreceived⟩, ⟨u, u', hran⟩, hsame⟩
  · exact Or.inl hnone
  · exact Or.inr ⟨j, authorization, body, encryption, ⟨v, v', hsub hreceived⟩, ⟨u, u', hsub hran⟩,
      hsame⟩

theorem FromOneEmail.mono (h : FromOneEmail env events ciphertext nonce index)
    (hsub : events ⊆ events') : FromOneEmail env events' ciphertext nonce index := by
  rcases h with hnone | ⟨j, encryption, idxKey, ⟨v, v', hran⟩, hsame⟩
  · exact Or.inl hnone
  · exact Or.inr ⟨j, encryption, idxKey, ⟨v, v', hsub hran⟩, hsame⟩

/-- `COALESCE` takes both columns from the same side. -/
theorem FromOneCall.or (hnew : FromOneCall field events ciphertext nonce)
    (hold : FromOneCall field events ciphertext' nonce') :
    FromOneCall field events (ciphertext.or ciphertext') (nonce.or nonce') := by
  rcases hnew with ⟨rfl, rfl⟩ |
    ⟨j, authorization, body, encryption, hreceived, hran, hfield, rfl, rfl⟩
  · exact hold
  · exact Or.inr ⟨j, authorization, body, encryption, hreceived, hran, hfield, rfl, rfl⟩

theorem FromOneEmail.or (hnew : FromOneEmail env events ciphertext nonce index)
    (hold : FromOneEmail env events ciphertext' nonce' index') :
    FromOneEmail env events (ciphertext.or ciphertext') (nonce.or nonce') (index.or index') := by
  rcases hnew with ⟨rfl, rfl, rfl⟩ | ⟨j, encryption, idxKey, hran, hkey, hidx, rfl, rfl, rfl⟩
  · exact hold
  · exact Or.inr ⟨j, encryption, idxKey, hran, hkey, hidx, rfl, rfl, rfl⟩

/-- What `update_contacts` stores in two columns comes from this call. -/
theorem fromOneCall_of_holds {authorization : Option String} {body : UpdateContactsRequest}
    {key : Bytes 32} (hrequest : (accountPhase i events).request =
      some (.updateContacts authorization body))
    (h : (accountPhase i events).Holds key (field body) ciphertext nonce) :
    FromOneCall field events ciphertext nonce := by
  rcases h with ⟨-, hnone⟩ | ⟨encryption, hmem, hfield, -, hcolumns⟩
  · exact Or.inl hnone
  · exact Or.inr ⟨i, authorization, body, encryption, received_of_phase hrequest,
      encrypted_of_phase hmem, hfield, hcolumns⟩

theorem fromOneEmail_of_holds {key idxKey : Bytes 32} {email : Option String}
    (hkey : decodeHexKey32 env.config.encryptionKey = .ok key)
    (hidx : decodeHexKey32 env.config.encryptionIndexKey = .ok idxKey)
    (h : (accountPhase i events).Holds key email ciphertext nonce)
    (hindex : index = email.map fun email => env.crates.hmacIndex email idxKey) :
    FromOneEmail env events ciphertext nonce index := by
  rcases h with ⟨rfl, hcipher, hnonce⟩ | ⟨encryption, hmem, rfl, rfl, hcipher, hnonce⟩
  · exact Or.inl ⟨hcipher, hnonce, hindex⟩
  · exact Or.inr ⟨i, encryption, idxKey, encrypted_of_phase hmem, hkey, hidx, hcipher, hnonce,
      hindex⟩

/-- A row that `update_contacts` may store is in one piece. -/
theorem together_of_allowed {row : UserContact}
    (hallowed : (accountPhase i events).Allows env (.sql (.mergeContact row))) :
    Together env events row := by
  obtain ⟨-, authorization, body, key, idxKey, hrequest, hstores⟩ := hallowed
  constructor
  · exact fromOneEmail_of_holds hstores.key_eq hstores.idxKey_eq hstores.email hstores.index
  · exact fromOneCall_of_holds hrequest hstores.phone
  · exact fromOneCall_of_holds hrequest hstores.push

theorem Together.mono {row : UserContact} (h : Together env events row) (hsub : events ⊆ events') :
    Together env events' row :=
  ⟨h.email.mono hsub, h.phone.mono hsub, h.push.mono hsub⟩

theorem Together.coalesce {new old : UserContact} (hnew : Together env events new)
    (hold : Together env events old) : Together env events (new.coalesce old) :=
  ⟨hnew.email.or hold.email, hnew.phone.or hold.phone, hnew.push.or hold.push⟩

/-- **Step lemma.**  An allowed step leaves rows in one piece. -/
theorem together_step {op : AuthOp} {answer : op.Ans} {v v' : AuthWorld}
    (hvalid : performAuth op answer v = some v') (hallowed : (accountPhase i events).Allows env op)
    (hpast : ∀ row ∈ v.db.contacts.rows, Together env events row) :
    ∀ row ∈ v'.db.contacts.rows, Together env events row := by
  intro row hrow
  cases contact_of_step (accountEffect_of_valid hvalid) hrow with
  | kept row hkept => exact hpast row hkept
  | email row emailEnc emailNonce emailIndex now hstep henc hnonce hindex hrest =>
      cases hstep
      obtain ⟨-, encryption, hmem, idxKey, hkey, hidx, rfl, rfl, rfl⟩ := hallowed
      have hemail : FromOneEmail env events row.emailEnc row.emailNonce row.emailIndex :=
        Or.inr ⟨i, encryption, idxKey, encrypted_of_phase hmem, hkey, hidx, henc, hnonce, hindex⟩
      -- the callback leaves the other columns null, or as they are
      rcases hrest with ⟨hphone, hphoneNonce, hpush, hpushNonce⟩ |
        ⟨old, hold, hphone, hphoneNonce, hpush,
        hpushNonce⟩
      · exact ⟨hemail, Or.inl ⟨hphone, hphoneNonce⟩, Or.inl ⟨hpush, hpushNonce⟩⟩
      · refine ⟨hemail, ?_, ?_⟩
        · rw [hphone, hphoneNonce]
          exact (hpast old hold).phone
        · rw [hpush, hpushNonce]
          exact (hpast old hold).push
  | inserted row hstep =>
      cases hstep
      exact together_of_allowed hallowed
  | merged new old hstep hold _ =>
      cases hstep
      exact (together_of_allowed hallowed).coalesce (hpast old hold)

variable {w : AuthWorld} {pool : Pool AuthOp AuthOp.Ans AuthWorld}

/-- In every history that starts without contacts, all rows are in one piece. -/
theorem rows_together (h : AuthHistory env ⟨w, []⟩ events pool) (hempty : w.db.contacts.rows = []) :
    ∀ row ∈ pool.world.db.contacts.rows, Together env events row := by
  refine accountHistory_invariant (fun _ _ => True)
    (fun events w' => ∀ row ∈ w'.db.contacts.rows, Together env events row) ?_ ?_ ?_ h
    fun _ _ _ _ => trivial
  · intro row hrow
    rw [hempty] at hrow
    cases hrow
  · intro past j step hvalid hallowed _ hpast row hrow
    exact (together_step hvalid hallowed hpast row hrow).mono (List.subset_append_left _ _)
  · intro past j w' hpast row hrow
    exact (hpast row hrow).mono (List.subset_append_left _ _)

/-- What is expected of a row: the columns of the email are all null, or decrypt to one email that
is indexed, and the columns of every other value come from the same call. -/
structure ContactSound (env : Env) (decrypt : List UInt8 → List UInt8 → Bytes 32 → Option String)
    (events : List AuthEvent) (row : UserContact) : Prop where
  email : row.emailEnc = none ∧ row.emailNonce = none ∧ row.emailIndex = none ∨
    ∃ email key idxKey ciphertext nonce,
      decodeHexKey32 env.config.encryptionKey = .ok key ∧
      decodeHexKey32 env.config.encryptionIndexKey = .ok idxKey ∧
      row.emailEnc = some ciphertext ∧ row.emailNonce = some nonce ∧
      decrypt ciphertext nonce key = some email ∧
      row.emailIndex = some (env.crates.hmacIndex email idxKey)
  phone : FromOneCall UpdateContactsRequest.phone events row.phoneEnc row.phoneNonce
  push : FromOneCall UpdateContactsRequest.pushToken events row.pushTokenEnc row.pushTokenNonce

/-- **Contacts are sound.**  In every history of authentication and contact requests that starts
without contacts, all rows of `user_contacts` are sound, if decryption inverts the encryptions of
the history. -/
theorem contacts_sound {decrypt : List UInt8 → List UInt8 → Bytes 32 → Option String}
    (hdecrypt : ∀ i encryption, Encrypted i encryption events →
      decrypt encryption.ciphertext encryption.nonce encryption.key = some encryption.plaintext)
    (h : AuthHistory env ⟨w, []⟩ events pool) (hempty : w.db.contacts.rows = []) :
    ∀ row ∈ pool.world.db.contacts.rows, ContactSound env decrypt events row := by
  intro row hrow
  obtain ⟨hemail, hphone, hpush⟩ := rows_together h hempty row hrow
  refine ⟨?_, hphone, hpush⟩
  rcases hemail with hnone | ⟨j, encryption, idxKey, hran, hkey, hidx, henc, hnonce, hindex⟩
  · exact Or.inl hnone
  · exact Or.inr ⟨encryption.plaintext, encryption.key, idxKey, encryption.ciphertext,
      encryption.nonce, hkey, hidx, henc, hnonce, hdecrypt j encryption hran, hindex⟩

end Together

/-- Decryption of the contacts of the examples. -/
def sampleDecrypt (ciphertext nonce : List UInt8) (key : Bytes 32) : Option String :=
  if key.toList.all (· = 0) then
    (sampleCiphertexts.find? fun entry => entry.2 = (ciphertext, nonce)).map Prod.fst
  else none

/-- An encryption of the event can be inverted. -/
def decryptable : AuthEvent → Bool
  | .ran _ ⟨_, .encrypt plaintext key, .ok (ciphertext, nonce), _⟩ =>
      sampleDecrypt ciphertext nonce key = some plaintext
  | _ => true

/-- Carol signs in with an email and adds a phone number. -/
theorem contacts_sound_phone : ∃ events pool,
    AuthHistory twoUsersEnv ⟨AuthWorld.ofDb AuthDb.empty, []⟩ events pool ∧
    (∃ row ∈ pool.world.db.contacts.rows, row.emailEnc ≠ none ∧ row.phoneEnc ≠ none) ∧
    ∀ row ∈ pool.world.db.contacts.rows, ContactSound twoUsersEnv sampleDecrypt events row := by
  obtain ⟨events, pool, hhistory, htest⟩ := authHistory_of_moves twoUsersEnv
    (turnsOf twoUsersEnv [googleLogin, .updateContacts (some secondNonce.toText)
        ⟨none, some "+886912345678", none⟩]
      [(0, 18), (1, 6)] (identifyUsers [⟨firstNonce, none, 900, 0, secondNonce⟩] 0))
    (fun events w => events.all decryptable &&
      w.db.contacts.rows.any fun row => row.emailEnc ≠ none ∧ row.phoneEnc ≠ none)
    (fun p hp => turnsOf_entry hp) (by decide +kernel)
  obtain ⟨hinverts, hrow⟩ := Bool.and_eq_true_iff.mp htest
  refine ⟨events, pool, hhistory, by simpa using hrow, contacts_sound ?_ hhistory rfl⟩
  rintro i encryption ⟨v, v', hran⟩
  exact of_decide_eq_true (List.all_eq_true.mp hinverts _ hran)

/-! ## Users with the same email -/

/-- No two users have the same email. -/
def EmailsDistinct (w : AuthWorld) : Prop :=
  ∀ row ∈ w.db.contacts.rows, ∀ other ∈ w.db.contacts.rows, ∀ index,
    row.emailIndex = some index → other.emailIndex = some index → row.userId = other.userId

/-- The tables in which `create_agreement` looks up the wallet of an email. -/
def AuthDb.accounts (db : AuthDb) : Db :=
  { Db.empty with
    contacts := ⟨db.contacts.rows.map fun row => ⟨row.userId, row.emailEnc, row.emailIndex⟩, by
      rw [ContactsValid, List.map_map]
      exact db.contacts.valid⟩
    wallets := db.wallets }

/-- All wallets that `create_agreement` can find for an email belong to one user. -/
def ResolvesToOneUser (w : AuthWorld) : Prop :=
  ∀ index, ∀ wallet ∈ w.db.wallets.rows, ∀ other ∈ w.db.wallets.rows,
    AccountStmt.Returns w.db.accounts (.walletOfEmail index) (some wallet.pubkey) →
    AccountStmt.Returns w.db.accounts (.walletOfEmail index) (some other.pubkey) →
    wallet.userId = other.userId

/-- What is expected of the email indices. -/
structure EmailsUnique (w : AuthWorld) : Prop where
  distinct : EmailsDistinct w
  resolves : ResolvesToOneUser w

/-- The user and the index, if the step stores an email. -/
def storedEmail : AuthStep → Option (Uuid × List UInt8)
  | ⟨_, .sql (.upsertEmail userId _ _ emailIndex _), .ok _, _⟩ => some (userId, emailIndex)
  | ⟨_, .sql (.mergeContact row), .ok _, _⟩ => row.emailIndex.map fun index => (row.userId, index)
  | _ => none

/-- An email is stored only while it is nobody else's. -/
def StoresOwnEmail (event : AuthEvent) : Prop :=
  ∀ i step userId index, event = .ran i step → storedEmail step = some (userId, index) →
    ∀ row ∈ step.pre.db.contacts.rows, row.emailIndex = some index → row.userId = userId

section Emails

variable {w w' : AuthWorld} {op : AuthOp} {answer : op.Ans}

/-- The wallet found for an email belongs to a user with this email. -/
theorem contact_of_walletOfEmail {index : List UInt8} {wallet : Wallet}
    (hwallet : wallet ∈ w.db.wallets.rows)
    (h : AccountStmt.Returns w.db.accounts (.walletOfEmail index) (some wallet.pubkey)) :
    ∃ row ∈ w.db.contacts.rows, row.emailIndex = some index ∧ row.userId = wallet.userId := by
  obtain ⟨contact, hcontact, hfound⟩ := List.mem_flatMap.mp h
  obtain ⟨hmem, hindex⟩ := List.mem_filter.mp hcontact
  obtain ⟨row, hrow, rfl⟩ := List.mem_map.mp hmem
  obtain ⟨found, hfound, hkey⟩ := List.mem_map.mp hfound
  obtain ⟨hfound, huser⟩ := List.mem_filter.mp hfound
  have hsame : found = wallet := eq_of_key_eq w.db.wallets.valid hfound hwallet hkey
  refine ⟨row, hrow, of_decide_eq_true hindex, ?_⟩
  rw [← hsame]
  exact (of_decide_eq_true huser).symm

theorem EmailsDistinct.unique (h : EmailsDistinct w) : EmailsUnique w := by
  refine ⟨h, fun index wallet hwallet other hother hfound hfound' => ?_⟩
  obtain ⟨row, hrow, hindex, huser⟩ := contact_of_walletOfEmail hwallet hfound
  obtain ⟨row', hrow', hindex', huser'⟩ := contact_of_walletOfEmail hother hfound'
  rw [← huser, ← huser', h row hrow row' hrow' index hindex hindex']

/-- An indexed email was there for the same user before the step, or is stored by it. -/
theorem email_of_step (hvalid : performAuth op answer w = some w') {row : UserContact}
    {index : List UInt8} (hrow : row ∈ w'.db.contacts.rows) (hindex : row.emailIndex = some index) :
    storedEmail ⟨w, op, answer, w'⟩ = some (row.userId, index) ∨
      ∃ old ∈ w.db.contacts.rows, old.emailIndex = some index ∧ old.userId = row.userId := by
  cases contact_of_step (accountEffect_of_valid hvalid) hrow with
  | kept row hkept => exact Or.inr ⟨row, hkept, hindex, rfl⟩
  | email row emailEnc emailNonce emailIndex now hstep _ _ hstored _ =>
      rw [hstep, storedEmail]
      exact Or.inl (congrArg _ (Prod.ext rfl (Option.some.inj (hstored.symm.trans hindex))))
  | inserted row hstep =>
      rw [hstep, storedEmail, hindex]
      exact Or.inl rfl
  | merged new old hstep hold huser =>
      rw [hstep, storedEmail]
      -- `COALESCE` keeps the old index where the request has no email
      cases hnew : new.emailIndex with
      | none =>
          refine Or.inr ⟨old, hold, ?_, rfl⟩
          rwa [UserContact.coalesce, hnew] at hindex
      | some stored =>
          rw [UserContact.coalesce, hnew] at hindex
          obtain rfl : stored = index := Option.some.inj hindex
          exact Or.inl (congrArg some (Prod.ext huser.symm rfl))

/-- A step that stores an email leaves it with its user, and the others with theirs. -/
theorem email_stored (hvalid : performAuth op answer w = some w') {userId : Uuid}
    {index : List UInt8}
    (hstored : storedEmail ⟨w, op, answer, w'⟩ = some (userId, index)) :
    (∃ row ∈ w'.db.contacts.rows, row.emailIndex = some index ∧ row.userId = userId) ∧
      ∀ row ∈ w.db.contacts.rows, row.userId ≠ userId → row ∈ w'.db.contacts.rows := by
  have hcontacts := (accountEffect_of_valid hvalid).contacts
  unfold storedEmail at hstored
  split at hstored
  · rename_i _ user emailEnc emailNonce emailIndex now _ _ heq
    cases heq
    obtain ⟨rfl, rfl⟩ := Prod.mk.inj (Option.some.inj hstored)
    rw [hcontacts, contactsAfter]
    refine ⟨exists_mem_upsertRow ⟨rfl, rfl⟩ fun old hold => ⟨rfl, of_decide_eq_true hold⟩, ?_⟩
    exact fun row hrow hne => mem_upsertRow_of_unmatched hrow (decide_eq_false hne)
  · rename_i _ new _ _ heq
    cases heq
    obtain ⟨stored, hnew, heq⟩ := Option.map_eq_some_iff.mp hstored
    obtain ⟨rfl, rfl⟩ := Prod.mk.inj heq
    rw [hcontacts, contactsAfter]
    refine ⟨exists_mem_upsertRow ⟨hnew, rfl⟩ fun old hold => ⟨?_, of_decide_eq_true hold⟩, ?_⟩
    · rw [UserContact.coalesce, hnew]
      rfl
    · exact fun row hrow hne => mem_upsertRow_of_unmatched hrow (decide_eq_false hne)
  · cases hstored

/-- A step keeps emails distinct exactly if it stores none that is somebody else's. -/
theorem emailsDistinct_step (hvalid : performAuth op answer w = some w') (h : EmailsDistinct w)
    {i : ℕ} : EmailsDistinct w' ↔ StoresOwnEmail (.ran i ⟨w, op, answer, w'⟩) := by
  constructor
  · intro hpost j step userId index heq hstored row hrow hindex
    obtain ⟨-, rfl⟩ := Event.ran.inj heq
    obtain ⟨⟨stored, hmem, hstoredIndex, huser⟩, hkept⟩ := email_stored hvalid hstored
    by_contra hne
    exact hne ((hpost row (hkept row hrow hne) stored hmem index hindex hstoredIndex).trans huser)
  · intro hown row hrow other hother index hindex hindex'
    have hown : ∀ {userId}, storedEmail ⟨w, op, answer, w'⟩ = some (userId, index) →
        ∀ row ∈ w.db.contacts.rows, row.emailIndex = some index → row.userId = userId :=
      fun hstored => hown i _ _ _ rfl hstored
    -- each of the two emails is stored by this step, or was there before
    rcases email_of_step hvalid hrow hindex with hstored | ⟨old, hold, holdIndex, huser⟩
    · rcases email_of_step hvalid hother hindex' with hstored' | ⟨old', hold', holdIndex', huser'⟩
      · exact congrArg Prod.fst (Option.some.inj (hstored.symm.trans hstored'))
      · rw [← huser']
        exact (hown hstored old' hold' holdIndex').symm
    · rcases email_of_step hvalid hother hindex' with hstored' | ⟨old', hold', holdIndex', huser'⟩
      · rw [← huser]
        exact hown hstored' old hold holdIndex
      · rw [← huser, ← huser']
        exact h old hold old' hold' index holdIndex holdIndex'

end Emails

/-- **Emails are unique** in every state that a history reaches, and `create_agreement` resolves
each of them to wallets of one user, exactly if no upsert stores an email that another user's row
holds at that moment. -/
theorem emails_unique_iff {env : Env} {w : AuthWorld} {events : List AuthEvent}
    {pool : Pool AuthOp AuthOp.Ans AuthWorld} (h : AuthHistory env ⟨w, []⟩ events pool)
    (hstart : EmailsDistinct w) :
    (∀ before after, events = before ++ after → EmailsUnique (worldAfter w before)) ↔
      Meets (fun _ event => StoresOwnEmail event) events := by
  constructor
  · rintro hunique before event after rfl
    cases event with
    | stopped i => exact fun j step _ _ heq => nomatch heq
    | ran i step =>
        obtain ⟨hvalid, threads, hbefore⟩ := h.at_step
        have hpre := (hunique before (.ran i step :: after) rfl).distinct
        have hpost := (hunique (before ++ [.ran i step]) after (by simp)).distinct
        rw [worldAfter_snoc] at hpost
        rw [← hbefore.world_eq] at hpre
        exact (emailsDistinct_step hvalid hpre).mp hpost
  · rintro hstores before after rfl
    obtain ⟨threads, hbefore⟩ := h.of_append
    refine EmailsDistinct.unique ?_
    refine accountHistory_invariant (fun _ event => StoresOwnEmail event)
      (fun _ w' => EmailsDistinct w') hstart ?_ (fun _ _ _ hpast => hpast) hbefore hstores.of_append
    exact fun past i step hvalid _ hown hpast => (emailsDistinct_step hvalid hpast).mpr hown

/-- The request may write contacts. -/
def AuthRequest.writesContacts : AuthRequest → Bool
  | .oauthCallback .. => true
  | .updateContacts .. => true
  | .deleteContacts _ => true
  | _ => false

/-- Only requests that may write contacts are received. -/
def onlyContacts : AuthEvent → Bool
  | .ran _ ⟨_, .receive request, _, _⟩ => request.writesContacts
  | _ => true

/-- Carol stores the email that Dave has signed up with. -/
def sharedEmail : List AuthRequest :=
  [googleLogin, microsoftLogin,
    .updateContacts (some secondNonce.toText) ⟨some "dave@example.com", none, none⟩]

theorem two_users_one_email :
    ¬ ∀ (env : Env) (events : List AuthEvent) (pool : Pool AuthOp AuthOp.Ans AuthWorld),
      AuthHistory env ⟨AuthWorld.ofDb AuthDb.empty, []⟩ events pool →
      events.all onlyContacts = true →
      ∀ before after, events = before ++ after →
        EmailsUnique (worldAfter (AuthWorld.ofDb AuthDb.empty) before) := by
  intro hclaim
  obtain ⟨events, pool, hhistory, htest⟩ := authHistory_of_moves twoUsersEnv
    (turnsOf twoUsersEnv sharedEmail [(0, 18), (1, 18), (2, 6)]
      (identifyUsers [⟨firstNonce, none, 900, 0, secondNonce⟩] 0))
    (fun events w => events.all onlyContacts &&
      decide (∃ row ∈ w.db.contacts.rows, ∃ other ∈ w.db.contacts.rows,
        row.emailIndex.isSome ∧ row.emailIndex = other.emailIndex ∧ row.userId ≠ other.userId))
    (fun p hp => turnsOf_entry hp) (by decide +kernel)
  obtain ⟨honly, htest⟩ := Bool.and_eq_true_iff.mp htest
  obtain ⟨row, hrow, other, hother, hsome, hsame, hne⟩ := of_decide_eq_true htest
  have hdistinct := (hclaim twoUsersEnv events pool hhistory honly events [] (by simp)).distinct
  rw [← hhistory.world_eq] at hdistinct
  obtain ⟨index, hindex⟩ := Option.isSome_iff_exists.mp hsome
  exact hne (hdistinct row hrow other hother index hindex (hsame ▸ hindex))

/-- Both users sign up, and their emails stay apart. -/
theorem emails_unique_iff_apart : ∃ events pool,
    AuthHistory twoUsersEnv ⟨AuthWorld.ofDb AuthDb.empty, []⟩ events pool ∧
    pool.world.db.contacts.rows.length = 2 ∧
    ((∀ before after, events = before ++ after →
        EmailsUnique (worldAfter (AuthWorld.ofDb AuthDb.empty) before)) ↔
      Meets (fun _ event => StoresOwnEmail event) events) := by
  obtain ⟨events, pool, hhistory, htest⟩ := authHistory_of_moves twoUsersEnv
    (turnsOf twoUsersEnv sharedEmail [(0, 18), (1, 18)] (identifyUsers [] 0))
    (fun _ w => decide (w.db.contacts.rows.length = 2))
    (fun p hp => turnsOf_entry hp) (by decide +kernel)
  exact ⟨events, pool, hhistory, of_decide_eq_true htest,
    emails_unique_iff hhistory fun row hrow => nomatch hrow⟩

end PactumCodex
