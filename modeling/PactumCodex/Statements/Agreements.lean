import Mathlib.Data.List.Dedup
import PactumCodex.Schema

/-!
# Statements on agreements, notifications and accounts

The SQL statements of the event listener and of the expiry worker on
`agreement_parties`, the insertion into `notification_queue`, and the lookups in
`auth_wallet` and `user_contacts`; see `Statements/Drafts.lean` for the
conventions.
-/

namespace PactumCodex

open Relational

/-! ## Party rows -/

/-- Statements on `agreement_parties`. -/
inductive PartyStmt : Type
  /-- `INSERT INTO agreement_parties … ON CONFLICT (party_pubkey, agreement_pda) DO NOTHING` -/
  | insert (partyPubkey agreementPda creatorPubkey : String) (now : ℤ)
  /-- `UPDATE agreement_parties SET signed_at = now WHERE agreement_pda = $1 AND
  party_pubkey = $2 RETURNING party_pubkey` -/
  | sign (now : ℤ) (agreementPda signer : String)
  /-- `SELECT COUNT(*) FROM agreement_parties WHERE agreement_pda = $1 AND signed_at IS NULL` -/
  | unsignedCount (agreementPda : String)
  /-- `UPDATE agreement_parties SET status = $1 WHERE agreement_pda = $2` -/
  | setStatus (status : PartyStatus) (agreementPda : String)
  /-- `SELECT party_pubkey FROM agreement_parties WHERE agreement_pda = $1` -/
  | partiesOf (agreementPda : String)
  /-- `SELECT DISTINCT agreement_pda, creator_pubkey FROM agreement_parties
  WHERE status = 'PendingSignatures' AND expires_at < $1` -/
  | due (now : ℤ)
  /-- `UPDATE agreement_parties SET status = 'expiring' WHERE agreement_pda = $1 AND
  status = 'PendingSignatures'`; returns the number of rows affected -/
  | lockForExpiry (agreementPda : String)
  /-- `UPDATE agreement_parties SET status = 'PendingSignatures' WHERE agreement_pda = $1 AND
  status = 'expiring'` -/
  | unlockFromExpiry (agreementPda : String)

namespace PartyStmt

/-- What the statement returns. -/
@[reducible] def Out : PartyStmt → Type
  | insert .. => Unit
  | sign .. => Option String
  | unsignedCount _ => ℕ
  | setStatus .. => Unit
  | partiesOf _ => List String
  | due _ => List (String × String)
  | lockForExpiry _ => ℕ
  | unlockFromExpiry _ => Unit

/-- The party rows after the statement. -/
def exec : (s : PartyStmt) → s.Out → Db → Option (Table Party PartiesValid)
  | insert partyPubkey agreementPda creatorPubkey now, _, db =>
      if ∃ party ∈ db.parties.rows,
          party.partyPubkey = partyPubkey ∧ party.agreementPda = agreementPda then some db.parties
      else commit (db.parties.rows ++ [⟨partyPubkey, agreementPda, creatorPubkey,
        .pendingSignatures, none, now, now + 2592000, "Agreement"⟩])
  | sign now agreementPda signer, result, db =>
      let matched : Party → Bool := fun party =>
        party.agreementPda = agreementPda ∧ party.partyPubkey = signer
      if result = (db.parties.rows.find? matched).map Party.partyPubkey then
        commit (updateWhere matched ({ · with signedAt := some now }) db.parties.rows)
      else none
  | unsignedCount agreementPda, result, db =>
      provided (result = db.parties.rows.countP fun party =>
        party.agreementPda = agreementPda ∧ party.signedAt = none) db.parties
  | setStatus status agreementPda, _, db =>
      commit (updateWhere (·.agreementPda = agreementPda) ({ · with status }) db.parties.rows)
  | partiesOf agreementPda, result, db =>
      provided (result.Perm ((db.parties.rows.filter (·.agreementPda = agreementPda)).map
        Party.partyPubkey)) db.parties
  | due now, result, db =>
      provided (result.Perm ((db.parties.rows.filter fun party =>
        party.status = .pendingSignatures ∧ party.expiresAt < now).map fun party =>
          (party.agreementPda, party.creatorPubkey)).dedup) db.parties
  | lockForExpiry agreementPda, rowsAffected, db =>
      let matched : Party → Bool := fun party =>
        party.agreementPda = agreementPda ∧ party.status = .pendingSignatures
      if rowsAffected = db.parties.rows.countP matched then
        commit (updateWhere matched ({ · with status := .expiring }) db.parties.rows)
      else none
  | unlockFromExpiry agreementPda, _, db =>
      commit (updateWhere
        (fun party => party.agreementPda = agreementPda ∧ party.status = .expiring)
        ({ · with status := .pendingSignatures }) db.parties.rows)

end PartyStmt

/-! ## Notifications -/

/-- The `INSERT` of `enqueue_notification`; the id is generated by the database
and `agreement_pda` must not be null. -/
structure NotificationStmt where
  eventType : String
  agreementPda : Option String
  recipientPubkey : String
  scheduledAt : ℤ

/-- The queue after the insertion of a row with the given id. -/
def NotificationStmt.exec (s : NotificationStmt) (id : Uuid) (db : Db) :
    Option (Table Notification NotificationsValid) :=
  match s.agreementPda with
  | none => none
  | some agreementPda => commit (db.notifications.rows ++
      [⟨id, s.eventType, agreementPda, s.recipientPubkey, .pending, 0, s.scheduledAt⟩])

/-! ## Accounts -/

/-- Lookups in `auth_wallet` and `user_contacts`. -/
inductive AccountStmt : Type
  /-- `SELECT aw.pubkey FROM user_contacts uc JOIN auth_wallet aw ON aw.user_id = uc.user_id
  WHERE uc.email_index = $1` -/
  | walletOfEmail (emailIndex : List UInt8)
  /-- `SELECT EXISTS(SELECT 1 FROM user_contacts WHERE user_id = $1 AND email_enc IS NOT NULL)` -/
  | hasEmail (userId : Uuid)
  /-- `SELECT pubkey FROM auth_wallet WHERE user_id = $1` -/
  | walletOf (userId : Uuid)
  /-- `SELECT user_id FROM auth_wallet WHERE pubkey = $1` -/
  | userOf (pubkey : String)
  /-- `SELECT email_enc FROM user_contacts WHERE user_id = $1` -/
  | emailEncOf (userId : Uuid)

namespace AccountStmt

/-- What the lookup returns. -/
@[reducible] def Out : AccountStmt → Type
  | walletOfEmail _ => Option String
  | hasEmail _ => Bool
  | walletOf _ => Option String
  | userOf _ => Option Uuid
  | emailEncOf _ => Option (Option (List UInt8))

/-- The lookup can return the given result. -/
def Returns (db : Db) : (s : AccountStmt) → s.Out → Prop
  | walletOfEmail emailIndex, result =>
      FetchOptional ((db.contacts.rows.filter (·.emailIndex = some emailIndex)).flatMap
        fun contact =>
        (db.wallets.rows.filter (·.userId = contact.userId)).map Wallet.pubkey) result
  | hasEmail userId, result =>
      result = db.contacts.rows.any fun contact =>
        contact.userId = userId ∧ contact.emailEnc.isSome
  | walletOf userId, result =>
      FetchOptional ((db.wallets.rows.filter (·.userId = userId)).map Wallet.pubkey) result
  | userOf pubkey, result =>
      result = (lookup Wallet.pubkey pubkey db.wallets.rows).map Wallet.userId
  | emailEncOf userId, result =>
      result = (lookup Contact.userId userId db.contacts.rows).map Contact.emailEnc

instance (db : Db) : (s : AccountStmt) → (result : s.Out) → Decidable (s.Returns db result)
  | walletOfEmail emailIndex, result => inferInstanceAs (Decidable (FetchOptional
      ((db.contacts.rows.filter (·.emailIndex = some emailIndex)).flatMap fun contact =>
        (db.wallets.rows.filter (·.userId = contact.userId)).map Wallet.pubkey) result))
  | hasEmail userId, result =>
      inferInstanceAs (Decidable (result = db.contacts.rows.any fun contact =>
      contact.userId = userId ∧ contact.emailEnc.isSome))
  | walletOf userId, result => inferInstanceAs (Decidable (FetchOptional
      ((db.wallets.rows.filter (·.userId = userId)).map Wallet.pubkey) result))
  | userOf pubkey, result => inferInstanceAs (Decidable (result =
      (lookup Wallet.pubkey pubkey db.wallets.rows).map Wallet.userId))
  | emailEncOf userId, result => inferInstanceAs (Decidable (result =
      (lookup Contact.userId userId db.contacts.rows).map Contact.emailEnc))

end AccountStmt

end PactumCodex
