import PactumCodex.Lib.Table
import PactumCodex.Types

/-!
# The tables

Rows and constraints as the migrations declare them.  A row carries the columns
that some modelled statement reads or writes; the primary keys, `UNIQUE`
columns and unique indexes are the validity condition of its table, so every
`Db` satisfies them.  Status columns are `TEXT` in the schema; here they are
enumerations of the values the program stores.
-/

namespace PactumCodex

open Relational

/-! ## Status columns -/

/-- `agreement_drafts.status`. -/
inductive DraftStatus : Type
  | awaitingPartyWallets
  | readyToSubmit
  | discarded
  deriving DecidableEq, Repr

/-- `party_invitations.status`. -/
inductive InvitationStatus : Type
  | pending
  | accepted
  | expired
  deriving DecidableEq, Repr

/-- `agreement_payments.status`. -/
inductive PaymentStatus : Type
  | pending
  | confirmed
  | expired
  | refundPending
  | refunded
  deriving DecidableEq, Repr

/-- `notification_queue.status`. -/
inductive NotificationStatus : Type
  | pending
  | sent
  | failed
  deriving DecidableEq, Repr

/-- `agreement_parties.status`. -/
inductive PartyStatus : Type
  | pendingSignatures
  | expiring
  | cancelled
  | expired
  deriving DecidableEq, Repr

/-- The text of the status column. -/
def PartyStatus.text : PartyStatus → String
  | pendingSignatures => "PendingSignatures"
  | expiring => "expiring"
  | cancelled => "Cancelled"
  | expired => "Expired"

/-! ## Rows -/

/-- A row of `agreement_drafts`. -/
structure Draft where
  id : Uuid
  creatorPubkey : String
  draftPayload : Json
  partySlots : Json
  status : DraftStatus
  readyAt : Option ℤ
  paid : Bool
  storageUri : Option String
  storageUploaded : Bool
  agreementPda : Option String
  agreementId : Option (Bytes 16)
  deriving DecidableEq

/-- A row of `party_invitations`. -/
structure Invitation where
  id : Uuid
  draftId : Uuid
  invitedEmailIndex : List UInt8
  invitedEmailEnc : List UInt8
  invitedEmailNonce : List UInt8
  token : String
  status : InvitationStatus
  reminderSentAt : Option ℤ
  reminderCount : ℕ
  createdAt : ℤ
  expiresAt : ℤ
  deriving DecidableEq

/-- A row of `agreement_payments`. -/
structure Payment where
  id : Uuid
  draftId : Uuid
  method : String
  status : PaymentStatus
  tokenReferencePubkey : Option String
  tokenMint : Option String
  tokenAmount : Option Int64
  tokenTxSignature : Option String
  refundAmount : Option Int64
  refundTxSignature : Option String
  refundInitiatedAt : Option ℤ
  refundCompletedAt : Option ℤ
  createdAt : ℤ
  confirmedAt : Option ℤ
  agreementPda : Option String
  deriving DecidableEq

/-- A row of `agreement_parties`. -/
structure Party where
  partyPubkey : String
  agreementPda : String
  creatorPubkey : String
  status : PartyStatus
  signedAt : Option ℤ
  createdAt : ℤ
  expiresAt : ℤ
  title : String
  deriving DecidableEq

/-- A row of `user_agreement_counts`. -/
structure AgreementCount where
  userId : Uuid
  freeUsed : ℤ
  deriving DecidableEq

/-- A row of `user_contacts`. -/
structure Contact where
  userId : Uuid
  emailEnc : Option (List UInt8)
  emailIndex : Option (List UInt8)
  deriving DecidableEq

/-- A row of `auth_wallet`. -/
structure Wallet where
  userId : Uuid
  pubkey : String
  deriving DecidableEq

/-- A row of `notification_queue`. -/
structure Notification where
  id : Uuid
  eventType : String
  agreementPda : String
  recipientPubkey : String
  status : NotificationStatus
  attempts : ℕ
  scheduledAt : ℤ
  deriving DecidableEq

/-! ## Constraints -/

/-- Primary key of `agreement_drafts`. -/
def DraftsValid (rows : List Draft) : Prop := (rows.map Draft.id).Nodup

/-- Primary key and `UNIQUE` token of `party_invitations`. -/
def InvitationsValid (rows : List Invitation) : Prop :=
  (rows.map Invitation.id).Nodup ∧ (rows.map Invitation.token).Nodup

/-- Primary key, `UNIQUE` reference and `idx_payments_tx_sig` of `agreement_payments`. -/
def PaymentsValid (rows : List Payment) : Prop :=
  (rows.map Payment.id).Nodup ∧ (rows.filterMap Payment.tokenReferencePubkey).Nodup ∧
    (rows.filterMap Payment.tokenTxSignature).Nodup

/-- Primary key of `agreement_parties`. -/
def PartiesValid (rows : List Party) : Prop :=
  (rows.map fun party => (party.partyPubkey, party.agreementPda)).Nodup

/-- Primary key of `user_agreement_counts`, and the range of its `INT` column. -/
def CountsValid (rows : List AgreementCount) : Prop :=
  (rows.map AgreementCount.userId).Nodup ∧
    ∀ row ∈ rows, -2 ^ 31 ≤ row.freeUsed ∧ row.freeUsed < 2 ^ 31

/-- Primary key of `user_contacts`. -/
def ContactsValid (rows : List Contact) : Prop := (rows.map Contact.userId).Nodup

/-- Primary key of `auth_wallet`. -/
def WalletsValid (rows : List Wallet) : Prop := (rows.map Wallet.pubkey).Nodup

/-- Primary key of `notification_queue`. -/
def NotificationsValid (rows : List Notification) : Prop := (rows.map Notification.id).Nodup

instance : DecidablePred DraftsValid := fun _ => inferInstanceAs (Decidable (List.Nodup _))
instance : DecidablePred InvitationsValid := fun _ => inferInstanceAs (Decidable (_ ∧ _))
instance : DecidablePred PaymentsValid := fun _ => inferInstanceAs (Decidable (_ ∧ _ ∧ _))
instance : DecidablePred PartiesValid := fun _ => inferInstanceAs (Decidable (List.Nodup _))
instance : DecidablePred CountsValid := fun _ => inferInstanceAs (Decidable (_ ∧ _))
instance : DecidablePred ContactsValid := fun _ => inferInstanceAs (Decidable (List.Nodup _))
instance : DecidablePred WalletsValid := fun _ => inferInstanceAs (Decidable (List.Nodup _))
instance : DecidablePred NotificationsValid := fun _ => inferInstanceAs (Decidable (List.Nodup _))

/-- The database: one table each, with its constraints. -/
structure Db where
  drafts : Table Draft DraftsValid
  invitations : Table Invitation InvitationsValid
  payments : Table Payment PaymentsValid
  parties : Table Party PartiesValid
  counts : Table AgreementCount CountsValid
  contacts : Table Contact ContactsValid
  wallets : Table Wallet WalletsValid
  notifications : Table Notification NotificationsValid

/-- The database right after the migrations. -/
def Db.empty : Db where
  drafts := ⟨[], by decide⟩
  invitations := ⟨[], by decide⟩
  payments := ⟨[], by decide⟩
  parties := ⟨[], by decide⟩
  counts := ⟨[], by decide⟩
  contacts := ⟨[], by decide⟩
  wallets := ⟨[], by decide⟩
  notifications := ⟨[], by decide⟩

/-- The draft with a given id. -/
def Db.draft? (db : Db) (id : Uuid) : Option Draft := lookup Draft.id id db.drafts.rows

/-- The invitation with a given token. -/
def Db.invitation? (db : Db) (token : String) : Option Invitation :=
  lookup Invitation.token token db.invitations.rows

/-- The payment with a given id. -/
def Db.payment? (db : Db) (id : Uuid) : Option Payment := lookup Payment.id id db.payments.rows

theorem Db.draft?_eq_some {db : Db} {id : Uuid} {draft : Draft} :
    db.draft? id = some draft ↔ draft ∈ db.drafts.rows ∧ draft.id = id :=
  lookup_eq_some db.drafts.valid

theorem Db.payment?_eq_some {db : Db} {id : Uuid} {payment : Payment} :
    db.payment? id = some payment ↔ payment ∈ db.payments.rows ∧ payment.id = id :=
  lookup_eq_some db.payments.valid.1

theorem Db.invitation?_eq_some {db : Db} {token : String} {invitation : Invitation} :
    db.invitation? token = some invitation ↔
      invitation ∈ db.invitations.rows ∧ invitation.token = token :=
  lookup_eq_some db.invitations.valid.2

end PactumCodex
