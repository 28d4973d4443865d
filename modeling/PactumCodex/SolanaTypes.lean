import PactumCodex.Lib.Borsh
import PactumCodex.World

/-!
# On-chain types

The account and argument types of `solana_types.rs` with their borsh layout.
Field order follows the source: it is the layout.
-/

namespace PactumCodex

/-- The digits of base 58. -/
def base58Alphabet : List Char :=
  "123456789ABCDEFGHJKLMNPQRSTUVWXYZabcdefghijkmnopqrstuvwxyz".toList

/-! ## On-chain constants -/

/-- Maximum number of parties allowed in a single agreement. -/
def maxParties : ℕ := 10

/-- Maximum expiry duration in seconds (90 days). -/
def maxExpirySeconds : ℕ := 7776000

/-- Maximum length of URI/IPFS/Arweave paths. -/
def maxUriLen : ℕ := 128

/-- Maximum length of agreement title. -/
def maxTitleLen : ℕ := 64

/-! ## Enumerations -/

/-- Agreement lifecycle status on-chain. -/
inductive AgreementStatus : Type
  | draft
  | pendingSignatures
  | completed
  | cancelled
  | expired
  | revoked
  deriving DecidableEq, Repr

/-- The discriminant of a status. -/
def AgreementStatus.tag : AgreementStatus → UInt8
  | draft => 0
  | pendingSignatures => 1
  | completed => 2
  | cancelled => 3
  | expired => 4
  | revoked => 5

/-- The status with the given discriminant. -/
def AgreementStatus.ofTag? (tag : UInt8) : Option AgreementStatus :=
  [draft, pendingSignatures, completed, cancelled, expired, revoked].find? (·.tag = tag)

instance : Borsh AgreementStatus :=
  Borsh.ofTag AgreementStatus.tag AgreementStatus.ofTag? (by rintro (_ | _) <;> rfl)

/-- The discriminant of a storage backend. -/
def StorageBackend.tag : StorageBackend → UInt8
  | ipfs => 0
  | arweave => 1

/-- The storage backend with the given discriminant. -/
def StorageBackend.ofTag? (tag : UInt8) : Option StorageBackend :=
  [ipfs, arweave].find? (·.tag = tag)

instance : Borsh StorageBackend :=
  Borsh.ofTag StorageBackend.tag StorageBackend.ofTag? (by rintro (_ | _) <;> rfl)

/-! ## Agreement accounts -/

structure RevokeRetractEntryWire where
  pubkey : Bytes 32
  count : UInt8
  deriving DecidableEq

instance : Borsh RevokeRetractEntryWire :=
  Borsh.ofFields (fun entry => (entry.pubkey, entry.count)) (fun (pubkey, count) => ⟨pubkey, count⟩)
    fun _ => rfl

/-- The state of an agreement as the program stores it. -/
structure AgreementStateWire where
  creator : Bytes 32
  agreementId : Bytes 16
  contentHash : Bytes 32
  title : String
  storageUri : String
  storageBackend : StorageBackend
  parties : List (Bytes 32)
  signedBy : List (Bytes 32)
  signedAt : List Int64
  status : AgreementStatus
  createdAt : Int64
  expiresAt : Int64
  completedAt : Option Int64
  revokedAt : Option Int64
  nftAsset : Option (Bytes 32)
  collection : Bytes 32
  vaultFunder : Bytes 32
  revokeVotes : List (Bytes 32)
  revokeRetractCounts : List RevokeRetractEntryWire
  bump : UInt8
  deriving DecidableEq

/-- The tuple of the fields. -/
abbrev AgreementStateWire.Fields : Type :=
  Bytes 32 × Bytes 16 × Bytes 32 × String × String × StorageBackend × List (Bytes 32) ×
    List (Bytes 32) × List Int64 × AgreementStatus × Int64 × Int64 × Option Int64 × Option Int64 ×
    Option (Bytes 32) × Bytes 32 × Bytes 32 × List (Bytes 32) × List RevokeRetractEntryWire × UInt8

def AgreementStateWire.toFields (a : AgreementStateWire) : Fields :=
  (a.creator, a.agreementId, a.contentHash, a.title, a.storageUri, a.storageBackend, a.parties,
    a.signedBy, a.signedAt, a.status, a.createdAt, a.expiresAt, a.completedAt, a.revokedAt,
    a.nftAsset, a.collection, a.vaultFunder, a.revokeVotes, a.revokeRetractCounts, a.bump)

def AgreementStateWire.ofFields : Fields → AgreementStateWire
  | (creator, agreementId, contentHash, title, storageUri, storageBackend, parties, signedBy,
      signedAt, status, createdAt, expiresAt, completedAt, revokedAt, nftAsset, collection,
      vaultFunder, revokeVotes, revokeRetractCounts, bump) =>
    { creator, agreementId, contentHash, title, storageUri, storageBackend, parties, signedBy,
      signedAt, status, createdAt, expiresAt, completedAt, revokedAt, nftAsset, collection,
      vaultFunder, revokeVotes, revokeRetractCounts, bump }

instance : Borsh AgreementStateWire :=
  Borsh.ofFields AgreementStateWire.toFields AgreementStateWire.ofFields fun _ => rfl

/-! ## Instruction arguments -/

/-- Arguments for `sign_agreement` instruction. -/
structure SignAgreementArgs where
  metadataUri : Option String

instance : Borsh SignAgreementArgs := Borsh.ofFields SignAgreementArgs.metadataUri .mk fun _ => rfl

instance : Borsh CreateAgreementArgs :=
  Borsh.ofFields
    (fun args => (args.agreementId, args.title, args.contentHash, args.storageUri,
      args.storageBackend, args.parties, args.expiresInSecs))
    (fun (agreementId, title, contentHash, storageUri, storageBackend, parties, expiresInSecs) =>
      { agreementId, title, contentHash, storageUri, storageBackend, parties, expiresInSecs })
    fun _ => rfl

end PactumCodex
