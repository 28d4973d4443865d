import PactumCodex.Handlers.AgreementAccount

/-!
# Decoding a padded account

An agreement's account has a fixed size, its encoding has not: what is left of
the account is zero.  `try_from_slice` accepts no input after the value, so an
account decodes exactly if its encoding leaves nothing over
(`decodeAccount_accountData`), and no agreement within the on-chain limits is
that long: the longest is one byte short (`length_encoding_le`).
-/

namespace PactumCodex

/-- The data of an agreement's account: discriminator, encoding, zeros up to the account's size. -/
def accountData (discriminator : Bytes 8) (encoding : List UInt8) : List UInt8 :=
  discriminator.toList ++ encoding ++ List.replicate (agreementStateSize - (8 + encoding.length)) 0

/-- The limits that the program keeps. -/
structure AgreementStateWire.WithinLimits (a : AgreementStateWire) : Prop where
  parties : a.parties.length ≤ maxParties
  signedBy : a.signedBy.length ≤ maxParties
  revokeVotes : a.revokeVotes.length ≤ maxParties
  revokeRetractCounts : a.revokeRetractCounts.length ≤ maxParties
  title : a.title.utf8ByteSize ≤ maxTitleLen
  storageUri : a.storageUri.utf8ByteSize ≤ maxUriLen

section Padding

variable {a : AgreementStateWire} {encoding : List UInt8}

/-- The encoding of an agreement within the limits, with a time for each signer. -/
theorem length_encoding_le (ha : a.WithinLimits) (hsignedAt : a.signedAt.length ≤ maxParties)
    (hencoding : Borsh.serialize a = some encoding) : encoding.length ≤ 1804 := by
  have htag : ∀ status : AgreementStatus, Borsh.Fits status 1 :=
    fun status => Borsh.fits_uint8 status.tag
  have hbackend : ∀ backend : StorageBackend, Borsh.Fits backend 1 :=
    fun backend => Borsh.fits_uint8 backend.tag
  have hentry : ∀ entry : RevokeRetractEntryWire, Borsh.Fits entry 33 :=
    fun entry => Borsh.fits_prod (Borsh.fits_vector entry.pubkey) (Borsh.fits_uint8 entry.count)
  have hkeys : ∀ {keys : List (Bytes 32)}, keys.length ≤ maxParties →
      Borsh.Fits keys (4 + maxParties * 32) :=
    fun h => Borsh.fits_list h fun key _ => Borsh.fits_vector key
  have hfields := Borsh.fits_prod (Borsh.fits_vector a.creator) <|
    Borsh.fits_prod (Borsh.fits_vector a.agreementId) <|
    Borsh.fits_prod (Borsh.fits_vector a.contentHash) <|
    Borsh.fits_prod (Borsh.fits_string ha.title) <|
    Borsh.fits_prod (Borsh.fits_string ha.storageUri) <|
    Borsh.fits_prod (hbackend a.storageBackend) <|
    Borsh.fits_prod (hkeys ha.parties) <|
    Borsh.fits_prod (hkeys ha.signedBy) <|
    Borsh.fits_prod (Borsh.fits_list hsignedAt fun time _ => Borsh.fits_int64 time) <|
    Borsh.fits_prod (htag a.status) <|
    Borsh.fits_prod (Borsh.fits_int64 a.createdAt) <|
    Borsh.fits_prod (Borsh.fits_int64 a.expiresAt) <|
    Borsh.fits_prod (Borsh.fits_option (o := a.completedAt) fun time _ => Borsh.fits_int64 time) <|
    Borsh.fits_prod (Borsh.fits_option (o := a.revokedAt) fun time _ => Borsh.fits_int64 time) <|
    Borsh.fits_prod (Borsh.fits_option (o := a.nftAsset) fun key _ => Borsh.fits_vector key) <|
    Borsh.fits_prod (Borsh.fits_vector a.collection) <|
    Borsh.fits_prod (Borsh.fits_vector a.vaultFunder) <|
    Borsh.fits_prod (hkeys ha.revokeVotes) <|
    Borsh.fits_prod (Borsh.fits_list ha.revokeRetractCounts fun entry _ => hentry entry) <|
    Borsh.fits_uint8 a.bump
  exact hfields encoding hencoding

theorem decodeAccount_append (discriminator : Bytes 8)
    (hencoding : Borsh.serialize a = some encoding) (rest : List UInt8) :
    decodeAccount (discriminator.toList ++ encoding ++ rest) =
      if rest = [] then some a else none := by
  have hdrop : (discriminator.toList ++ encoding ++ rest).drop 8 = encoding ++ rest := by
    rw [List.append_assoc]
    exact List.drop_left' discriminator.length_toList
  have hlength : ¬ (discriminator.toList ++ encoding ++ rest).length < 8 := by simp
  rw [decodeAccount, if_neg hlength, hdrop, Borsh.tryFromSlice_append hencoding]

/-- An account decodes if and only if its encoding leaves no room for padding. -/
theorem decodeAccount_accountData (discriminator : Bytes 8)
    (hencoding : Borsh.serialize a = some encoding) :
    decodeAccount (accountData discriminator encoding) =
      if agreementStateSize ≤ 8 + encoding.length then some a else none := by
  rw [accountData, decodeAccount_append discriminator hencoding]
  simp only [List.replicate_eq_nil_iff, Nat.sub_eq_zero_iff_le]

/-- **Padded accounts.**  An account is decoded to the agreement stored in it if and only if the
encoding fills the account.  With at most `maxParties` signing times it never does. -/
theorem padded_account_decodes_iff (discriminator : Bytes 8)
    (hencoding : Borsh.serialize a = some encoding) (ha : a.WithinLimits) :
    (decodeAccount (accountData discriminator encoding) = some a ↔
      agreementStateSize ≤ 8 + encoding.length) ∧
    (a.signedAt.length ≤ maxParties →
      decodeAccount (accountData discriminator encoding) = none) := by
  have hdecode := decodeAccount_accountData discriminator hencoding
  constructor
  · rw [hdecode]
    split <;> simp [*]
  · intro hsignedAt
    have hle := length_encoding_le ha hsignedAt hencoding
    rw [hdecode, if_neg]
    show ¬ 1813 ≤ 8 + encoding.length
    omega

end Padding

/-- A freshly created agreement of two parties. -/
def freshAgreement : AgreementStateWire where
  creator := Vector.replicate 32 1
  agreementId := Vector.replicate 16 2
  contentHash := Vector.replicate 32 3
  title := "Lease"
  storageUri := "ipfs://lease"
  storageBackend := .ipfs
  parties := [Vector.replicate 32 1, Vector.replicate 32 4]
  signedBy := []
  signedAt := []
  status := .pendingSignatures
  createdAt := 0
  expiresAt := 86400
  completedAt := none
  revokedAt := none
  nftAsset := none
  collection := Vector.replicate 32 5
  vaultFunder := Vector.replicate 32 6
  revokeVotes := []
  revokeRetractCounts := []
  bump := 255

/-- Its encoding. -/
def freshEncoding : List UInt8 := (Borsh.serialize freshAgreement).getD []

theorem serialize_freshAgreement : Borsh.serialize freshAgreement = some freshEncoding := by
  decide +kernel

theorem freshAgreement_withinLimits : freshAgreement.WithinLimits :=
  ⟨by decide, by decide, by decide, by decide, by decide, by decide⟩

theorem padded_account_decodes_iff_fresh :
    Borsh.serialize freshAgreement = some freshEncoding ∧ freshAgreement.WithinLimits ∧
    ((decodeAccount (accountData (Vector.replicate 8 7) freshEncoding) = some freshAgreement ↔
      agreementStateSize ≤ 8 + freshEncoding.length) ∧
    (freshAgreement.signedAt.length ≤ maxParties →
      decodeAccount (accountData (Vector.replicate 8 7) freshEncoding) = none)) :=
  ⟨serialize_freshAgreement, freshAgreement_withinLimits, padded_account_decodes_iff
    (Vector.replicate 8 7) serialize_freshAgreement freshAgreement_withinLimits⟩

/-- The account of a fresh agreement is not decoded. -/
theorem fresh_account_not_decoded :
    ¬ ∀ (a : AgreementStateWire) (encoding : List UInt8) (discriminator : Bytes 8),
      Borsh.serialize a = some encoding → a.WithinLimits → a.signedAt.length ≤ maxParties →
      8 + encoding.length ≤ agreementStateSize →
      decodeAccount (accountData discriminator encoding) = some a := by
  intro hclaim
  have hdecoded := hclaim freshAgreement freshEncoding (Vector.replicate 8 7)
    serialize_freshAgreement freshAgreement_withinLimits (by decide) (by decide +kernel)
  have hshort : ¬ agreementStateSize ≤ 8 + freshEncoding.length := by decide +kernel
  rw [decodeAccount_accountData _ serialize_freshAgreement, if_neg hshort] at hdecoded
  exact absurd hdecoded (by simp)

end PactumCodex
