import PactumCodex.Accounts.Signers
import PactumCodex.Lib.Canonical

/-!
# What is encoded, and how long it gets

The borsh format of the on-chain types in both directions.  Instruction
arguments and agreements whose lengths fit their `u32` prefixes are read back
from what is written (`encodings_roundtrip`), and an agreement is read from one
input only: what `try_from_slice` accepts is what is written for it.  An
agreement within the on-chain limits fits in the account that
`calculate_vault_deposit` pays the rent of (`agreement_fits_account`).
-/

namespace PactumCodex

open Interaction

/-! ## Canonical types -/

instance : Borsh.Canonical AgreementStatus :=
  Borsh.canonical_ofTag (by rintro (_ | _) <;> rfl) fun h => by simpa using List.find?_some h

instance : Borsh.Canonical StorageBackend :=
  Borsh.canonical_ofTag (by rintro (_ | _) <;> rfl) fun h => by simpa using List.find?_some h

instance : Borsh.Canonical RevokeRetractEntryWire :=
  Borsh.canonical_ofFields (fun _ => rfl) fun _ => rfl

instance : Borsh.Canonical AgreementStateWire :=
  Borsh.canonical_ofFields (fun _ => rfl) fun _ => rfl

/-! ## Lengths -/

/-- The lengths of the strings and vectors of an agreement fit in a `u32`. -/
structure AgreementStateWire.LengthsFit (a : AgreementStateWire) : Prop where
  title : a.title.utf8ByteSize < 2 ^ 32
  storageUri : a.storageUri.utf8ByteSize < 2 ^ 32
  parties : a.parties.length < 2 ^ 32
  signedBy : a.signedBy.length < 2 ^ 32
  signedAt : a.signedAt.length < 2 ^ 32
  revokeVotes : a.revokeVotes.length < 2 ^ 32
  revokeRetractCounts : a.revokeRetractCounts.length < 2 ^ 32

/-- The same for the arguments of `create_agreement`. -/
structure CreateAgreementArgs.LengthsFit (args : CreateAgreementArgs) : Prop where
  title : args.title.utf8ByteSize < 2 ^ 32
  storageUri : args.storageUri.utf8ByteSize < 2 ^ 32
  parties : args.parties.length < 2 ^ 32

/-- The same for the arguments of `sign_agreement`. -/
def SignAgreementArgs.LengthsFit (args : SignAgreementArgs) : Prop :=
  ∀ uri ∈ args.metadataUri, uri.utf8ByteSize < 2 ^ 32

theorem fits_lengthField {n : ℕ} (h : n < 2 ^ 32) : n < 256 ^ 4 := by
  calc n < 2 ^ 32 := h
    _ = 256 ^ 4 := by norm_num

section Encodable

theorem encodable_keys {keys : List (Bytes 32)} (h : keys.length < 2 ^ 32) :
    Borsh.Encodable keys :=
  Borsh.encodable_list (fits_lengthField h) fun key _ => Borsh.encodable_vector key

theorem encodable_text {text : String} (h : text.utf8ByteSize < 2 ^ 32) : Borsh.Encodable text :=
  Borsh.encodable_string (fits_lengthField h)

theorem encodable_backend (backend : StorageBackend) : Borsh.Encodable backend :=
  Borsh.encodable_uint8 backend.tag

theorem AgreementStateWire.LengthsFit.encodable {a : AgreementStateWire} (ha : a.LengthsFit) :
    Borsh.Encodable a := by
  have hstatus : Borsh.Encodable a.status := Borsh.encodable_uint8 a.status.tag
  have htimes : Borsh.Encodable a.signedAt :=
    Borsh.encodable_list (fits_lengthField ha.signedAt) fun time _ => Borsh.encodable_int64 time
  have hentry : ∀ entry : RevokeRetractEntryWire, Borsh.Encodable entry := fun entry =>
    Borsh.encodable_prod (Borsh.encodable_vector entry.pubkey) (Borsh.encodable_uint8 entry.count)
  have htime : ∀ o : Option Int64, Borsh.Encodable o := fun o =>
    Borsh.encodable_option fun time _ => Borsh.encodable_int64 time
  have hasset : Borsh.Encodable a.nftAsset :=
    Borsh.encodable_option fun key _ => Borsh.encodable_vector key
  have hcounts : Borsh.Encodable a.revokeRetractCounts :=
    Borsh.encodable_list (fits_lengthField ha.revokeRetractCounts) fun entry _ => hentry entry
  have hfields : Borsh.Encodable a.toFields :=
    Borsh.encodable_prod (Borsh.encodable_vector a.creator) <|
    Borsh.encodable_prod (Borsh.encodable_vector a.agreementId) <|
    Borsh.encodable_prod (Borsh.encodable_vector a.contentHash) <|
    Borsh.encodable_prod (encodable_text ha.title) <|
    Borsh.encodable_prod (encodable_text ha.storageUri) <|
    Borsh.encodable_prod (encodable_backend a.storageBackend) <|
    Borsh.encodable_prod (encodable_keys ha.parties) <|
    Borsh.encodable_prod (encodable_keys ha.signedBy) <|
    Borsh.encodable_prod htimes <|
    Borsh.encodable_prod hstatus <|
    Borsh.encodable_prod (Borsh.encodable_int64 a.createdAt) <|
    Borsh.encodable_prod (Borsh.encodable_int64 a.expiresAt) <|
    Borsh.encodable_prod (htime a.completedAt) <|
    Borsh.encodable_prod (htime a.revokedAt) <|
    Borsh.encodable_prod hasset <|
    Borsh.encodable_prod (Borsh.encodable_vector a.collection) <|
    Borsh.encodable_prod (Borsh.encodable_vector a.vaultFunder) <|
    Borsh.encodable_prod (encodable_keys ha.revokeVotes) <|
    Borsh.encodable_prod hcounts <|
    Borsh.encodable_uint8 a.bump
  exact hfields

theorem CreateAgreementArgs.LengthsFit.encodable {args : CreateAgreementArgs}
    (hargs : args.LengthsFit) : Borsh.Encodable args := by
  have hfields : Borsh.Encodable (args.agreementId, args.title, args.contentHash, args.storageUri,
      args.storageBackend, args.parties, args.expiresInSecs) :=
    Borsh.encodable_prod (Borsh.encodable_vector args.agreementId) <|
    Borsh.encodable_prod (encodable_text hargs.title) <|
    Borsh.encodable_prod (Borsh.encodable_vector args.contentHash) <|
    Borsh.encodable_prod (encodable_text hargs.storageUri) <|
    Borsh.encodable_prod (encodable_backend args.storageBackend) <|
    Borsh.encodable_prod (encodable_keys hargs.parties) <|
    Borsh.encodable_int64 args.expiresInSecs
  exact hfields

theorem SignAgreementArgs.LengthsFit.encodable {args : SignAgreementArgs}
    (hargs : args.LengthsFit) : Borsh.Encodable args := by
  have hfields : Borsh.Encodable args.metadataUri :=
    Borsh.encodable_option fun uri huri => encodable_text (hargs uri huri)
  exact hfields

end Encodable

/-! ## Instruction data -/

/-- What the program decodes from the data of an instruction: all of it after the discriminator. -/
def Instruction.arguments (α : Type) [Borsh α] (instruction : Instruction) : Option α :=
  Borsh.tryFromSlice (instruction.data.drop 8)

section Instructions

variable {env : Env} {creator signer vaultKey : Pubkey} {agreementId : Bytes 16}

/-- The transaction of `create_agreement` is made of the instruction that is built. -/
theorem transaction?_vaultSign {args : CreateAgreementArgs} {blockhash : String}
    {tx : Transaction}
    (h : (Op.vaultSign args creator blockhash).transaction? env vaultKey = some tx) :
    buildCreateAgreementInstruction env args creator vaultKey = .ok tx.instruction := by
  obtain ⟨argsData, hserialize, rfl⟩ := Option.map_eq_some_iff.mp h
  rw [buildCreateAgreementInstruction, hserialize]

theorem buildCreateAgreementInstruction_arguments {args : CreateAgreementArgs}
    (hargs : args.LengthsFit) :
    ∃ instruction, buildCreateAgreementInstruction env args creator vaultKey = .ok instruction ∧
      instruction.arguments CreateAgreementArgs = some args ∧
      ∀ blockhash tx, (Op.vaultSign args creator blockhash).transaction? env vaultKey = some tx →
        tx.instruction = instruction := by
  obtain ⟨argsData, hserialize, hread⟩ := hargs.encodable.roundtrip
  have hbuilt : buildCreateAgreementInstruction env args creator vaultKey =
      .ok (createAgreementInstruction env args.agreementId creator vaultKey argsData) := by
    rw [buildCreateAgreementInstruction, hserialize]
  refine ⟨_, hbuilt, hread, fun blockhash tx htransaction => ?_⟩
  exact Except.ok.inj ((transaction?_vaultSign htransaction).symm.trans hbuilt)

theorem signAgreementInstruction_arguments {args : SignAgreementArgs} (hargs : args.LengthsFit) :
    ∃ argsData, Borsh.serialize args = some argsData ∧
      (signAgreementInstruction env creator agreementId signer vaultKey argsData).arguments
        SignAgreementArgs = some args := by
  obtain ⟨argsData, hserialize, hread⟩ := hargs.encodable.roundtrip
  exact ⟨argsData, hserialize, hread⟩

end Instructions

/-- **Encodings.**  With lengths below 2³², the arguments of `create_agreement` and `sign_agreement`
are decoded from the data of the instructions that are built for them (and that the vault signs, for
`create_agreement`), and an agreement from its encoding; every input that is accepted as an
agreement is the encoding of it. -/
theorem encodings_roundtrip :
    (∀ (env : Env) (args : CreateAgreementArgs) (creator vaultKey : Pubkey), args.LengthsFit →
      ∃ instruction, buildCreateAgreementInstruction env args creator vaultKey = .ok instruction ∧
        instruction.arguments CreateAgreementArgs = some args ∧
        ∀ blockhash tx, (Op.vaultSign args creator blockhash).transaction? env vaultKey = some tx →
          tx.instruction = instruction) ∧
    (∀ (env : Env) (args : SignAgreementArgs) (creator signer vaultFunder : Pubkey)
      (agreementId : Bytes 16), args.LengthsFit →
      ∃ argsData, Borsh.serialize args = some argsData ∧
        (signAgreementInstruction env creator agreementId signer vaultFunder argsData).arguments
          SignAgreementArgs = some args) ∧
    (∀ a : AgreementStateWire, a.LengthsFit →
      ∃ bytes, Borsh.serialize a = some bytes ∧ Borsh.tryFromSlice bytes = some a) ∧
    ∀ (bytes : List UInt8) (a : AgreementStateWire), Borsh.tryFromSlice bytes = some a →
      Borsh.serialize a = some bytes := by
  refine ⟨fun env args creator vaultKey hargs => ?_,
    fun env args creator signer vaultFunder agreementId hargs => ?_, fun a ha => ?_,
    fun bytes a hread => ?_⟩
  · exact buildCreateAgreementInstruction_arguments hargs
  · exact signAgreementInstruction_arguments hargs
  · exact ha.encodable.roundtrip
  · exact Borsh.serialize_of_tryFromSlice hread

/-- Arguments for the agreement `freshAgreement`. -/
def freshArgs : CreateAgreementArgs where
  agreementId := freshAgreement.agreementId
  title := freshAgreement.title
  contentHash := freshAgreement.contentHash
  storageUri := freshAgreement.storageUri
  storageBackend := freshAgreement.storageBackend
  parties := freshAgreement.parties
  expiresInSecs := 86400

theorem tryFromSlice_freshEncoding : Borsh.tryFromSlice freshEncoding = some freshAgreement := by
  have hread := Borsh.tryFromSlice_append serialize_freshAgreement []
  rwa [List.append_nil, if_pos rfl] at hread

theorem encodings_roundtrip_fresh :
    (∃ instruction, buildCreateAgreementInstruction addressEnv freshArgs (Vector.replicate 32 1)
        (Vector.replicate 32 6) = .ok instruction ∧
      instruction.arguments CreateAgreementArgs = some freshArgs ∧
      ∀ blockhash tx, (Op.vaultSign freshArgs (Vector.replicate 32 1) blockhash).transaction?
        addressEnv (Vector.replicate 32 6) = some tx → tx.instruction = instruction) ∧
    (∃ argsData, Borsh.serialize (⟨some "ipfs://proof"⟩ : SignAgreementArgs) = some argsData ∧
      (signAgreementInstruction addressEnv (Vector.replicate 32 1) (Vector.replicate 16 2) partyKey
        (Vector.replicate 32 6) argsData).arguments SignAgreementArgs =
          some ⟨some "ipfs://proof"⟩) ∧
    (∃ bytes, Borsh.serialize freshAgreement = some bytes ∧
      Borsh.tryFromSlice bytes = some freshAgreement) ∧
    Borsh.serialize freshAgreement = some freshEncoding := by
  obtain ⟨hcreate, hsign, hagreement, hcanonical⟩ := encodings_roundtrip
  refine ⟨hcreate _ _ _ _ ⟨by decide, by decide, by decide⟩, hsign _ _ _ _ _ _ ?_,
    hagreement _ ⟨by decide, by decide, by decide, by decide, by decide, by decide, by decide⟩,
    hcanonical _ _ tryFromSlice_freshEncoding⟩
  rintro uri ⟨⟩
  decide

/-! ## The account's size -/

section Size

variable {a : AgreementStateWire}

theorem AgreementStateWire.WithinLimits.lengthsFit (ha : a.WithinLimits)
    (hsignedAt : a.signedAt.length ≤ maxParties) : a.LengthsFit where
  title := ha.title.trans_lt (by decide)
  storageUri := ha.storageUri.trans_lt (by decide)
  parties := ha.parties.trans_lt (by decide)
  signedBy := ha.signedBy.trans_lt (by decide)
  signedAt := hsignedAt.trans_lt (by decide)
  revokeVotes := ha.revokeVotes.trans_lt (by decide)
  revokeRetractCounts := ha.revokeRetractCounts.trans_lt (by decide)

/-- The vault deposit is the rent of an account of `agreementStateSize` bytes and the buffer. -/
theorem calculateVaultDeposit_rent {w w' : World} {steps : List BackendStep}
    {result : Except AppError UInt64}
    (h : Runs perform calculateVaultDeposit.run w steps result w') :
    ∃ answer : Except Failure UInt64,
      steps = [⟨w, .rentExemption agreementStateSize, answer, w'⟩] ∧
      result = (answer.map (· + vaultBuffer)).mapError fun _ => .internalError := by
  unfold calculateVaultDeposit at h
  rcases result with e | deposit
  · rcases runs_bind_error.mp h with hrent | ⟨rent, w₁, first, second, rfl, hrent, hreturn⟩
    · obtain ⟨rfl, failure, hfailed⟩ := runs_orFail_error.mp hrent
      obtain ⟨-, rfl⟩ := runs_issue.mp hfailed
      exact ⟨_, rfl, rfl⟩
    · cases hreturn.2.1
  · obtain ⟨rent, w₁, first, second, rfl, hrent, hreturn⟩ := runs_bind_ok.mp h
    rw [runs_orFail_ok, runs_issue] at hrent
    obtain ⟨-, rfl⟩ := hrent
    obtain ⟨rfl, hvalue, rfl⟩ := runs_run_pure.mp hreturn
    exact ⟨.ok rent, rfl, hvalue⟩

/-- **Size of an account.**  Discriminator and encoding of an agreement within the on-chain limits
fit in `agreementStateSize` bytes, and the vault deposit is the rent for as many bytes, as the node
answers it, and the buffer. -/
theorem agreement_fits_account (ha : a.WithinLimits) (hsignedAt : a.signedAt.length ≤ maxParties)
    (discriminator : Bytes 8) :
    (∃ encoding, Borsh.serialize a = some encoding ∧
      (discriminator.toList ++ encoding).length ≤ agreementStateSize) ∧
    ∀ w steps result w', Runs perform calculateVaultDeposit.run w steps result w' →
      ∃ answer : Except Failure UInt64,
        steps = [⟨w, .rentExemption agreementStateSize, answer, w'⟩] ∧
        result = (answer.map (· + vaultBuffer)).mapError fun _ => .internalError := by
  refine ⟨?_, fun _ _ _ _ hdeposit => calculateVaultDeposit_rent hdeposit⟩
  obtain ⟨encoding, hencoding⟩ := (ha.lengthsFit hsignedAt).encodable
  refine ⟨encoding, hencoding, ?_⟩
  calc (discriminator.toList ++ encoding).length
      = 8 + encoding.length := by rw [List.length_append, Vector.length_toList]
    _ ≤ 8 + 1804 := Nat.add_le_add_left (length_encoding_le ha hsignedAt hencoding) 8
    _ ≤ agreementStateSize := by decide

theorem agreement_fits_account_fresh :
    (∃ encoding, Borsh.serialize freshAgreement = some encoding ∧
      ((Vector.replicate 8 7 : Bytes 8).toList ++ encoding).length ≤ agreementStateSize) ∧
    ∀ w steps result w', Runs perform calculateVaultDeposit.run w steps result w' →
      ∃ answer : Except Failure UInt64,
        steps = [⟨w, .rentExemption agreementStateSize, answer, w'⟩] ∧
        result = (answer.map (· + vaultBuffer)).mapError fun _ => .internalError :=
  agreement_fits_account freshAgreement_withinLimits (by decide) (Vector.replicate 8 7)

end Size

end PactumCodex
