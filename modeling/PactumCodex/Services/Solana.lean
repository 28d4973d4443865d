import PactumCodex.SolanaTypes

/-!
# Transactions, refunds and notifications

The parts of `services/solana.rs`, `services/refund.rs` and
`services/notification.rs` that handlers and workers call.  Instruction
encoding and signing of `create_agreement` are one operation, `vaultSign`,
which carries the arguments that are signed; the other instructions are built
account by account and signed by `partialSign`.  The token transfer of a refund
is `sendTransfer`.
-/

namespace PactumCodex

open Interaction

/-! ## `services/solana.rs` -/

/-- The bytes of an ASCII seed. -/
def seed (text : String) : List UInt8 := text.toList.map fun c => UInt8.ofNat c.toNat

/-- Derive agreement PDA: `["agreement", creator, agreement_id]`. -/
def deriveAgreementPda (env : Env) (creator : Pubkey) (agreementId : Bytes 16) : Pubkey :=
  env.crates.findProgramAddress [seed "agreement", creator.toList, agreementId.toList]

/-- Derive collection state PDA: `["collection", creator]`. -/
def deriveCollectionStatePda (env : Env) (creator : Pubkey) : Pubkey :=
  env.crates.findProgramAddress [seed "collection", creator.toList]

def agreementStateSize : ℕ := 1813

def vaultBuffer : UInt64 := 10000000

def calculateVaultDeposit : Handler UInt64 := do
  let rentExempt ← Handler.orFail .internalError (.issue (Op.rentExemption agreementStateSize))
  return rentExempt + vaultBuffer

/-- Build create_agreement transaction (partially signed by vault). -/
def buildCreateAgreementTx (args : CreateAgreementArgs) (creator : Pubkey) : Handler String := do
  let _vaultDeposit ← calculateVaultDeposit
  -- `build_create_agreement_instruction`; what it builds is signed below
  let _argsData ← Handler.okOr .internalError (Borsh.serialize args)
  let recentBlockhash ← Handler.orFail .solanaRpcError (.issue Op.latestBlockhash)
  Handler.orFail .transactionSigningFailed (.issue (Op.vaultSign args creator recentBlockhash))

/-! ### Instructions -/

def systemProgramId : Pubkey := Vector.replicate 32 0

/-- `CoREENxT6tW1HoK8ypY1SxRMZTcVPm7R94rH4PZNhX7d`. -/
def mplCoreProgramId : Pubkey :=
  ⟨#[175, 84, 171, 16, 189, 151, 165, 66, 160, 158, 247, 179, 152, 137, 221, 12, 211, 148, 164, 204,
    233, 223, 166, 205, 201, 126, 190, 45, 35, 91, 167, 72], rfl⟩

/-- `DF1cHTN9EE8Qonda1esTeYvFjmbYcoc52vDTjTMKvS1P`. -/
def pactumProgramPubkey : Pubkey :=
  ⟨#[181, 227, 15, 242, 146, 118, 162, 135, 228, 46, 178, 179, 86, 146, 248, 194, 72, 111, 246, 84,
    247, 249, 44, 186, 95, 42, 0, 194, 252, 156, 152, 2], rfl⟩

def createAgreementDiscriminator : List UInt8 := [220, 156, 65, 172, 252, 68, 74, 233]
def signAgreementDiscriminator : List UInt8 := [113, 163, 162, 101, 44, 101, 65, 204]
def cancelAgreementDiscriminator : List UInt8 := [75, 89, 85, 4, 100, 216, 143, 37]
def expireAgreementDiscriminator : List UInt8 := [238, 66, 118, 206, 71, 195, 75, 132]
def voteRevokeDiscriminator : List UInt8 := [37, 199, 69, 222, 97, 220, 96, 2]
def retractRevokeVoteDiscriminator : List UInt8 := [221, 206, 3, 95, 171, 167, 185, 239]

/-- Derive PDA authority: `["mint_authority", "v1", vault_funder]`. -/
def derivePdaAuthority (env : Env) (vaultFunder : Pubkey) : Pubkey :=
  env.crates.findProgramAddress [seed "mint_authority", seed "v1", vaultFunder.toList]

/-- `AccountMeta::new`: a writable account. -/
def AccountMeta.new (pubkey : Pubkey) (isSigner : Bool) : AccountMeta := ⟨pubkey, isSigner, true⟩

/-- `AccountMeta::new_readonly`. -/
def AccountMeta.newReadonly (pubkey : Pubkey) (isSigner : Bool) : AccountMeta :=
  ⟨pubkey, isSigner, false⟩

/-- The instruction that `vaultSign` signs, around the serialized arguments. -/
def createAgreementInstruction (env : Env) (agreementId : Bytes 16) (creator vaultKey : Pubkey)
    (argsData : List UInt8) : Instruction where
  programId := pactumProgramPubkey
  accounts :=
    [ .new vaultKey true,
      .newReadonly creator true,
      .new (deriveCollectionStatePda env creator) false,
      .new (deriveAgreementPda env creator agreementId) false,
      .newReadonly systemProgramId false ]
  data := createAgreementDiscriminator ++ argsData

/-- `build_create_agreement_instruction`, from the arguments. -/
def buildCreateAgreementInstruction (env : Env) (args : CreateAgreementArgs)
    (creator vaultKey : Pubkey) : Except AppError Instruction :=
  match Borsh.serialize args with
  | some argsData => .ok (createAgreementInstruction env args.agreementId creator vaultKey argsData)
  | none => .error .internalError

def signAgreementInstruction (env : Env) (creator : Pubkey) (agreementId : Bytes 16)
    (signer vaultFunder : Pubkey) (argsData : List UInt8) : Instruction where
  programId := pactumProgramPubkey
  accounts :=
    [ .new vaultFunder true,
      .new signer true,
      .newReadonly creator false,
      .new (deriveAgreementPda env creator agreementId) false,
      .newReadonly (derivePdaAuthority env vaultFunder) false,
      .newReadonly mplCoreProgramId false,
      .newReadonly systemProgramId false ]
  data := signAgreementDiscriminator ++ argsData

def cancelAgreementInstruction (env : Env) (creator : Pubkey) (agreementId : Bytes 16)
    (canceller vaultKey : Pubkey) : Instruction where
  programId := pactumProgramPubkey
  accounts :=
    [ .new vaultKey true,
      .newReadonly canceller true,
      .new (deriveAgreementPda env creator agreementId) false,
      .newReadonly systemProgramId false ]
  data := cancelAgreementDiscriminator

def expireAgreementInstruction (env : Env) (creator : Pubkey) (agreementId : Bytes 16)
    (vaultKey : Pubkey) : Instruction where
  programId := pactumProgramPubkey
  accounts :=
    [ .new vaultKey true,
      .new (deriveAgreementPda env creator agreementId) false,
      .newReadonly creator false,
      .newReadonly systemProgramId false ]
  data := expireAgreementDiscriminator

def voteRevokeInstruction (env : Env) (creator : Pubkey) (agreementId : Bytes 16)
    (voter nftAsset vaultKey : Pubkey) : Instruction where
  programId := pactumProgramPubkey
  accounts :=
    [ .new vaultKey true,
      .new voter true,
      .newReadonly creator false,
      .new (deriveAgreementPda env creator agreementId) false,
      .new nftAsset false,
      .newReadonly (derivePdaAuthority env vaultKey) false,
      .newReadonly mplCoreProgramId false,
      .newReadonly systemProgramId false ]
  data := voteRevokeDiscriminator

/-- The `creator` of the source is bound to `voter`: the parameter `_creator` is not used. -/
def retractRevokeVoteInstruction (env : Env) (_creator : Pubkey) (agreementId : Bytes 16)
    (voter vaultKey : Pubkey) : Instruction where
  programId := pactumProgramPubkey
  accounts :=
    [ .new vaultKey true,
      .new voter true,
      .new (deriveAgreementPda env voter agreementId) false ]
  data := retractRevokeVoteDiscriminator

/-- Assemble a transaction that the vault pays for and signs. -/
def partiallySigned (vaultKey : Pubkey) (instruction : Instruction) : Handler String := do
  let recentBlockhash ← Handler.orFail .solanaRpcError (.issue Op.latestBlockhash)
  Handler.orFail .transactionSigningFailed
    (.issue (Op.partialSign instruction vaultKey recentBlockhash))

/-- Build sign_agreement transaction (unsigned - party signs client-side). -/
def buildSignAgreementTx (env : Env) (creator : Pubkey) (agreementId : Bytes 16) (signer : Pubkey)
    (metadataUri : Option String) (vaultFunder : Pubkey) : Handler String := do
  let argsData ← Handler.okOr .internalError
    (Borsh.serialize (⟨metadataUri⟩ : SignAgreementArgs))
  let recentBlockhash ← Handler.orFail .solanaRpcError (.issue Op.latestBlockhash)
  Handler.orFail .internalError (.issue (Op.serialize
    (signAgreementInstruction env creator agreementId signer vaultFunder argsData) signer
    recentBlockhash))

/-- Build cancel_agreement transaction (partially signed by vault). -/
def buildCancelAgreementTx (env : Env) (creator : Pubkey) (agreementId : Bytes 16)
    (canceller vaultKey : Pubkey) : Handler String :=
  partiallySigned vaultKey (cancelAgreementInstruction env creator agreementId canceller vaultKey)

/-- Build expire_agreement transaction (partially signed by vault). -/
def buildExpireAgreementTx (env : Env) (creator : Pubkey) (agreementId : Bytes 16)
    (vaultKey : Pubkey) : Handler String :=
  partiallySigned vaultKey (expireAgreementInstruction env creator agreementId vaultKey)

/-- Build vote_revoke transaction (partially signed by vault, voter signs client-side). -/
def buildVoteRevokeTx (env : Env) (creator : Pubkey) (agreementId : Bytes 16)
    (voter nftAsset vaultKey : Pubkey) : Handler String :=
  partiallySigned vaultKey (voteRevokeInstruction env creator agreementId voter nftAsset vaultKey)

/-- Build retract_revoke_vote transaction (partially signed by vault). -/
def buildRetractRevokeVoteTx (env : Env) (creator : Pubkey) (agreementId : Bytes 16)
    (voter vaultKey : Pubkey) : Handler String :=
  partiallySigned vaultKey (retractRevokeVoteInstruction env creator agreementId voter vaultKey)

/-! ## `services/refund.rs` -/

/-- `u32::saturating_sub`. -/
def saturatingSub (a b : UInt32) : UInt32 := if a ≤ b then 0 else a - b

theorem toNat_saturatingSub (a b : UInt32) : (saturatingSub a b).toNat = a.toNat - b.toNat := by
  rw [saturatingSub]
  split
  · rename_i hle
    have := UInt32.le_iff_toNat_le.mp hle
    simp only [UInt32.toNat_zero]
    omega
  · rename_i hgt
    have := UInt32.not_le.mp hgt
    exact UInt32.toNat_sub_of_le _ _ (UInt32.le_of_lt this)

/-- Calculate the refundable amount in token units. -/
def calculateRefundAmount (paidUnits : UInt64) (nonrefundableCents totalFeeCents : UInt32) :
    UInt64 :=
  if totalFeeCents = 0 ∨ paidUnits = 0 then 0
  else
    let refundableCents := saturatingSub totalFeeCents nonrefundableCents
    paidUnits * refundableCents.toUInt64 / totalFeeCents.toUInt64

/-- Execute an SPL token refund transfer from the treasury ATA to the creator's ATA. -/
def executeRefund (env : Env) (creatorPubkeyStr tokenMintStr : String) (amount : UInt64) :
    Handler String := do
  let creatorPubkey ← Handler.okOr .internalError (env.crates.pubkeyFromStr creatorPubkeyStr)
  let tokenMint ← Handler.okOr .internalError (env.crates.pubkeyFromStr tokenMintStr)
  let destinationExists ←
    Handler.orFail .solanaRpcError (.issue (Op.destinationExists creatorPubkey tokenMint))
  Handler.ensure destinationExists .notFound
  let recentBlockhash ← Handler.orFail .solanaRpcError (.issue Op.latestBlockhash)
  Handler.orFail .solanaRpcError
    (.issue (Op.sendTransfer creatorPubkey tokenMint amount recentBlockhash))

/-! ## `services/notification.rs` -/

/-- Enqueue a notification for later dispatch. -/
def enqueueNotification (eventType : String) (agreementPda : Option String)
    (recipientPubkey : String) : Handler Unit := do
  let now ← Handler.ask .utcNow
  let _id ← Handler.query (.notification ⟨eventType, agreementPda, recipientPubkey, now⟩)
  return ()

end PactumCodex
