import PactumCodex.Handlers.Agreement

/-!
# Requests on an existing agreement

`sign_agreement`, `cancel_agreement`, `vote_revoke`, `retract_revoke_vote` and
`get_agreement` of `handlers/agreement.rs`.  All of them decode the agreement's
account; the first four check the caller against it and build a transaction.
`vaultKey` is the public key of the server's `vault_keypair`.
-/

namespace PactumCodex

open Interaction

/-- `AgreementStateWire::try_from_slice(&data[8..])`, for data of at least 8 bytes. -/
def decodeAccount (data : List UInt8) : Option AgreementStateWire :=
  if data.length < 8 then none else Borsh.tryFromSlice (data.drop 8)

/-- Load and decode the account of an agreement. -/
def loadAgreement (e : AppError) (pda : Pubkey) : Handler AgreementStateWire := do
  let accountData ← Handler.orFail e (.issue (Op.accountData pda))
  Handler.okOr e (decodeAccount accountData)

def containsPubkeyBytes (pubkeys : List (Bytes 32)) (pubkey : Pubkey) : Bool :=
  pubkeys.any (· = pubkey)

def isFinalSignature (partiesLen signedByLen : ℕ) (signerAlreadySigned : Bool) : Bool :=
  partiesLen = signedByLen + 1 && !signerAlreadySigned

/-! ## Signing -/

/-- `SignAgreementRequest`. -/
structure SignAgreementRequest where
  metadataUri : Option String

/-- `SignAgreementResponse`. -/
structure SignAgreementResponse where
  transaction : String
  suggestEmail : Bool
  suggestEmailReason : Option String

def signAgreement (env : Env) (auth : AuthUserWithWallet) (pda : String)
    (req : SignAgreementRequest) : Handler SignAgreementResponse := do
  let pdaPubkey ← Handler.okOr .internalError (env.crates.pubkeyFromStr pda)
  let signerPubkey ← Handler.okOr .internalError (env.crates.pubkeyFromStr auth.pubkey)
  let agreement ← loadAgreement .internalError pdaPubkey
  Handler.ensure (containsPubkeyBytes agreement.parties signerPubkey) .unauthorized
  let signerAlreadySigned := containsPubkeyBytes agreement.signedBy signerPubkey
  Handler.ensure (¬ (isFinalSignature agreement.parties.length agreement.signedBy.length
    signerAlreadySigned ∧ req.metadataUri.isNone)) .internalError
  let transaction ← buildSignAgreementTx env agreement.creator agreement.agreementId signerPubkey
    req.metadataUri agreement.vaultFunder
  let emailEnc ← Handler.query (.account (.emailEncOf auth.userId))
  let suggestEmail := emailEnc.join.isNone
  return ⟨transaction, suggestEmail, if suggestEmail then some
    "Add your email to be notified when all parties sign and your credential is ready." else none⟩

/-! ## Cancelling and revoking -/

/-- The answer with a transaction and the agreement it is for. -/
structure AgreementTransaction where
  transaction : String
  agreementPda : String

def cancelAgreement (env : Env) (vaultKey : Pubkey) (auth : AuthUserWithWallet) (pda : String) :
    Handler AgreementTransaction := do
  let pdaPubkey ← Handler.okOr .internalError (env.crates.pubkeyFromStr pda)
  let cancellerPubkey ← Handler.okOr .internalError (env.crates.pubkeyFromStr auth.pubkey)
  let agreement ← loadAgreement .internalError pdaPubkey
  Handler.ensure (cancellerPubkey = agreement.creator) .unauthorized
  let transaction ← buildCancelAgreementTx env agreement.creator agreement.agreementId
    cancellerPubkey vaultKey
  return ⟨transaction, pda⟩

def voteRevoke (env : Env) (vaultKey : Pubkey) (auth : AuthUserWithWallet) (pda : String) :
    Handler AgreementTransaction := do
  let pdaPubkey ← Handler.okOr .internalError (env.crates.pubkeyFromStr pda)
  let voterPubkey ← Handler.okOr .internalError (env.crates.pubkeyFromStr auth.pubkey)
  let agreement ← loadAgreement .internalError pdaPubkey
  Handler.ensure (containsPubkeyBytes agreement.parties voterPubkey) .unauthorized
  let nftAsset ← Handler.okOr .internalError agreement.nftAsset
  let transaction ← buildVoteRevokeTx env agreement.creator agreement.agreementId voterPubkey
    nftAsset vaultKey
  return ⟨transaction, pda⟩

def retractRevokeVote (env : Env) (vaultKey : Pubkey) (auth : AuthUserWithWallet) (pda : String) :
    Handler AgreementTransaction := do
  let pdaPubkey ← Handler.okOr .internalError (env.crates.pubkeyFromStr pda)
  let voterPubkey ← Handler.okOr .internalError (env.crates.pubkeyFromStr auth.pubkey)
  let agreement ← loadAgreement .internalError pdaPubkey
  Handler.ensure (containsPubkeyBytes agreement.parties voterPubkey) .unauthorized
  let transaction ← buildRetractRevokeVoteTx env agreement.creator agreement.agreementId
    voterPubkey vaultKey
  return ⟨transaction, pda⟩

/-! ## Showing an agreement -/

/-- `GetAgreementResponse`. -/
structure GetAgreementResponse where
  creator : String
  agreementId : String
  title : String
  storageUri : String
  storageBackend : String
  status : String
  createdAt : Int64
  expiresAt : Int64
  parties : List String
  signedBy : List String

def agreementStatusToString : AgreementStatus → String
  | .draft => "draft"
  | .pendingSignatures => "pending_signatures"
  | .completed => "completed"
  | .cancelled => "cancelled"
  | .expired => "expired"
  | .revoked => "revoked"

def storageBackendToString : StorageBackend → String
  | .ipfs => "ipfs"
  | .arweave => "arweave"

/-- `Uuid::from_slice`: big endian; 16 bytes always are a `Uuid`. -/
def Uuid.fromBytes (bytes : Bytes 16) : Uuid :=
  BitVec.ofNat 128 (bytes.toList.foldl (fun acc byte => acc * 256 + byte.toNat) 0)

def getAgreement (env : Env) (pda : String) : Handler GetAgreementResponse := do
  let pdaPubkey ← Handler.okOr .internalError (env.crates.pubkeyFromStr pda)
  let agreement ← loadAgreement .notFound pdaPubkey
  return {
      creator := env.crates.pubkeyToString agreement.creator
      agreementId := Uuid.toText (Uuid.fromBytes agreement.agreementId)
      title := agreement.title
      storageUri := agreement.storageUri
      storageBackend := storageBackendToString agreement.storageBackend
      status := agreementStatusToString agreement.status
      createdAt := agreement.createdAt
      expiresAt := agreement.expiresAt
      parties := agreement.parties.map env.crates.pubkeyToString
      signedBy := agreement.signedBy.map env.crates.pubkeyToString }

end PactumCodex
