import PactumCodex.Handlers.DraftPayload
import PactumCodex.Services.Solana

/-!
# `create_agreement`

The handler of `handlers/agreement.rs` that starts an agreement.  If every
party has a wallet and the creator is within the free tier, the transaction is
built at once; otherwise a draft is stored together with one invitation for
each party that has no wallet yet.
-/

namespace PactumCodex

open Interaction Handlers.Agreement

/-- `AuthUser`: an authenticated user; `pubkey` is `none` without a linked wallet. -/
structure AuthUser where
  userId : Uuid
  pubkey : Option String

/-- `AuthUserWithWallet`: an authenticated user and the linked wallet. -/
structure AuthUserWithWallet where
  userId : Uuid
  pubkey : String

/-- `PartyInput`. -/
inductive PartyInput : Type
  | pubkey (pubkey : String)
  | email (email : String)

/-- `CreateAgreementRequest`. -/
structure CreateAgreementRequest where
  title : String
  parties : List PartyInput
  expiresInSecs : UInt64

/-- `PendingInvitation`. -/
structure PendingInvitation where
  emailHint : String
  invitedAt : ℤ

/-- `CreateAgreementResponse`. -/
inductive CreateAgreementResponse : Type
  | submitted (transaction agreementPda : String)
  | awaitingPartyWallets (draftId : Uuid) (pendingInvitations : List PendingInvitation)

/-- `InvitationInsertRow`. -/
structure InvitationInsertRow where
  id : Uuid
  emailIndex : List UInt8
  emailEnc : List UInt8
  emailNonce : List UInt8
  token : String
  emailHint : String
  invitedAt : ℤ
  expiresAt : ℤ

/-! ## Conversions and checks -/

/-- `as i32` on a `u32`. -/
def asI32 (n : UInt32) : ℤ := n.toInt32.toInt

/-- `i64::try_from` on a `u64`. -/
def i64TryFrom (n : UInt64) : Option ℤ := if n.toNat < 2 ^ 63 then some n.toNat else none

/-- `try_into` a byte array of length `n`. -/
def tryIntoBytes (n : ℕ) (bytes : List UInt8) : Option (Bytes n) :=
  if h : bytes.length = n then some ⟨bytes.toArray, by simpa using h⟩ else none

def validateInviteWindow (inviteExpirySeconds expiresInSecs : UInt64) : Except AppError Unit :=
  if inviteExpirySeconds ≥ expiresInSecs then .error .inviteWindowExceedsSigningWindow else .ok ()

def hexToBytes32 (text : String) : Option (Bytes 32) :=
  (Hex.decodeBytes text.toList).bind (tryIntoBytes 32)

def decodeHexKey32 (keyHex : String) : Except AppError (Bytes 32) :=
  match hexToBytes32 keyHex with
  | some key => .ok key
  | none => .error .internalError

def emailHint (email : String) : String :=
  match email.toList.span (· ≠ '@') with
  | (name, '@' :: domain) =>
      String.ofList (name.head?.getD '*' :: "***@".toList ++ domain)
  | _ => "***"

/-- The keys that the wallets of the parties decode to; missing wallets and texts that are no key
are dropped. -/
def partyKeys (crates : Crates) (pubkeys : List (Option String)) : List Pubkey :=
  (pubkeys.filterMap id).filterMap crates.pubkeyFromStr

/-! ## The handler -/

/-- The variables of the loop over the requested parties. -/
structure PartyScan where
  allPartiesResolved : Bool
  partySlots : List DraftPartyEntry
  invitationRows : List InvitationInsertRow

/-- The loop over the requested parties. -/
def resolveParties (env : Env) (encryptionKey encryptionIndexKey : Bytes 32)
    (invitedAt expiresAt : ℤ) : List PartyInput → PartyScan → Handler PartyScan
  | [], scan => pure scan
  | .pubkey pubkey :: parties, scan =>
      resolveParties env encryptionKey encryptionIndexKey invitedAt expiresAt parties
        { scan with partySlots := scan.partySlots ++ [⟨some pubkey, none⟩] }
  | .email email :: parties, scan => do
      let emailIndex := env.crates.hmacIndex email encryptionIndexKey
      let resolvedPubkey ← Handler.query (.account (.walletOfEmail emailIndex))
      match resolvedPubkey with
      | some pubkey =>
          resolveParties env encryptionKey encryptionIndexKey invitedAt expiresAt parties
            { scan with partySlots := scan.partySlots ++ [⟨some pubkey, none⟩] }
      | none =>
          let inviteId ← Handler.ask .newUuid
          let token ← Handler.ask .newToken
          let (emailEnc, emailNonce) ←
            Handler.orFail .encryptionFailed (.issue (Op.encrypt email encryptionKey))
          resolveParties env encryptionKey encryptionIndexKey invitedAt expiresAt parties
            { allPartiesResolved := false
              partySlots := scan.partySlots ++ [⟨none, some inviteId⟩]
              invitationRows := scan.invitationRows ++ [⟨inviteId, emailIndex, emailEnc,
                emailNonce, token, emailHint email, invitedAt, expiresAt⟩] }

/-- The loop that stores the invitations. -/
def insertInvitations (draftId : Uuid) : List InvitationInsertRow → Handler Unit
  | [] => pure ()
  | invite :: rest => do
      let now ← Handler.ask .dbNow
      Handler.query (.invitation (.insert invite.id draftId invite.emailIndex invite.emailEnc
        invite.emailNonce invite.token invite.expiresAt now))
      insertInvitations draftId rest

/-- Build the transaction right away: every party has a wallet and nothing is to be paid. -/
def submitDirectly (env : Env) (auth : AuthUserWithWallet) (req : CreateAgreementRequest)
    (partySlots : List DraftPartyEntry) : Handler CreateAgreementResponse := do
  let creatorPubkey ← Handler.okOr .internalError (env.crates.pubkeyFromStr auth.pubkey)
  let agreementId ← Handler.ask .newUuid
  let agreementPda := deriveAgreementPda env creatorPubkey (Uuid.asBytes agreementId)
  let contentHash :=
    (hexToBytes32 (String.ofList (List.replicate 64 '0'))).getD (Vector.replicate 32 0)
  let args : CreateAgreementArgs :=
    { agreementId := Uuid.asBytes agreementId
      title := req.title
      contentHash
      storageUri := "ipfs://placeholder"
      storageBackend := .ipfs
      parties := partyKeys env.crates (partySlots.map DraftPartyEntry.pubkey)
      expiresInSecs := req.expiresInSecs.toInt64 }
  let transaction ← buildCreateAgreementTx args creatorPubkey
  return .submitted transaction (env.crates.pubkeyToString agreementPda)

/-- Store a draft and its invitations. -/
def storeDraft (auth : AuthUserWithWallet) (req : CreateAgreementRequest)
    (partySlots : List DraftPartyEntry) (invitationRows : List InvitationInsertRow) :
    Handler CreateAgreementResponse := do
  let draftPayload : DraftPayload := ⟨req.title, req.expiresInSecs, partySlots⟩
  let draftId ← Handler.query (.draft (.insert auth.pubkey draftPayload.toValue
    (slotsToValue partySlots) .awaitingPartyWallets))
  insertInvitations draftId invitationRows
  return .awaitingPartyWallets draftId
    (invitationRows.map fun invite => ⟨invite.emailHint, invite.invitedAt⟩)

def createAgreement (env : Env) (auth : AuthUserWithWallet) (req : CreateAgreementRequest) :
    Handler CreateAgreementResponse := do
  Handler.ofExcept (validateInviteWindow env.config.inviteExpirySeconds req.expiresInSecs)
  let encryptionKey ← Handler.ofExcept (decodeHexKey32 env.config.encryptionKey)
  let encryptionIndexKey ← Handler.ofExcept (decodeHexKey32 env.config.encryptionIndexKey)
  let freeUsed ← Handler.query (.count (.freeUsed auth.userId))
  let paymentRequirementIsFree := freeUsed.getD 0 < asI32 env.config.platformFeeFreeTier
  let invitedAt ← Handler.ask .utcNow
  let expiry ← Handler.okOr .internalError (i64TryFrom env.config.inviteExpirySeconds)
  let scan ← resolveParties env encryptionKey encryptionIndexKey invitedAt (invitedAt + expiry)
    req.parties ⟨true, [], []⟩
  if scan.allPartiesResolved ∧ paymentRequirementIsFree then
    submitDirectly env auth req scan.partySlots
  else storeDraft auth req scan.partySlots scan.invitationRows

end PactumCodex
