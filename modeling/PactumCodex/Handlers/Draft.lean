import PactumCodex.Handlers.Agreement

/-!
# Draft handlers

`delete_draft`, `reinvite_draft` and `submit_draft` of `handlers/draft.rs`.
-/

namespace PactumCodex

open Handlers.Draft

/-- `ReinviteRequest`. -/
structure ReinviteRequest where
  invitationId : Uuid

/-- `ReinviteResponse`. -/
structure ReinviteResponse where
  invitationId : Uuid
  expiresAt : ℤ

/-- `SubmitDraftRequest`. -/
structure SubmitDraftRequest where
  contentHash : String
  storageUri : String
  storageBackend : String

/-- `SubmitDraftResponse`. -/
structure SubmitDraftResponse where
  transaction : String
  agreementPda : String
  deriving DecidableEq

/-! ## Checks -/

def ensureCreatorOnly (authPubkey : Option String) (draftCreatorPubkey : String) :
    Except AppError Unit :=
  match authPubkey with
  | some pubkey => if pubkey = draftCreatorPubkey then .ok () else .error .unauthorized
  | none => .error .unauthorized

def ensureCreatorFromUserId (userId : Uuid) (draftCreatorPubkey : String) : Handler Unit := do
  let authPubkey ← Handler.query (.account (.walletOf userId))
  Handler.ofExcept (ensureCreatorOnly authPubkey draftCreatorPubkey)

/-- The gates of `submit_draft`: paid, ready, reachable by email, in this order. -/
def evaluateSubmitGates (paid : Bool) (status : DraftStatus) (hasEmail : Bool) (draftId : Uuid) :
    Except AppError Unit :=
  if !paid then
    .error (.paymentRequired (Uuid.toText draftId) ("/payment/initiate/" ++ Uuid.toText draftId))
  else if status ≠ .readyToSubmit then .error .draftNotReady
  else if !hasEmail then
    .error (.emailRequired "Add an email address to receive agreement notifications."
      "/user/contacts")
  else .ok ()

def parseStorageBackend (raw : String) : Except AppError StorageBackend :=
  let lower := String.ofList (raw.toList.map Char.toLower)
  if lower = "ipfs" then .ok .ipfs
  else if lower = "arweave" then .ok .arweave
  else .error .uploadFailed

def validateContentHash (contentHash : String) : Except AppError Unit :=
  if contentHash.utf8ByteSize ≠ 64 then .error .invalidHash
  else if contentHash.toList.all fun c => (Hex.digitVal c).isSome then .ok ()
  else .error .invalidHash

/-! ## Handlers -/

def deleteDraft (auth : AuthUser) (draftId : Uuid) : Handler Unit := do
  let draftCreator ← Handler.query (.draft (.creatorOf draftId))
  let draftCreator ← Handler.okOr .notFound draftCreator
  ensureCreatorFromUserId auth.userId draftCreator
  Handler.query (.draft (.discard draftId))

def reinviteDraft (env : Env) (auth : AuthUser) (draftId : Uuid) (req : ReinviteRequest) :
    Handler ReinviteResponse := do
  let draftCreator ← Handler.query (.draft (.creatorOf draftId))
  let draftCreator ← Handler.okOr .notFound draftCreator
  ensureCreatorFromUserId auth.userId draftCreator
  let expiredInvitation ← Handler.query (.invitation (.expiredOf req.invitationId draftId))
  let (index, enc, nonce) ← Handler.okOr .notFound expiredInvitation
  let token ← Handler.ask .newToken
  let now ← Handler.ask .utcNow
  let expiry ← Handler.okOr .internalError (i64TryFrom env.config.inviteExpirySeconds)
  let createdAt ← Handler.ask .dbNow
  let invitationId ← Handler.query
    (.invitation (.insertReturning draftId index enc nonce token (now + expiry) createdAt))
  return ⟨invitationId, now + expiry⟩

def getDraftRow (draftId : Uuid) : Handler DraftRow := do
  let row ← Handler.query (.draft (.rowOf draftId))
  Handler.okOr .notFound row

/-- What `submit_draft` has checked and read before it builds the transaction. -/
def admitSubmission (auth : AuthUserWithWallet) (draftId : Uuid) (req : SubmitDraftRequest) :
    Handler (StorageBackend × DraftRow) := do
  Handler.ofExcept (validateContentHash req.contentHash)
  let storageBackend ← Handler.ofExcept (parseStorageBackend req.storageBackend)
  let draft ← getDraftRow draftId
  Handler.ofExcept (ensureCreatorOnly (some auth.pubkey) draft.creatorPubkey)
  let hasEmail ← Handler.query (.account (.hasEmail auth.userId))
  Handler.ofExcept (evaluateSubmitGates draft.paid draft.status hasEmail draftId)
  return (storageBackend, draft)

/-- Store the address of the agreement on the draft and on its confirmed payment. -/
def persistAgreement (agreementPda : String) (agreementId : Bytes 16) (draftId : Uuid) :
    Handler Unit := do
  Handler.query (.draft (.setAgreement agreementPda agreementId draftId))
  Handler.query (.payment (.setAgreementPda agreementPda draftId))

def submitDraft (env : Env) (auth : AuthUserWithWallet) (draftId : Uuid)
    (req : SubmitDraftRequest) : Handler SubmitDraftResponse := do
  let (storageBackend, draft) ← admitSubmission auth draftId req
  Handler.query (.draft (.setStorage req.storageUri draftId))
  let payload ← Handler.okOr .internalError (DraftPayload.fromValue draft.draftPayload)
  let creatorPubkey ← Handler.okOr .internalError (env.crates.pubkeyFromStr auth.pubkey)
  let agreementId ← Handler.ask .newUuid
  let contentHash ← Handler.okOr .invalidHash (hexToBytes32 req.contentHash)
  let args : CreateAgreementArgs :=
    { agreementId := Uuid.asBytes agreementId
      title := payload.title
      contentHash
      storageUri := req.storageUri
      storageBackend
      parties := partyKeys env.crates (payload.parties.map DraftPartyEntry.pubkey)
      expiresInSecs := payload.expiresInSecs.toInt64 }
  let transaction ← buildCreateAgreementTx args creatorPubkey
  let agreementPda := env.crates.pubkeyToString
    (deriveAgreementPda env creatorPubkey (Uuid.asBytes agreementId))
  persistAgreement agreementPda (Uuid.asBytes agreementId) draftId
  return ⟨transaction, agreementPda⟩

end PactumCodex
