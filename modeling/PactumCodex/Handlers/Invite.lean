import PactumCodex.Handlers.Agreement

/-!
# `accept_invite`

The handler of `handlers/invite.rs` that fills a party slot with the wallet of
the invited user.  Invitation and draft are read and written in one
transaction, with both rows selected `FOR UPDATE`; an error on the way drops
the transaction, which rolls it back.
-/

namespace PactumCodex

open Interaction Handlers.Invite

def validatePendingInvitation (status : InvitationStatus) (expiresAt now : ℤ) :
    Except AppError Unit :=
  if status ≠ .pending ∨ expiresAt < now then .error .notFound else .ok ()

/-- Set the first slot that waits for the invitation; `none` if there is no such slot. -/
def resolvePartySlotPubkey (inviteId : Uuid) (pubkey : String) :
    List DraftPartyEntry → Option (List DraftPartyEntry)
  | [] => none
  | slot :: slots =>
      if slot.inviteId = some inviteId then some (⟨some pubkey, none⟩ :: slots)
      else (resolvePartySlotPubkey inviteId pubkey slots).map (slot :: ·)

def allPubkeysResolved (slots : List DraftPartyEntry) : Bool :=
  slots.all fun slot => slot.pubkey.isSome

/-- A statement of the transaction, `.map_err(|_| AppError::InternalError)?`. -/
def txQuery (tx : ℕ) (s : TxStmt) : Handler s.Out :=
  Handler.orFail .internalError (.issue (Op.tx tx s))

/-- An error drops the transaction. -/
def rollbackOnError {α : Type} (tx : ℕ) (body : Handler α) : Handler α := ExceptT.mk do
  match ← body.run with
  | .ok a => return .ok a
  | .error e =>
      Program.issue (Op.rollback tx)
      return .error e

/-- The new slots of the draft: with the status if all wallets are known now. -/
def slotsWrite (slots : List DraftPartyEntry) (now : ℤ) (draftId : Uuid) : TxWrite :=
  if allPubkeysResolved slots then .resolveReady (slotsToValue slots) now draftId
  else .resolve (slotsToValue slots) draftId

/-- What the transaction leaves to be done after the commit. -/
structure Acceptance where
  draftId : Uuid
  creatorPubkey : String
  allResolved : Bool

/-- The statements of the transaction, up to the commit. -/
def acceptInTx (auth : AuthUserWithWallet) (token : String) (now : ℤ) (tx : ℕ) :
    Handler Acceptance := do
  let invite ← txQuery tx (.lockInvitation token)
  let invite ← Handler.okOr .notFound invite
  Handler.ofExcept (validatePendingInvitation invite.status invite.expiresAt now)
  let draft ← txQuery tx (.lockDraft invite.draftId)
  let draft ← Handler.okOr .notFound draft
  let partySlots ← Handler.okOr .internalError (slotsFromValue draft.partySlots)
  let partySlots ← Handler.okOr .notFound (resolvePartySlotPubkey invite.id auth.pubkey partySlots)
  txQuery tx (.write (.acceptInvitation invite.id))
  txQuery tx (.write (slotsWrite partySlots now invite.draftId))
  return ⟨invite.draftId, draft.creatorPubkey, allPubkeysResolved partySlots⟩

/-- Tell the creator that the draft is ready: directly, or by a queued notification. -/
def notifyReady (draftId : Uuid) (creatorPubkey : String) : Handler Unit := do
  let creatorUserId ← Handler.query (.account (.userOf creatorPubkey))
  match creatorUserId with
  | some userId =>
      let delivered ← Handler.ask (.sendToUser userId (.draftReady (Uuid.toText draftId)))
      if !delivered then
        enqueueNotification "DraftReadyToSubmit" (some (Uuid.toText draftId)) creatorPubkey
  | none => pure ()

def acceptInvite (auth : AuthUserWithWallet) (token : String) : Handler Unit := do
  let now ← Handler.ask .utcNow
  let tx ← Handler.orFail .internalError (.issue Op.begin)
  let acceptance ← rollbackOnError tx (acceptInTx auth token now tx)
  Handler.orFail .internalError (.issue (Op.commit tx))
  if acceptance.allResolved then notifyReady acceptance.draftId acceptance.creatorPubkey

end PactumCodex
