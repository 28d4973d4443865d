import PactumCodex.Schema

/-!
# Statements on drafts and invitations

Every SQL statement of the program that reads or writes `agreement_drafts` or
`party_invitations`, with its bind parameters.  `Out` is what the statement
returns, and `exec s out db` is the table after it, or `none` if `s` cannot
return `out` on `db`.  Statements that run inside the transaction of
`accept_invite` are listed separately; their writes take effect at commit.

Values the database fills in are arguments too: `now` where the statement or a
column default reads `extract(epoch from now())`, and the returned id where a
column default generates it.
-/

namespace PactumCodex

open Relational

/-! ## Drafts -/

/-- The columns `submit_draft` reads of a draft. -/
structure DraftRow where
  creatorPubkey : String
  draftPayload : Json
  status : DraftStatus
  paid : Bool
  deriving DecidableEq

/-- Statements on `agreement_drafts` outside a transaction. -/
inductive DraftStmt : Type
  /-- `INSERT INTO agreement_drafts (creator_pubkey, draft_payload, party_slots, status) … RETURNING
  id` -/
  | insert (creatorPubkey : String) (draftPayload partySlots : Json) (status : DraftStatus)
  /-- `SELECT creator_pubkey FROM agreement_drafts WHERE id = $1` -/
  | creatorOf (id : Uuid)
  /-- `SELECT creator_pubkey, draft_payload, status, paid FROM agreement_drafts WHERE id = $1` -/
  | rowOf (id : Uuid)
  /-- `UPDATE agreement_drafts SET status = 'discarded' WHERE id = $1` -/
  | discard (id : Uuid)
  /-- `UPDATE agreement_drafts SET storage_uri = $1, storage_uploaded = true WHERE id = $2` -/
  | setStorage (storageUri : String) (id : Uuid)
  /-- `UPDATE agreement_drafts SET agreement_pda = $1, agreement_id = $2 WHERE id = $3` -/
  | setAgreement (agreementPda : String) (agreementId : Bytes 16) (id : Uuid)
  /-- `UPDATE agreement_drafts SET paid = true WHERE id = $1` -/
  | setPaid (id : Uuid)

namespace DraftStmt

/-- What the statement returns. -/
@[reducible] def Out : DraftStmt → Type
  | insert .. => Uuid
  | creatorOf _ => Option String
  | rowOf _ => Option DraftRow
  | discard _ => Unit
  | setStorage .. => Unit
  | setAgreement .. => Unit
  | setPaid _ => Unit

/-- The drafts after the statement. -/
def exec : (s : DraftStmt) → s.Out → Db → Option (Table Draft DraftsValid)
  | insert creatorPubkey draftPayload partySlots status, id, db =>
      commit (db.drafts.rows ++
        [⟨id, creatorPubkey, draftPayload, partySlots, status, none, false, none, false, none,
          none⟩])
  | creatorOf id, result, db =>
      provided (result = (db.draft? id).map Draft.creatorPubkey) db.drafts
  | rowOf id, result, db =>
      provided (result = (db.draft? id).map fun draft =>
        ⟨draft.creatorPubkey, draft.draftPayload, draft.status, draft.paid⟩) db.drafts
  | discard id, _, db =>
      commit (updateWhere (·.id = id) ({ · with status := .discarded }) db.drafts.rows)
  | setStorage storageUri id, _, db =>
      commit (updateWhere (·.id = id)
        ({ · with storageUri := some storageUri, storageUploaded := true }) db.drafts.rows)
  | setAgreement agreementPda agreementId id, _, db =>
      commit (updateWhere (·.id = id)
        ({ · with agreementPda := some agreementPda, agreementId := some agreementId })
        db.drafts.rows)
  | setPaid id, _, db =>
      commit (updateWhere (·.id = id) ({ · with paid := true }) db.drafts.rows)

/-- The drafts whose row lock the statement has to take. -/
def locks : DraftStmt → List Uuid
  | insert .. => []
  | creatorOf _ => []
  | rowOf _ => []
  | discard id => [id]
  | setStorage _ id => [id]
  | setAgreement _ _ id => [id]
  | setPaid id => [id]

end DraftStmt

/-! ## Invitations -/

/-- Statements on `party_invitations` outside a transaction. -/
inductive InvitationStmt : Type
  /-- `INSERT INTO party_invitations (id, draft_id, …, token, expires_at)`, as `create_agreement`
  issues it -/
  | insert (id draftId : Uuid) (index enc nonce : List UInt8) (token : String) (expiresAt now : ℤ)
  /-- `INSERT INTO party_invitations (draft_id, …, token, expires_at) … RETURNING id` -/
  | insertReturning (draftId : Uuid) (index enc nonce : List UInt8) (token : String)
      (expiresAt now : ℤ)
  /-- `SELECT invited_email_index, … WHERE id = $1 AND draft_id = $2 AND status = 'expired'` -/
  | expiredOf (id draftId : Uuid)
  /-- `UPDATE party_invitations SET status = 'expired' WHERE status = 'pending' AND
  expires_at < $1 RETURNING id, draft_id` -/
  | expireStale (now : ℤ)
  /-- The joined `SELECT` of `send_invitation_reminders` -/
  | remindersDue (threshold : ℤ)
  /-- `UPDATE party_invitations SET reminder_sent_at = $1, reminder_count = reminder_count + 1
  WHERE id = $2` -/
  | markReminded (now : ℤ) (id : Uuid)

/-- An invitation is stale at `now`: pending and past its expiry. -/
def Invitation.isStale (now : ℤ) (invitation : Invitation) : Bool :=
  invitation.status = .pending ∧ invitation.expiresAt < now

/-- Pending invitations without a reminder, older than the threshold, whose
draft's creator has an email on file.  The subquery's `LIMIT 1` takes the first
wallet of a user. -/
def Db.remindersDue (db : Db) (threshold : ℤ) : List Invitation :=
  db.invitations.rows.filter fun invitation =>
    invitation.status = .pending ∧ invitation.reminderCount = 0 ∧
      invitation.createdAt < threshold ∧
      ∃ draft ∈ db.drafts.rows, draft.id = invitation.draftId ∧
        ∃ contact ∈ db.contacts.rows, contact.emailEnc.isSome ∧
          (db.wallets.rows.find? fun wallet => wallet.userId = contact.userId).map Wallet.pubkey =
            some draft.creatorPubkey

namespace InvitationStmt

/-- What the statement returns. -/
@[reducible] def Out : InvitationStmt → Type
  | insert .. => Unit
  | insertReturning .. => Uuid
  | expiredOf .. => Option (List UInt8 × List UInt8 × List UInt8)
  | expireStale _ => List (Uuid × Uuid)
  | remindersDue _ => List Uuid
  | markReminded .. => Unit

/-- A new invitation: `pending`, no reminder sent. -/
def newRow (id draftId : Uuid) (index enc nonce : List UInt8) (token : String)
    (expiresAt now : ℤ) : Invitation :=
  ⟨id, draftId, index, enc, nonce, token, .pending, none, 0, now, expiresAt⟩

/-- The invitations after the statement. -/
def exec : (s : InvitationStmt) → s.Out → Db → Option (Table Invitation InvitationsValid)
  | insert id draftId index enc nonce token expiresAt now, _, db =>
      -- the draft must exist: `draft_id` references `agreement_drafts`
      if (db.draft? draftId).isSome then
        commit (db.invitations.rows ++ [newRow id draftId index enc nonce token expiresAt now])
      else none
  | insertReturning draftId index enc nonce token expiresAt now, id, db =>
      if (db.draft? draftId).isSome then
        commit (db.invitations.rows ++ [newRow id draftId index enc nonce token expiresAt now])
      else none
  | expiredOf id draftId, result, db =>
      provided (result = (db.invitations.rows.find? fun invitation =>
          invitation.id = id ∧ invitation.draftId = draftId ∧ invitation.status = .expired).map
        fun invitation =>
          (invitation.invitedEmailIndex, invitation.invitedEmailEnc, invitation.invitedEmailNonce))
        db.invitations
  | expireStale now, result, db =>
      if result.Perm ((db.invitations.rows.filter (·.isStale now)).map fun invitation =>
          (invitation.id, invitation.draftId)) then
        commit (updateWhere (·.isStale now) ({ · with status := .expired }) db.invitations.rows)
      else none
  | remindersDue threshold, result, db =>
      provided (result.Perm ((db.remindersDue threshold).map Invitation.id)) db.invitations
  | markReminded now id, _, db =>
      commit (updateWhere (·.id = id)
        (fun invitation => { invitation with
          reminderSentAt := some now, reminderCount := invitation.reminderCount + 1 })
        db.invitations.rows)

/-- The invitations whose row lock the statement has to take. -/
def locks : InvitationStmt → Db → List Uuid
  | insert .., _ => []
  | insertReturning .., _ => []
  | expiredOf .., _ => []
  | expireStale now, db => (db.invitations.rows.filter (·.isStale now)).map Invitation.id
  | remindersDue _, _ => []
  | markReminded _ id, _ => [id]

end InvitationStmt

/-! ## The transaction of `accept_invite` -/

/-- The columns `accept_invite` reads of an invitation. -/
structure InviteAcceptRow where
  id : Uuid
  draftId : Uuid
  status : InvitationStatus
  expiresAt : ℤ
  deriving DecidableEq

/-- The columns `accept_invite` reads of a draft. -/
structure DraftForAcceptRow where
  partySlots : Json
  creatorPubkey : String
  deriving DecidableEq

/-- Writes of the transaction. -/
inductive TxWrite : Type
  /-- `UPDATE party_invitations SET status = 'accepted' WHERE id = $1` -/
  | acceptInvitation (id : Uuid)
  /-- `UPDATE agreement_drafts SET party_slots = $1, status = 'ready_to_submit', ready_at = $2
  WHERE id = $3` -/
  | resolveReady (partySlots : Json) (readyAt : ℤ) (id : Uuid)
  /-- `UPDATE agreement_drafts SET party_slots = $1 WHERE id = $2` -/
  | resolve (partySlots : Json) (id : Uuid)

/-- Statements of the transaction. -/
inductive TxStmt : Type
  /-- `SELECT id, draft_id, status, expires_at FROM party_invitations WHERE token = $1 FOR
  UPDATE` -/
  | lockInvitation (token : String)
  /-- `SELECT party_slots, creator_pubkey FROM agreement_drafts WHERE id = $1 FOR UPDATE` -/
  | lockDraft (id : Uuid)
  | write (w : TxWrite)

/-- What the statement returns. -/
@[reducible] def TxStmt.Out : TxStmt → Type
  | lockInvitation _ => Option InviteAcceptRow
  | lockDraft _ => Option DraftForAcceptRow
  | write _ => Unit

/-- Apply one write of a committing transaction. -/
def TxWrite.apply (db : Db) : TxWrite → Option Db
  | acceptInvitation id =>
      (commit (updateWhere (·.id = id) ({ · with status := .accepted }) db.invitations.rows)).map
        fun invitations => { db with invitations }
  | resolveReady partySlots readyAt id =>
      (commit (updateWhere (·.id = id)
        ({ · with partySlots, status := .readyToSubmit, readyAt := some readyAt })
        db.drafts.rows)).map fun drafts => { db with drafts }
  | resolve partySlots id =>
      (commit (updateWhere (·.id = id) ({ · with partySlots }) db.drafts.rows)).map
        fun drafts => { db with drafts }

end PactumCodex
