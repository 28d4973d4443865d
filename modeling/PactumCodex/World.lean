import PactumCodex.Lib.Fallible
import PactumCodex.Statements.Agreements
import PactumCodex.Statements.Drafts
import PactumCodex.Statements.Payments

/-!
# Operations and the world they act on

Handlers and workers are programs over the operations `Op`: single SQL
statements, the statements of an open transaction, clock readings, random
identifiers, calls to the Solana RPC node, to the email provider and to the
WebSocket channels.  `perform` gives their meaning on a `World`.

* An SQL statement can always fail (`.error`), and then changes nothing.  It
  succeeds with any result its definition allows.
* `extract(epoch from now())` is a reading of the database clock, taken when
  the statement starts; it never runs backwards.  These programs only store it,
  so that the readings are in the whole seconds of a `BIGINT` column.  The host
  clock is arbitrary.
* Generated identifiers have not been generated before.
* Writes of a transaction are buffered until it commits.  Rows it has selected
  `FOR UPDATE` are locked until then: no other statement can write them.
* Answers of remote systems are arbitrary.
-/

namespace PactumCodex

open Interaction Relational

/-! ## Operations -/

/-- An SQL statement outside a transaction. -/
inductive Stmt : Type
  | draft (s : DraftStmt)
  | invitation (s : InvitationStmt)
  | payment (s : PaymentStmt)
  | count (s : CountStmt)
  | party (s : PartyStmt)
  | notification (s : NotificationStmt)
  | account (s : AccountStmt)

/-- What the statement returns. -/
@[reducible] def Stmt.Out : Stmt → Type
  | draft s => s.Out
  | invitation s => s.Out
  | payment s => s.Out
  | count s => s.Out
  | party s => s.Out
  | notification _ => Uuid
  | account s => s.Out

/-- A failed statement or remote call. -/
inductive Failure : Type
  | failed
  deriving DecidableEq, Repr

/-- `StorageBackend`. -/
inductive StorageBackend : Type
  | ipfs
  | arweave
  deriving DecidableEq, Repr

/-- Arguments of the `create_agreement` instruction. -/
structure CreateAgreementArgs where
  agreementId : Bytes 16
  title : String
  contentHash : Bytes 32
  storageUri : String
  storageBackend : StorageBackend
  parties : List Pubkey
  expiresInSecs : Int64
  deriving DecidableEq

/-- `solana_sdk::instruction::AccountMeta`. -/
structure AccountMeta where
  pubkey : Pubkey
  isSigner : Bool
  isWritable : Bool
  deriving DecidableEq

/-- `solana_sdk::instruction::Instruction`. -/
structure Instruction where
  programId : Pubkey
  accounts : List AccountMeta
  data : List UInt8
  deriving DecidableEq

/-- WebSocket events pushed by the modelled code. -/
inductive WsEvent : Type
  | agreementCreated (agreementPda : String)
  | agreementSigned (agreementPda : String)
  | agreementCompleted (agreementPda : String)
  | agreementCancelled (agreementPda : String)
  | agreementExpired (agreementPda : String)
  | agreementRevokeVote (agreementPda : String)
  | agreementRevoked (agreementPda : String)
  | draftReady (draftId : String)
  | draftInvitationExpired (draftId : String)
  | paymentConfirmed (draftId : String)
  | refundCompleted (draftId : String)
  | genericNotification (message : String)
  deriving DecidableEq, Repr

/-- An operation of a handler or worker. -/
inductive Op : Type
  | sql (s : Stmt)
  | begin
  | tx (id : ℕ) (s : TxStmt)
  | commit (id : ℕ)
  | rollback (id : ℕ)
  /-- `extract(epoch from now())` -/
  | dbNow
  /-- `chrono::Utc::now().timestamp()` and `current_unix_timestamp()` -/
  | utcNow
  /-- `Uuid::new_v4()` -/
  | newUuid
  /-- `hex::encode` of 32 bytes from `OsRng` -/
  | newToken
  /-- `Keypair::new().pubkey().to_string()` -/
  | newReference
  /-- `crypto::encrypt`: ciphertext and nonce -/
  | encrypt (plaintext : String) (key : Bytes 32)
  /-- `rpc.get_minimum_balance_for_rent_exemption` -/
  | rentExemption (size : ℕ)
  /-- `rpc.get_latest_blockhash` -/
  | latestBlockhash
  /-- `try_partial_sign` by the vault of a `create_agreement` transaction, serialized -/
  | vaultSign (args : CreateAgreementArgs) (creator : Pubkey) (blockhash : String)
  /-- `rpc.get_account(..)` succeeds; `none` if the blocking task failed -/
  | accountExists (key : Pubkey)
  /-- `rpc.get_account_data` -/
  | accountData (key : Pubkey)
  /-- `rpc.get_account(..)` and its data, in a blocking task; `none` if the task failed -/
  | fetchAccount (key : Pubkey)
  /-- `try_partial_sign` by the vault of a transaction of one instruction, serialized -/
  | partialSign (instruction : Instruction) (payer : Pubkey) (blockhash : String)
  /-- `bincode::serialize` of an unsigned transaction of one instruction -/
  | serialize (instruction : Instruction) (payer : Pubkey) (blockhash : String)
  /-- `submit_transaction_rpc` -/
  | sendTransaction (transaction : String)
  /-- `get_account_with_commitment` of the creator's token account -/
  | destinationExists (creator mint : Pubkey)
  /-- `SendTransaction` of the treasury's token transfer -/
  | sendTransfer (creator mint : Pubkey) (amount : UInt64) (blockhash : String)
  /-- `send_email` through the provider -/
  | sendEmail (recipient : String)
  /-- `send_to_user` -/
  | sendToUser (userId : Uuid) (event : WsEvent)
  /-- `process_pending_refunds` enters `execute_refund` for a payment -/
  | refundCall (id : Uuid) (creatorPubkey tokenMint : String) (amount : UInt64)
  /-- `execute_refund` returns to `process_pending_refunds` -/
  | refundReturn (id : Uuid) (result : Except AppError String)
  /-- `expire_due_agreements` enters `submit_expire_transaction` for an agreement -/
  | expireCall (agreementPda creatorPubkey : String)
  /-- `submit_expire_transaction` returns to `expire_due_agreements` -/
  | expireReturn (agreementPda : String) (result : Except AppError String)

/-- The answer of an operation. -/
@[reducible] def Op.Ans : Op → Type
  | sql s => Except Failure s.Out
  | begin => Except Failure ℕ
  | tx _ s => Except Failure s.Out
  | commit _ => Except Failure Unit
  | rollback _ => Unit
  | dbNow => ℤ
  | utcNow => ℤ
  | newUuid => Uuid
  | newToken => String
  | newReference => String
  | encrypt .. => Except Failure (List UInt8 × List UInt8)
  | rentExemption _ => Except Failure UInt64
  | latestBlockhash => Except Failure String
  | vaultSign .. => Except Failure String
  | accountExists _ => Option Bool
  | accountData _ => Except Failure (List UInt8)
  | fetchAccount _ => Option (Except Failure (List UInt8))
  | partialSign .. => Except Failure String
  | serialize .. => Except Failure String
  | sendTransaction _ => Except AppError String
  | destinationExists .. => Except Failure Bool
  | sendTransfer .. => Except Failure String
  | sendEmail _ => Except Failure Unit
  | sendToUser .. => Bool
  | refundCall .. => Unit
  | refundReturn .. => Unit
  | expireCall .. => Unit
  | expireReturn .. => Unit

/-! ## The world -/

/-- An open transaction. -/
structure Tx where
  id : ℕ
  invitations : List Uuid
  drafts : List Uuid
  writes : List TxWrite

/-- The database, its clock, the identifiers generated so far and the open transactions. -/
structure World where
  db : Db
  clock : ℤ
  uuids : List Uuid
  txs : List Tx
  nextTx : ℕ

/-- A world holding the given data, with no transaction open. -/
def World.ofDb (db : Db) : World := ⟨db, 0, [], [], 0⟩

/-- The database after a statement. -/
def Stmt.exec : (s : Stmt) → s.Out → Db → Option Db
  | draft s, out, db => (s.exec out db).map fun drafts => { db with drafts }
  | invitation s, out, db => (s.exec out db).map fun invitations => { db with invitations }
  | payment s, out, db => (s.exec out db).map fun payments => { db with payments }
  | count s, out, db => (s.exec out db).map fun counts => { db with counts }
  | party s, out, db => (s.exec out db).map fun parties => { db with parties }
  | notification s, out, db => (s.exec out db).map fun notifications => { db with notifications }
  | account s, out, db => provided (s.Returns db out) db

/-- No row the statement writes is locked by an open transaction. -/
def Stmt.unblocked (db : Db) (txs : List Tx) : Stmt → Bool
  | draft s => s.locks.all fun id => txs.all fun tx => id ∉ tx.drafts
  | invitation s => (s.locks db).all fun id => txs.all fun tx => id ∉ tx.invitations
  | _ => true

/-- The identifiers the database generates for a statement. -/
def Stmt.generated : (s : Stmt) → s.Out → List Uuid
  | draft (.insert ..), id => [id]
  | invitation (.insertReturning ..), id => [id]
  | notification _, id => [id]
  | _, _ => []

/-- The world after a statement that succeeded with the given result. -/
def performSql (s : Stmt) (out : s.Out) (w : World) : Option World :=
  if s.unblocked w.db w.txs ∧ (s.generated out).all fun id => id ∉ w.uuids then
    (s.exec out w.db).map fun db => { w with db, uuids := s.generated out ++ w.uuids }
  else none

/-- Replace an open transaction. -/
def World.setTx (w : World) (tx : Tx) : World :=
  { w with txs := w.txs.map fun other => if other.id = tx.id then tx else other }

/-- The world after a statement of an open transaction. -/
def performTx (id : ℕ) (s : TxStmt) (out : s.Out) (w : World) : Option World :=
  match w.txs.find? (·.id = id) with
  | none => none
  | some tx =>
      match s, out with
      | .lockInvitation token, out =>
          let row := w.db.invitation? token
          -- wait until no other transaction holds the row
          if out = row.map (fun row => ⟨row.id, row.draftId, row.status, row.expiresAt⟩) ∧
              row.all fun row => w.txs.all fun other =>
                other.id = id ∨ row.id ∉ other.invitations then
            some (w.setTx { tx with invitations := row.toList.map Invitation.id ++ tx.invitations })
          else none
      | .lockDraft draftId, out =>
          let row := w.db.draft? draftId
          if out = row.map (fun row => ⟨row.partySlots, row.creatorPubkey⟩) ∧
              row.all fun row => w.txs.all fun other => other.id = id ∨ row.id ∉ other.drafts then
            some (w.setTx { tx with drafts := row.toList.map Draft.id ++ tx.drafts })
          else none
      | .write write, _ => some (w.setTx { tx with writes := tx.writes ++ [write] })

/-- Commit an open transaction: apply its writes in order and release its locks. -/
def performCommit (id : ℕ) (w : World) : Option World :=
  match w.txs.find? (·.id = id) with
  | none => none
  | some tx => (tx.writes.foldlM TxWrite.apply w.db).map fun db =>
      { w with db, txs := w.txs.filter fun other => other.id ≠ id }

/-- Drop an open transaction with its writes. -/
def World.dropTx (id : ℕ) (w : World) : World :=
  { w with txs := w.txs.filter fun other => other.id ≠ id }

/-- The meaning of the operations. -/
def perform : (op : Op) → op.Ans → World → Option World
  | .sql s, .ok out, w => performSql s out w
  | .sql _, .error _, w => some w
  | .begin, .ok id, w =>
      provided (id = w.nextTx) { w with txs := ⟨id, [], [], []⟩ :: w.txs, nextTx := w.nextTx + 1 }
  | .begin, .error _, w => some w
  | .tx id s, .ok out, w => performTx id s out w
  | .tx _ _, .error _, w => some w
  | .commit id, .ok _, w => performCommit id w
  | .commit id, .error _, w => some (w.dropTx id)
  | .rollback id, _, w => some (w.dropTx id)
  | .dbNow, now, w => provided (w.clock ≤ now) { w with clock := now }
  | .newUuid, id, w => provided (id ∉ w.uuids) { w with uuids := id :: w.uuids }
  | .utcNow, _, w => some w
  | .newToken, _, w => some w
  | .newReference, _, w => some w
  | .encrypt .., _, w => some w
  | .rentExemption _, _, w => some w
  | .latestBlockhash, _, w => some w
  | .vaultSign .., _, w => some w
  | .accountExists _, _, w => some w
  | .accountData _, _, w => some w
  | .fetchAccount _, _, w => some w
  | .partialSign .., _, w => some w
  | .serialize .., _, w => some w
  | .sendTransaction _, _, w => some w
  | .destinationExists .., _, w => some w
  | .sendTransfer .., _, w => some w
  | .sendEmail _, _, w => some w
  | .sendToUser .., _, w => some w
  | .refundCall .., _, w => some w
  | .refundReturn .., _, w => some w
  | .expireCall .., _, w => some w
  | .expireReturn .., _, w => some w

/-! ## Programs of the backend -/

/-- A program over the backend's operations. -/
abbrev Backend (α : Type) := Program Op Op.Ans α

/-- A handler: a program that returns a value or an `AppError`. -/
abbrev Handler (α : Type) := Fallible Op Op.Ans AppError α

/-- A step of a program of the backend. -/
abbrev BackendStep := Step Op Op.Ans World

/-- Issue an SQL statement. -/
def sql (s : Stmt) : Backend (Except Failure s.Out) := .issue (Op.sql s)

namespace Handler

/-- Issue an operation that cannot fail. -/
def ask (op : Op) : Handler op.Ans := ExceptT.lift (.issue op)

/-- Turn the failure of an operation into an error: `.map_err(|_| e)?`. -/
def orFail {α : Type} (e : AppError) (p : Backend (Except Failure α)) : Handler α :=
  ExceptT.mk do
    match ← p with
    | .ok a => return .ok a
    | .error _ => return .error e

/-- Issue an SQL statement, `.map_err(|_| AppError::InternalError)?`. -/
def query (s : Stmt) : Handler s.Out := orFail .internalError (sql s)

/-- `.ok_or(e)?` -/
def okOr {α : Type} (e : AppError) : Option α → Handler α
  | some a => pure a
  | none => throw e

/-- Return early with an error unless a condition holds. -/
def ensure (condition : Prop) [Decidable condition] (e : AppError) : Handler Unit :=
  if condition then pure () else throw e

/-- Use the value of a computation that returns a `Result`: `?`. -/
def ofExcept {α : Type} : Except AppError α → Handler α
  | .ok a => pure a
  | .error e => throw e

/-- Go on after an error that is only logged. -/
def logged {α : Type} (handler : Handler α) : Backend Unit := do
  let _ ← handler.run
  return ()

end Handler

end PactumCodex
