import PactumCodex.Auth.Handlers
import PactumCodex.Lib.Pages
import PactumCodex.Services.ProgramLog

/-!
# `list_agreements`

The handler of `handlers/agreement.rs` that lists the agreements of a user, page by
page.  Its only operation is one of three queries on `agreement_parties`, which
differ in how the role selects the rows.
-/

namespace PactumCodex

open Interaction Relational

/-- `ListAgreementsQuery`. -/
structure ListAgreementsQuery where
  status : Option String
  role : Option String
  page : Option UInt32
  limit : Option UInt32

/-- `ListAgreementItem`. -/
structure ListAgreementItem where
  agreementPda : String
  creatorPubkey : String
  partyPubkey : String
  status : String
  signedAt : Option ℤ
  createdAt : ℤ
  expiresAt : ℤ
  title : String
  deriving DecidableEq

/-- `ListAgreementsResponse`. -/
structure ListAgreementsResponse where
  page : UInt32
  limit : UInt32
  items : List ListAgreementItem
  deriving DecidableEq

/-- `AgreementListRole`. -/
inductive AgreementListRole : Type
  | any
  | creator
  | party
  deriving DecidableEq, Repr

def parseRole (role : Option String) : AgreementListRole :=
  match role with
  | some value =>
      if eqIgnoreAsciiCase value "creator" then .creator
      else if eqIgnoreAsciiCase value "party" then .party
      else .any
  | none => .any

/-! ## Pages -/

/-- `u32::saturating_mul`. -/
def saturatingMul (a b : UInt32) : UInt32 :=
  if a.toNat * b.toNat < UInt32.size then a * b else UInt32.ofNat (UInt32.size - 1)

/-- `Ord::clamp` on `u32`. -/
def clamp (value low high : UInt32) : UInt32 :=
  if value < low then low else if high < value then high else value

/-- Page, limit, and the same as `LIMIT` and `OFFSET` of the query. -/
def sanitizePagination (page limit : Option UInt32) : UInt32 × UInt32 × ℤ × ℤ :=
  let page := max (page.getD 1) 1
  let limit := clamp (limit.getD 20) 1 100
  let offset := (saturatingMul (saturatingSub page 1) limit).toNat
  (page, limit, limit.toNat, offset)

/-! ## The query -/

/-- The part of the `WHERE` clause in which the three queries differ. -/
def AgreementListRole.selects (role : AgreementListRole) (pubkey : String) (row : Party) : Prop :=
  match role with
  | any => row.partyPubkey = pubkey ∨ row.creatorPubkey = pubkey
  | creator => row.creatorPubkey = pubkey
  | party => row.partyPubkey = pubkey

instance AgreementListRole.decidableSelects (role : AgreementListRole) (pubkey : String)
    (row : Party) : Decidable (role.selects pubkey row) :=
  match role with
  | any => inferInstanceAs (Decidable (_ ∨ _))
  | creator => inferInstanceAs (Decidable (_ = _))
  | party => inferInstanceAs (Decidable (_ = _))

/-- The rows selected by the `WHERE` clause. -/
def selectedRows (role : AgreementListRole) (pubkey : String) (status : Option String)
    (rows : List Party) : List Party :=
  rows.filter fun row => role.selects pubkey row ∧ ∀ s ∈ status, row.status.text = s

/-- The operation of `list_agreements`. -/
inductive ListOp : Type
  /-- `SELECT agreement_pda, creator_pubkey, party_pubkey, status, signed_at, created_at,
  expires_at, title FROM agreement_parties WHERE … AND ($2::text IS NULL OR status = $2)
  ORDER BY created_at DESC LIMIT $3 OFFSET $4` -/
  | fetch (role : AgreementListRole) (pubkey : String) (status : Option String) (limit offset : ℤ)

/-- The answer to the operation. -/
@[reducible] def ListOp.Ans : ListOp → Type
  | fetch .. => Except Failure (List Party)

/-- The query can fail; otherwise it returns a slice of the selected rows in some order in
which `created_at` descends.  It changes nothing. -/
def performList (op : ListOp) (answer : op.Ans) (parties : Table Party PartiesValid) :
    Option (Table Party PartiesValid) :=
  match op, answer with
  | .fetch .., .error _ => some parties
  | .fetch role pubkey status limit offset, .ok rows =>
      provided (PageOf Party.createdAt offset.toNat limit.toNat
        (selectedRows role pubkey status parties.rows) rows) parties

/-! ## The handler -/

/-- The item for a row. -/
def ListAgreementItem.ofRow (row : Party) : ListAgreementItem where
  agreementPda := row.agreementPda
  creatorPubkey := row.creatorPubkey
  partyPubkey := row.partyPubkey
  status := row.status.text
  signedAt := row.signedAt
  createdAt := row.createdAt
  expiresAt := row.expiresAt
  title := row.title

/-- The filter on the status: the trimmed parameter, unless it is empty. -/
def statusFilter (status : Option String) : Option String :=
  status.bind fun value =>
    let trimmed := trim value
    if trimmed.isEmpty then none else some trimmed

def listAgreements (auth : AuthUser) (q : ListAgreementsQuery) :
    Fallible ListOp ListOp.Ans AppError ListAgreementsResponse := do
  let (page, limit, sqlLimit, sqlOffset) := sanitizePagination q.page q.limit
  match auth.pubkey with
  | none => return { page, limit, items := [] }
  | some pubkey =>
      let role := parseRole q.role
      let rows ← Fallible.orFail .internalError
        (.issue (.fetch role pubkey (statusFilter q.status) sqlLimit sqlOffset))
      return { page, limit, items := rows.map .ofRow }

end PactumCodex
