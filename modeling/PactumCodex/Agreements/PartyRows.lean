import PactumCodex.Replay
import PactumCodex.Steps
import PactumCodex.Workers.ExpiryWorker

/-!
# The party rows of one agreement

An agreement is a set of rows of `agreement_parties` with the same
`agreement_pda`.  `World.partyRows` picks them out, and `PartyStmt.onRows` says what
a statement does to them: every statement either appends one row or maps a
function over the rows (`partyRows_step`).
-/

namespace PactumCodex

open Interaction Relational

/-- The rows of an agreement. -/
def World.partyRows (w : World) (agreementPda : String) : List Party :=
  w.db.parties.rows.filter (·.agreementPda = agreementPda)

theorem mem_partyRows {w : World} {agreementPda : String} {row : Party} :
    row ∈ w.partyRows agreementPda ↔ row ∈ w.db.parties.rows ∧ row.agreementPda = agreementPda := by
  simp [World.partyRows]

/-- A party has one row at most. -/
theorem partyRows_unique {w : World} {agreementPda : String} {row row' : Party}
    (h : row ∈ w.partyRows agreementPda) (h' : row' ∈ w.partyRows agreementPda)
    (hparty : row.partyPubkey = row'.partyPubkey) : row = row' := by
  obtain ⟨hmem, hpda⟩ := mem_partyRows.mp h
  obtain ⟨hmem', hpda'⟩ := mem_partyRows.mp h'
  refine eq_of_key_eq w.db.parties.valid hmem hmem' ?_
  rw [hparty, hpda, hpda']

/-! ## Statements -/

/-- What an update does to a single row. -/
def PartyStmt.onRow : PartyStmt → Party → Party
  | .sign now agreementPda signer, row =>
      if row.agreementPda = agreementPda ∧ row.partyPubkey = signer then
        { row with signedAt := some now } else row
  | .setStatus status agreementPda, row =>
      if row.agreementPda = agreementPda then { row with status } else row
  | .lockForExpiry agreementPda, row =>
      if row.agreementPda = agreementPda ∧ row.status = .pendingSignatures then
        { row with status := .expiring } else row
  | .unlockFromExpiry agreementPda, row =>
      if row.agreementPda = agreementPda ∧ row.status = .expiring then
        { row with status := .pendingSignatures } else row
  | _, row => row

/-- What a statement does to the rows of an agreement. -/
def PartyStmt.onRows (agreementPda : String) : PartyStmt → List Party → List Party
  | .insert partyPubkey pda creatorPubkey now, rows =>
      if pda = agreementPda ∧ ∀ row ∈ rows, row.partyPubkey ≠ partyPubkey then
        rows ++ [⟨partyPubkey, pda, creatorPubkey, .pendingSignatures, none, now, now + 2592000,
          "Agreement"⟩]
      else rows
  | s, rows => rows.map s.onRow

/-- No update touches the key of a row. -/
@[simp] theorem PartyStmt.onRow_agreementPda (s : PartyStmt) (row : Party) :
    (s.onRow row).agreementPda = row.agreementPda := by
  cases s <;> simp only [onRow] <;> split <;> rfl

@[simp] theorem PartyStmt.onRow_partyPubkey (s : PartyStmt) (row : Party) :
    (s.onRow row).partyPubkey = row.partyPubkey := by
  cases s <;> simp only [onRow] <;> split <;> rfl

theorem filter_map_onRow (s : PartyStmt) (agreementPda : String) (rows : List Party) :
    (rows.map s.onRow).filter (·.agreementPda = agreementPda) =
      (rows.filter (·.agreementPda = agreementPda)).map s.onRow := by
  induction rows with
  | nil => rfl
  | cons row rows ih =>
      by_cases hpda : row.agreementPda = agreementPda
      · simp [hpda, ih]
      · simp [hpda, ih]

/-- An update maps over the table. -/
theorem updateWhere_eq_map {p : Party → Bool} {f g : Party → Party}
    (h : ∀ row, g row = if p row then f row else row) (rows : List Party) :
    updateWhere p f rows = rows.map g := by
  unfold updateWhere
  exact List.map_congr_left fun row _ => (h row).symm

/-- The effect of a statement on the rows of an agreement. -/
theorem PartyStmt.exec_onRows {s : PartyStmt} {out : s.Out} {db : Db}
    {parties : Table Party PartiesValid} (hexec : s.exec out db = some parties)
    (agreementPda : String) :
    parties.rows.filter (·.agreementPda = agreementPda) =
      s.onRows agreementPda (db.parties.rows.filter (·.agreementPda = agreementPda)) := by
  have hread : ∀ {p : Prop} [Decidable p], provided p db.parties = some parties →
      parties.rows.filter (·.agreementPda = agreementPda) =
        (db.parties.rows.filter (·.agreementPda = agreementPda)).map fun row => row := by
    intro p _ h
    rw [← (provided_eq_some.mp h).2, List.map_id']
  have hupdate : ∀ {p : Party → Bool} {f : Party → Party},
      commit (updateWhere p f db.parties.rows) = some parties →
      (∀ row, s.onRow row = if p row then f row else row) →
      parties.rows.filter (·.agreementPda = agreementPda) =
        (db.parties.rows.filter (·.agreementPda = agreementPda)).map s.onRow := by
    intro p f h hrow
    rw [rows_of_commit h, updateWhere_eq_map hrow, filter_map_onRow]
  -- an insertion adds a row or does nothing; the others map over the rows or only read them
  cases s with
  | insert partyPubkey pda creatorPubkey now =>
      simp only [PartyStmt.exec] at hexec
      split at hexec
      -- `ON CONFLICT DO NOTHING`
      · rename_i hconflict
        obtain rfl := Option.some.inj hexec
        obtain ⟨row, hrow, hparty, hpda⟩ := hconflict
        refine (if_neg ?_).symm
        rintro ⟨rfl, hfresh⟩
        exact hfresh row (by simpa using ⟨hrow, hpda⟩) hparty
      · rename_i hconflict
        rw [rows_of_commit hexec, List.filter_append]
        by_cases hpda : pda = agreementPda
        · refine Eq.trans ?_
            (if_pos ⟨hpda, fun row hrow hparty => hconflict ⟨row, ?_, hparty, ?_⟩⟩).symm
          · simp [hpda]
          · exact (List.mem_filter.mp hrow).1
          · rw [hpda]
            exact of_decide_eq_true (List.mem_filter.mp hrow).2
        · refine Eq.trans ?_ (if_neg fun h => hpda h.1).symm
          simp [hpda]
  | sign now pda signer =>
      simp only [PartyStmt.exec, Option.ite_none_right_eq_some] at hexec
      exact hupdate hexec.2 fun row => by simp [PartyStmt.onRow]
  | setStatus status pda => exact hupdate hexec fun row => by simp [PartyStmt.onRow]
  | lockForExpiry pda =>
      simp only [PartyStmt.exec, Option.ite_none_right_eq_some] at hexec
      exact hupdate hexec.2 fun row => by simp [PartyStmt.onRow]
  | unlockFromExpiry pda => exact hupdate hexec fun row => by simp [PartyStmt.onRow]
  | unsignedCount pda => exact hread hexec
  | partiesOf pda => exact hread hexec
  | due now => exact hread hexec

/-! ## Steps -/

/-- The statement writes party rows. -/
def PartyStmt.writes : PartyStmt → Bool
  | .insert .. => true
  | .sign .. => true
  | .setStatus .. => true
  | .lockForExpiry _ => true
  | .unlockFromExpiry _ => true
  | _ => false

/-- The operation writes party rows. -/
def Op.writesParties : Op → Bool
  | .sql (.party s) => s.writes
  | _ => false

theorem PartyStmt.onRows_of_reads {s : PartyStmt} (h : s.writes = false) (agreementPda : String)
    (rows : List Party) : s.onRows agreementPda rows = rows := by
  cases s <;> first
    | exact List.map_id' rows
    | simp [PartyStmt.writes] at h

section Steps

variable {step : BackendStep} (agreementPda : String)

/-- A step leaves the rows of an agreement alone, or it executes a statement on them. -/
theorem partyRows_step (h : step.Valid perform) :
    step.post.partyRows agreementPda = step.pre.partyRows agreementPda ∨
      ∃ (s : PartyStmt) (out : s.Out), Executes step (.party s) out ∧
        step.post.partyRows agreementPda =
          s.onRows agreementPda (step.pre.partyRows agreementPda) := by
  rcases parties_step h with hsame | ⟨s, out, hexecutes, hexec⟩
  · exact Or.inl (by rw [World.partyRows, hsame]; rfl)
  · exact Or.inr ⟨s, out, hexecutes, PartyStmt.exec_onRows hexec agreementPda⟩

/-- An executed statement has its effect on the rows of every agreement. -/
theorem partyRows_of_executes (h : step.Valid perform) {s : PartyStmt} {out : s.Out}
    (hexecutes : Executes step (.party s) out) :
    step.post.partyRows agreementPda = s.onRows agreementPda (step.pre.partyRows agreementPda) := by
  obtain ⟨parties, hexec, hdb⟩ := Option.map_eq_some_iff.mp (exec_of_executes h hexecutes)
  have hrows := PartyStmt.exec_onRows hexec agreementPda
  rw [World.partyRows, ← hdb]
  exact hrows

theorem partyRows_of_not_writes (h : step.Valid perform) (hop : step.op.writesParties = false) :
    step.post.partyRows agreementPda = step.pre.partyRows agreementPda := by
  rcases partyRows_step agreementPda h with hsame | ⟨s, out, hexecutes, hrows⟩
  · exact hsame
  · rw [hexecutes] at hop
    rw [hrows, PartyStmt.onRows_of_reads hop]

/-- Executions that do not write party rows keep them. -/
theorem partyRows_of_stops {α : Type} {p : Backend α} {w w' : World} {steps : List BackendStep}
    (hstops : Stops perform p w steps w') (hp : p.Issues fun op => op.writesParties = false) :
    w'.partyRows agreementPda = w.partyRows agreementPda := by
  have hquiet := hstops.issued hp
  refine (hstops.chain.invariant (fun v => v.partyRows agreementPda = w.partyRows agreementPda) rfl
    fun step hmem hvalid hpre => ?_).1
  rw [partyRows_of_not_writes agreementPda hvalid (hquiet step hmem), hpre]

end Steps

end PactumCodex
