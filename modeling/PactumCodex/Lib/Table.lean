import Mathlib.Data.List.Perm.Subperm
import Mathlib.Data.List.Nodup
import Mathlib.Data.List.Permutation
import Mathlib.Data.List.Sort
import Mathlib.Data.Prod.Lex
import Mathlib.Data.Set.Insert
import Mathlib.Order.WithBot
import Mathlib.Tactic.Common

/-!
# Tables

A `Table` is a list of rows that satisfies the constraints declared for it; a
write that would break one of them cannot be committed.  Row order carries no
meaning: what a query returns is described up to the freedom the query leaves,
by `FetchOptional` for one row of several and by `TopBy` for
`ORDER BY key LIMIT n`.

## Writes

`updateWhere`, `upsertRow` and `deleteWhere` are the statements on lists of rows, and
`commit` makes a table of the result.  Their lemmas say which rows are found
afterwards (`mem_updateWhere`, `mem_upsertRow`, `mem_deleteWhere`) and what happens to a
column, so that proofs about a schema need not look at the lists.

## What is kept

* `RowsKept grows R rows rows'`: the old rows are found again, changed along `R`,
  and there are new ones only if the table `grows`.  It composes along a run
  (`RowsKept.trans`) and can be read in both directions (`RowsKept.exists_mem`,
  `RowsKept.exists_mem_back`).
* `countP_updateWhere_key`: an update of the row with a given key changes a count
  of rows by that row only.

## Selections

With equal keys the database may return any of several selections.
`topBy_countP_le_iff` says when all of them contain few rows of a kind; the
selection that contains most of them comes from sorting the rows of the kind
first among those with their key (`exists_topBy_countP`).
-/

namespace Relational

variable {ρ κ : Type}

/-- Rows satisfying the table's declared constraints. -/
@[ext] structure Table (ρ : Type) (Valid : List ρ → Prop) where
  rows : List ρ
  valid : Valid rows

/-- The table with the given rows, unless a constraint is violated. -/
def commit {Valid : List ρ → Prop} [DecidablePred Valid] (rows : List ρ) :
    Option (Table ρ Valid) :=
  if h : Valid rows then some ⟨rows, h⟩ else none

/-- A value that is available only under a condition. -/
def provided {α : Type} (p : Prop) [Decidable p] (a : α) : Option α := if p then some a else none

@[simp] theorem provided_eq_some {α : Type} {p : Prop} [Decidable p] {a b : α} :
    provided p a = some b ↔ p ∧ b = a := by
  unfold provided
  split
  · simp [*, eq_comm]
  · simp [*]

/-- `UPDATE … SET f WHERE p`. -/
def updateWhere (p : ρ → Bool) (f : ρ → ρ) (rows : List ρ) : List ρ :=
  rows.map fun row => if p row then f row else row

/-- Insert a row, or update the row that has its key. -/
def upsertRow (p : ρ → Bool) (update : ρ → ρ) (row : ρ) (rows : List ρ) : List ρ :=
  if rows.any p then updateWhere p update rows else rows ++ [row]

/-- `DELETE … WHERE p`. -/
def deleteWhere (p : ρ → Bool) (rows : List ρ) : List ρ := rows.filter fun row => !p row

/-- The row with a given key. -/
def lookup [DecidableEq κ] (key : ρ → κ) (k : κ) (rows : List ρ) : Option ρ :=
  rows.find? fun row => key row = k

/-- What fetching at most one row of `candidates` can give: nothing if there is
none, otherwise any one of them. -/
def FetchOptional (candidates : List ρ) : Option ρ → Prop
  | none => candidates = []
  | some row => row ∈ candidates

instance [DecidableEq ρ] (candidates : List ρ) :
    DecidablePred (FetchOptional candidates)
  | none => inferInstanceAs (Decidable (candidates = []))
  | some row => inferInstanceAs (Decidable (row ∈ candidates))

/-! ## Commits -/

section Commit

variable {Valid : List ρ → Prop} [DecidablePred Valid]

theorem rows_of_commit {rows : List ρ} {table : Table ρ Valid} (h : commit rows = some table) :
    table.rows = rows := by
  unfold commit at h
  split at h
  · simp only [Option.some.injEq] at h
    rw [← h]
  · simp at h

theorem commit_of_valid {rows : List ρ} (h : Valid rows) :
    (commit rows : Option (Table ρ Valid)) = some ⟨rows, h⟩ := dif_pos h

end Commit

/-- What each of several writes does to a state, all of them together do. -/
theorem foldlM_related {σ ω : Type} {write : σ → ω → Option σ} (R : σ → σ → Prop)
    (hrefl : ∀ s, R s s) (htrans : ∀ s₁ s₂ s₃, R s₁ s₂ → R s₂ s₃ → R s₁ s₃) {writes : List ω}
    (hwrites : ∀ change ∈ writes, ∀ s s', write s change = some s' → R s s') {s s' : σ}
    (h : writes.foldlM write s = some s') : R s s' := by
  induction writes generalizing s with
  | nil =>
      obtain rfl : s = s' := by simpa using h
      exact hrefl s
  | cons change writes ih =>
      rw [List.foldlM_cons] at h
      obtain ⟨s₁, hwrite, hrest⟩ := Option.bind_eq_some_iff.mp h
      rw [List.forall_mem_cons] at hwrites
      exact htrans s s₁ s' (hwrites.1 s s₁ hwrite) (ih hwrites.2 hrest)

/-! ## Deletions and updates -/

theorem mem_deleteWhere {p : ρ → Bool} {rows : List ρ} {row : ρ} :
    row ∈ deleteWhere p rows ↔ row ∈ rows ∧ p row = false := by
  simp [deleteWhere]

theorem mem_updateWhere {p : ρ → Bool} {f : ρ → ρ} {rows : List ρ} {row : ρ} :
    row ∈ updateWhere p f rows ↔ ∃ old ∈ rows, row = if p old then f old else old := by
  simp only [updateWhere, List.mem_map, eq_comm]

/-- A row that an upsert leaves is the inserted one, an updated one, or one it has not matched. -/
theorem mem_upsertRow {p : ρ → Bool} {update : ρ → ρ} {row row' : ρ} {rows : List ρ}
    (h : row' ∈ upsertRow p update row rows) :
    row' = row ∨ (∃ old ∈ rows, p old = true ∧ row' = update old) ∨
      row' ∈ rows ∧ p row' = false := by
  unfold upsertRow at h
  split at h
  · obtain ⟨old, hold, rfl⟩ := mem_updateWhere.mp h
    by_cases hp : p old = true
    · rw [if_pos hp]
      exact Or.inr (Or.inl ⟨old, hold, hp, rfl⟩)
    · rw [if_neg hp]
      exact Or.inr (Or.inr ⟨hold, Bool.eq_false_iff.mpr hp⟩)
  · rename_i hany
    rcases List.mem_append.mp h with hmem | hmem
    · refine Or.inr (Or.inr ⟨hmem, Bool.eq_false_iff.mpr fun hp => hany ?_⟩)
      exact List.any_eq_true.mpr ⟨row', hmem, hp⟩
    · exact Or.inl (List.mem_singleton.mp hmem)

/-- An upsert leaves a row with a property that it gives to the row it inserts or updates. -/
theorem exists_mem_upsertRow {p : ρ → Bool} {update : ρ → ρ} {row : ρ} {rows : List ρ}
    {Q : ρ → Prop}
    (hrow : Q row) (hupdate : ∀ old, p old = true → Q (update old)) :
    ∃ row' ∈ upsertRow p update row rows, Q row' := by
  unfold upsertRow
  split
  · rename_i hany
    obtain ⟨old, hold, hp⟩ := List.any_eq_true.mp hany
    refine ⟨update old, mem_updateWhere.mpr ⟨old, hold, ?_⟩, hupdate old hp⟩
    rw [if_pos hp]
  · exact ⟨row, List.mem_append_right _ (List.mem_singleton_self row), hrow⟩

/-- An upsert keeps the rows it does not match. -/
theorem mem_upsertRow_of_unmatched {p : ρ → Bool} {update : ρ → ρ} {row row' : ρ} {rows : List ρ}
    (hrow : row' ∈ rows) (hp : p row' = false) : row' ∈ upsertRow p update row rows := by
  unfold upsertRow
  split
  · refine mem_updateWhere.mpr ⟨row', hrow, ?_⟩
    rw [if_neg (Bool.eq_false_iff.mp hp)]
  · exact List.mem_append_left _ hrow

/-- A deletion that matches no row changes nothing. -/
theorem deleteWhere_eq_self {p : ρ → Bool} {rows : List ρ} (h : ∀ row ∈ rows, p row = false) :
    deleteWhere p rows = rows := by
  rw [deleteWhere, List.filter_eq_self]
  intro row hrow
  rw [h row hrow]
  rfl

/-- An update that matches no row changes nothing. -/
theorem updateWhere_eq_self {p : ρ → Bool} {f : ρ → ρ} {rows : List ρ}
    (h : ∀ row ∈ rows, p row = false) : updateWhere p f rows = rows := by
  conv_rhs => rw [← List.map_id rows]
  apply List.map_congr_left
  intro row hrow
  simp [h row hrow]

/-- An update that does not write a column leaves its values as they were. -/
theorem map_updateWhere {p : ρ → Bool} {f : ρ → ρ} {col : ρ → κ} (h : ∀ row, col (f row) = col row)
    (rows : List ρ) : (updateWhere p f rows).map col = rows.map col := by
  simp only [updateWhere, List.map_map]
  apply List.map_congr_left
  intro row _
  simp only [Function.comp]
  split
  · exact h row
  · rfl

/-- An upsert that matches the rows with its key, and keeps keys, leaves them distinct. -/
theorem nodup_map_upsertRow {key : ρ → κ} {p : ρ → Bool} {update : ρ → ρ} {row : ρ} {rows : List ρ}
    (hnodup : (rows.map key).Nodup) (hupdate : ∀ old, key (update old) = key old)
    (hp : ∀ old ∈ rows, key old = key row → p old = true) :
    ((upsertRow p update row rows).map key).Nodup := by
  unfold upsertRow
  split
  · rwa [map_updateWhere hupdate]
  · rename_i hnone
    rw [List.map_append, List.nodup_append]
    refine ⟨hnodup, List.nodup_singleton _, ?_⟩
    rintro _ hmem _ hnew rfl
    obtain ⟨old, hold, hkey⟩ := List.mem_map.mp hmem
    have hmatched := hp old hold (hkey.trans (List.mem_singleton.mp hnew))
    exact hnone (List.any_eq_true.mpr ⟨old, hold, hmatched⟩)

theorem filterMap_updateWhere {p : ρ → Bool} {f : ρ → ρ} {col : ρ → Option κ}
    (h : ∀ row, col (f row) = col row) (rows : List ρ) :
    (updateWhere p f rows).filterMap col = rows.filterMap col := by
  rw [updateWhere, List.filterMap_map]
  apply List.filterMap_congr
  intro row _
  simp only [Function.comp]
  split
  · exact h row
  · rfl

/-! ## Keys -/

/-- Under a uniqueness constraint a key determines its row. -/
theorem eq_of_key_eq {key : ρ → κ} {rows : List ρ} (hnodup : (rows.map key).Nodup) {a b : ρ}
    (ha : a ∈ rows) (hb : b ∈ rows) (h : key a = key b) : a = b :=
  List.inj_on_of_nodup_map hnodup ha hb h

/-- Under a partial uniqueness constraint a key that is present determines its row. -/
theorem eq_of_partial_key_eq {key : ρ → Option κ} {rows : List ρ}
    (hnodup : (rows.filterMap key).Nodup) {a b : ρ} {k : κ} (ha : a ∈ rows) (hb : b ∈ rows)
    (hka : key a = some k) (hkb : key b = some k) : a = b := by
  by_contra hne
  obtain ⟨i, hi, rfl⟩ := List.getElem_of_mem ha
  obtain ⟨j, hj, rfl⟩ := List.getElem_of_mem hb
  have hpair := List.pairwise_filterMap.mp hnodup
  rw [List.pairwise_iff_getElem] at hpair
  have hij : i ≠ j := fun h => hne (by subst h; rfl)
  rcases Nat.lt_or_gt_of_ne hij with hlt | hlt
  · exact hpair i j hi hj hlt k hka k hkb rfl
  · exact hpair j i hj hi hlt k hkb k hka rfl

/-- The keys of the rows. -/
def keysOf (key : ρ → κ) (rows : List ρ) : Set κ := {k | ∃ row ∈ rows, key row = k}

theorem keysOf_append_singleton {key : ρ → κ} {rows : List ρ} {row : ρ} :
    keysOf key (rows ++ [row]) = insert (key row) (keysOf key rows) := by
  ext k
  simp only [keysOf, Set.mem_ofPred_eq, Set.mem_insert_iff, List.mem_append, List.mem_singleton,
    or_and_right, exists_or, exists_eq_left, eq_comm (b := k), or_comm]

/-- A deletion takes the keys of the deleted rows away. -/
theorem keysOf_deleteWhere {key : ρ → κ} {rows : List ρ} (hnodup : (rows.map key).Nodup)
    (p : ρ → Bool) :
    keysOf key (deleteWhere p rows) =
      keysOf key rows \ {k | ∃ row ∈ rows, key row = k ∧ p row} := by
  ext k
  constructor
  · rintro ⟨row, hrow, rfl⟩
    obtain ⟨hmem, hkept⟩ := mem_deleteWhere.mp hrow
    refine ⟨⟨row, hmem, rfl⟩, ?_⟩
    rintro ⟨other, hother, hkey, hdeleted⟩
    rw [eq_of_key_eq hnodup hother hmem hkey, hkept] at hdeleted
    cases hdeleted
  · rintro ⟨⟨row, hmem, rfl⟩, hkept⟩
    refine ⟨row, mem_deleteWhere.mpr ⟨hmem, ?_⟩, rfl⟩
    rw [← Bool.not_eq_true]
    exact fun hdeleted => hkept ⟨row, hmem, rfl, hdeleted⟩

/-- A deletion of the row with a given key takes the key away. -/
theorem keysOf_deleteWhere_key {key : ρ → κ} {rows : List ρ} (hnodup : (rows.map key).Nodup)
    {p : ρ → Bool} {k : κ} (hkey : ∀ row, p row → key row = k) (hfound : ∃ row ∈ rows, p row) :
    keysOf key (deleteWhere p rows) = keysOf key rows \ {k} := by
  rw [keysOf_deleteWhere hnodup]
  congr 1
  ext l
  constructor
  · rintro ⟨row, -, rfl, hdeleted⟩
    exact hkey row hdeleted
  · rintro rfl
    obtain ⟨row, hrow, hdeleted⟩ := hfound
    exact ⟨row, hrow, hkey row hdeleted, hdeleted⟩

theorem keysOf_deleteWhere_eq [DecidableEq κ] {key : ρ → κ} {rows : List ρ} {k : κ} :
    keysOf key (deleteWhere (fun row => key row = k) rows) = keysOf key rows \ {k} := by
  ext l
  constructor
  · rintro ⟨row, hrow, rfl⟩
    obtain ⟨hmem, hkept⟩ := mem_deleteWhere.mp hrow
    exact ⟨⟨row, hmem, rfl⟩, of_decide_eq_false hkept⟩
  · rintro ⟨⟨row, hmem, rfl⟩, hne⟩
    exact ⟨row, mem_deleteWhere.mpr ⟨hmem, decide_eq_false hne⟩, rfl⟩

section Lookup

variable [DecidableEq κ] {key : ρ → κ} {k : κ} {rows : List ρ} {row : ρ}

theorem lookup_eq_some (hnodup : (rows.map key).Nodup) :
    lookup key k rows = some row ↔ row ∈ rows ∧ key row = k := by
  constructor
  · intro h
    exact ⟨List.mem_of_find?_eq_some h, by simpa using List.find?_some h⟩
  · rintro ⟨hmem, rfl⟩
    cases hfind : lookup key (key row) rows with
    | none =>
        have := List.find?_eq_none.mp hfind row hmem
        simp at this
    | some found =>
        have hkey : key found = key row := by simpa using List.find?_some hfind
        rw [eq_of_key_eq hnodup (List.mem_of_find?_eq_some hfind) hmem hkey]

/-- The row with a given key after an update that leaves the keys alone. -/
theorem lookup_updateWhere {p : ρ → Bool} {f : ρ → ρ} (hkey : ∀ row, key (f row) = key row)
    (rows : List ρ) : lookup key k (updateWhere p f rows) =
      (lookup key k rows).map fun row => if p row then f row else row := by
  have hsame : ∀ row, key (if p row then f row else row) = key row := by
    intro row
    split
    · exact hkey row
    · rfl
  rw [lookup, updateWhere, List.find?_map]
  simp only [Function.comp_def, hsame]
  rfl

/-- Counting rows before and after an update of the row with a given key. -/
theorem countP_updateWhere_key (hnodup : (rows.map key).Nodup) (p : ρ → Bool) (f : ρ → ρ) :
    (updateWhere (fun row => key row = k) f rows).countP p +
        (if (lookup key k rows).any p then 1 else 0) =
      rows.countP p + if (lookup key k rows).any (fun row => p (f row)) then 1 else 0 := by
  induction rows with
  | nil => rfl
  | cons row rows ih =>
      obtain ⟨hrow, hrows⟩ := List.nodup_cons.mp hnodup
      by_cases hkey : key row = k
      · -- no other row has this key
        have hrest : updateWhere (fun row => key row = k) f rows = rows := by
          refine updateWhere_eq_self fun other hmem => decide_eq_false fun hother => hrow ?_
          exact List.mem_map.mpr ⟨other, hmem, hother.trans hkey.symm⟩
        have hcons : updateWhere (fun row => key row = k) f (row :: rows) = f row :: rows := by
          rw [updateWhere, List.map_cons, if_pos (decide_eq_true hkey)]
          exact congrArg (f row :: ·) hrest
        have hlookup : lookup key k (row :: rows) = some row := by simp [lookup, hkey]
        rw [hcons, hlookup, List.countP_cons, List.countP_cons]
        simp only [Option.any_some]
        omega
      · have hcons : updateWhere (fun row => key row = k) f (row :: rows) =
            row :: updateWhere (fun row => key row = k) f rows := by
          simp [updateWhere, hkey]
        have hlookup : lookup key k (row :: rows) = lookup key k rows := by simp [lookup, hkey]
        rw [hcons, hlookup, List.countP_cons, List.countP_cons]
        have hrest := ih hrows
        omega

end Lookup

/-! ## Growing tables -/

/-- `rows'` holds the rows of `rows`, changed along `R`, and more only if the table `grows`. -/
def RowsKept (grows : Prop) (R : ρ → ρ → Prop) (rows rows' : List ρ) : Prop :=
  ∃ (f : ρ → ρ) (extra : List ρ), rows' = rows.map f ++ extra ∧ (∀ row ∈ rows, R row (f row)) ∧
    (extra ≠ [] → grows)

section RowsKept

variable {grows grows' : Prop} {R S : ρ → ρ → Prop} {rows rows₁ rows' : List ρ}

theorem rowsKept_refl (hR : ∀ row, R row row) : RowsKept grows R rows rows :=
  ⟨id, [], by simp, fun row _ => hR row, fun h => absurd rfl h⟩

theorem rowsKept_append (hR : ∀ row, R row row) (extra : List ρ) (hgrows : grows) :
    RowsKept grows R rows (rows ++ extra) :=
  ⟨id, extra, by simp, fun row _ => hR row, fun _ => hgrows⟩

theorem rowsKept_updateWhere {p : ρ → Bool} {f : ρ → ρ} (hR : ∀ row, R row row)
    (hf : ∀ row ∈ rows, p row → R row (f row)) : RowsKept grows R rows (updateWhere p f rows) := by
  refine ⟨fun row => if p row then f row else row, [], by simp [updateWhere], fun row hrow => ?_,
    fun h => absurd rfl h⟩
  show R row (if p row then f row else row)
  split
  · exact hf row hrow ‹_›
  · exact hR row

/-- An `UPDATE` keeps the rows, if it keeps those it matches. -/
theorem rowsKept_of_commit {Valid : List ρ → Prop} [DecidablePred Valid] {table : Table ρ Valid}
    {p : ρ → Bool} {f : ρ → ρ} (h : commit (updateWhere p f rows) = some table)
    (hR : ∀ row, R row row) (hf : ∀ row ∈ rows, p row → R row (f row)) :
    RowsKept grows R rows table.rows := by
  rw [rows_of_commit h]
  exact rowsKept_updateWhere hR hf

/-- A `SELECT` keeps the rows. -/
theorem rowsKept_of_provided {Valid : List ρ → Prop} {table table' : Table ρ Valid} {p : Prop}
    [Decidable p] (h : provided p table = some table') (hR : ∀ row, R row row) :
    RowsKept grows R table.rows table'.rows := by
  rw [(provided_eq_some.mp h).2]
  exact rowsKept_refl hR

theorem RowsKept.trans (htrans : ∀ a b c, R a b → R b c → R a c)
    (h₁ : RowsKept grows R rows rows₁) (h₂ : RowsKept grows R rows₁ rows') :
    RowsKept grows R rows rows' := by
  obtain ⟨f, extra, rfl, hf, hextra⟩ := h₁
  obtain ⟨g, extra', rfl, hg, hextra'⟩ := h₂
  refine ⟨g ∘ f, extra.map g ++ extra', by simp, fun row hrow => ?_, fun hne => ?_⟩
  · exact htrans _ _ _ (hf row hrow) (hg _ (List.mem_append_left _ (List.mem_map_of_mem hrow)))
  · by_cases hnil : extra = []
    · exact hextra' (by simpa [hnil] using hne)
    · exact hextra hnil

theorem RowsKept.mono (h : RowsKept grows R rows rows') (hgrows : grows → grows')
    (himp : ∀ a b, R a b → S a b) : RowsKept grows' S rows rows' := by
  obtain ⟨f, extra, hrows, hf, hextra⟩ := h
  exact ⟨f, extra, hrows, fun row hrow => himp _ _ (hf row hrow), fun hne => hgrows (hextra hne)⟩

/-- A row is found again. -/
theorem RowsKept.exists_mem (h : RowsKept grows R rows rows') {row : ρ} (hrow : row ∈ rows) :
    ∃ row' ∈ rows', R row row' := by
  obtain ⟨f, extra, rfl, hf, -⟩ := h
  exact ⟨f row, List.mem_append_left _ (List.mem_map_of_mem hrow), hf row hrow⟩

/-- A table that does not grow is changed in place. -/
theorem RowsKept.exists_map (h : RowsKept grows R rows rows') (hgrows : ¬ grows) :
    ∃ f : ρ → ρ, rows' = rows.map f ∧ ∀ row ∈ rows, R row (f row) := by
  obtain ⟨f, extra, rfl, hf, hextra⟩ := h
  have hnil : extra = [] := by
    by_contra hne
    exact hgrows (hextra hne)
  exact ⟨f, by rw [hnil, List.append_nil], hf⟩

/-- In a table that does not grow, a row was there before. -/
theorem RowsKept.exists_mem_back (h : RowsKept grows R rows rows') (hgrows : ¬ grows) {row' : ρ}
    (hrow' : row' ∈ rows') : ∃ row ∈ rows, R row row' := by
  obtain ⟨f, rfl, hf⟩ := h.exists_map hgrows
  obtain ⟨row, hrow, rfl⟩ := List.mem_map.mp hrow'
  exact ⟨row, hrow, hf row hrow⟩

end RowsKept

/-! ## Counting rows -/

section Counting

variable {p q : ρ → Bool}

/-- Rows with disjoint properties are not counted twice. -/
theorem countP_add_countP_le (rows : List ρ) (hdisjoint : ∀ a ∈ rows, p a → q a → False) :
    rows.countP p + rows.countP q ≤ rows.length := by
  induction rows with
  | nil => simp
  | cons a rest ih =>
      rw [List.forall_mem_cons] at hdisjoint
      have hrest := ih hdisjoint.2
      simp only [List.countP_cons, List.length_cons]
      cases hp : p a with
      | true =>
          have hq : q a = false := Bool.eq_false_iff.mpr (hdisjoint.1 hp)
          simp only [hq, if_true, Bool.false_eq_true, if_false]
          omega
      | false =>
          simp only [Bool.false_eq_true, if_false]
          split <;> omega

/-- Rows that all have one of two properties are all counted. -/
theorem length_le_countP_add_countP (rows : List ρ) (hall : ∀ a ∈ rows, p a ∨ q a) :
    rows.length ≤ rows.countP p + rows.countP q := by
  induction rows with
  | nil => simp
  | cons a rest ih =>
      rw [List.forall_mem_cons] at hall
      have hrest := ih hall.2
      simp only [List.countP_cons, List.length_cons]
      rcases hall.1 with ha | ha
      · simp only [ha, if_true]
        omega
      · simp only [ha, if_true]
        omega

end Counting

/-! ## `ORDER BY … LIMIT` -/

/-- `result` can be the answer of `SELECT … ORDER BY key LIMIT n` over `rows`:
it holds `n` of the rows (all, if there are fewer) in ascending order, and no
row that was left out belongs before one that was not.  Rows with equal keys
may come in any order. -/
structure TopBy [DecidableEq ρ] [LE κ] (key : ρ → κ) (n : ℕ) (rows result : List ρ) : Prop where
  subperm : result.Subperm rows
  length : result.length = min n rows.length
  sorted : result.Pairwise fun a b => key a ≤ key b
  below : ∀ a ∈ result, ∀ b ∈ rows.diff result, key a ≤ key b

instance [DecidableEq ρ] [LE κ] [DecidableRel fun a b : κ => a ≤ b] (key : ρ → κ) (n : ℕ)
    (rows result : List ρ) : Decidable (TopBy key n rows result) :=
  decidable_of_iff
    (result.Subperm rows ∧ result.length = min n rows.length ∧
      result.Pairwise (fun a b => key a ≤ key b) ∧
      ∀ a ∈ result, ∀ b ∈ rows.diff result, key a ≤ key b)
    ⟨fun ⟨h₁, h₂, h₃, h₄⟩ => ⟨h₁, h₂, h₃, h₄⟩, fun h => ⟨h.subperm, h.length, h.sorted, h.below⟩⟩

section TopBy

variable [DecidableEq ρ] [LinearOrder κ] {key : ρ → κ} {n m : ℕ} {rows result : List ρ}

/-- The rows are the selected ones and those left out. -/
theorem TopBy.perm (h : TopBy key n rows result) : (result ++ rows.diff result).Perm rows :=
  List.subperm_append_diff_self_of_count_le fun a _ => h.subperm.count_le a

/-- A row is left out only by `n` others that do not belong after it. -/
theorem TopBy.of_notMem (h : TopBy key n rows result) {row : ρ} (hrow : row ∈ rows)
    (hout : row ∉ result) : result.length = n ∧ ∀ a ∈ result, key a ≤ key row := by
  have hrest : row ∈ rows.diff result :=
    (List.mem_append.mp (h.perm.mem_iff.mpr hrow)).resolve_left hout
  have hlength : result.length + (rows.diff result).length = rows.length := by
    rw [← List.length_append, h.perm.length_eq]
  have hpos : 0 < (rows.diff result).length := List.length_pos_of_mem hrest
  have hmin := h.length
  exact ⟨by omega, fun a ha => h.below a ha row hrest⟩

/-- The first `n` rows of a sorted list can be the answer. -/
theorem topBy_take {sorted : List ρ} (hperm : sorted.Perm rows)
    (hsorted : sorted.Pairwise fun a b => key a ≤ key b) : TopBy key n rows (sorted.take n) := by
  have hsubperm : (sorted.take n).Subperm rows :=
    (List.take_sublist n sorted).subperm.trans hperm.subperm
  rw [← List.take_append_drop n sorted, List.pairwise_append] at hsorted
  refine ⟨hsubperm, ?_, hsorted.1, fun a ha b hb => hsorted.2.2 a ha b ?_⟩
  · rw [List.length_take, hperm.length_eq]
  · -- what is left out is the rest of the sorted list
    have hsplit : (sorted.take n ++ rows.diff (sorted.take n)).Perm
        (sorted.take n ++ sorted.drop n) := by
      rw [List.take_append_drop]
      refine List.Perm.trans ?_ hperm.symm
      exact List.subperm_append_diff_self_of_count_le fun a _ => hsubperm.count_le a
    exact ((List.perm_append_left_iff _).mp hsplit).mem_iff.mp hb

/-- No row that belongs before a selected one is left out. -/
theorem TopBy.countP_lt (h : TopBy key n rows result) {a : ρ} (ha : a ∈ result) :
    result.countP (key · < key a) = rows.countP (key · < key a) := by
  have hrest : (rows.diff result).countP (key · < key a) = 0 := by
    rw [List.countP_eq_zero]
    intro b hb
    simpa using h.below a ha b hb
  rw [← h.perm.countP_eq, List.countP_append, hrest, Nat.add_zero]

/-- A selection can prefer the rows of a kind among those of their key. -/
theorem exists_topBy_countP {p : ρ → Bool} {k : κ} (hkey : ∀ a ∈ rows, p a → key a = k)
    (hrows : m ≤ rows.countP p) (hlimit : rows.countP (key · < k) + m ≤ n) :
    ∃ result, TopBy key n rows result ∧ m ≤ result.countP p := by
  let rank : ρ → κ ×ₗ Bool := fun a => toLex (key a, !p a)
  have htotal : Std.Total fun a b => rank a ≤ rank b := ⟨fun a b => le_total (rank a) (rank b)⟩
  have htrans : IsTrans ρ fun a b => rank a ≤ rank b := ⟨fun _ _ _ => le_trans⟩
  let sorted := rows.insertionSort fun a b => rank a ≤ rank b
  have hperm : sorted.Perm rows := List.perm_insertionSort _ rows
  have hrank : sorted.Pairwise fun a b => rank a ≤ rank b := List.pairwise_insertionSort _ rows
  have hsorted : sorted.Pairwise fun a b => key a ≤ key b :=
    hrank.imp fun h => (Prod.Lex.toLex_le_toLex.mp h).elim le_of_lt fun h => h.1.le
  refine ⟨sorted.take n, topBy_take hperm hsorted, ?_⟩
  by_contra hfew
  rw [not_le] at hfew
  -- a row of the kind was left out, so only rows that rank before it were selected
  have hsum : (sorted.take n).countP p + (sorted.drop n).countP p = rows.countP p := by
    rw [← List.countP_append, List.take_append_drop, hperm.countP_eq]
  have hpos : 0 < (sorted.drop n).countP p := by omega
  obtain ⟨b, hb, hpb⟩ := List.countP_pos_iff.mp hpos
  have hkeyb : key b = k := hkey b (hperm.mem_iff.mp (List.mem_of_mem_drop hb)) hpb
  rw [← List.take_append_drop n sorted, List.pairwise_append] at hrank
  have hall : ∀ a ∈ sorted.take n, key a < k ∨ p a := by
    intro a ha
    rcases Prod.Lex.toLex_le_toLex.mp (hrank.2.2 a ha b hb) with hlt | ⟨-, hle⟩
    · exact Or.inl (hkeyb ▸ hlt)
    · right
      cases hpa : p a with
      | true => rfl
      | false =>
          simp only [hpa, hpb] at hle
          exact absurd hle (by decide)
  have hcount := length_le_countP_add_countP (p := fun a => key a < k) (q := p) (sorted.take n)
    fun a ha => (hall a ha).imp_left decide_eq_true
  have hbefore : (sorted.take n).countP (key · < k) ≤ rows.countP (key · < k) := by
    rw [← hperm.countP_eq]
    exact (List.take_sublist n sorted).countP_le
  have hfull : (sorted.take n).length = n := by
    have hlen := List.length_pos_of_mem hb
    rw [List.length_drop] at hlen
    rw [List.length_take]
    omega
  omega

/-- **Selections of a kind.**  If all rows of a kind have the same key, at most `m` of them are
selected, whatever the order among equal keys, exactly if there are no more, or the limit is
used up by `m` of them and the rows that belong before. -/
theorem topBy_countP_le_iff {p : ρ → Bool} {k : κ} (hkey : ∀ a ∈ rows, p a → key a = k) :
    (∀ result, TopBy key n rows result → result.countP p ≤ m) ↔
      rows.countP p ≤ m ∨ n ≤ rows.countP (key · < k) + m := by
  constructor
  · intro hall
    by_contra hmany
    rw [not_or, not_le, not_le] at hmany
    obtain ⟨result, htop, hcount⟩ := exists_topBy_countP (n := n) (m := m + 1) hkey hmany.1 hmany.2
    have := hall result htop
    omega
  · intro hfew result htop
    rcases hfew with hfew | hlimit
    · exact (htop.subperm.countP_le p).trans hfew
    by_contra hmany
    obtain ⟨a, ha, hpa⟩ := List.countP_pos_iff.mp (by omega : 0 < result.countP p)
    have hka : key a = k := hkey a (htop.subperm.subset ha) hpa
    have hlt := htop.countP_lt ha
    rw [hka] at hlt
    have hsum := countP_add_countP_le (p := fun a => key a < k) (q := p) result fun b hb hlt hpb =>
      (of_decide_eq_true hlt).ne (hkey b (htop.subperm.subset hb) hpb)
    have hlen := htop.length
    omega

end TopBy

end Relational
