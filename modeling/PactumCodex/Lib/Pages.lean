import Mathlib.Algebra.Order.BigOperators.Group.List
import Mathlib.Algebra.Order.Group.Nat
import Mathlib.Data.List.Basic
import Mathlib.Data.List.Nodup
import Mathlib.Data.List.Perm.Basic
import Mathlib.Data.List.Sort
import Mathlib.Data.List.Permutation
import Mathlib.Order.Defs.LinearOrder
import Mathlib.Tactic.Common

/-!
# Results in pages

`SELECT … ORDER BY key DESC LIMIT limit OFFSET offset` returns a slice of the rows in
some order in which the key descends; the order among rows with equal keys is
open, and may be another one at the next request.

A row comes after all rows with a greater key and before all rows with a
smaller one, so its position is known up to the rows with its own key.  If these
lie on one page, then so does the row, whatever the order; if not, two
requests can show a row on two pages (`pages_complete_iff`).

Offsets may be bounded: the offset of page `i` is `min (i * limit) bound`.

## Both directions

If the elements know on which page they are, then a page is a filter of the rows,
and filters for different pages share nothing (`slice_eq_filter`,
`perm_of_onOnePage`).  Otherwise there are two neighbours with the same key at a
boundary between pages (`exists_boundary`); two requests that sort them differently
show one of them twice.
-/

namespace Relational

variable {ρ κ : Type}

/-- `result` is the answer of a query with the order, offset and limit. -/
def PageOf [LE κ] (key : ρ → κ) (offset limit : ℕ) (rows result : List ρ) : Prop :=
  ∃ sorted : List ρ, sorted.Perm rows ∧ sorted.Pairwise (fun a b => key b ≤ key a) ∧
    result = (sorted.drop offset).take limit

/-- Answers can be checked by trying all orders. -/
instance [DecidableEq ρ] [LE κ] [DecidableRel fun a b : κ => a ≤ b] (key : ρ → κ)
    (offset limit : ℕ) (rows result : List ρ) : Decidable (PageOf key offset limit rows result) :=
  decidable_of_iff (∃ sorted ∈ rows.permutations',
      sorted.Pairwise (fun a b => key b ≤ key a) ∧ result = (sorted.drop offset).take limit) <|
    exists_congr fun _ => and_congr_left' List.mem_permutations'

section Slices

variable {sorted : List ρ} {offset limit position : ℕ}

theorem getElem_mem_slice (hposition : position < sorted.length) (hfirst : offset ≤ position)
    (hlast : position < offset + limit) :
    sorted[position] ∈ (sorted.drop offset).take limit := by
  apply List.mem_take_iff_getElem.mpr
  refine ⟨position - offset, ?_, ?_⟩
  · rw [List.length_drop]
    omega
  · rw [List.getElem_drop]
    congr 1
    omega

/-- If the elements know on which page they are, a page consists of those that are on it. -/
theorem slice_eq_filter {page : ρ → ℕ} (hlimit : 0 < limit)
    (hpage : ∀ (p : ℕ) (hp : p < sorted.length), page sorted[p] = p / limit) (i : ℕ) :
    (sorted.drop (i * limit)).take limit = sorted.filter fun a => page a = i := by
  have hbefore : (sorted.take (i * limit)).filter (fun a => page a = i) = [] := by
    rw [List.filter_eq_nil_iff]
    intro a ha
    obtain ⟨p, hp, rfl⟩ := List.mem_take_iff_getElem.mp ha
    rw [hpage p (by omega)]
    have hlt : p / limit < i := (Nat.div_lt_iff_lt_mul hlimit).mpr (by omega)
    simpa using hlt.ne
  have hon : ((sorted.drop (i * limit)).take limit).filter (fun a => page a = i) =
      (sorted.drop (i * limit)).take limit := by
    rw [List.filter_eq_self]
    intro a ha
    obtain ⟨p, hp, rfl⟩ := List.mem_take_iff_getElem.mp ha
    rw [List.length_drop] at hp
    rw [List.getElem_drop, hpage _ (by omega), decide_eq_true_eq]
    rw [Nat.mul_comm, Nat.mul_add_div hlimit, Nat.div_eq_of_lt (by omega), Nat.add_zero]
  have hafter : ((sorted.drop (i * limit)).drop limit).filter (fun a => page a = i) = [] := by
    rw [List.filter_eq_nil_iff]
    intro a ha
    rw [List.drop_drop] at ha
    obtain ⟨p, hp, rfl⟩ := List.mem_drop_iff_getElem.mp ha
    rw [hpage _ (by omega)]
    have hlt : i < (i * limit + limit + p) / limit := by
      apply (Nat.le_div_iff_mul_le hlimit).mpr
      rw [Nat.succ_mul]
      omega
    simpa using hlt.ne'
  -- before the page, the page, and after it
  have hsplit : sorted = sorted.take (i * limit) ++
      ((sorted.drop (i * limit)).take limit ++ (sorted.drop (i * limit)).drop limit) := by
    rw [List.take_append_drop, List.take_append_drop]
  calc (sorted.drop (i * limit)).take limit
      = (sorted.take (i * limit) ++ ((sorted.drop (i * limit)).take limit ++
          (sorted.drop (i * limit)).drop limit)).filter fun a => page a = i := by
        rw [List.filter_append, List.filter_append, hbefore, hon, hafter, List.nil_append,
          List.append_nil]
    _ = sorted.filter fun a => page a = i := by rw [← hsplit]

end Slices

/-- The classes of the first values make up the elements with these values. -/
theorem flatMap_filter_perm (f : ρ → ℕ) (rows : List ρ) (n : ℕ) :
    ((List.range n).flatMap fun i => rows.filter fun a => f a = i).Perm
      (rows.filter fun a => f a < n) := by
  induction n with
  | zero => simp
  | succ n ih =>
      rw [List.range_succ, List.flatMap_append, List.flatMap_singleton]
      have hsplit := List.filter_append_perm (fun a => decide (f a < n)) (rows.filter (f · < n + 1))
      refine ((ih.append_right _).trans ?_).trans hsplit
      rw [List.filter_filter, List.filter_filter]
      apply List.Perm.of_eq
      congr 1
      · apply List.filter_congr
        intro a _
        simp only [← Bool.decide_and, decide_eq_decide]
        omega
      · apply List.filter_congr
        intro a _
        simp only [← decide_not, ← Bool.decide_and, decide_eq_decide]
        omega

/-- What two pages share is returned twice. -/
theorem not_nodup_of_shared {answers : ℕ → List ρ} {n i j : ℕ} {x : ρ} (hi : i < n) (hj : j < n)
    (hne : i ≠ j) (hxi : x ∈ answers i) (hxj : x ∈ answers j) :
    ¬ ((List.range n).flatMap answers).Nodup := by
  intro hnodup
  have hdisjoint := List.pairwise_iff_getElem.mp (List.nodup_flatMap.mp hnodup).2
  rcases Nat.lt_or_gt_of_ne hne with hlt | hgt
  · have h := hdisjoint i j (by simpa using hi) (by simpa using hj) hlt
    simp only [List.getElem_range] at h
    exact h hxi hxj
  · have h := hdisjoint j i (by simpa using hj) (by simpa using hi) hgt
    simp only [List.getElem_range] at h
    exact h hxj hxi

/-! ## Positions -/

section Positions

variable [LinearOrder κ] {key : ρ → κ} {rows sorted : List ρ} {k : κ} {limit position : ℕ}

/-- The number of rows that come before all rows with the key. -/
def before (key : ρ → κ) (rows : List ρ) (k : κ) : ℕ := rows.countP fun a => k < key a

/-- The number of rows that come before all rows with a smaller key. -/
def upTo (key : ρ → κ) (rows : List ρ) (k : κ) : ℕ := rows.countP fun a => k ≤ key a

/-- The first and the last row with the key come on the same page. -/
def OnOnePage (key : ρ → κ) (rows : List ρ) (limit : ℕ) (k : κ) : Prop :=
  before key rows k / limit = (upTo key rows k - 1) / limit

instance decidableOnOnePage : Decidable (OnOnePage key rows limit k) :=
  inferInstanceAs (Decidable (_ = _))

theorem countP_le_of_drop {p : ρ → Bool} (h : ∀ a ∈ sorted.drop position, p a = false) :
    sorted.countP p ≤ position := by
  have hdrop : (sorted.drop position).countP p = 0 :=
    List.countP_eq_zero.mpr fun a ha => by simp [h a ha]
  calc sorted.countP p
      = (sorted.take position).countP p + (sorted.drop position).countP p := by
        rw [← List.countP_append, List.take_append_drop]
    _ = (sorted.take position).countP p := by rw [hdrop, Nat.add_zero]
    _ ≤ (sorted.take position).length := List.countP_le_length
    _ ≤ position := List.length_take_le _ _

theorem lt_countP_of_take {p : ρ → Bool} (hposition : position < sorted.length)
    (h : ∀ a ∈ sorted.take (position + 1), p a = true) : position < sorted.countP p := by
  have htake : (sorted.take (position + 1)).countP p = (sorted.take (position + 1)).length :=
    List.countP_eq_length.mpr h
  calc position
      < (sorted.take (position + 1)).length := by
        rw [List.length_take]
        omega
    _ = (sorted.take (position + 1)).countP p := htake.symm
    _ ≤ sorted.countP p := (List.take_sublist _ _).countP_le

section Sorted

variable (hperm : sorted.Perm rows) (hsorted : sorted.Pairwise fun a b => key b ≤ key a)
  (hposition : position < sorted.length)

include hsorted in
theorem key_le_of_drop {a : ρ} (ha : a ∈ sorted.drop position) : key a ≤ key sorted[position] := by
  obtain ⟨p, hp, rfl⟩ := List.mem_drop_iff_getElem.mp ha
  rcases Nat.eq_zero_or_pos p with rfl | hpos
  · simp
  · exact List.pairwise_iff_getElem.mp hsorted _ _ _ _ (by omega)

include hsorted in
theorem le_key_of_take {a : ρ} (ha : a ∈ sorted.take (position + 1)) :
    key sorted[position] ≤ key a := by
  obtain ⟨p, hp, rfl⟩ := List.mem_take_iff_getElem.mp ha
  rcases Nat.lt_or_ge p position with hlt | hge
  · exact List.pairwise_iff_getElem.mp hsorted _ _ _ _ hlt
  · obtain rfl : p = position := by omega
    exact le_refl _

include hperm hsorted

/-- A row comes after the rows with greater keys. -/
theorem before_le : before key rows (key sorted[position]) ≤ position := by
  rw [before, ← hperm.countP_eq]
  apply countP_le_of_drop
  intro a ha
  simpa using key_le_of_drop hsorted hposition ha

/-- A row comes before the rows with smaller keys. -/
theorem lt_upTo : position < upTo key rows (key sorted[position]) := by
  rw [upTo, ← hperm.countP_eq]
  apply lt_countP_of_take hposition
  intro a ha
  simpa using le_key_of_take hsorted hposition ha

/-- Between these bounds all rows have the key. -/
theorem key_eq_of_between (hbefore : before key rows k ≤ position)
    (hupTo : position < upTo key rows k) : key sorted[position] = k := by
  rw [before, ← hperm.countP_eq] at hbefore
  rw [upTo, ← hperm.countP_eq] at hupTo
  apply le_antisymm
  · by_contra hgt
    have hlt := lt_countP_of_take (p := fun a => decide (k < key a)) hposition fun a ha => by
      simpa using (not_le.mp hgt).trans_le (le_key_of_take hsorted hposition ha)
    omega
  · by_contra hlt
    have hle := countP_le_of_drop (p := fun a => decide (k ≤ key a)) fun a ha => by
      simpa using (key_le_of_drop hsorted hposition ha).trans_lt (not_le.mp hlt)
    omega

/-- If all rows with a key come on one page, then that is the page of each. -/
theorem page_eq (hone : OnOnePage key rows limit (key sorted[position])) :
    before key rows (key sorted[position]) / limit = position / limit := by
  have hfirst := before_le hperm hsorted hposition
  have hlast := lt_upTo hperm hsorted hposition
  apply le_antisymm (Nat.div_le_div_right hfirst)
  rw [hone]
  exact Nat.div_le_div_right (by omega)

end Sorted

/-- Every list of rows can be sorted. -/
theorem exists_sorted (key : ρ → κ) (rows : List ρ) :
    ∃ sorted : List ρ, sorted.Perm rows ∧ sorted.Pairwise fun a b => key b ≤ key a := by
  refine ⟨rows.mergeSort fun a b => key b ≤ key a, List.mergeSort_perm _ _, ?_⟩
  have h : (rows.mergeSort fun a b => key b ≤ key a).Pairwise
      fun a b => decide (key b ≤ key a) = true :=
    List.pairwise_mergeSort
      (fun a b c hab hbc => by simpa using (of_decide_eq_true hbc).trans (of_decide_eq_true hab))
      (fun a b => by simpa using le_total (key b) (key a)) rows
  exact h.imp of_decide_eq_true

/-- Neighbours with the same key can be exchanged. -/
theorem exists_swapped (hsorted : sorted.Pairwise fun a b => key b ≤ key a)
    (hposition : position + 1 < sorted.length)
    (hkey : key sorted[position] = key sorted[position + 1]) :
    ∃ swapped : List ρ, swapped.Perm sorted ∧ (swapped.Pairwise fun a b => key b ≤ key a) ∧
      swapped[position + 1]? = some sorted[position] := by
  have hsplit : sorted = sorted.take position ++
      sorted[position] :: sorted[position + 1] :: sorted.drop (position + 2) := by
    rw [List.getElem_cons_drop, List.getElem_cons_drop, List.take_append_drop]
  refine ⟨sorted.take position ++
    sorted[position + 1] :: sorted[position] :: sorted.drop (position + 2), ?_, ?_, ?_⟩
  · refine List.Perm.trans ?_ (List.Perm.of_eq hsplit.symm)
    exact (List.Perm.swap _ _ _).append_left _
  · rw [hsplit] at hsorted
    simp only [List.pairwise_append, List.pairwise_cons, List.mem_cons] at hsorted ⊢
    rw [hkey] at hsorted
    grind
  · rw [List.getElem?_append_right (by simp)]
    simp [Nat.min_eq_left (show position ≤ sorted.length by omega)]

end Positions

/-! ## All pages -/

section All

variable [LinearOrder κ] {key : ρ → κ} {rows : List ρ} {limit bound : ℕ}

/-- The answers to the requests for the first `bound` pages, where the offset is at most `bound`. -/
def PagesOf (key : ρ → κ) (rows : List ρ) (limit bound : ℕ) (answers : ℕ → List ρ) : Prop :=
  ∀ i < bound, PageOf key (min (i * limit) bound) limit rows (answers i)

/-- If all rows with the same key come on one page, every page consists of rows that come on no
other one. -/
theorem page_perm_filter (hlimit : 0 < limit) (hlength : rows.length ≤ bound)
    (hone : ∀ a ∈ rows, OnOnePage key rows limit (key a)) {i : ℕ} {answer : List ρ}
    (hpage : PageOf key (min (i * limit) bound) limit rows answer) :
    answer.Perm (rows.filter fun a => before key rows (key a) / limit = i) := by
  obtain ⟨sorted, hperm, hsorted, rfl⟩ := hpage
  have hpages : ∀ (p : ℕ) (hp : p < sorted.length),
      before key rows (key sorted[p]) / limit = p / limit := fun p hp =>
    page_eq hperm hsorted hp (hone _ (hperm.mem_iff.mp (List.getElem_mem hp)))
  have hoffset : (sorted.drop (min (i * limit) bound)).take limit =
      (sorted.drop (i * limit)).take limit := by
    have hlength' := hperm.length_eq
    rcases Nat.le_total (i * limit) bound with hle | hge
    · rw [Nat.min_eq_left hle]
    · rw [Nat.min_eq_right hge, List.drop_eq_nil_of_le (by omega),
        List.drop_eq_nil_of_le (by omega)]
  have hslice : (sorted.drop (i * limit)).take limit =
      sorted.filter fun a => before key rows (key a) / limit = i :=
    @slice_eq_filter _ _ _ (fun a => before key rows (key a) / limit) hlimit hpages i
  rw [hoffset, hslice]
  exact hperm.filter _

/-- If all rows with the same key come on one page, the pages return every row once. -/
theorem perm_of_onOnePage (hlimit : 0 < limit) (hlength : rows.length ≤ bound)
    (hone : ∀ a ∈ rows, OnOnePage key rows limit (key a)) {answers : ℕ → List ρ}
    (hanswers : PagesOf key rows limit bound answers) :
    ((List.range bound).flatMap answers).Perm rows := by
  have hbound : ∀ a ∈ rows, before key rows (key a) / limit < bound := by
    intro a ha
    have hlt : before key rows (key a) < rows.length :=
      List.countP_lt_length_iff.mpr ⟨a, ha, by simp⟩
    exact (Nat.div_le_self _ _).trans_lt (hlt.trans_le hlength)
  have hall : (rows.filter fun a => before key rows (key a) / limit < bound) = rows := by
    rw [List.filter_eq_self]
    intro a ha
    exact decide_eq_true (hbound a ha)
  have hflat : ((List.range bound).flatMap answers).Perm ((List.range bound).flatMap fun i =>
      rows.filter fun a => before key rows (key a) / limit = i) :=
    List.Perm.flatMap_left _ fun i hi =>
      page_perm_filter hlimit hlength hone (hanswers i (List.mem_range.mp hi))
  refine hflat.trans ?_
  have hclasses := flatMap_filter_perm (fun a => before key rows (key a) / limit) rows bound
  rwa [hall] at hclasses

/-- Where every request sees the rows in the same order. -/
theorem pagesOf_of_sorted {sorted : List ρ} (hperm : sorted.Perm rows)
    (hsorted : sorted.Pairwise fun a b => key b ≤ key a) :
    PagesOf key rows limit bound fun i => (sorted.drop (min (i * limit) bound)).take limit :=
  fun _ _ => ⟨sorted, hperm, hsorted, rfl⟩

/-- With several rows to a page, the row at the greatest offset is on the page of its position and
on the last one. -/
theorem not_nodup_of_long {sorted : List ρ} (hlimit : 1 < limit) (hbound : 3 ≤ bound)
    (hlong : bound < sorted.length) :
    ¬ ((List.range bound).flatMap fun i =>
      (sorted.drop (min (i * limit) bound)).take limit).Nodup := by
  have hfirst : sorted[bound] ∈ (sorted.drop (min (bound / limit * limit) bound)).take limit := by
    have hmod := Nat.div_add_mod' bound limit
    have hmodlt := Nat.mod_lt bound (show limit > 0 by omega)
    apply getElem_mem_slice hlong <;> omega
  have hlast : sorted[bound] ∈ (sorted.drop (min ((bound - 1) * limit) bound)).take limit := by
    have hge : bound ≤ (bound - 1) * limit :=
      calc bound ≤ (bound - 1) * 2 := by omega
        _ ≤ (bound - 1) * limit := Nat.mul_le_mul_left _ hlimit
    apply getElem_mem_slice hlong <;> omega
  have hhalf : bound / limit ≤ bound / 2 := Nat.div_le_div_left hlimit (by omega)
  refine not_nodup_of_shared ?_ ?_ ?_ hfirst hlast <;> omega

/-- With one row to a page, there are no more rows than pages. -/
theorem length_flatMap_le {answers : ℕ → List ρ} (h : ∀ i, (answers i).length ≤ 1) :
    ((List.range bound).flatMap answers).length ≤ bound := by
  rw [List.length_flatMap]
  calc ((List.range bound).map fun i => (answers i).length).sum
      ≤ ((List.range bound).map fun i => (answers i).length).length • 1 := by
        apply List.sum_le_card_nsmul
        intro n hn
        obtain ⟨i, -, rfl⟩ := List.mem_map.mp hn
        exact h i
    _ = bound := by simp

/-- Rows beyond the greatest offset are lost, or come on two pages. -/
theorem length_le_of_complete (hbound : 3 ≤ bound) (hrows : rows.Nodup)
    (h : ∀ answers, PagesOf key rows limit bound answers →
      ((List.range bound).flatMap answers).Perm rows) : rows.length ≤ bound := by
  obtain ⟨sorted, hperm, hsorted⟩ := exists_sorted key rows
  have hall := h _ (pagesOf_of_sorted hperm hsorted)
  rcases Nat.lt_or_ge 1 limit with hmany | hone
  · by_contra hlong
    have hlength := hperm.length_eq
    exact not_nodup_of_long hmany hbound (by omega) (hall.nodup_iff.mpr hrows)
  · rw [← hall.length_eq]
    apply length_flatMap_le
    intro i
    exact (List.length_take_le _ _).trans hone

/-- If rows with the same key come on two pages, then so do two neighbours. -/
theorem exists_boundary {k : κ} (hlimit : 0 < limit)
    (hnonempty : before key rows k < upTo key rows k) (htwo : ¬ OnOnePage key rows limit k) :
    ∃ page position, position + 1 = (page + 1) * limit ∧ before key rows k ≤ position ∧
      position + 1 < upTo key rows k := by
  -- the first page with the key is left before its last row comes
  obtain ⟨page, hpage⟩ : ∃ page, page = before key rows k / limit := ⟨_, rfl⟩
  have hnext : page + 1 ≤ (upTo key rows k - 1) / limit := by
    have hle : page ≤ (upTo key rows k - 1) / limit := by
      rw [hpage]
      exact Nat.div_le_div_right (by omega)
    exact Nat.lt_of_le_of_ne hle fun heq => htwo (hpage.symm.trans heq)
  obtain ⟨position, hposition⟩ : ∃ position, position + 1 = (page + 1) * limit :=
    ⟨_, Nat.sub_add_cancel (Nat.mul_pos (Nat.succ_pos _) hlimit)⟩
  have hfirst : before key rows k < (page + 1) * limit := by
    apply (Nat.div_lt_iff_lt_mul hlimit).mp
    omega
  have hlast : (page + 1) * limit ≤ upTo key rows k - 1 := (Nat.le_div_iff_mul_le hlimit).mp hnext
  exact ⟨page, position, hposition, by omega, by omega⟩

/-- If rows with the same key come on two pages, two requests can return the same row. -/
theorem onOnePage_of_complete (hlimit : 0 < limit) (hrows : rows.Nodup)
    (hlength : rows.length ≤ bound)
    (h : ∀ answers, PagesOf key rows limit bound answers →
      ((List.range bound).flatMap answers).Perm rows) {a : ρ} (ha : a ∈ rows) :
    OnOnePage key rows limit (key a) := by
  obtain ⟨sorted, hperm, hsorted⟩ := exists_sorted key rows
  by_contra htwo
  have hlength' := hperm.length_eq
  have hupTo : upTo key rows (key a) ≤ rows.length := List.countP_le_length
  have hnonempty : before key rows (key a) < upTo key rows (key a) := by
    obtain ⟨p, hp, rfl⟩ := List.getElem_of_mem (hperm.mem_iff.mpr ha)
    exact (before_le hperm hsorted hp).trans_lt (lt_upTo hperm hsorted hp)
  obtain ⟨page, position, hposition, hfirst, hlast⟩ := exists_boundary hlimit hnonempty htwo
  have hstart : position + 1 = page * limit + limit := by rw [hposition, Nat.succ_mul]
  -- the rows on both sides of the boundary have the key, and can be exchanged
  have hkey : key sorted[position] = key sorted[position + 1] :=
    (key_eq_of_between hperm hsorted (by omega) hfirst (by omega)).trans
      (key_eq_of_between hperm hsorted (by omega) (by omega) hlast).symm
  obtain ⟨swapped, hswapped, hdescending, hat⟩ := exists_swapped hsorted (by omega) hkey
  have hanswers : PagesOf key rows limit bound fun i =>
      ((if i = page + 1 then swapped else sorted).drop (min (i * limit) bound)).take limit := by
    intro i _
    by_cases hi : i = page + 1
    · exact ⟨swapped, hswapped.trans hperm, hdescending, by simp only [if_pos hi]⟩
    · exact ⟨sorted, hperm, hsorted, by simp only [if_neg hi]⟩
  have hpageBound : page + 1 ≤ (page + 1) * limit := Nat.le_mul_of_pos_right _ hlimit
  have hbefore : sorted[position] ∈
      ((if page = page + 1 then swapped else sorted).drop (min (page * limit) bound)).take
        limit := by
    rw [if_neg (by omega)]
    apply getElem_mem_slice (by omega) <;> omega
  have hafter : sorted[position] ∈
      ((if page + 1 = page + 1 then swapped else sorted).drop
        (min ((page + 1) * limit) bound)).take limit := by
    obtain ⟨hlt, heq⟩ := List.getElem?_eq_some_iff.mp hat
    rw [if_pos rfl, ← heq]
    apply getElem_mem_slice hlt <;> omega
  have hcomplete := (h _ hanswers).nodup_iff.mpr hrows
  exact not_nodup_of_shared (by omega) (by omega) (by omega) hbefore hafter hcomplete

/-- The pages return every row once, whatever the order of rows with the same key, just if no
key is on two pages and the offset can reach all rows. -/
theorem pages_complete_iff (hlimit : 0 < limit) (hbound : 3 ≤ bound) (hrows : rows.Nodup) :
    (∀ answers, PagesOf key rows limit bound answers →
      ((List.range bound).flatMap answers).Perm rows) ↔
    rows.length ≤ bound ∧ ∀ a ∈ rows, OnOnePage key rows limit (key a) := by
  constructor
  · intro h
    have hlength := length_le_of_complete hbound hrows h
    exact ⟨hlength, fun a ha => onOnePage_of_complete hlimit hrows hlength h ha⟩
  · rintro ⟨hlength, hone⟩ answers hanswers
    exact perm_of_onOnePage hlimit hlength hone hanswers

end All

end Relational
