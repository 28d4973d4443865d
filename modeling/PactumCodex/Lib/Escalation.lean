import Mathlib.Data.List.Perm.Basic
import Mathlib.Order.Lattice
import Mathlib.Tactic.Common

/-!
# Levels that only rise

A state machine takes reports, each with a severity of its own, and has a level
in a join-semilattice.  If every report raises the level to the join of the level
and its severity, then the level after a list of reports is the join of all
severities: it only rises, and the order of the reports does not matter.
-/

namespace Transition

variable {σ ρ α : Type}

section Semilattice

variable [SemilatticeSup α]

/-- In the states of the invariant every report raises the level by its severity. -/
structure Escalates (Inv : σ → Prop) (step : σ → ρ → σ) (level : σ → α) (severity : ρ → α) :
    Prop where
  inv_step : ∀ s r, Inv s → Inv (step s r)
  level_step : ∀ s r, Inv s → level (step s r) = level s ⊔ severity r

variable {Inv : σ → Prop} {step : σ → ρ → σ} {level : σ → α} {severity : ρ → α} {s : σ}
variable {reports reports' : List ρ}

namespace Escalates

theorem inv_run (h : Escalates Inv step level severity) (hs : Inv s) :
    Inv (reports.foldl step s) := by
  induction reports generalizing s with
  | nil => exact hs
  | cons r reports ih => exact ih (h.inv_step s r hs)

/-- The level after a run is the join of the severities. -/
theorem level_run (h : Escalates Inv step level severity) (hs : Inv s) :
    level (reports.foldl step s) = (reports.map severity).foldl (· ⊔ ·) (level s) := by
  induction reports generalizing s with
  | nil => rfl
  | cons r reports ih =>
      rw [List.foldl_cons, List.map_cons, List.foldl_cons, ih (h.inv_step s r hs),
        h.level_step s r hs]

theorem level_le_run (h : Escalates Inv step level severity) (hs : Inv s) :
    level s ≤ level (reports.foldl step s) := by
  induction reports generalizing s with
  | nil => exact le_rfl
  | cons r reports ih =>
      calc level s ≤ level s ⊔ severity r := le_sup_left
        _ = level (step s r) := (h.level_step s r hs).symm
        _ ≤ level (reports.foldl step (step s r)) := ih (h.inv_step s r hs)

/-- The order of the reports does not matter for the level. -/
theorem level_perm (h : Escalates Inv step level severity) (hs : Inv s)
    (hperm : reports.Perm reports') :
    level (reports.foldl step s) = level (reports'.foldl step s) := by
  rw [h.level_run hs, h.level_run hs]
  exact (hperm.map severity).foldl_eq (level s)

end Escalates

end Semilattice

/-- A level in a linear order is reached at the start or by a single report. -/
theorem Escalates.le_run_iff [LinearOrder α] {Inv : σ → Prop} {step : σ → ρ → σ} {level : σ → α}
    {severity : ρ → α} {s : σ} {reports : List ρ} {c : α} (h : Escalates Inv step level severity)
    (hs : Inv s) : c ≤ level (reports.foldl step s) ↔
      c ≤ level s ∨ ∃ r ∈ reports, c ≤ severity r := by
  induction reports generalizing s with
  | nil => simp
  | cons r reports ih =>
      rw [List.foldl_cons, ih (h.inv_step s r hs), h.level_step s r hs, le_sup_iff, or_assoc,
        List.exists_mem_cons_iff]

end Transition
