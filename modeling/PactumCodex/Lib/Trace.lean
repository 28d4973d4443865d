import Mathlib.Data.List.Induction
import Mathlib.Tactic.Common

/-!
# Traces of a deterministic transition system

`Trace step start actions s`: carried out one after the other, the actions lead
from `start` to `s`.  Properties of the state and of the actions that led to it
are proved by `Trace.invariant`.
-/

namespace Transition

variable {σ ι : Type} {step : σ → ι → Option σ} {start : σ}

/-- Carried out one after the other, the actions lead from `start` to `s`. -/
def Trace (step : σ → ι → Option σ) (start : σ) (actions : List ι) (s : σ) : Prop :=
  actions.foldlM step start = some s

@[simp] theorem trace_nil {s : σ} : Trace step start [] s ↔ s = start := by
  simp [Trace, eq_comm]

theorem trace_snoc {past : List ι} {action : ι} {s' : σ} :
    Trace step start (past ++ [action]) s' ↔
      ∃ s, Trace step start past s ∧ step s action = some s' := by
  rw [Trace, List.foldlM_append, Option.bind_eq_bind, Option.bind_eq_some_iff]
  simp [Trace]

theorem Trace.unique {actions : List ι} {s s' : σ} (h : Trace step start actions s)
    (h' : Trace step start actions s') : s = s' :=
  Option.some.inj (h.symm.trans h')

/-- A trace goes through the states of its prefixes. -/
theorem Trace.of_prefix {actions before : List ι} {s : σ} (h : Trace step start actions s)
    (hbefore : before <+: actions) : ∃ s', Trace step start before s' := by
  obtain ⟨after, rfl⟩ := hbefore
  rw [Trace, List.foldlM_append, Option.bind_eq_bind, Option.bind_eq_some_iff] at h
  obtain ⟨s', hs', -⟩ := h
  exact ⟨s', hs'⟩

/-- **Invariant rule.**  What holds at the start and is preserved by every action holds after
every trace. -/
theorem Trace.invariant (Inv : List ι → σ → Prop) (hstart : Inv [] start)
    (hstep : ∀ past s action s', Trace step start past s → Inv past s → step s action = some s' →
      Inv (past ++ [action]) s') {actions : List ι} {s : σ} (h : Trace step start actions s) :
    Inv actions s := by
  induction actions using List.reverseRecOn generalizing s with
  | nil =>
      obtain rfl := trace_nil.mp h
      exact hstart
  | append_singleton past action ih =>
      obtain ⟨s₀, hpast, hs⟩ := trace_snoc.mp h
      exact hstep past s₀ action s hpast (ih hpast) hs

/-- What the actions give, each taken in the state that the earlier ones lead to. -/
def observe {ο : Type} (step : σ → ι → Option σ) (output : σ → ι → Option ο) : σ → List ι → List ο
  | _, [] => []
  | s, action :: rest => (output s action).toList ++
      match step s action with
      | none => []
      | some s' => observe step output s' rest

theorem observe_snoc {ο : Type} {output : σ → ι → Option ο} {past : List ι} {action : ι} {s : σ}
    (h : Trace step start past s) : observe step output start (past ++ [action]) =
      observe step output start past ++ (output s action).toList := by
  induction past generalizing start with
  | nil =>
      obtain rfl := trace_nil.mp h
      simp only [List.nil_append, observe]
      split <;> simp
  | cons first past ih =>
      rw [Trace, List.foldlM_cons, Option.bind_eq_bind, Option.bind_eq_some_iff] at h
      obtain ⟨s₁, hfirst, hrest⟩ := h
      simp only [List.cons_append, observe, hfirst, List.append_assoc]
      rw [ih hrest]

end Transition
