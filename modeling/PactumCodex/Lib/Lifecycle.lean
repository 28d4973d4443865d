import PactumCodex.Lib.Pool
import Mathlib.Logic.Relation

/-!
# Life cycles

`view w` is the state of one entity in the world `w`.  A step `Follows` a life
cycle if it leaves that state alone or changes it along the relation `change`.

* `Follows.map`: a coarser view follows a coarser life cycle;
* `Chain.entered_once`: along a chain of such steps, a state that cannot be reached
  from itself is entered at most once, and not at all by an entity that has already
  been there.

The proof of the second goes by induction on the chain.  The step that enters the
state leaves an entity that has been there, so the rest of the chain enters it no
more; and an entity that had been there before could only come back along the
relation, which has no cycle through the state.
-/

namespace Interaction

open Relation

variable {Op : Type} {Ans : Op → Type} {W σ : Type}
variable {perform : (op : Op) → Ans op → W → Option W}
variable {view : W → σ} {change : σ → σ → Prop} {w w' : W} {steps : List (Step Op Ans W)}

/-- The step leaves the state alone, or changes it along the relation. -/
def Follows (view : W → σ) (change : σ → σ → Prop) (step : Step Op Ans W) : Prop :=
  view step.post = view step.pre ∨ change (view step.pre) (view step.post)

/-- The step enters the state. -/
def enters [DecidableEq σ] (view : W → σ) (s : σ) (step : Step Op Ans W) : Bool :=
  view step.pre ≠ s ∧ view step.post = s

theorem Follows.reflTransGen {step : Step Op Ans W} (h : Follows view change step) :
    ReflTransGen change (view step.pre) (view step.post) := by
  rcases h with hsame | hchange
  · rw [hsame]
  · exact .single hchange

/-- A coarser view follows a coarser life cycle. -/
theorem Follows.map {τ : Type} {change' : τ → τ → Prop} {f : σ → τ} {step : Step Op Ans W}
    (h : Follows view change step)
    (hchange : ∀ s s', change s s' → f s' = f s ∨ change' (f s) (f s')) :
    Follows (fun w => f (view w)) change' step := by
  rcases h with hsame | h
  · exact Or.inl (congrArg f hsame)
  · exact hchange _ _ h

/-- **Once rule for states.**  A state that cannot be reached from itself is entered at most once,
and not at all by an entity that has been there. -/
theorem Chain.entered_once [DecidableEq σ] {s : σ} (hacyclic : ¬ TransGen change s s)
    (h : Chain perform w steps w') (hsteps : ∀ step ∈ steps, Follows view change step) :
    steps.countP (enters view s) ≤ 1 ∧
      (ReflTransGen change s (view w) → steps.countP (enters view s) = 0) := by
  induction h with
  | nil => simp
  | @cons first steps w' hvalid _ ih =>
      obtain ⟨hfirst, hsteps⟩ := List.forall_mem_cons.mp hsteps
      obtain ⟨honce, hnone⟩ := ih hsteps
      by_cases henters : enters view s first = true
      · obtain ⟨hpre, hpost⟩ : view first.pre ≠ s ∧ view first.post = s := by
          simpa [enters] using henters
        have hrest : steps.countP (enters view s) = 0 := hnone (hpost ▸ .refl)
        rw [List.countP_cons_of_pos henters, hrest]
        refine ⟨Nat.le_refl _, fun hreach => ?_⟩
        -- the state would be reached from itself
        rcases hfirst with hsame | hchange
        · exact absurd (hsame.symm.trans hpost) hpre
        · exact absurd (TransGen.tail' hreach (hpost ▸ hchange)) hacyclic
      · rw [List.countP_cons_of_neg henters]
        exact ⟨honce, fun hreach => hnone (hreach.trans hfirst.reflTransGen)⟩

end Interaction
