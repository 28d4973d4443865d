import Mathlib.Data.List.Induction
import PactumCodex.Lib.Credit

/-!
# Programs interleaved to their end

`Interleaved perform programs w steps w'`: the programs, all started in `w`,
take the given steps in turn and have all returned in `w'`.  Unlike in a
`PoolRun`, no program is left unfinished, so what the programs earn and spend
can be balanced exactly (`Interleaved.balanced`).

Such an interleaving is also the run of a pool (`Interleaved.poolRun`), so the rules
for pools apply to it, and `interleave` computes one from a list of turns.
-/

namespace Interaction

variable {Op : Type} {Ans : Op → Type} {W : Type}

section Interleaving

variable (perform : (op : Op) → Ans op → W → Option W)

/-- The programs take the given steps, one at a time, until all have returned. -/
inductive Interleaved : List (Program Op Ans Unit) → W → List (Step Op Ans W) → W → Prop
  | done {programs : List (Program Op Ans Unit)} (w : W) :
      (∀ p ∈ programs, p = .ret ()) → Interleaved programs w [] w
  | step {programs : List (Program Op Ans Unit)} {w w₁ w' : W} {steps : List (Step Op Ans W)}
      (i : ℕ) (op : Op) (next : Ans op → Program Op Ans Unit) (answer : Ans op) :
      programs[i]? = some (.ask op next) → perform op answer w = some w₁ →
      Interleaved (programs.set i (next answer)) w₁ steps w' →
      Interleaved programs w (⟨w, op, answer, w₁⟩ :: steps) w'

variable {perform}

theorem Interleaved.chain {programs : List (Program Op Ans Unit)} {w w' : W}
    {steps : List (Step Op Ans W)} (h : Interleaved perform programs w steps w') :
    Chain perform w steps w' := by
  induction h with
  | done w _ => exact .nil w
  | step i op next answer _ hperform _ ih =>
      have hvalid : Step.Valid perform ⟨_, op, answer, _⟩ := hperform
      exact .cons hvalid ih

/-- The programs of an interleaving can be run by a pool. -/
theorem Interleaved.poolRun {Entry : Program Op Ans Unit → Prop}
    {programs : List (Program Op Ans Unit)} {w w' : W} {steps : List (Step Op Ans W)}
    (hentry : ∀ p ∈ programs, Entry p) (h : Interleaved perform programs w steps w') :
    ∃ threads, PoolRun perform Entry ⟨w, []⟩ steps ⟨w', threads⟩ := by
  have hstarted : ∀ started : List (Program Op Ans Unit), (∀ p ∈ started, Entry p) →
      PoolRun perform Entry (⟨w, []⟩ : Pool Op Ans W) [] ⟨w, started⟩ := by
    intro started
    induction started using List.reverseRecOn with
    | nil => exact fun _ => .refl
    | append_singleton started p ih =>
        intro hall
        refine .spawn p (ih fun q hq => hall q (List.mem_append_left _ hq)) (hall p ?_)
        exact List.mem_append_right _ (List.mem_singleton_self p)
  -- the pool starts all programs first, and then follows the turns
  suffices hcontinue : ∀ {start : Pool Op Ans W} {past : List (Step Op Ans W)},
      PoolRun perform Entry start past ⟨w, programs⟩ →
        ∃ threads, PoolRun perform Entry start (past ++ steps) ⟨w', threads⟩ from
    hcontinue (hstarted programs hentry)
  clear hstarted hentry
  induction h with
  | done w _ =>
      intro start past hpast
      exact ⟨_, by simpa using hpast⟩
  | @step programs w w₁ w' steps i op next answer hget hperform _ ih =>
      intro start past hpast
      have hnext := PoolRun.step i op next answer w₁ hpast hget hperform
      obtain ⟨threads, hrun⟩ := ih hnext
      exact ⟨threads, by simpa using hrun⟩

/-- The program has returned. -/
def Program.returned : Program Op Ans Unit → Bool
  | .ret _ => true
  | .ask .. => false

variable (perform) in
/-- Let the programs take the given turns; `none` unless all have returned then. -/
def interleave (answer : (op : Op) → W → Ans op) :
    List (Program Op Ans Unit) → W → List ℕ → Option (List (Step Op Ans W) × W)
  | programs, w, [] => if programs.all Program.returned then some ([], w) else none
  | programs, w, i :: turns =>
      match programs[i]? with
      | some (.ask op next) =>
          match perform op (answer op w) w with
          | some w₁ => (interleave answer (programs.set i (next (answer op w))) w₁ turns).map
              fun result => (⟨w, op, answer op w, w₁⟩ :: result.1, result.2)
          | none => none
      | _ => none

theorem interleaved_of_interleave {answer : (op : Op) → W → Ans op}
    {programs : List (Program Op Ans Unit)} {w w' : W} {turns : List ℕ}
    {steps : List (Step Op Ans W)}
    (h : interleave perform answer programs w turns = some (steps, w')) :
    Interleaved perform programs w steps w' := by
  induction turns generalizing programs w steps with
  | nil =>
      simp only [interleave, Option.ite_none_right_eq_some, Option.some.injEq, Prod.mk.injEq] at h
      obtain ⟨hreturned, rfl, rfl⟩ := h
      refine .done w fun p hp => ?_
      have hp := List.all_eq_true.mp hreturned p hp
      cases p with
      | ret result => rfl
      | ask op next => cases hp
  | cons i turns ih =>
      simp only [interleave] at h
      split at h
      · rename_i op next hget
        split at h
        · rename_i w₁ hperform
          obtain ⟨⟨rest, w₂⟩, hrest, heq⟩ := Option.map_eq_some_iff.mp h
          rw [Prod.mk.injEq] at heq
          obtain ⟨rfl, rfl⟩ := heq
          exact .step i op next _ hget hperform (ih hrest)
        · cases h
      · cases h

variable {earns spends : Step Op Ans W → ℕ}

/-- **Balance rule.**  Programs that end without a balance have together spent what they earned. -/
theorem Interleaved.balanced {programs : List (Program Op Ans Unit)} {w w' : W}
    {steps : List (Step Op Ans W)}
    (hsolvent : ∀ p ∈ programs, Solvent perform earns spends p 0 fun _ rest => rest = 0)
    (h : Interleaved perform programs w steps w') :
    (steps.map spends).sum = (steps.map earns).sum := by
  -- in between, every program has a balance of its own
  suffices hfunded : ∀ funded : List (Program Op Ans Unit × ℕ), funded.map Prod.fst = programs →
      (∀ thread ∈ funded, Solvent perform earns spends thread.1 thread.2 fun _ rest => rest = 0) →
      (steps.map spends).sum = (steps.map earns).sum + (funded.map Prod.snd).sum by
    have hzero :=
      hfunded (programs.map fun p => (p, 0)) (by simp [Function.comp_def]) (by simpa using hsolvent)
    simpa [Function.comp_def] using hzero
  clear hsolvent
  induction h with
  | done w hret =>
      intro funded hprograms hsolvent
      have hzero : funded.map Prod.snd = funded.map fun _ => 0 := by
        refine List.map_congr_left fun thread hmem => ?_
        have hthread := hsolvent thread hmem
        rw [hret thread.1 (hprograms ▸ List.mem_map_of_mem hmem)] at hthread
        exact hthread
      rw [hzero]
      simp
  | @step programs w w₁ w' steps i op next answer hget hperform _ ih =>
      intro funded hprograms hsolvent
      rw [← hprograms, List.getElem?_map, Option.map_eq_some_iff] at hget
      obtain ⟨⟨p, balance⟩, hget, hp⟩ := hget
      obtain rfl : p = .ask op next := hp
      obtain ⟨hspend, hnext⟩ := hsolvent _ (List.mem_of_getElem? hget) w answer w₁ hperform
      have hrest := ih (funded.set i (next answer, balance + earns ⟨w, op, answer, w₁⟩ -
        spends ⟨w, op, answer, w₁⟩)) (by rw [List.map_set, hprograms]) fun thread hmem => by
          rcases List.mem_or_eq_of_mem_set hmem with hmem | rfl
          · exact hsolvent thread hmem
          · exact hnext
      have hsnd : (funded.map Prod.snd)[i]? = some balance := by
        rw [List.getElem?_map, hget]
        rfl
      have hset := sum_set hsnd (balance + earns ⟨w, op, answer, w₁⟩ - spends ⟨w, op, answer, w₁⟩)
      simp only [List.map_set] at hrest
      simp only [List.map_cons, List.sum_cons]
      omega

end Interleaving

end Interaction
