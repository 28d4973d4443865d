import Mathlib.Algebra.GroupWithZero.Nat
import Mathlib.Data.List.InsertIdx
import PactumCodex.Lib.Fallible

/-!
# Counting steps across interleaved programs

Some steps earn credit and others spend it.  A program is `Solvent` with a
balance if it never spends more than the balance and what it has earned itself,
whatever the other programs do to the world.  If all programs of a pool are
solvent from zero, then in every interleaving the steps together have spent no
more than they have earned (`PoolRun.solvent`): the balances of the running
programs make up the difference.

Solvency is proved along the text of a program, like an assurance: `solvent_bind`
passes the balance on, and a part that neither earns nor spends keeps it
(`solvent_neutral_bind`).  `Leaves` is for programs that spend step by step what was
earned at once: with a balance the program leaves at least a given part of it.
-/

namespace Interaction

variable {Op : Type} {Ans : Op → Type} {W α β ε : Type}

theorem sum_set {l : List ℕ} {i old : ℕ} (h : l[i]? = some old) (new : ℕ) :
    (l.set i new).sum + old = l.sum + new := by
  induction l generalizing i with
  | nil => simp at h
  | cons n l ih =>
      cases i with
      | zero =>
          obtain rfl : n = old := by simpa using h
          simp only [List.set_cons_zero, List.sum_cons]
          omega
      | succ i =>
          have htail := ih (i := i) (by simpa using h)
          simp only [List.set_cons_succ, List.sum_cons]
          omega

theorem sum_eraseIdx_le (l : List ℕ) (i : ℕ) : (l.eraseIdx i).sum ≤ l.sum := by
  induction l generalizing i with
  | nil => simp
  | cons n l ih =>
      cases i with
      | zero => simp
      | succ i => simpa using ih i

theorem sum_map_ite {σ : Type} (marked : σ → Bool) (l : List σ) :
    (l.map fun a => if marked a then 1 else 0).sum = l.countP marked := by
  induction l with
  | nil => rfl
  | cons a l ih =>
      rw [List.map_cons, List.sum_cons, ih, List.countP_cons, Nat.add_comm]

section Credit

variable (perform : (op : Op) → Ans op → W → Option W)
variable (earns spends : Step Op Ans W → ℕ)

/-- With the given balance the program never overdraws it, and it returns with `Φ` of its result
and the balance it is left with. -/
def Solvent : Program Op Ans α → ℕ → (α → ℕ → Prop) → Prop
  | .ret result, balance, Φ => Φ result balance
  | .ask op next, balance, Φ => ∀ w answer w', perform op answer w = some w' →
      spends ⟨w, op, answer, w'⟩ ≤ balance + earns ⟨w, op, answer, w'⟩ ∧
        Solvent (next answer)
          (balance + earns ⟨w, op, answer, w'⟩ - spends ⟨w, op, answer, w'⟩) Φ

variable {perform earns spends}

theorem solvent_bind {p : Program Op Ans α} {f : α → Program Op Ans β} {balance : ℕ}
    {Φ : β → ℕ → Prop} :
    Solvent perform earns spends (p >>= f) balance Φ ↔
      Solvent perform earns spends p balance fun a rest =>
        Solvent perform earns spends (f a) rest Φ := by
  induction p generalizing balance with
  | ret a => exact Iff.rfl
  | ask op next ih =>
      refine forall₃_congr fun w answer w' => forall_congr' fun _ => and_congr_right fun _ => ?_
      exact ih answer

theorem Solvent.mono {p : Program Op Ans α} {balance : ℕ} {Φ Ψ : α → ℕ → Prop}
    (h : Solvent perform earns spends p balance Φ) (himp : ∀ a rest, Φ a rest → Ψ a rest) :
    Solvent perform earns spends p balance Ψ := by
  induction p generalizing balance with
  | ret a => exact himp a balance h
  | ask op next ih =>
      intro w answer w' hperform
      exact ⟨(h w answer w' hperform).1, ih answer (h w answer w' hperform).2⟩

/-- A program whose operations neither earn nor spend keeps its balance. -/
theorem solvent_of_issues {allowed : Op → Prop} {p : Program Op Ans α} (balance : ℕ)
    (hp : p.Issues allowed)
    (hneutral : ∀ step : Step Op Ans W, allowed step.op → earns step = 0 ∧ spends step = 0) :
    Solvent perform earns spends p balance fun _ rest => rest = balance := by
  induction p with
  | ret a => rfl
  | ask op next ih =>
      intro w answer w' _
      obtain ⟨hearns, hspends⟩ := hneutral ⟨w, op, answer, w'⟩ hp.1
      rw [hearns, hspends]
      exact ⟨Nat.zero_le _, ih answer (hp.2 answer)⟩

theorem solvent_run_bind {x : Fallible Op Ans ε α} {f : α → Fallible Op Ans ε β} {balance : ℕ}
    {Φ : Except ε β → ℕ → Prop} :
    Solvent perform earns spends (x >>= f).run balance Φ ↔
      Solvent perform earns spends x.run balance fun r rest =>
        Solvent perform earns spends (continueWith f r) rest Φ := by
  rw [run_bind_eq, solvent_bind]

/-- After operations that neither earn nor spend, the rest goes on with the same balance. -/
theorem solvent_neutral_bind {allowed : Op → Prop} {x : Fallible Op Ans ε α}
    {f : α → Fallible Op Ans ε β} {balance : ℕ} {Φ : Except ε β → ℕ → Prop}
    (hneutral : ∀ step : Step Op Ans W, allowed step.op → earns step = 0 ∧ spends step = 0)
    (herror : ∀ e, Φ (.error e) balance) (hx : x.run.Issues allowed)
    (hf : ∀ a, Solvent perform earns spends (f a).run balance Φ) :
    Solvent perform earns spends (x >>= f).run balance Φ := by
  rw [solvent_run_bind]
  refine (solvent_of_issues balance hx hneutral).mono fun r rest hrest => ?_
  subst hrest
  cases r with
  | ok a => exact hf a
  | error e => exact herror e

/-! ### What is left at the end -/

variable (perform earns spends) in
/-- With the given balance the program is solvent, and leaves at least `left`. -/
def Leaves (p : Program Op Ans α) (balance left : ℕ) : Prop :=
  Solvent perform earns spends p balance fun _ rest => left ≤ rest

/-- A larger balance does no harm. -/
theorem Leaves.of_le {p : Program Op Ans α} {balance balance' left : ℕ}
    (h : Leaves perform earns spends p balance left) (hle : balance ≤ balance') :
    Leaves perform earns spends p balance' left := by
  induction p generalizing balance balance' with
  | ret a => exact Nat.le_trans h hle
  | ask op next ih =>
      intro w answer w' hperform
      obtain ⟨hspend, hnext⟩ := h w answer w' hperform
      exact ⟨by omega, ih answer hnext (by omega)⟩

/-- An operation whose cost is set aside. -/
theorem leaves_issue {op : Op} {balance cost : ℕ}
    (hcost : ∀ step : Step Op Ans W, step.op = op → spends step ≤ cost) :
    Leaves perform earns spends (.issue op) (balance + cost) balance := by
  intro w answer w' _
  have hstep := hcost ⟨w, op, answer, w'⟩ rfl
  exact ⟨by omega, show balance ≤ _ by omega⟩

theorem leaves_of_issues {allowed : Op → Prop} {p : Program Op Ans α} {balance : ℕ}
    (hp : p.Issues allowed)
    (hneutral : ∀ step : Step Op Ans W, allowed step.op → earns step = 0 ∧ spends step = 0) :
    Leaves perform earns spends p balance balance :=
  (solvent_of_issues balance hp hneutral).mono fun _ _ hrest => Nat.le_of_eq hrest.symm

theorem leaves_bind {p : Program Op Ans α} {f : α → Program Op Ans β} {balance middle left : ℕ}
    (hp : Leaves perform earns spends p balance middle)
    (hf : ∀ a, Leaves perform earns spends (f a) middle left) :
    Leaves perform earns spends (p >>= f) balance left :=
  solvent_bind.mpr (hp.mono fun a _ hrest => (hf a).of_le hrest)

/-- What the first part leaves goes to the second one; an error keeps it. -/
theorem leaves_run_bind {x : Fallible Op Ans ε α} {f : α → Fallible Op Ans ε β}
    {balance middle left : ℕ} (hle : left ≤ middle)
    (hx : Leaves perform earns spends x.run balance middle)
    (hf : ∀ a, Leaves perform earns spends (f a).run middle left) :
    Leaves perform earns spends (x >>= f).run balance left := by
  rw [run_bind_eq]
  refine leaves_bind hx fun r => ?_
  cases r with
  | ok a => exact hf a
  | error e => exact hle

/-- **Credit rule.**  Programs that are solvent from zero do not overdraw together. -/
theorem PoolRun.solvent {Entry : Program Op Ans Unit → Prop} {w : W} {pool : Pool Op Ans W}
    {steps : List (Step Op Ans W)}
    (hentry : ∀ p, Entry p → Solvent perform earns spends p 0 fun _ _ => True)
    (h : PoolRun perform Entry ⟨w, []⟩ steps pool) :
    (steps.map spends).sum ≤ (steps.map earns).sum := by
  -- the invariant: every running program is solvent with a balance of its own
  suffices hinv : ∃ funded : List (Program Op Ans Unit × ℕ), funded.map Prod.fst = pool.threads ∧
      (∀ thread ∈ funded, Solvent perform earns spends thread.1 thread.2 fun _ _ => True) ∧
      (steps.map spends).sum + (funded.map Prod.snd).sum ≤ (steps.map earns).sum by
    obtain ⟨funded, -, -, hsum⟩ := hinv
    omega
  induction h with
  | refl => exact ⟨[], rfl, by simp, by simp⟩
  | spawn p _ hp ih =>
      obtain ⟨funded, hthreads, hsolvent, hsum⟩ := ih
      refine ⟨funded ++ [(p, 0)], by simp [hthreads], fun thread hmem => ?_, by simpa using hsum⟩
      rcases List.mem_append.mp hmem with hmem | hmem
      · exact hsolvent thread hmem
      · rw [List.mem_singleton.mp hmem]
        exact hentry p hp
  | @step steps pool i op next answer w' _ hget hperform ih =>
      -- the thread that takes the step earns, spends, and keeps the rest
      obtain ⟨funded, hthreads, hsolvent, hsum⟩ := ih
      rw [← hthreads, List.getElem?_map, Option.map_eq_some_iff] at hget
      obtain ⟨⟨p, balance⟩, hget, hp⟩ := hget
      obtain rfl : p = .ask op next := hp
      obtain ⟨hspend, hnext⟩ :=
        hsolvent _ (List.mem_of_getElem? hget) pool.world answer w' hperform
      refine ⟨funded.set i (next answer, balance + earns ⟨pool.world, op, answer, w'⟩ -
        spends ⟨pool.world, op, answer, w'⟩), ?_, ?_, ?_⟩
      · rw [List.map_set, hthreads]
      · intro thread hmem
        rcases List.mem_or_eq_of_mem_set hmem with hmem | rfl
        · exact hsolvent thread hmem
        · exact hnext
      · have hsnd : (funded.map Prod.snd)[i]? = some balance := by
          rw [List.getElem?_map, hget]
          rfl
        have hset := sum_set hsnd (balance + earns ⟨pool.world, op, answer, w'⟩ -
          spends ⟨pool.world, op, answer, w'⟩)
        rw [List.map_set]
        simp only [List.map_append, List.map_cons, List.map_nil, List.sum_append, List.sum_cons,
          List.sum_nil]
        omega
  | drop i _ ih =>
      obtain ⟨funded, hthreads, hsolvent, hsum⟩ := ih
      refine ⟨funded.eraseIdx i, ?_, fun thread hmem => ?_, ?_⟩
      · rw [← hthreads, List.eraseIdx_map]
      · exact hsolvent thread (List.mem_of_mem_eraseIdx hmem)
      · have hle := sum_eraseIdx_le (funded.map Prod.snd) i
        rw [List.eraseIdx_map] at hle
        omega

end Credit

end Interaction
