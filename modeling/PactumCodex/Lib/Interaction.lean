import Mathlib.Data.List.Basic
import Mathlib.Tactic.Common

/-!
# Programs that talk to a world

A `Program` is a tree of operations: it issues one operation at a time and
continues with whatever answer comes back.  What an operation does is not part
of the program; it is given by a function

  `perform : (op : Op) → Ans op → W → Option W`

that says in which worlds `op` can be answered by a given answer, and what the
world is afterwards.  A failing call is just another answer, and an answer that
is not the only possible one (the order of a result set, a clock reading) is
resolved by naming the answer, so `perform` stays a computable function while
the runs of a program remain nondeterministic.

Three views of one program are used below.

* `Runs`: a complete execution, with the list of its steps.
* `Stops`: an execution that was cut off after any number of steps.
* `interpret`: the execution against a given way of answering, which computes;
  `interpret_runs` turns its result into a run.

`Ensures` states what holds at the end of all complete executions, `Reaches` what
holds at the end of one of them.
-/

namespace Interaction

variable {Op : Type} {Ans : Op → Type} {W α β ε : Type}

/-- A program over the operations `Op`, where `op : Op` is answered by an
element of `Ans op`. -/
inductive Program (Op : Type) (Ans : Op → Type) (α : Type) : Type
  | ret (result : α) : Program Op Ans α
  | ask (op : Op) (next : Ans op → Program Op Ans α) : Program Op Ans α

namespace Program

/-- Sequential composition. -/
protected def bind : Program Op Ans α → (α → Program Op Ans β) → Program Op Ans β
  | .ret result, f => f result
  | .ask op next, f => .ask op fun answer => (next answer).bind f

instance : Monad (Program Op Ans) where
  pure := .ret
  bind := Program.bind

/-- Issue one operation and return its answer. -/
def issue (op : Op) : Program Op Ans (Ans op) := .ask op .ret

/-- Every operation the program can ever issue satisfies `allowed`. -/
def Issues (allowed : Op → Prop) : Program Op Ans α → Prop
  | .ret _ => True
  | .ask op next => allowed op ∧ ∀ answer, (next answer).Issues allowed

theorem issues_bind {allowed : Op → Prop} {p : Program Op Ans α} {f : α → Program Op Ans β}
    (hp : p.Issues allowed) (hf : ∀ a, (f a).Issues allowed) : (p >>= f).Issues allowed := by
  induction p with
  | ret a => exact hf a
  | ask op next ih => exact ⟨hp.1, fun answer => ih answer (hp.2 answer)⟩

theorem Issues.mono {allowed allowed' : Op → Prop} {p : Program Op Ans α} (h : p.Issues allowed)
    (himp : ∀ op, allowed op → allowed' op) : p.Issues allowed' := by
  induction p with
  | ret a => trivial
  | ask op next ih => exact ⟨himp op h.1, fun answer => ih answer (h.2 answer)⟩

/-- Every operation the program can issue satisfies `allowed`, as long as all answers satisfy
`given`. -/
def IssuesGiven (given : (op : Op) → Ans op → Prop) (allowed : Op → Prop) :
    Program Op Ans α → Prop
  | .ret _ => True
  | .ask op next => allowed op ∧
      ∀ answer, given op answer → (next answer).IssuesGiven given allowed

theorem Issues.given {given : (op : Op) → Ans op → Prop} {allowed : Op → Prop}
    {p : Program Op Ans α} (h : p.Issues allowed) : p.IssuesGiven given allowed := by
  induction p with
  | ret a => trivial
  | ask op next ih => exact ⟨h.1, fun answer _ => ih answer (h.2 answer)⟩

end Program

/-- One operation, its answer, and the world before and after it. -/
structure Step (Op : Type) (Ans : Op → Type) (W : Type) where
  pre : W
  op : Op
  ans : Ans op
  post : W

section Semantics

variable (perform : (op : Op) → Ans op → W → Option W)

/-- The step is one that `perform` allows. -/
def Step.Valid (step : Step Op Ans W) : Prop :=
  perform step.op step.ans step.pre = some step.post

/-- `Runs perform p w steps a w'`: started in `w`, the program `p` can take the
given steps and return `a` in the world `w'`. -/
def Runs : Program Op Ans α → W → List (Step Op Ans W) → α → W → Prop
  | .ret result, w, steps, a, w' => steps = [] ∧ a = result ∧ w' = w
  | .ask op next, w, steps, a, w' => ∃ answer w₁ rest,
      perform op answer w = some w₁ ∧ steps = ⟨w, op, answer, w₁⟩ :: rest ∧
        Runs (next answer) w₁ rest a w'

/-- `Stops perform p w steps w'`: started in `w`, the program `p` can take the
given steps and be stopped in `w'`, having returned or not. -/
def Stops : Program Op Ans α → W → List (Step Op Ans W) → W → Prop
  | .ret _, w, steps, w' => steps = [] ∧ w' = w
  | .ask op next, w, steps, w' => (steps = [] ∧ w' = w) ∨ ∃ answer w₁ rest,
      perform op answer w = some w₁ ∧ steps = ⟨w, op, answer, w₁⟩ :: rest ∧
        Stops (next answer) w₁ rest w'

/-- Execute a program against a fixed way of answering; `none` if some answer
is not allowed by `perform`. -/
def interpret (answer : (op : Op) → W → Ans op) :
    Program Op Ans α → W → Option (List (Step Op Ans W) × α × W)
  | .ret result, w => some ([], result, w)
  | .ask op next, w =>
      match perform op (answer op w) w with
      | none => none
      | some w₁ =>
          match interpret answer (next (answer op w)) w₁ with
          | none => none
          | some (steps, a, w') => some (⟨w, op, answer op w, w₁⟩ :: steps, a, w')

variable {perform}

/-! ## Runs -/

@[simp] theorem runs_ret {a b : α} {w w' : W} {steps : List (Step Op Ans W)} :
    Runs perform (.ret a) w steps b w' ↔ steps = [] ∧ b = a ∧ w' = w := Iff.rfl

@[simp] theorem runs_pure {a b : α} {w w' : W} {steps : List (Step Op Ans W)} :
    Runs perform (pure a) w steps b w' ↔ steps = [] ∧ b = a ∧ w' = w := Iff.rfl

@[simp] theorem runs_issue {op : Op} {a : Ans op} {w w' : W} {steps : List (Step Op Ans W)} :
    Runs perform (.issue op) w steps a w' ↔
      perform op a w = some w' ∧ steps = [⟨w, op, a, w'⟩] := by
  constructor
  · rintro ⟨answer, w₁, rest, hperform, rfl, rfl, rfl, rfl⟩
    exact ⟨hperform, rfl⟩
  · rintro ⟨hperform, rfl⟩
    exact ⟨a, w', [], hperform, rfl, rfl, rfl, rfl⟩

/-- A run of a composition is a run of the first part followed by one of the second. -/
theorem runs_bind {p : Program Op Ans α} {f : α → Program Op Ans β} {w w' : W} {b : β}
    {steps : List (Step Op Ans W)} :
    Runs perform (p >>= f) w steps b w' ↔ ∃ a w₁ first second,
      steps = first ++ second ∧ Runs perform p w first a w₁ ∧
        Runs perform (f a) w₁ second b w' := by
  induction p generalizing w steps with
  | ret a =>
      constructor
      · intro h
        exact ⟨a, w, [], steps, rfl, ⟨rfl, rfl, rfl⟩, h⟩
      · rintro ⟨a', w₁, first, second, rfl, ⟨rfl, rfl, rfl⟩, h⟩
        exact h
  | ask op next ih =>
      constructor
      · rintro ⟨answer, w₁, rest, hperform, rfl, h⟩
        obtain ⟨a, w₂, first, second, rfl, hfirst, hsecond⟩ := (ih answer).mp h
        exact ⟨a, w₂, _ :: first, second, rfl, ⟨answer, w₁, first, hperform, rfl, hfirst⟩, hsecond⟩
      · rintro ⟨a, w₂, first, second, rfl, ⟨answer, w₁, rest, hperform, rfl, hfirst⟩, hsecond⟩
        exact ⟨answer, w₁, rest ++ second, hperform, rfl,
          (ih answer).mpr ⟨a, w₂, rest, second, rfl, hfirst, hsecond⟩⟩

/-- A complete execution is one that may also be said to have stopped. -/
theorem Runs.stops {p : Program Op Ans α} {w w' : W} {a : α} {steps : List (Step Op Ans W)}
    (h : Runs perform p w steps a w') : Stops perform p w steps w' := by
  induction p generalizing w steps with
  | ret result => exact ⟨h.1, h.2.2⟩
  | ask op next ih =>
      obtain ⟨answer, w₁, rest, hperform, rfl, hrest⟩ := h
      exact Or.inr ⟨answer, w₁, rest, hperform, rfl, ih answer hrest⟩

/-- Every program can be stopped before it starts. -/
theorem Stops.refl (p : Program Op Ans α) (w : W) : Stops perform p w [] w := by
  cases p with
  | ret result => exact ⟨rfl, rfl⟩
  | ask op next => exact Or.inl ⟨rfl, rfl⟩

/-- A composition can be stopped in its first part. -/
theorem stops_bind_left {p : Program Op Ans α} {f : α → Program Op Ans β} {w w' : W}
    {steps : List (Step Op Ans W)} (h : Stops perform p w steps w') :
    Stops perform (p >>= f) w steps w' := by
  induction p generalizing w steps with
  | ret result =>
      obtain ⟨rfl, rfl⟩ := h
      exact Stops.refl _ _
  | ask op next ih =>
      rcases h with ⟨rfl, rfl⟩ | ⟨answer, w₁, rest, hperform, rfl, hrest⟩
      · exact Or.inl ⟨rfl, rfl⟩
      · exact Or.inr ⟨answer, w₁, rest, hperform, rfl, ih answer hrest⟩

/-- A composition can be stopped in its second part. -/
theorem stops_bind_right {p : Program Op Ans α} {f : α → Program Op Ans β} {w w₁ w' : W} {a : α}
    {first second : List (Step Op Ans W)} (hfirst : Runs perform p w first a w₁)
    (hsecond : Stops perform (f a) w₁ second w') :
    Stops perform (p >>= f) w (first ++ second) w' := by
  induction p generalizing w first with
  | ret result =>
      obtain ⟨rfl, rfl, rfl⟩ := hfirst
      exact hsecond
  | ask op next ih =>
      obtain ⟨answer, w₂, rest, hperform, rfl, hrest⟩ := hfirst
      exact Or.inr ⟨answer, w₂, rest ++ second, hperform, rfl, ih answer hrest⟩

/-- An execution takes only steps that the program can issue. -/
theorem Stops.issued {allowed : Op → Prop} {p : Program Op Ans α} {w w' : W}
    {steps : List (Step Op Ans W)} (hp : p.Issues allowed) (h : Stops perform p w steps w') :
    ∀ step ∈ steps, allowed step.op := by
  induction p generalizing w steps with
  | ret result =>
      obtain ⟨rfl, -⟩ := h
      simp
  | ask op next ih =>
      rcases h with ⟨rfl, -⟩ | ⟨answer, w₁, rest, -, rfl, hrest⟩
      · simp
      · exact List.forall_mem_cons.mpr ⟨hp.1, ih answer (hp.2 answer) hrest⟩

/-- An execution with the given answers takes only steps that the program issues on them. -/
theorem Stops.issued_given {given : (op : Op) → Ans op → Prop} {allowed : Op → Prop}
    {p : Program Op Ans α} {w w' : W} {steps : List (Step Op Ans W)}
    (hp : p.IssuesGiven given allowed) (h : Stops perform p w steps w')
    (hgiven : ∀ step ∈ steps, given step.op step.ans) : ∀ step ∈ steps, allowed step.op := by
  induction p generalizing w steps with
  | ret result =>
      obtain ⟨rfl, -⟩ := h
      simp
  | ask op next ih =>
      rcases h with ⟨rfl, -⟩ | ⟨answer, w₁, rest, -, rfl, hrest⟩
      · simp
      · rw [List.forall_mem_cons] at hgiven ⊢
        exact ⟨hp.1, ih answer (hp.2 answer hgiven.1) hrest hgiven.2⟩

/-- Conversely, for programs whose operations leave the world alone: what no execution does, the
program does not issue. -/
theorem issuesGiven_of_stops {given : (op : Op) → Ans op → Prop} {allowed idle : Op → Prop}
    {p : Program Op Ans α} {w : W} (hgiven : ∀ op, idle op → ∃ answer, given op answer)
    (hidle : ∀ op, idle op → ∀ answer w, perform op answer w = some w) (hp : p.Issues idle)
    (h : ∀ steps w', Stops perform p w steps w' → (∀ step ∈ steps, given step.op step.ans) →
      ∀ step ∈ steps, allowed step.op) : p.IssuesGiven given allowed := by
  induction p with
  | ret a => trivial
  | ask op next ih =>
      have hstops : ∀ answer steps w', Stops perform (next answer) w steps w' →
          Stops perform (.ask op next) w (⟨w, op, answer, w⟩ :: steps) w' :=
        fun answer steps w' hnext =>
          Or.inr ⟨answer, w, steps, hidle op hp.1 answer w, rfl, hnext⟩
      constructor
      · obtain ⟨answer, hanswer⟩ := hgiven op hp.1
        exact h _ w (hstops answer [] w (Stops.refl _ _)) (by simpa using hanswer)
          ⟨w, op, answer, w⟩ List.mem_cons_self
      · intro answer hanswer
        refine ih answer (hp.2 answer) fun steps w' hnext hsteps step hmem => ?_
        exact h _ w' (hstops answer steps w' hnext)
          (List.forall_mem_cons.mpr ⟨hanswer, hsteps⟩) step
          (List.mem_cons_of_mem _ hmem)

/-- What the interpreter computes is a run. -/
theorem interpret_runs {answer : (op : Op) → W → Ans op} {p : Program Op Ans α} {w w' : W} {a : α}
    {steps : List (Step Op Ans W)} (h : interpret perform answer p w = some (steps, a, w')) :
    Runs perform p w steps a w' := by
  induction p generalizing w steps with
  | ret result =>
      simp only [interpret, Option.some.injEq, Prod.mk.injEq] at h
      exact ⟨h.1.symm, h.2.1.symm, h.2.2.symm⟩
  | ask op next ih =>
      simp only [interpret] at h
      cases hperform : perform op (answer op w) w with
      | none => simp [hperform] at h
      | some w₁ =>
          simp only [hperform] at h
          cases hrest : interpret perform answer (next (answer op w)) w₁ with
          | none => simp [hrest] at h
          | some result =>
              obtain ⟨rest, b, w₂⟩ := result
              simp only [hrest, Option.some.injEq, Prod.mk.injEq] at h
              obtain ⟨rfl, rfl, rfl⟩ := h
              exact ⟨answer op w, w₁, rest, hperform, rfl, ih _ hrest⟩

/-! ## What a program ensures -/

/-- Every complete execution from `w` ends with `Φ`. -/
def Ensures (perform : (op : Op) → Ans op → W → Option W) (p : Program Op Ans α) (w : W)
    (Φ : α → W → Prop) : Prop :=
  ∀ steps a w', Runs perform p w steps a w' → Φ a w'

theorem ensures_ret {a : α} {w : W} {Φ : α → W → Prop} (h : Φ a w) :
    Ensures perform (.ret a) w Φ := by
  rintro steps b w' ⟨-, rfl, rfl⟩
  exact h

theorem ensures_issue {op : Op} {w : W} {Φ : Ans op → W → Prop}
    (h : ∀ answer w', perform op answer w = some w' → Φ answer w') :
    Ensures perform (.issue op) w Φ := by
  intro steps answer w' hrun
  exact h answer w' (runs_issue.mp hrun).1

theorem ensures_bind {p : Program Op Ans α} {f : α → Program Op Ans β} {w : W}
    {Φ : β → W → Prop} (h : Ensures perform p w fun a w' => Ensures perform (f a) w' Φ) :
    Ensures perform (p >>= f) w Φ := by
  intro steps b w' hrun
  obtain ⟨a, w₁, first, second, rfl, hfirst, hsecond⟩ := runs_bind.mp hrun
  exact h first a w₁ hfirst second b w' hsecond

theorem Ensures.mono {p : Program Op Ans α} {w : W} {Φ Ψ : α → W → Prop}
    (h : Ensures perform p w Φ) (himp : ∀ a w', Φ a w' → Ψ a w') : Ensures perform p w Ψ :=
  fun steps a w' hrun => himp a w' (h steps a w' hrun)

theorem Ensures.and {p : Program Op Ans α} {w : W} {Φ Ψ : α → W → Prop}
    (hΦ : Ensures perform p w Φ) (hΨ : Ensures perform p w Ψ) :
    Ensures perform p w fun a w' => Φ a w' ∧ Ψ a w' :=
  fun steps a w' hrun => ⟨hΦ steps a w' hrun, hΨ steps a w' hrun⟩

/-! ## What a program can reach -/

/-- Some complete execution from `w` ends with `Φ`. -/
def Reaches (perform : (op : Op) → Ans op → W → Option W) (p : Program Op Ans α) (w : W)
    (Φ : α → W → Prop) : Prop :=
  ∃ steps a w', Runs perform p w steps a w' ∧ Φ a w'

theorem reaches_ret {a : α} {w : W} {Φ : α → W → Prop} (h : Φ a w) :
    Reaches perform (.ret a) w Φ :=
  ⟨[], a, w, ⟨rfl, rfl, rfl⟩, h⟩

theorem reaches_issue {op : Op} {w w' : W} {Φ : Ans op → W → Prop} (answer : Ans op)
    (hperform : perform op answer w = some w') (h : Φ answer w') :
    Reaches perform (.issue op) w Φ :=
  ⟨_, answer, w', runs_issue.mpr ⟨hperform, rfl⟩, h⟩

theorem reaches_bind {p : Program Op Ans α} {f : α → Program Op Ans β} {w : W}
    {Φ : β → W → Prop} (h : Reaches perform p w fun a w' => Reaches perform (f a) w' Φ) :
    Reaches perform (p >>= f) w Φ := by
  obtain ⟨first, a, w₁, hfirst, second, b, w', hsecond, hΦ⟩ := h
  exact ⟨first ++ second, b, w', runs_bind.mpr ⟨a, w₁, first, second, rfl, hfirst, hsecond⟩, hΦ⟩

/-! ## Restricted answers -/

/-- The operations, when they only give certain answers. -/
def restrict (given : (op : Op) → Ans op → Bool) (perform : (op : Op) → Ans op → W → Option W)
    (op : Op) (answer : Ans op) (w : W) : Option W :=
  if given op answer then perform op answer w else none

variable {given : (op : Op) → Ans op → Bool} {op : Op} {answer : Ans op}

theorem restrict_eq_some {w w' : W} : restrict given perform op answer w = some w' ↔
    given op answer = true ∧ perform op answer w = some w' := by
  rw [restrict, Option.ite_none_right_eq_some]

theorem runs_of_restrict {p : Program Op Ans α} {w w' : W} {a : α} {steps : List (Step Op Ans W)}
    (h : Runs (restrict given perform) p w steps a w') : Runs perform p w steps a w' := by
  induction p generalizing w steps with
  | ret result => exact h
  | ask op next ih =>
      obtain ⟨answer, w₁, rest, hperform, hsteps, hrest⟩ := h
      exact ⟨answer, w₁, rest, (restrict_eq_some.mp hperform).2, hsteps, ih answer hrest⟩

theorem reaches_of_restrict {p : Program Op Ans α} {w : W} {Φ : α → W → Prop}
    (h : Reaches (restrict given perform) p w Φ) : Reaches perform p w Φ := by
  obtain ⟨steps, a, w', hrun, hΦ⟩ := h
  exact ⟨steps, a, w', runs_of_restrict hrun, hΦ⟩

end Semantics

end Interaction
