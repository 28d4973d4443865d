import PactumCodex.Lib.Pool

/-!
# Programs that can fail

Rules for `ExceptT ε (Program Op Ans)`, where `throw` ends the program: what a
sequential composition issues, how it runs and what it assures.  A composition
whose first part failed is finished, with the error of the first part.

There is a rule for each of the ways in which programs are looked at, and for each
of the combinators that a program is composed of (`ask`, `orFail`, `ofExcept`, `okOr`
and the bind):

* what is issued (`issues_run_…`);
* single executions (`runs_bind_ok`, `runs_bind_error`, `runs_bind_cases`);
* all executions (`ensures_run_…`) and some execution (`reaches_run_…`);
* executions among others (`assures_run_…`).

Proofs about a program apply them along its text, with one goal for what follows a
success and one for the error.
-/

namespace Interaction

variable {Op : Type} {Ans : Op → Type} {W α β ε : Type}

/-- A program that returns a value or an error. -/
abbrev Fallible (Op : Type) (Ans : Op → Type) (ε α : Type) := ExceptT ε (Program Op Ans) α

/-- How a composition goes on after its first part. -/
def continueWith (f : α → Fallible Op Ans ε β) : Except ε α → Program Op Ans (Except ε β)
  | .ok a => (f a).run
  | .error e => .ret (.error e)

namespace Fallible

/-- Issue an operation that cannot fail. -/
def ask (op : Op) : Fallible Op Ans ε (Ans op) := ExceptT.lift (.issue op)

/-- Replace the failure of a program by an error. -/
def orFail {δ : Type} (e : ε) (p : Program Op Ans (Except δ α)) : Fallible Op Ans ε α :=
  ExceptT.mk do
    match ← p with
    | .ok a => return .ok a
    | .error _ => return .error e

/-- Use the value of a computation that may have failed. -/
def ofExcept : Except ε α → Fallible Op Ans ε α
  | .ok a => pure a
  | .error e => throw e

/-- The value of an option, or an error. -/
def okOr (e : ε) : Option α → Fallible Op Ans ε α
  | some a => pure a
  | none => throw e

end Fallible

section Composition

variable {x : Fallible Op Ans ε α} {f : α → Fallible Op Ans ε β}

theorem run_bind_eq : (x >>= f).run = x.run >>= continueWith f := by
  show Program.bind x _ = Program.bind x _
  congr 1
  funext r
  cases r <;> rfl

@[simp] theorem run_pure_eq (a : α) : (pure a : Fallible Op Ans ε α).run = .ret (.ok a) := rfl

@[simp] theorem run_throw_eq (e : ε) : (throw e : Fallible Op Ans ε α).run = .ret (.error e) := rfl

theorem run_lift_eq (p : Program Op Ans α) :
    (ExceptT.lift p : Fallible Op Ans ε α).run = p >>= fun a => .ret (.ok a) := rfl

theorem issues_run_bind {allowed : Op → Prop} (hx : x.run.Issues allowed)
    (hf : ∀ a, (f a).run.Issues allowed) : (x >>= f).run.Issues allowed := by
  rw [run_bind_eq]
  refine Program.issues_bind hx fun r => ?_
  cases r with
  | ok a => exact hf a
  | error e => trivial

theorem issues_run_lift {allowed : Op → Prop} {p : Program Op Ans α} (hp : p.Issues allowed) :
    (ExceptT.lift p : Fallible Op Ans ε α).run.Issues allowed :=
  Program.issues_bind hp fun _ => trivial

/-! ### Operations issued by the combinators -/

section Combinators

variable {allowed : Op → Prop} {e : ε}

theorem issues_run_ask {op : Op} (h : allowed op) :
    (Fallible.ask op : Fallible Op Ans ε (Ans op)).run.Issues allowed :=
  ⟨h, fun _ => trivial⟩

theorem issues_run_orFail {δ : Type} {p : Program Op Ans (Except δ α)} (h : p.Issues allowed) :
    (Fallible.orFail e p).run.Issues allowed := by
  refine Program.issues_bind h fun r => ?_
  cases r <;> trivial

theorem issues_run_ofExcept {r : Except ε α} :
    (Fallible.ofExcept r : Fallible Op Ans ε α).run.Issues allowed := by
  cases r <;> trivial

theorem issues_run_okOr {o : Option α} :
    (Fallible.okOr e o : Fallible Op Ans ε α).run.Issues allowed := by
  cases o <;> trivial

end Combinators

variable {perform : (op : Op) → Ans op → W → Option W}

/-- A program that cannot fail runs as it does on its own. -/
theorem runs_run_lift {p : Program Op Ans α} {w w' : W} {r : Except ε α}
    {steps : List (Step Op Ans W)} :
    Runs perform (ExceptT.lift p : Fallible Op Ans ε α).run w steps r w' ↔
      ∃ a, r = .ok a ∧ Runs perform p w steps a w' := by
  rw [run_lift_eq, runs_bind]
  constructor
  · rintro ⟨a, w₁, first, second, rfl, hfirst, rfl, rfl, rfl⟩
    exact ⟨a, rfl, by simpa using hfirst⟩
  · rintro ⟨a, rfl, h⟩
    exact ⟨a, w', steps, [], by simp, h, rfl, rfl, rfl⟩

/-- A composition succeeds by both parts succeeding. -/
theorem runs_bind_ok {w w' : W} {b : β} {steps : List (Step Op Ans W)} :
    Runs perform (x >>= f).run w steps (.ok b) w' ↔ ∃ a w₁ first second,
      steps = first ++ second ∧ Runs perform x.run w first (.ok a) w₁ ∧
        Runs perform (f a).run w₁ second (.ok b) w' := by
  rw [run_bind_eq, runs_bind]
  constructor
  · rintro ⟨r, w₁, first, second, hsteps, hfirst, hsecond⟩
    cases r with
    | ok a => exact ⟨a, w₁, first, second, hsteps, hfirst, hsecond⟩
    | error e => exact absurd hsecond.2.1 (by simp)
  · rintro ⟨a, w₁, first, second, hsteps, hfirst, hsecond⟩
    exact ⟨.ok a, w₁, first, second, hsteps, hfirst, hsecond⟩

/-- A composition fails in its first or in its second part. -/
theorem runs_bind_error {w w' : W} {e : ε} {steps : List (Step Op Ans W)} :
    Runs perform (x >>= f).run w steps (.error e) w' ↔
      Runs perform x.run w steps (.error e) w' ∨ ∃ a w₁ first second,
        steps = first ++ second ∧ Runs perform x.run w first (.ok a) w₁ ∧
          Runs perform (f a).run w₁ second (.error e) w' := by
  rw [run_bind_eq, runs_bind]
  constructor
  · rintro ⟨r, w₁, first, second, rfl, hfirst, hsecond⟩
    cases r with
    | ok a => exact Or.inr ⟨a, w₁, first, second, rfl, hfirst, hsecond⟩
    | error e' =>
        obtain ⟨rfl, he, rfl⟩ := hsecond
        rw [Except.error.injEq] at he
        subst he
        exact Or.inl (by simpa using hfirst)
  · rintro (hfirst | ⟨a, w₁, first, second, rfl, hfirst, hsecond⟩)
    · exact ⟨.error e, w', steps, [], by simp, hfirst, rfl, rfl, rfl⟩
    · exact ⟨.ok a, w₁, first, second, rfl, hfirst, hsecond⟩

/-- A composition ends with an error of its first part, or goes on after a success of it. -/
theorem runs_bind_cases {w w' : W} {r : Except ε β} {steps : List (Step Op Ans W)}
    (h : Runs perform (x >>= f).run w steps r w') :
    (∃ e, r = .error e ∧ Runs perform x.run w steps (.error e) w') ∨
      ∃ a w₁ first second, steps = first ++ second ∧ Runs perform x.run w first (.ok a) w₁ ∧
        Runs perform (f a).run w₁ second r w' := by
  cases r with
  | ok b => exact Or.inr (runs_bind_ok.mp h)
  | error e =>
      rcases runs_bind_error.mp h with hfirst | hsecond
      · exact Or.inl ⟨e, rfl, hfirst⟩
      · exact Or.inr hsecond

/-- After a success of the first part the second one goes on; an error ends both. -/
theorem ensures_run_bind {w : W} {Φ : Except ε β → W → Prop} {Ψ : Except ε α → W → Prop}
    (hx : Ensures perform x.run w Ψ)
    (hok : ∀ a w', Ψ (.ok a) w' → Ensures perform (f a).run w' Φ)
    (herror : ∀ e w', Ψ (.error e) w' → Φ (.error e) w') : Ensures perform (x >>= f).run w Φ := by
  rw [run_bind_eq]
  refine ensures_bind (hx.mono fun r w' hr => ?_)
  cases r with
  | ok a => exact hok a w' hr
  | error e => exact ensures_ret (herror e w' hr)

/-- A composition reaches what its second part reaches after a success of the first. -/
theorem reaches_run_bind {w : W} {Φ : Except ε β → W → Prop}
    (h : Reaches perform x.run w fun r w' => ∃ a, r = .ok a ∧ Reaches perform (f a).run w' Φ) :
    Reaches perform (x >>= f).run w Φ := by
  rw [run_bind_eq]
  obtain ⟨steps, r, w', hrun, a, rfl, hf⟩ := h
  exact reaches_bind ⟨steps, .ok a, w', hrun, hf⟩

section First

variable {w : W} {Φ : Except ε β → W → Prop} {op : Op} {δ : Type} {e : ε}
variable {p : Program Op Ans (Except δ α)}

theorem ensures_run_ask_bind {f : Ans op → Fallible Op Ans ε β}
    (h : ∀ answer w', perform op answer w = some w' → Ensures perform (f answer).run w' Φ) :
    Ensures perform (Fallible.ask op >>= f).run w Φ := by
  show Ensures perform (.issue op >>= fun answer => (f answer).run) w Φ
  exact ensures_bind (ensures_issue h)

theorem ensures_run_orFail {Ψ : Except ε α → W → Prop}
    (h : Ensures perform p w fun r w' => (∀ a, r = .ok a → Ψ (.ok a) w') ∧
      ∀ x, r = .error x → Ψ (.error e) w') : Ensures perform (Fallible.orFail e p).run w Ψ := by
  refine ensures_bind (h.mono fun r w' hr => ?_)
  cases r with
  | ok a => exact ensures_ret (hr.1 a rfl)
  | error x => exact ensures_ret (hr.2 x rfl)

theorem ensures_run_orFail_bind
    (h : Ensures perform p w fun r w' => (∀ a, r = .ok a → Ensures perform (f a).run w' Φ) ∧
      ∀ x, r = .error x → Φ (.error e) w') :
    Ensures perform (Fallible.orFail e p >>= f).run w Φ := by
  rw [run_bind_eq]
  refine ensures_bind (ensures_run_orFail (h.mono fun r w' hr => ⟨hr.1, fun x hx => ?_⟩))
  exact ensures_ret (hr.2 x hx)

theorem ensures_run_ofExcept_bind {r : Except ε α}
    (hok : ∀ a, r = .ok a → Ensures perform (f a).run w Φ)
    (herror : ∀ x, r = .error x → Φ (.error x) w) :
    Ensures perform (Fallible.ofExcept r >>= f).run w Φ := by
  cases r with
  | ok a => exact hok a rfl
  | error x => exact ensures_ret (herror x rfl)

theorem reaches_run_ask_bind {w' : W} {f : Ans op → Fallible Op Ans ε β} (answer : Ans op)
    (hperform : perform op answer w = some w') (h : Reaches perform (f answer).run w' Φ) :
    Reaches perform (Fallible.ask op >>= f).run w Φ := by
  show Reaches perform (.issue op >>= fun answer => (f answer).run) w Φ
  exact reaches_bind (reaches_issue answer hperform h)

theorem reaches_run_orFail_bind
    (h : Reaches perform p w fun r w' => ∃ a, r = .ok a ∧ Reaches perform (f a).run w' Φ) :
    Reaches perform (Fallible.orFail e p >>= f).run w Φ := by
  obtain ⟨steps, r, w', hrun, a, rfl, hf⟩ := h
  rw [run_bind_eq]
  exact reaches_bind (reaches_bind ⟨steps, .ok a, w', hrun, reaches_ret hf⟩)

end First

variable {rely : W → W → Prop} {cond guarantee : Step Op Ans W → Prop}

/-- A composition assures what its first part assures, and what its second part
assures after a success of the first. -/
theorem assures_run_bind {w : W} {Φ : Except ε β → W → Prop} :
    Assures perform rely cond guarantee (x >>= f).run w Φ ↔
      Assures perform rely cond guarantee x.run w fun r w' =>
        Assures perform rely cond guarantee (continueWith f r) w' Φ := by
  rw [run_bind_eq, assures_bind]

/-- The result is an error, or satisfies `Ψ`. -/
def OnOk (Ψ : α → W → Prop) : Except ε α → W → Prop
  | .ok a, w => Ψ a w
  | .error _, _ => True

/-- A program that cannot fail. -/
theorem assures_run_lift {p : Program Op Ans α} {w : W} {Ψ : α → W → Prop}
    (hp : Assures perform rely cond guarantee p w Ψ) :
    Assures perform rely cond guarantee (ExceptT.lift p : Fallible Op Ans ε α).run w (OnOk Ψ) :=
  assures_bind.mpr hp

/-- After a success of the first part the second one goes on. -/
theorem assures_ok_bind {w : W} {Ψ : α → W → Prop} {Ψ' : β → W → Prop}
    (hx : Assures perform rely cond guarantee x.run w (OnOk Ψ))
    (hf : ∀ a w', Ψ a w' → Assures perform rely cond guarantee (f a).run w' (OnOk Ψ')) :
    Assures perform rely cond guarantee (x >>= f).run w (OnOk Ψ') := by
  refine assures_run_bind.mpr (hx.mono fun r w' hr => ?_)
  cases r with
  | ok a => exact hf a w' hr
  | error e => trivial

end Composition

end Interaction
