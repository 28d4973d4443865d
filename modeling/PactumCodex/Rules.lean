import PactumCodex.World

/-!
# Rules for the building blocks of handlers

How the combinators that handlers are written with issue operations, run and
assure.  Handlers are taken apart with these rules and `runs_bind_ok`,
`runs_bind_error`, `ensures_run_bind`, `assures_run_bind`, never by unfolding the
combinators.

The rules of `Lib/Fallible` hold for any operations.  Here they are specialised to
the backend: `query` is a statement whose failure becomes an error of the handler,
`ask` an operation that cannot fail, `ensure` and `okOr` are the checks of a handler,
and `logged` runs a handler whose error is only logged.
-/

namespace PactumCodex

open Interaction

/-! ## Operations issued -/

section Issues

variable {allowed : Op → Prop} {α : Type}

@[simp] theorem issues_issue {op : Op} :
    (Program.issue op : Backend op.Ans).Issues allowed ↔ allowed op := by
  simp [Program.issue, Program.Issues]

@[simp] theorem issues_sql {s : Stmt} : (sql s).Issues allowed ↔ allowed (.sql s) := issues_issue

@[simp] theorem issues_ret {a : α} : (Program.ret a : Backend α).Issues allowed := trivial

@[simp] theorem issues_pure {a : α} : (pure a : Backend α).Issues allowed := trivial

@[simp] theorem issues_run_pure {a : α} : (pure a : Handler α).run.Issues allowed := trivial

@[simp] theorem issues_ask {op : Op} : (Handler.ask op).run.Issues allowed ↔ allowed op :=
  ⟨fun h => h.1, fun h => ⟨h, fun _ => trivial⟩⟩

theorem issues_orFail {e : AppError} {p : Backend (Except Failure α)} (hp : p.Issues allowed) :
    (Handler.orFail e p).run.Issues allowed := by
  refine Program.issues_bind hp fun r => ?_
  cases r <;> trivial

@[simp] theorem issues_orFail_issue {e : AppError} {s : TxStmt} {tx : ℕ} :
    (Handler.orFail e (Program.issue (Op.tx tx s))).run.Issues allowed ↔ allowed (.tx tx s) := by
  refine ⟨fun h => h.1, fun h => issues_orFail (issues_issue.mpr h)⟩

@[simp] theorem issues_query {s : Stmt} : (Handler.query s).run.Issues allowed ↔ allowed (.sql s) :=
  ⟨fun h => h.1, fun h => issues_orFail (issues_sql.mpr h)⟩

@[simp] theorem issues_okOr {e : AppError} {o : Option α} :
    (Handler.okOr e o).run.Issues allowed := by
  cases o <;> trivial

theorem issues_okOr_bind {β : Type} {e : AppError} {o : Option α} {f : α → Handler β}
    (h : ∀ a, o = some a → (f a).run.Issues allowed) :
    (Handler.okOr e o >>= f).run.Issues allowed := by
  cases o with
  | none => trivial
  | some a => exact h a rfl

@[simp] theorem issues_ofExcept {r : Except AppError α} :
    (Handler.ofExcept r).run.Issues allowed := by
  cases r <;> trivial

@[simp] theorem issues_ensure {condition : Prop} [Decidable condition] {e : AppError} :
    (Handler.ensure condition e).run.Issues allowed := by
  unfold Handler.ensure
  split <;> trivial

theorem issues_logged {x : Handler α} (hx : x.run.Issues allowed) :
    (Handler.logged x).Issues allowed :=
  Program.issues_bind hx fun _ => trivial

end Issues

/-! ## Runs -/

section Runs

variable {α : Type} {w w' : World} {steps : List BackendStep}

@[simp] theorem runs_run_pure {a : α} {r : Except AppError α} :
    Runs perform (pure a : Handler α).run w steps r w' ↔ steps = [] ∧ r = .ok a ∧ w' = w := Iff.rfl

@[simp] theorem runs_run_throw {e : AppError} {r : Except AppError α} :
    Runs perform (throw e : Handler α).run w steps r w' ↔ steps = [] ∧ r = .error e ∧ w' = w :=
  Iff.rfl

@[simp] theorem runs_ask_ok {op : Op} {a : op.Ans} :
    Runs perform (Handler.ask op).run w steps (.ok a) w' ↔
      perform op a w = some w' ∧ steps = [⟨w, op, a, w'⟩] := by
  rw [Handler.ask, run_lift_eq, runs_bind]
  constructor
  · rintro ⟨b, w₁, first, second, rfl, hfirst, rfl, h, rfl⟩
    obtain ⟨hperform, rfl⟩ := runs_issue.mp hfirst
    rw [Except.ok.injEq] at h
    subst h
    exact ⟨hperform, rfl⟩
  · rintro ⟨hperform, rfl⟩
    exact ⟨a, w', _, [], by simp, runs_issue.mpr ⟨hperform, rfl⟩, rfl, rfl, rfl⟩

@[simp] theorem runs_ask_error {op : Op} {e : AppError} :
    ¬ Runs perform (Handler.ask op).run w steps (.error e) w' := by
  rw [Handler.ask, run_lift_eq, runs_bind]
  rintro ⟨b, w₁, first, second, -, -, -, h, -⟩
  simp at h

@[simp] theorem runs_orFail_ok {e : AppError} {p : Backend (Except Failure α)} {a : α} :
    Runs perform (Handler.orFail e p).run w steps (.ok a) w' ↔
      Runs perform p w steps (.ok a) w' := by
  show Runs perform (p >>= _) w steps (Except.ok a) w' ↔ _
  rw [runs_bind]
  constructor
  · rintro ⟨r, w₁, first, second, rfl, hfirst, hsecond⟩
    cases r with
    | ok b =>
        obtain ⟨rfl, h, rfl⟩ := hsecond
        rw [Except.ok.injEq] at h
        subst h
        simpa using hfirst
    | error f => exact absurd hsecond.2.1 (by simp)
  · intro h
    exact ⟨.ok a, w', steps, [], by simp, h, rfl, rfl, rfl⟩

@[simp] theorem runs_orFail_error {e e' : AppError} {p : Backend (Except Failure α)} :
    Runs perform (Handler.orFail e p).run w steps (.error e') w' ↔
      e' = e ∧ ∃ f, Runs perform p w steps (.error f) w' := by
  show Runs perform (p >>= _) w steps (Except.error e') w' ↔ _
  rw [runs_bind]
  constructor
  · rintro ⟨r, w₁, first, second, rfl, hfirst, hsecond⟩
    cases r with
    | ok b => exact absurd hsecond.2.1 (by simp)
    | error f =>
        obtain ⟨rfl, h, rfl⟩ := hsecond
        rw [Except.error.injEq] at h
        exact ⟨h, f, by simpa using hfirst⟩
  · rintro ⟨rfl, f, h⟩
    exact ⟨.error f, w', steps, [], by simp, h, rfl, rfl, rfl⟩

@[simp] theorem runs_query_ok {s : Stmt} {out : s.Out} :
    Runs perform (Handler.query s).run w steps (.ok out) w' ↔
      performSql s out w = some w' ∧ steps = [⟨w, .sql s, .ok out, w'⟩] := by
  rw [Handler.query, runs_orFail_ok]
  exact runs_issue

@[simp] theorem runs_query_error {s : Stmt} {e : AppError} :
    Runs perform (Handler.query s).run w steps (.error e) w' ↔
      e = .internalError ∧ w' = w ∧ steps = [⟨w, .sql s, .error .failed, w⟩] := by
  rw [Handler.query, runs_orFail_error]
  constructor
  · rintro ⟨rfl, f, h⟩
    obtain ⟨hperform, rfl⟩ := runs_issue.mp h
    cases f
    simp only [perform, Option.some.injEq] at hperform
    subst hperform
    exact ⟨rfl, rfl, rfl⟩
  · rintro ⟨rfl, rfl, rfl⟩
    exact ⟨rfl, .failed, runs_issue.mpr ⟨rfl, rfl⟩⟩

@[simp] theorem runs_okOr_ok {e : AppError} {o : Option α} {a : α} :
    Runs perform (Handler.okOr e o).run w steps (.ok a) w' ↔ o = some a ∧ steps = [] ∧ w' = w := by
  cases o with
  | none => simp [Handler.okOr]
  | some b => simp [Handler.okOr, eq_comm, and_left_comm]

@[simp] theorem runs_okOr_error {e e' : AppError} {o : Option α} :
    Runs perform (Handler.okOr e o).run w steps (.error e') w' ↔
      o = none ∧ e' = e ∧ steps = [] ∧ w' = w := by
  cases o with
  | none => simp [Handler.okOr, and_left_comm]
  | some b => simp [Handler.okOr]

@[simp] theorem runs_ofExcept {r r' : Except AppError α} :
    Runs perform (Handler.ofExcept r).run w steps r' w' ↔ r' = r ∧ steps = [] ∧ w' = w := by
  cases r <;> simp [Handler.ofExcept, and_left_comm]

@[simp] theorem runs_ensure_ok {condition : Prop} [Decidable condition] {e : AppError} {u : Unit} :
    Runs perform (Handler.ensure condition e).run w steps (.ok u) w' ↔
      condition ∧ steps = [] ∧ w' = w := by
  unfold Handler.ensure
  split
  · simp [*]
  · simp [*]

theorem runs_logged {x : Handler α} {u : Unit} :
    Runs perform (Handler.logged x) w steps u w' ↔ ∃ r, Runs perform x.run w steps r w' := by
  unfold Handler.logged
  rw [runs_bind]
  constructor
  · rintro ⟨r, w₁, first, second, rfl, hfirst, rfl, -, rfl⟩
    exact ⟨r, by simpa using hfirst⟩
  · rintro ⟨r, h⟩
    exact ⟨r, w', steps, [], by simp, h, rfl, rfl, rfl⟩

end Runs

/-! ## Postconditions -/

section Postconditions

variable {α β : Type} {w : World} {Φ : Except AppError β → World → Prop}

theorem ensures_orFail {e : AppError} {p : Backend (Except Failure α)}
    {Ψ : Except AppError α → World → Prop}
    (h : Ensures perform p w fun r w' =>
      match r with
      | .ok a => Ψ (.ok a) w'
      | .error _ => Ψ (.error e) w') :
    Ensures perform (Handler.orFail e p).run w Ψ := by
  refine ensures_bind (h.mono fun r w' hr => ?_)
  cases r <;> exact ensures_ret hr

theorem ensures_query {s : Stmt} {Ψ : Except AppError s.Out → World → Prop}
    (hok : ∀ out w', performSql s out w = some w' → Ψ (.ok out) w')
    (herror : Ψ (.error .internalError) w) : Ensures perform (Handler.query s).run w Ψ := by
  refine ensures_orFail (ensures_issue fun answer w' hperform => ?_)
  cases answer with
  | ok out => exact hok out w' hperform
  | error f =>
      obtain rfl : w = w' := Option.some.inj hperform
      exact herror

theorem ensures_query_bind {s : Stmt} {f : s.Out → Handler β}
    (hok : ∀ out w', performSql s out w = some w' → Ensures perform (f out).run w' Φ)
    (herror : Φ (.error .internalError) w) :
    Ensures perform (Handler.query s >>= f).run w Φ := by
  rw [run_bind_eq]
  refine ensures_bind (ensures_query (fun out w' hperform => ?_) ?_)
  · exact hok out w' hperform
  · exact ensures_ret herror

theorem ensures_ask_bind {op : Op} {f : op.Ans → Handler β}
    (h : ∀ answer w', perform op answer w = some w' → Ensures perform (f answer).run w' Φ) :
    Ensures perform (Handler.ask op >>= f).run w Φ := by
  rw [run_bind_eq]
  exact ensures_bind (ensures_bind (ensures_issue fun answer w' hperform =>
    ensures_ret (h answer w' hperform)))

theorem ensures_okOr_bind {e : AppError} {o : Option α} {f : α → Handler β}
    (hsome : ∀ a, o = some a → Ensures perform (f a).run w Φ) (hnone : Φ (.error e) w) :
    Ensures perform (Handler.okOr e o >>= f).run w Φ := by
  cases o with
  | none => exact ensures_ret hnone
  | some a => exact hsome a rfl

theorem ensures_ofExcept_bind {r : Except AppError α} {f : α → Handler β}
    (hok : ∀ a, r = .ok a → Ensures perform (f a).run w Φ)
    (herror : ∀ e, r = .error e → Φ (.error e) w) :
    Ensures perform (Handler.ofExcept r >>= f).run w Φ := by
  cases r with
  | ok a => exact hok a rfl
  | error e => exact ensures_ret (herror e rfl)

theorem reaches_orFail {e : AppError} {p : Backend (Except Failure α)}
    {Ψ : Except AppError α → World → Prop}
    (h : Reaches perform p w fun r w' => ∃ a, r = .ok a ∧ Ψ (.ok a) w') :
    Reaches perform (Handler.orFail e p).run w Ψ := by
  obtain ⟨steps, r, w', hrun, a, rfl, hΨ⟩ := h
  exact ⟨steps, .ok a, w', runs_orFail_ok.mpr hrun, hΨ⟩

theorem reaches_okOr_bind {e : AppError} {o : Option α} {a : α} {f : α → Handler β}
    (ho : o = some a) (h : Reaches perform (f a).run w Φ) :
    Reaches perform (Handler.okOr e o >>= f).run w Φ := by
  subst ho
  exact h

theorem reaches_ofExcept_bind {r : Except AppError α} {a : α} {f : α → Handler β}
    (hr : r = .ok a) (h : Reaches perform (f a).run w Φ) :
    Reaches perform (Handler.ofExcept r >>= f).run w Φ := by
  subst hr
  exact h

end Postconditions

/-! ## Assurances -/

section Assurances

variable {rely : World → World → Prop} {cond guarantee : BackendStep → Prop}

/-- A query either fails, leaving the world as it is, or succeeds. -/
theorem assures_query {s : Stmt} {w : World} {Φ : Except AppError s.Out → World → Prop} :
    Assures perform rely cond guarantee (Handler.query s).run w Φ ↔ ∀ w₁, rely w w₁ →
      (∀ out w₂, performSql s out w₁ = some w₂ → cond ⟨w₁, .sql s, .ok out, w₂⟩ →
        guarantee ⟨w₁, .sql s, .ok out, w₂⟩ ∧ Φ (.ok out) w₂) ∧
      (cond ⟨w₁, .sql s, .error .failed, w₁⟩ →
        guarantee ⟨w₁, .sql s, .error .failed, w₁⟩ ∧ Φ (.error .internalError) w₁) := by
  constructor
  · intro h w₁ hrely
    exact ⟨fun out w₂ hperform => h w₁ hrely (.ok out) w₂ hperform,
      h w₁ hrely (.error .failed) w₁ rfl⟩
  · intro h w₁ hrely answer w₂ hperform hcond
    cases answer with
    | ok out => exact (h w₁ hrely).1 out w₂ hperform hcond
    | error f =>
        cases f
        obtain rfl : w₁ = w₂ := Option.some.inj hperform
        exact (h w₁ hrely).2 hcond

theorem assures_query_bind {β : Type} {s : Stmt} {f : s.Out → Handler β} {w : World}
    {Φ : Except AppError β → World → Prop}
    (h : ∀ w₁, rely w w₁ →
      (∀ out w₂, performSql s out w₁ = some w₂ → cond ⟨w₁, .sql s, .ok out, w₂⟩ →
        guarantee ⟨w₁, .sql s, .ok out, w₂⟩ ∧
          Assures perform rely cond guarantee (f out).run w₂ Φ) ∧
      (cond ⟨w₁, .sql s, .error .failed, w₁⟩ →
        guarantee ⟨w₁, .sql s, .error .failed, w₁⟩ ∧ Φ (.error .internalError) w₁)) :
    Assures perform rely cond guarantee (Handler.query s >>= f).run w Φ :=
  assures_run_bind.mpr (assures_query.mpr h)

theorem assures_okOr_bind {α β : Type} {e : AppError} {o : Option α} {f : α → Handler β} {w : World}
    {Φ : Except AppError β → World → Prop}
    (hsome : ∀ a, o = some a → Assures perform rely cond guarantee (f a).run w Φ)
    (hnone : Φ (.error e) w) :
    Assures perform rely cond guarantee (Handler.okOr e o >>= f).run w Φ := by
  cases o with
  | none => exact hnone
  | some a => exact hsome a rfl

theorem assures_ensure_bind {β : Type} {condition : Prop} [Decidable condition] {e : AppError}
    {f : Unit → Handler β} {w : World} {Φ : Except AppError β → World → Prop}
    (hholds : condition → Assures perform rely cond guarantee (f ()).run w Φ)
    (hfails : Φ (.error e) w) :
    Assures perform rely cond guarantee (Handler.ensure condition e >>= f).run w Φ := by
  unfold Handler.ensure
  split
  · exact hholds ‹_›
  · exact hfails

theorem assures_okOr_ok {α β : Type} {e : AppError} {o : Option α} {f : α → Handler β} {w : World}
    {Ψ : β → World → Prop}
    (h : ∀ a, o = some a → Assures perform rely cond guarantee (f a).run w (OnOk Ψ)) :
    Assures perform rely cond guarantee (Handler.okOr e o >>= f).run w (OnOk Ψ) :=
  assures_okOr_bind h trivial

theorem assures_ensure_ok {β : Type} {condition : Prop} [Decidable condition] {e : AppError}
    {f : Unit → Handler β} {w : World} {Ψ : β → World → Prop}
    (h : condition → Assures perform rely cond guarantee (f ()).run w (OnOk Ψ)) :
    Assures perform rely cond guarantee (Handler.ensure condition e >>= f).run w (OnOk Ψ) :=
  assures_ensure_bind h trivial

theorem assures_ofExcept_ok {α β : Type} {r : Except AppError α} {f : α → Handler β} {w : World}
    {Ψ : β → World → Prop}
    (h : ∀ a, r = .ok a → Assures perform rely cond guarantee (f a).run w (OnOk Ψ)) :
    Assures perform rely cond guarantee (Handler.ofExcept r >>= f).run w (OnOk Ψ) := by
  cases r with
  | ok a => exact h a rfl
  | error e => trivial

end Assurances

end PactumCodex
