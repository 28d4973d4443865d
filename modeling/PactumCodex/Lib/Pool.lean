import PactumCodex.Lib.Interaction

/-!
# Interleaved programs

A `Pool` is a world shared by any number of running programs.  A scheduling
step starts a further program, lets one program issue its next operation, or
drops a program in the middle (its process died).  `PoolRun` lists the
operations performed along the way, each with the world before and after it.

Two rules are proved about every interleaving.

* `PoolRun.chain` and its consequences need no program logic: what a single
  step preserves, the whole run preserves.
* `PoolRun.assured` is for properties that depend on what a program has read
  before.  `Assures rely cond guarantee p w Φ` says that `p`, left to run from
  `w` while the others change the world along `rely`, only takes steps
  satisfying `guarantee`, as long as all of its steps satisfy `cond`.

## Chains

A chain forgets the programs and keeps the worlds.  `Chain.invariant` is the
induction on its steps, `Chain.related` the same for a preorder between the first
world and the last.  `Chain.keys_nodup` is the form in which this is used for
what happens once: a step uses a key only before it is spent and spends it.

## Assurances

`Assures` is defined by recursion on the program, so a program is verified along
its text: `assures_bind` composes, `assures_of_issues` covers a part of which only
the operations matter, and `Assures.weaken` passes to a weaker guarantee.  The
guarantee rule asks that every guaranteed step is one the others rely on; its
proof keeps, for each program of the pool, the assurance of what is left of it.
-/

namespace Interaction

variable {Op : Type} {Ans : Op → Type} {W α β : Type}

/-- A shared world and the programs running in it. -/
structure Pool (Op : Type) (Ans : Op → Type) (W : Type) where
  world : W
  threads : List (Program Op Ans Unit)

section Scheduling

variable (perform : (op : Op) → Ans op → W → Option W)
variable (Entry : Program Op Ans Unit → Prop)

/-- The runs of a pool in which every program started satisfies `Entry`. -/
inductive PoolRun (start : Pool Op Ans W) : List (Step Op Ans W) → Pool Op Ans W → Prop
  | refl : PoolRun start [] start
  | spawn {steps : List (Step Op Ans W)} {pool : Pool Op Ans W} (p : Program Op Ans Unit) :
      PoolRun start steps pool → Entry p →
      PoolRun start steps ⟨pool.world, pool.threads ++ [p]⟩
  | step {steps : List (Step Op Ans W)} {pool : Pool Op Ans W} (i : ℕ) (op : Op)
      (next : Ans op → Program Op Ans Unit) (answer : Ans op) (w' : W) :
      PoolRun start steps pool → pool.threads[i]? = some (.ask op next) →
      perform op answer pool.world = some w' →
      PoolRun start (steps ++ [⟨pool.world, op, answer, w'⟩]) ⟨w', pool.threads.set i (next answer)⟩
  | drop {steps : List (Step Op Ans W)} {pool : Pool Op Ans W} (i : ℕ) :
      PoolRun start steps pool → PoolRun start steps ⟨pool.world, pool.threads.eraseIdx i⟩

/-- A list of steps that leads from `w` to `w'`. -/
inductive Chain : W → List (Step Op Ans W) → W → Prop
  | nil (w : W) : Chain w [] w
  | cons {step : Step Op Ans W} {steps : List (Step Op Ans W)} {w' : W} :
      step.Valid perform → Chain step.post steps w' → Chain step.pre (step :: steps) w'

variable {perform Entry}

theorem Chain.append {w w₁ w' : W} {first second : List (Step Op Ans W)}
    (hfirst : Chain perform w first w₁) (hsecond : Chain perform w₁ second w') :
    Chain perform w (first ++ second) w' := by
  induction hfirst with
  | nil => exact hsecond
  | cons hvalid _ ih => exact .cons hvalid (ih hsecond)

/-- The steps of a pool run form a chain of worlds. -/
theorem PoolRun.chain {start pool : Pool Op Ans W} {steps : List (Step Op Ans W)}
    (h : PoolRun perform Entry start steps pool) :
    Chain perform start.world steps pool.world := by
  induction h with
  | refl => exact .nil _
  | spawn p _ _ ih => exact ih
  | step i op next answer w' _ _ hperform ih =>
      have hvalid : Step.Valid perform ⟨_, op, answer, w'⟩ := hperform
      exact ih.append (.cons hvalid (.nil _))
  | drop i _ ih => exact ih

/-- The steps of a complete execution form a chain of worlds. -/
theorem Runs.chain {p : Program Op Ans α} {w w' : W} {a : α} {steps : List (Step Op Ans W)}
    (h : Runs perform p w steps a w') : Chain perform w steps w' := by
  induction p generalizing w steps with
  | ret result =>
      obtain ⟨rfl, -, rfl⟩ := h
      exact .nil _
  | ask op next ih =>
      obtain ⟨answer, w₁, rest, hperform, rfl, hrest⟩ := h
      have hvalid : Step.Valid perform ⟨w, op, answer, w₁⟩ := hperform
      exact .cons hvalid (ih answer hrest)

/-- The steps of an interrupted execution form a chain of worlds. -/
theorem Stops.chain {p : Program Op Ans α} {w w' : W} {steps : List (Step Op Ans W)}
    (h : Stops perform p w steps w') : Chain perform w steps w' := by
  induction p generalizing w steps with
  | ret result =>
      obtain ⟨rfl, rfl⟩ := h
      exact .nil _
  | ask op next ih =>
      rcases h with ⟨rfl, rfl⟩ | ⟨answer, w₁, rest, hperform, rfl, hrest⟩
      · exact .nil _
      · have hvalid : Step.Valid perform ⟨w, op, answer, w₁⟩ := hperform
        exact .cons hvalid (ih answer hrest)

theorem Chain.valid {w w' : W} {steps : List (Step Op Ans W)} (h : Chain perform w steps w') :
    ∀ step ∈ steps, step.Valid perform := by
  induction h with
  | nil => simp
  | cons hvalid _ ih => exact List.forall_mem_cons.mpr ⟨hvalid, ih⟩

/-- Cutting a chain at one of its steps. -/
theorem Chain.split {w w' : W} {before after : List (Step Op Ans W)} {step : Step Op Ans W}
    (h : Chain perform w (before ++ step :: after) w') :
    Chain perform w before step.pre ∧ step.Valid perform ∧ Chain perform step.post after w' := by
  induction before generalizing w with
  | nil =>
      cases h with
      | cons hvalid hrest => exact ⟨.nil _, hvalid, hrest⟩
  | cons first before ih =>
      cases h with
      | cons hvalid hrest =>
          obtain ⟨hbefore, hstep, hafter⟩ := ih hrest
          exact ⟨.cons hvalid hbefore, hstep, hafter⟩

/-- **Invariant rule.**  What every step of the chain preserves holds in every
world it visits. -/
theorem Chain.invariant (Inv : W → Prop) {w w' : W} {steps : List (Step Op Ans W)}
    (h : Chain perform w steps w') (hinit : Inv w)
    (hstep : ∀ step ∈ steps, step.Valid perform → Inv step.pre → Inv step.post) :
    Inv w' ∧ ∀ step ∈ steps, Inv step.pre ∧ Inv step.post := by
  induction h with
  | nil => exact ⟨hinit, by simp⟩
  | cons hvalid _ ih =>
      have hpost := hstep _ List.mem_cons_self hvalid hinit
      obtain ⟨hfinal, hall⟩ := ih hpost fun step hmem => hstep step (List.mem_cons_of_mem _ hmem)
      exact ⟨hfinal, List.forall_mem_cons.mpr ⟨⟨hinit, hpost⟩, hall⟩⟩

/-- **Once rule.**  If a step can use a key only before it is spent and spends it, and spent keys
stay spent, then a chain uses every key at most once. -/
theorem Chain.keys_nodup {κ : Type} {key : Step Op Ans W → Option κ} (Spent : κ → W → Prop)
    (huses : ∀ (step : Step Op Ans W) k, step.Valid perform → key step = some k →
      ¬ Spent k step.pre ∧ Spent k step.post)
    (hkept : ∀ (step : Step Op Ans W) k, step.Valid perform → Spent k step.pre → Spent k step.post)
    {w w' : W} {steps : List (Step Op Ans W)} (h : Chain perform w steps w') :
    (steps.filterMap key).Nodup ∧ ∀ k, Spent k w → k ∉ steps.filterMap key := by
  induction h with
  | nil => simp
  | @cons step steps w' hvalid _ ih =>
      obtain ⟨hnodup, hspent⟩ := ih
      have hlater : ∀ k, Spent k step.pre → k ∉ steps.filterMap key :=
        fun k hk => hspent k (hkept step k hvalid hk)
      cases hkey : key step with
      | none =>
          rw [List.filterMap_cons_none hkey]
          exact ⟨hnodup, hlater⟩
      | some k =>
          obtain ⟨hfresh, hpost⟩ := huses step k hvalid hkey
          rw [List.filterMap_cons_some hkey]
          refine ⟨List.nodup_cons.mpr ⟨hspent k hpost, hnodup⟩, fun k' hk' hmem => ?_⟩
          rcases List.mem_cons.mp hmem with rfl | hmem
          · exact hfresh hk'
          · exact hlater k' hk' hmem

/-- If one step at most is marked and all others preserve `Inv`, then the marked one starts with
it. -/
theorem Chain.before_marked (Inv : W → Prop) {marked : Step Op Ans W → Bool} {w w' : W}
    {steps : List (Step Op Ans W)} (h : Chain perform w steps w') (hinit : Inv w)
    (hstep : ∀ step : Step Op Ans W, step.Valid perform → marked step = false → Inv step.pre →
      Inv step.post) (honce : steps.countP marked ≤ 1) :
    ∀ step ∈ steps, marked step = true → Inv step.pre := by
  induction h with
  | nil => simp
  | @cons first steps w' hvalid _ ih =>
      intro step hmem hmarked
      by_cases hfirst : marked first = true
      · rw [List.countP_cons_of_pos hfirst] at honce
        have hnone : steps.countP marked = 0 := by omega
        rcases List.mem_cons.mp hmem with rfl | hmem
        · exact hinit
        · exact absurd hmarked (List.countP_eq_zero.mp hnone step hmem)
      · rw [List.countP_cons_of_neg hfirst] at honce
        have hpost := hstep first hvalid (by simpa using hfirst) hinit
        rcases List.mem_cons.mp hmem with rfl | hmem
        · exact hinit
        · exact ih hpost honce step hmem hmarked

/-- The invariant rule for properties of the world and of the steps that led to it. -/
theorem Chain.invariant_traced (Inv : List (Step Op Ans W) → W → Prop) {w w' : W}
    {past steps : List (Step Op Ans W)} (h : Chain perform w steps w') (hinit : Inv past w)
    (hstep : ∀ past step, step ∈ steps → step.Valid perform → Inv past step.pre →
      Inv (past ++ [step]) step.post) : Inv (past ++ steps) w' := by
  induction h generalizing past with
  | nil => simpa using hinit
  | cons hvalid _ ih =>
      have hpost := hstep past _ List.mem_cons_self hvalid hinit
      have hrest := ih hpost fun past step hmem => hstep past step (List.mem_cons_of_mem _ hmem)
      rwa [List.append_assoc, List.singleton_append] at hrest

/-- A preorder that contains every step contains the whole chain. -/
theorem Chain.related {R : W → W → Prop} (hrefl : ∀ w, R w w)
    (htrans : ∀ w₁ w₂ w₃, R w₁ w₂ → R w₂ w₃ → R w₁ w₃) {w w' : W}
    {steps : List (Step Op Ans W)} (h : Chain perform w steps w')
    (hstep : ∀ step : Step Op Ans W, step.Valid perform → R step.pre step.post) : R w w' := by
  induction h with
  | nil => exact hrefl _
  | cons hvalid _ ih => exact htrans _ _ _ (hstep _ hvalid) ih

end Scheduling

/-! ## Replaying a schedule -/

/-- A scheduling decision; a running program is given a way of answering its operation. -/
inductive Move (Op : Type) (Ans : Op → Type) (W : Type) : Type
  | start (p : Program Op Ans Unit) : Move Op Ans W
  | run (i : ℕ) (answer : (op : Op) → W → Ans op) : Move Op Ans W
  | drop (i : ℕ) : Move Op Ans W

/-- If programs are started and then only take turns, the started ones are these programs. -/
theorem mem_of_start_mem {τ : Type} {programs : List (Program Op Ans Unit)} {turns : List τ}
    {count thread : τ → ℕ} {answer : τ → (op : Op) → W → Ans op} {p : Program Op Ans Unit}
    (h : (.start p : Move Op Ans W) ∈ programs.map .start ++
      turns.flatMap fun turn => List.replicate (count turn) (.run (thread turn) (answer turn))) :
    p ∈ programs := by
  rcases List.mem_append.mp h with hstart | hrun
  · obtain ⟨q, hq, heq⟩ := List.mem_map.mp hstart
    rwa [← Move.start.inj heq]
  · obtain ⟨turn, -, hmove⟩ := List.mem_flatMap.mp hrun
    cases List.eq_of_mem_replicate hmove

section Replay

variable (perform : (op : Op) → Ans op → W → Option W)

/-- Carry out one scheduling decision. -/
def Move.apply (steps : List (Step Op Ans W)) (pool : Pool Op Ans W) :
    Move Op Ans W → Option (List (Step Op Ans W) × Pool Op Ans W)
  | .start p => some (steps, ⟨pool.world, pool.threads ++ [p]⟩)
  | .drop i => some (steps, ⟨pool.world, pool.threads.eraseIdx i⟩)
  | .run i answer =>
      match pool.threads[i]? with
      | some (.ask op next) =>
          match perform op (answer op pool.world) pool.world with
          | some w' => some (steps ++ [⟨pool.world, op, answer op pool.world, w'⟩],
              ⟨w', pool.threads.set i (next (answer op pool.world))⟩)
          | none => none
      | _ => none

/-- Carry out a schedule. -/
def replay : List (Step Op Ans W) → Pool Op Ans W → List (Move Op Ans W) →
    Option (List (Step Op Ans W) × Pool Op Ans W)
  | steps, pool, [] => some (steps, pool)
  | steps, pool, move :: moves =>
      match move.apply perform steps pool with
      | some (steps', pool') => replay steps' pool' moves
      | none => none

variable {perform} {Entry : Program Op Ans Unit → Prop}

theorem Move.apply_run {start pool pool' : Pool Op Ans W} {steps steps' : List (Step Op Ans W)}
    {move : Move Op Ans W} (hentry : ∀ p, move = .start p → Entry p)
    (hrun : PoolRun perform Entry start steps pool)
    (h : move.apply perform steps pool = some (steps', pool')) :
    PoolRun perform Entry start steps' pool' := by
  cases move with
  | start p =>
      simp only [apply, Option.some.injEq, Prod.mk.injEq] at h
      obtain ⟨rfl, rfl⟩ := h
      exact .spawn p hrun (hentry p rfl)
  | drop i =>
      simp only [apply, Option.some.injEq, Prod.mk.injEq] at h
      obtain ⟨rfl, rfl⟩ := h
      exact .drop i hrun
  | run i answer =>
      simp only [apply] at h
      split at h
      · split at h
        · rename_i _ op next hget _ w' hperform
          simp only [Option.some.injEq, Prod.mk.injEq] at h
          obtain ⟨rfl, rfl⟩ := h
          exact .step i op next _ w' hrun hget hperform
        · simp at h
      · simp at h

/-- A replayed schedule is a run. -/
theorem replay_run {start pool pool' : Pool Op Ans W} {steps steps' : List (Step Op Ans W)}
    {moves : List (Move Op Ans W)} (hentry : ∀ p, .start p ∈ moves → Entry p)
    (hrun : PoolRun perform Entry start steps pool)
    (h : replay perform steps pool moves = some (steps', pool')) :
    PoolRun perform Entry start steps' pool' := by
  induction moves generalizing steps pool with
  | nil =>
      simp only [replay, Option.some.injEq, Prod.mk.injEq] at h
      obtain ⟨rfl, rfl⟩ := h
      exact hrun
  | cons move moves ih =>
      simp only [replay] at h
      split at h
      · rename_i steps₁ pool₁ happly
        refine ih (fun p hp => hentry p (List.mem_cons_of_mem _ hp)) ?_ h
        refine Move.apply_run (fun p hp => ?_) hrun happly
        exact hentry p (hp ▸ List.mem_cons_self)
      · simp at h

end Replay

/-! ## What a program assures while others run -/

section Assurance

variable (perform : (op : Op) → Ans op → W → Option W)
variable (rely : W → W → Prop) (cond guarantee : Step Op Ans W → Prop)

/-- From `w`, with interference along `rely` before each operation, the program
only takes steps satisfying `guarantee` while its own steps satisfy `cond`, and
returns with `Φ`. -/
def Assures : Program Op Ans α → W → (α → W → Prop) → Prop
  | .ret result, w, Φ => Φ result w
  | .ask op next, w, Φ => ∀ w₁, rely w w₁ → ∀ answer w₂, perform op answer w₁ = some w₂ →
      cond ⟨w₁, op, answer, w₂⟩ →
        guarantee ⟨w₁, op, answer, w₂⟩ ∧ Assures (next answer) w₂ Φ

variable {perform rely cond guarantee}

@[simp] theorem assures_ret {a : α} {w : W} {Φ : α → W → Prop} :
    Assures perform rely cond guarantee (.ret a) w Φ ↔ Φ a w := Iff.rfl

@[simp] theorem assures_pure {a : α} {w : W} {Φ : α → W → Prop} :
    Assures perform rely cond guarantee (pure a) w Φ ↔ Φ a w := Iff.rfl

theorem assures_bind {p : Program Op Ans α} {f : α → Program Op Ans β} {w : W}
    {Φ : β → W → Prop} :
    Assures perform rely cond guarantee (p >>= f) w Φ ↔
      Assures perform rely cond guarantee p w fun a w' =>
        Assures perform rely cond guarantee (f a) w' Φ := by
  induction p generalizing w with
  | ret a => exact Iff.rfl
  | ask op next ih =>
      constructor
      · intro h w₁ hrely answer w₂ hperform hcond
        obtain ⟨hstep, hrest⟩ := h w₁ hrely answer w₂ hperform hcond
        exact ⟨hstep, (ih answer).mp hrest⟩
      · intro h w₁ hrely answer w₂ hperform hcond
        obtain ⟨hstep, hrest⟩ := h w₁ hrely answer w₂ hperform hcond
        exact ⟨hstep, (ih answer).mpr hrest⟩

theorem Assures.mono {p : Program Op Ans α} {w : W} {Φ Ψ : α → W → Prop}
    (h : Assures perform rely cond guarantee p w Φ) (himp : ∀ a w', Φ a w' → Ψ a w') :
    Assures perform rely cond guarantee p w Ψ := by
  induction p generalizing w with
  | ret a => exact himp a w h
  | ask op next ih =>
      intro w₁ hrely answer w₂ hperform hcond
      obtain ⟨hstep, hrest⟩ := h w₁ hrely answer w₂ hperform hcond
      exact ⟨hstep, ih answer hrest⟩

/-- A program assures what its guarantee implies. -/
theorem Assures.weaken {guarantee' : Step Op Ans W → Prop} {p : Program Op Ans α} {w : W}
    {Φ : α → W → Prop} (h : Assures perform rely cond guarantee p w Φ)
    (himp : ∀ step, guarantee step → guarantee' step) :
    Assures perform rely cond guarantee' p w Φ := by
  induction p generalizing w with
  | ret a => exact h
  | ask op next ih =>
      intro w₁ hrely answer w₂ hperform hcond
      obtain ⟨hstep, hrest⟩ := h w₁ hrely answer w₂ hperform hcond
      exact ⟨himp _ hstep, ih answer hrest⟩

/-- If the operations a program issues are harmless in every world, it assures
the guarantee whatever it has read. -/
theorem assures_of_issues {allowed : Op → Prop} {p : Program Op Ans α} {w : W}
    (hp : p.Issues allowed)
    (hall : ∀ step : Step Op Ans W, allowed step.op → step.Valid perform → cond step →
      guarantee step) :
    Assures perform rely cond guarantee p w fun _ _ => True := by
  induction p generalizing w with
  | ret a => trivial
  | ask op next ih =>
      intro w₁ _ answer w₂ hperform hcond
      exact ⟨hall ⟨w₁, op, answer, w₂⟩ hp.1 hperform hcond, ih answer (hp.2 answer)⟩

/-- If guaranteed steps are relied on, the world a program ends in is related to the one it
started in. -/
theorem Assures.related {p : Program Op Ans α} {w : W} {Φ : α → W → Prop}
    (h : Assures perform rely cond guarantee p w Φ) (hrefl : ∀ w, rely w w)
    (htrans : ∀ w₁ w₂ w₃, rely w₁ w₂ → rely w₂ w₃ → rely w₁ w₃)
    (hrely : ∀ step : Step Op Ans W, guarantee step → rely step.pre step.post) :
    Assures perform rely cond guarantee p w fun a w' => Φ a w' ∧ rely w w' := by
  suffices hfrom : ∀ w₀, rely w₀ w →
      Assures perform rely cond guarantee p w fun a w' => Φ a w' ∧ rely w₀ w' from
    hfrom w (hrefl w)
  induction p generalizing w with
  | ret a =>
      intro w₀ hw₀
      exact ⟨h, hw₀⟩
  | ask op next ih =>
      intro w₀ hw₀ w₁ hrely₁ answer w₂ hperform hcond
      obtain ⟨hstep, hnext⟩ := h w₁ hrely₁ answer w₂ hperform hcond
      have hw₂ : rely w₀ w₂ := htrans _ _ _ (htrans _ _ _ hw₀ hrely₁) (hrely _ hstep)
      exact ⟨hstep, ih answer hnext w₀ hw₂⟩

/-- What is assured holds of every execution without interference, finished or not. -/
theorem Assures.of_stops {p : Program Op Ans α} {w w' : W} {steps : List (Step Op Ans W)}
    {Φ : α → W → Prop} (h : Assures perform rely cond guarantee p w Φ) (hrefl : ∀ w, rely w w)
    (hstops : Stops perform p w steps w') (hcond : ∀ step ∈ steps, cond step) :
    ∀ step ∈ steps, guarantee step := by
  induction p generalizing w steps with
  | ret a =>
      obtain ⟨rfl, -⟩ := hstops
      simp
  | ask op next ih =>
      rcases hstops with ⟨rfl, -⟩ | ⟨answer, w₁, rest, hperform, rfl, hrest⟩
      · simp
      · rw [List.forall_mem_cons] at hcond ⊢
        obtain ⟨hstep, hnext⟩ := h w (hrefl w) answer w₁ hperform hcond.1
        exact ⟨hstep, ih answer hnext hrest hcond.2⟩

/-- An assurance survives interference that was relied on. -/
theorem Assures.stable {p : Program Op Ans Unit} {w w' : W}
    (h : Assures perform rely cond guarantee p w fun _ _ => True) (hrely : rely w w')
    (htrans : ∀ w₁ w₂ w₃, rely w₁ w₂ → rely w₂ w₃ → rely w₁ w₃) :
    Assures perform rely cond guarantee p w' fun _ _ => True := by
  cases p with
  | ret a => trivial
  | ask op next =>
      intro w₁ hrely₁
      exact h w₁ (htrans _ _ _ hrely hrely₁)

/-- **Guarantee rule.**  If every program that may be started assures
`guarantee`, and a guaranteed step is one the others rely on, then in every
interleaving whose steps satisfy `cond` every step satisfies `guarantee`. -/
theorem PoolRun.assured {Entry : Program Op Ans Unit → Prop} {w : W} {pool : Pool Op Ans W}
    {steps : List (Step Op Ans W)} (hrefl : ∀ w, rely w w)
    (htrans : ∀ w₁ w₂ w₃, rely w₁ w₂ → rely w₂ w₃ → rely w₁ w₃)
    (hrely : ∀ step : Step Op Ans W, guarantee step → rely step.pre step.post)
    (hentry : ∀ p, Entry p → ∀ w₁, rely w w₁ →
      Assures perform rely cond guarantee p w₁ fun _ _ => True)
    (h : PoolRun perform Entry ⟨w, []⟩ steps pool) (hcond : ∀ step ∈ steps, cond step) :
    (∀ step ∈ steps, guarantee step) ∧ rely w pool.world := by
  -- the invariant: every running program still assures its steps from the current world
  suffices hinv : (∀ step ∈ steps, guarantee step) ∧ rely w pool.world ∧
      ∀ p ∈ pool.threads, Assures perform rely cond guarantee p pool.world fun _ _ => True from
    ⟨hinv.1, hinv.2.1⟩
  induction h with
  | refl => exact ⟨by simp, hrefl w, by simp⟩
  | spawn p _ hp ih =>
      obtain ⟨hsteps, hworld, hthreads⟩ := ih hcond
      refine ⟨hsteps, hworld, fun q hq => ?_⟩
      rcases List.mem_append.mp hq with hq | hq
      · exact hthreads q hq
      · rw [List.mem_singleton.mp hq]
        exact hentry p hp _ hworld
  | step i op next answer w' _ hget hperform ih =>
      obtain ⟨hsteps, hworld, hthreads⟩ :=
        ih fun step hmem => hcond step (List.mem_append_left _ hmem)
      have hthread := hthreads _ (List.mem_of_getElem? hget)
      obtain ⟨hstep, hnext⟩ := hthread _ (hrefl _) answer w' hperform
        (hcond _ (List.mem_append_right _ (List.mem_singleton_self _)))
      refine ⟨?_, htrans _ _ _ hworld (hrely _ hstep), fun q hq => ?_⟩
      · intro step hmem
        rcases List.mem_append.mp hmem with hmem | hmem
        · exact hsteps step hmem
        · rw [List.mem_singleton.mp hmem]
          exact hstep
      · rcases List.mem_or_eq_of_mem_set hq with hq | rfl
        · exact (hthreads q hq).stable (hrely _ hstep) htrans
        · exact hnext
  | drop i _ ih =>
      obtain ⟨hsteps, hworld, hthreads⟩ := ih hcond
      exact ⟨hsteps, hworld, fun q hq => hthreads q (List.mem_of_mem_eraseIdx hq)⟩

/-- Every operation of an interleaving is one that the programs may issue. -/
theorem PoolRun.issued {Entry : Program Op Ans Unit → Prop} {allowed : Op → Prop} {w : W}
    {pool : Pool Op Ans W} {steps : List (Step Op Ans W)}
    (hentry : ∀ p, Entry p → p.Issues allowed) (h : PoolRun perform Entry ⟨w, []⟩ steps pool) :
    ∀ step ∈ steps, allowed step.op := by
  have hassures : ∀ p, Entry p → ∀ w₁, True → Assures perform (fun _ _ => True) (fun _ => True)
      (fun step => allowed step.op) p w₁ fun _ _ => True :=
    fun p hp w₁ _ => assures_of_issues (hentry p hp) fun _ hop _ _ => hop
  exact (PoolRun.assured (fun _ => trivial) (fun _ _ _ _ _ => trivial) (fun _ _ => trivial)
    hassures h fun _ _ => trivial).1

end Assurance

end Interaction
