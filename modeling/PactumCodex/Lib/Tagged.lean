import PactumCodex.Lib.Credit

/-!
# Operations tagged with the program that issues them

In a run of interleaved programs a step does not show which program took it.
Where that matters, the programs are run with tagged operations: `p.tag t`
issues the operations of `p`, each together with the tag `t`, and the tags make
no difference to what the operations do.
-/

namespace Interaction

variable {Op : Type} {Ans : Op → Type} {W α τ : Type}

/-- The answers of tagged operations. -/
abbrev TaggedAns (τ : Type) (Ans : Op → Type) (op : τ × Op) : Type := Ans op.2

/-- The program with all of its operations tagged. -/
def Program.tag (t : τ) : Program Op Ans α → Program (τ × Op) (TaggedAns τ Ans) α
  | .ret a => .ret a
  | .ask op next => .ask (t, op) fun answer => (next answer).tag t

/-- The meaning of tagged operations. -/
def performTagged (τ : Type) (perform : (op : Op) → Ans op → W → Option W) (op : τ × Op) :
    TaggedAns τ Ans op → W → Option W := perform op.2

/-- A step of a program with the given tag. -/
def Step.tag (t : τ) (step : Step Op Ans W) : Step (τ × Op) (TaggedAns τ Ans) W :=
  ⟨step.pre, (t, step.op), step.ans, step.post⟩

/-- A step without its tag. -/
def Step.untag (step : Step (τ × Op) (TaggedAns τ Ans) W) : Step Op Ans W :=
  ⟨step.pre, step.op.2, step.ans, step.post⟩

variable {perform : (op : Op) → Ans op → W → Option W}

/-- A tagged program is solvent if the program is, with its tag taken into account. -/
theorem solvent_tag {earns spends : Step (τ × Op) (TaggedAns τ Ans) W → ℕ} {t : τ}
    {p : Program Op Ans α} {balance : ℕ} {Φ : α → ℕ → Prop}
    (h : Solvent perform (fun step => earns (step.tag t)) (fun step => spends (step.tag t)) p
      balance Φ) :
    Solvent (performTagged τ perform) earns spends (p.tag t) balance Φ := by
  induction p generalizing balance with
  | ret a => exact h
  | ask op next ih =>
      intro w answer w' hperform
      obtain ⟨hspends, hnext⟩ := h w answer w' hperform
      exact ⟨hspends, ih answer hnext⟩

/-- A tagged program assures its steps if the program does, with its tag taken into account. -/
theorem assures_tag {rely : W → W → Prop}
    {cond guarantee : Step (τ × Op) (TaggedAns τ Ans) W → Prop}
    {t : τ} {p : Program Op Ans α} {w : W} {Φ : α → W → Prop}
    (h : Assures perform rely (fun step => cond (step.tag t)) (fun step => guarantee (step.tag t))
      p w Φ) :
    Assures (performTagged τ perform) rely cond guarantee (p.tag t) w Φ := by
  induction p generalizing w with
  | ret a => exact h
  | ask op next ih =>
      intro w₁ hrely answer w₂ hperform hcond
      obtain ⟨hstep, hnext⟩ := h w₁ hrely answer w₂ hperform hcond
      exact ⟨hstep, ih answer hnext⟩

/-- A tagged program issues the operations of the program, each with its tag. -/
theorem issues_tag {allowed : τ × Op → Prop} {t : τ} {p : Program Op Ans α}
    (h : p.Issues fun op => allowed (t, op)) : (p.tag t).Issues allowed := by
  induction p with
  | ret a => trivial
  | ask op next ih => exact ⟨h.1, fun answer => ih answer (h.2 answer)⟩

/-- An interleaving of tagged programs is one of the programs without their tags. -/
theorem PoolRun.untag {Entry : Program (τ × Op) (TaggedAns τ Ans) Unit → Prop}
    {Entry' : Program Op Ans Unit → Prop} (hentry : ∀ q, Entry q → ∃ t p, Entry' p ∧ q = p.tag t)
    {w : W} {pool : Pool (τ × Op) (TaggedAns τ Ans) W}
    {steps : List (Step (τ × Op) (TaggedAns τ Ans) W)}
    (h : PoolRun (performTagged τ perform) Entry ⟨w, []⟩ steps pool) :
    ∃ threads : List (τ × Program Op Ans Unit),
      pool.threads = threads.map (fun thread => thread.2.tag thread.1) ∧
      PoolRun perform Entry' ⟨w, []⟩ (steps.map Step.untag) ⟨pool.world, threads.map Prod.snd⟩ := by
  induction h with
  | refl => exact ⟨[], rfl, .refl⟩
  | spawn q _ hq ih =>
      obtain ⟨threads, hthreads, hrun⟩ := ih
      obtain ⟨t, p, hp, rfl⟩ := hentry q hq
      refine ⟨threads ++ [(t, p)], by simp [hthreads], ?_⟩
      simpa using hrun.spawn p hp
  | step i op next answer w' _ hget hperform ih =>
      obtain ⟨threads, hthreads, hrun⟩ := ih
      rw [hthreads, List.getElem?_map, Option.map_eq_some_iff] at hget
      obtain ⟨⟨t, p⟩, hthread, hp⟩ := hget
      cases p with
      | ret a => cases hp
      | ask op' next' =>
          obtain ⟨rfl, hnext⟩ := Program.ask.inj hp
          obtain rfl := eq_of_heq hnext
          refine ⟨threads.set i (t, next' answer), by simp [hthreads, List.map_set], ?_⟩
          have hget : (threads.map Prod.snd)[i]? = some (.ask op' next') := by
            rw [List.getElem?_map, hthread, Option.map_some]
          have hstep := hrun.step i op' next' answer w' hget hperform
          rw [List.map_append, List.map_set]
          exact hstep
  | drop i _ ih =>
      obtain ⟨threads, hthreads, hrun⟩ := ih
      refine ⟨threads.eraseIdx i, by simp [hthreads, List.eraseIdx_map], ?_⟩
      rw [← List.eraseIdx_map]
      exact hrun.drop i

/-! ## Runs that show the tags -/

/-- Runs of any interleaving of programs that have a name each, in which every step shows the name
of its program. -/
def TaggedPoolRun (perform : (op : Op) → Ans op → W → Option W) (program : τ → Program Op Ans Unit)
    (w : W) (steps : List (Step (τ × Op) (TaggedAns τ Ans) W)) (w' : W) : Prop :=
  ∃ threads, PoolRun (performTagged τ perform) (fun q => ∃ t, q = (program t).tag t) ⟨w, []⟩ steps
    ⟨w', threads⟩

section Runs

variable {program : τ → Program Op Ans Unit} {w w' : W}
variable {steps : List (Step (τ × Op) (TaggedAns τ Ans) W)}

theorem TaggedPoolRun.chain (h : TaggedPoolRun perform program w steps w') :
    Chain (performTagged τ perform) w steps w' := by
  obtain ⟨threads, hpool⟩ := h
  exact hpool.chain

/-- The same steps without the names. -/
theorem TaggedPoolRun.untag {Entry : Program Op Ans Unit → Prop} (hentry : ∀ t, Entry (program t))
    (h : TaggedPoolRun perform program w steps w') :
    ∃ threads, PoolRun perform Entry ⟨w, []⟩ (steps.map Step.untag) ⟨w', threads⟩ := by
  obtain ⟨threads, hpool⟩ := h
  obtain ⟨threads', -, hrun⟩ := hpool.untag fun q ⟨t, hq⟩ => ⟨t, program t, hentry t, hq⟩
  exact ⟨_, hrun⟩

/-- What the programs issue, according to their names. -/
theorem TaggedPoolRun.issued {allowed : τ → Op → Prop} (hall : ∀ t, (program t).Issues (allowed t))
    (h : TaggedPoolRun perform program w steps w') :
    ∀ step ∈ steps, allowed step.op.1 step.op.2 := by
  obtain ⟨threads, hpool⟩ := h
  have hissues : ∀ q, (∃ t, q = (program t).tag t) → q.Issues fun op => allowed op.1 op.2 := by
    rintro q ⟨t, rfl⟩
    exact issues_tag (hall t)
  exact hpool.issued hissues

/-- What the programs assure, according to their names, while the others keep what they rely on. -/
theorem TaggedPoolRun.assured {rely : W → W → Prop} {guarantee : τ → Step Op Ans W → Prop}
    (hrefl : ∀ w, rely w w) (htrans : ∀ w₁ w₂ w₃, rely w₁ w₂ → rely w₂ w₃ → rely w₁ w₃)
    (hrely : ∀ t step, guarantee t step → rely step.pre step.post)
    (hall : ∀ t w₁, Assures perform rely (fun _ => True) (guarantee t) (program t) w₁
      fun _ _ => True)
    (h : TaggedPoolRun perform program w steps w') :
    ∀ step ∈ steps, guarantee step.op.1 step.untag := by
  obtain ⟨threads, hpool⟩ := h
  have hentry : ∀ q, (∃ t, q = (program t).tag t) → ∀ w₁, rely w w₁ →
      Assures (performTagged τ perform) rely (fun _ => True)
        (fun step => guarantee step.op.1 step.untag) q w₁ fun _ _ => True := by
    rintro q ⟨t, rfl⟩ w₁ -
    exact assures_tag (hall t w₁)
  exact (PoolRun.assured hrefl htrans (fun step hstep => hrely step.op.1 step.untag hstep) hentry
    hpool fun _ _ => trivial).1

/-- Start the programs of the given names, then let them take their turns. -/
def taggedSchedule (program : τ → Program Op Ans Unit) (names : List τ)
    (turns : List (ℕ × ((op : Op) → W → Ans op))) : List (Move (τ × Op) (TaggedAns τ Ans) W) :=
  (names.map fun t => .start ((program t).tag t)) ++
    turns.map fun turn => .run turn.1 fun op w => turn.2 op.2 w

/-- Such a schedule is a run. -/
theorem taggedPoolRun_of_replay (names : List τ) (turns : List (ℕ × ((op : Op) → W → Ans op)))
    (test : List (Step (τ × Op) (TaggedAns τ Ans) W) → W → Bool)
    (h : (replay (performTagged τ perform) [] ⟨w, []⟩ (taggedSchedule program names turns)).any
      (fun result => test result.1 result.2.world) = true) :
    ∃ steps w', TaggedPoolRun perform program w steps w' ∧ test steps w' = true := by
  obtain ⟨⟨steps, pool⟩, hreplay, htest⟩ := (Option.any_eq_true _ _).mp h
  refine ⟨steps, pool.world, ⟨pool.threads, replay_run (fun p hp => ?_) .refl hreplay⟩, htest⟩
  simp only [taggedSchedule, List.mem_append, List.mem_map, Move.start.injEq, reduceCtorEq,
    and_false, exists_false, or_false] at hp
  obtain ⟨t, -, rfl⟩ := hp
  exact ⟨t, rfl⟩

end Runs

end Interaction
