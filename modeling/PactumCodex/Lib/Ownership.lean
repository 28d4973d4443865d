import PactumCodex.Lib.Tagged

/-!
# Programs that hold resources

Interleaved programs can each hold one resource (an open transaction, say) that
the others leave alone.  `rely id w w'` says what the others leave of the
resource `id`, `live w id` that the resource has been handed out before.
`Secures p held w Φ` says that `p`, holding `held`, keeps the invariant `inv` of
the world and what the holders of other resources rely on, only takes steps
satisfying `guarantee`, and returns with `Φ`; it may give up its resource and
take one that was not handed out before.

Since no resource is handed out twice, programs that secure their steps alone
secure them in every interleaving (`PoolRun.secured`).
-/

namespace Interaction

variable {Op : Type} {Ans : Op → Type} {W α β ε ι τ : Type}

/-- How a step can change the resource a program holds. -/
inductive Takes (live : W → ι → Prop) (w w' : W) (held : Option ι) : Option ι → Prop
  | keep : Takes live w w' held held
  | release : Takes live w w' held none
  | acquire (id : ι) : ¬ live w id → live w' id → Takes live w w' held (some id)

section Secures

variable (perform : (op : Op) → Ans op → W → Option W)
variable (inv : W → Prop) (live : W → ι → Prop) (rely : ι → W → W → Prop)
variable (guarantee : Step Op Ans W → Prop)

/-- The step keeps the invariant and everything but the resource held. -/
structure Respects (held : Option ι) (step : Step Op Ans W) : Prop where
  guarantee : guarantee step
  inv : inv step.post
  others : ∀ id, live step.pre id → held ≠ some id → rely id step.pre step.post

/-- From `w`, holding `held`, the program only takes steps that respect what it does not hold, and
returns with `Φ`. -/
def Secures : Program Op Ans α → Option ι → W → (α → Option ι → W → Prop) → Prop
  | .ret a, held, w, Φ => Φ a held w
  | .ask op next, held, w, Φ => ∀ w₁, (∀ id, held = some id → rely id w w₁) → inv w₁ →
      ∀ answer w₂, perform op answer w₁ = some w₂ →
        Respects inv live rely guarantee held ⟨w₁, op, answer, w₂⟩ ∧
          ∃ held', Takes live w₁ w₂ held held' ∧ Secures (next answer) held' w₂ Φ

variable {perform inv live rely guarantee}

theorem secures_bind {p : Program Op Ans α} {f : α → Program Op Ans β} {held : Option ι} {w : W}
    {Φ : β → Option ι → W → Prop}
    (h : Secures perform inv live rely guarantee p held w fun a held' w' =>
      Secures perform inv live rely guarantee (f a) held' w' Φ) :
    Secures perform inv live rely guarantee (p >>= f) held w Φ := by
  induction p generalizing held w with
  | ret a => exact h
  | ask op next ih =>
      intro w₁ hrely hinv answer w₂ hperform
      obtain ⟨hstep, held', htakes, hnext⟩ := h w₁ hrely hinv answer w₂ hperform
      exact ⟨hstep, held', htakes, ih answer hnext⟩

theorem Secures.mono {p : Program Op Ans α} {held : Option ι} {w : W}
    {Φ Ψ : α → Option ι → W → Prop} (h : Secures perform inv live rely guarantee p held w Φ)
    (himp : ∀ a held' w', Φ a held' w' → Ψ a held' w') :
    Secures perform inv live rely guarantee p held w Ψ := by
  induction p generalizing held w with
  | ret a => exact himp a held w h
  | ask op next ih =>
      intro w₁ hrely hinv answer w₂ hperform
      obtain ⟨hstep, held', htakes, hnext⟩ := h w₁ hrely hinv answer w₂ hperform
      exact ⟨hstep, held', htakes, ih answer hnext⟩

/-- A weaker guarantee is secured as well. -/
theorem Secures.weaken {guarantee' : Step Op Ans W → Prop} {p : Program Op Ans α} {held : Option ι}
    {w : W} {Φ : α → Option ι → W → Prop}
    (h : Secures perform inv live rely guarantee p held w Φ)
    (himp : ∀ step, guarantee step → guarantee' step) :
    Secures perform inv live rely guarantee' p held w Φ := by
  induction p generalizing held w with
  | ret a => exact h
  | ask op next ih =>
      intro w₁ hrely hinv answer w₂ hperform
      obtain ⟨hstep, held', htakes, hnext⟩ := h w₁ hrely hinv answer w₂ hperform
      exact ⟨⟨himp _ hstep.guarantee, hstep.inv, hstep.others⟩, held', htakes, ih answer hnext⟩

/-- What the steps of a program keep may be relied on as well. -/
theorem Secures.refine {allowed : Op → Prop} {guarantee' : Step Op Ans W → Prop}
    {kept : W → W → Prop} {p : Program Op Ans α} {held : Option ι} {w : W}
    {Φ : α → Option ι → W → Prop} (h : Secures perform inv live rely guarantee p held w Φ)
    (hp : p.Issues allowed)
    (himp : ∀ step : Step Op Ans W, allowed step.op → step.Valid perform → guarantee step →
      guarantee' step ∧ kept step.pre step.post) :
    Secures perform inv live (fun id w w' => rely id w w' ∧ kept w w') guarantee' p held w Φ := by
  induction p generalizing held w with
  | ret a => exact h
  | ask op next ih =>
      intro w₁ hrely hinv answer w₂ hperform
      obtain ⟨hstep, held', htakes, hnext⟩ :=
        h w₁ (fun id hid => (hrely id hid).1) hinv answer w₂ hperform
      obtain ⟨hguarantee, hkept⟩ := himp ⟨w₁, op, answer, w₂⟩ hp.1 hperform hstep.guarantee
      refine ⟨⟨hguarantee, hstep.inv, fun id hlive hne => ⟨hstep.others id hlive hne, hkept⟩⟩,
        held', htakes, ih answer hnext (hp.2 answer)⟩

/-- An operation by which a program keeps what it holds. -/
theorem secures_issue {op : Op} {held : Option ι} {w : W} {Φ : Ans op → Option ι → W → Prop}
    (h : ∀ w₁, (∀ id, held = some id → rely id w w₁) → inv w₁ →
      ∀ answer w₂, perform op answer w₁ = some w₂ →
        Respects inv live rely guarantee held ⟨w₁, op, answer, w₂⟩ ∧
          ∃ held', Takes live w₁ w₂ held held' ∧ Φ answer held' w₂) :
    Secures perform inv live rely guarantee (.issue op) held w Φ := h

/-- A program of harmless operations that holds nothing. -/
theorem secures_of_issues {allowed : Op → Prop} {p : Program Op Ans α} {w : W}
    (hp : p.Issues allowed)
    (hall : ∀ step : Step Op Ans W, allowed step.op → step.Valid perform → inv step.pre →
      Respects inv live rely guarantee none step) :
    Secures perform inv live rely guarantee p none w fun _ _ _ => True := by
  induction p generalizing w with
  | ret a => trivial
  | ask op next ih =>
      intro w₁ _ hinv answer w₂ hperform
      exact ⟨hall ⟨w₁, op, answer, w₂⟩ hp.1 hperform hinv, none, .keep, ih answer (hp.2 answer)⟩

/-- A composition of programs that can fail: an error ends both. -/
theorem secures_run_bind {x : Fallible Op Ans ε α} {f : α → Fallible Op Ans ε β} {held : Option ι}
    {w : W} {Φ : Except ε β → Option ι → W → Prop}
    (h : Secures perform inv live rely guarantee x.run held w fun r held' w' =>
      Secures perform inv live rely guarantee (continueWith f r) held' w' Φ) :
    Secures perform inv live rely guarantee (x >>= f).run held w Φ := by
  rw [run_bind_eq]
  exact secures_bind h

/-- What a program secures survives what it relies on. -/
theorem Secures.stable {p : Program Op Ans Unit} {held : Option ι} {w w' : W}
    (h : Secures perform inv live rely guarantee p held w fun _ _ _ => True)
    (htrans : ∀ id w₁ w₂ w₃, rely id w₁ w₂ → rely id w₂ w₃ → rely id w₁ w₃)
    (hrely : ∀ id, held = some id → rely id w w') :
    Secures perform inv live rely guarantee p held w' fun _ _ _ => True := by
  cases p with
  | ret a => trivial
  | ask op next =>
      intro w₁ hrely₁
      exact h w₁ fun id hid => htrans id _ _ _ (hrely id hid) (hrely₁ id hid)

/-- A tagged program secures its steps if the program does, with its tag taken into account. -/
theorem secures_tag {guarantee : Step (τ × Op) (TaggedAns τ Ans) W → Prop} {t : τ}
    {p : Program Op Ans α} {held : Option ι} {w : W} {Φ : α → Option ι → W → Prop}
    (h : Secures perform inv live rely (fun step => guarantee (step.tag t)) p held w Φ) :
    Secures (performTagged τ perform) inv live rely guarantee (p.tag t) held w Φ := by
  induction p generalizing held w with
  | ret a => exact h
  | ask op next ih =>
      intro w₁ hrely hinv answer w₂ hperform
      obtain ⟨hstep, held', htakes, hnext⟩ := h w₁ hrely hinv answer w₂ hperform
      exact ⟨⟨hstep.guarantee, hstep.inv, hstep.others⟩, held', htakes, ih answer hnext⟩

/-! ## Pools -/

/-- No resource is held twice. -/
def Exclusive (held : List (Option ι)) : Prop :=
  ∀ (i j : ℕ) (id : ι), held[i]? = some (some id) → held[j]? = some (some id) → i = j

theorem Exclusive.append {held : List (Option ι)} (h : Exclusive held) :
    Exclusive (held ++ [none]) := by
  have hold : ∀ (i : ℕ) (id : ι), (held ++ [none])[i]? = some (some id) →
      held[i]? = some (some id) := by
    intro i id hget
    rw [List.getElem?_append] at hget
    split at hget
    · exact hget
    · rw [List.getElem?_singleton] at hget
      split at hget <;> cases hget
  intro i j id hi hj
  exact h i j id (hold i id hi) (hold j id hj)

theorem Exclusive.eraseIdx {held : List (Option ι)} (h : Exclusive held) (k : ℕ) :
    Exclusive (held.eraseIdx k) := by
  intro i j id hi hj
  rw [List.getElem?_eraseIdx] at hi hj
  split at hi <;> split at hj
  · exact h i j id hi hj
  · have := h i (j + 1) id hi hj
    omega
  · have := h (i + 1) j id hi hj
    omega
  · have := h (i + 1) (j + 1) id hi hj
    omega

/-- A program that goes on keeps its resource, or takes one that nobody holds. -/
theorem Exclusive.set {held : List (Option ι)} {w w' : W} {i : ℕ} {old new : Option ι}
    (h : Exclusive held) (hlive : ∀ id, some id ∈ held → live w id)
    (hget : held[i]? = some old) (htakes : Takes live w w' old new) :
    Exclusive (held.set i new) := by
  -- the program does not get what another one holds
  have hother : ∀ (j : ℕ) (id : ι), held[j]? = some (some id) → new = some id → j = i := by
    intro j id hj hnew
    cases htakes with
    | keep => exact h j i id hj (hget.trans (congrArg some hnew))
    | release => cases hnew
    | acquire fresh hdead _ =>
        rw [Option.some.inj hnew] at hdead
        exact absurd (hlive id (List.mem_of_getElem? hj)) hdead
  have hset : ∀ (j : ℕ) (id : ι), (held.set i new)[j]? = some (some id) →
      (j = i ∧ new = some id) ∨ (j ≠ i ∧ held[j]? = some (some id)) := by
    intro j id hj
    rw [List.getElem?_set] at hj
    by_cases hij : i = j
    · rw [if_pos hij] at hj
      split at hj
      · exact Or.inl ⟨hij.symm, Option.some.inj hj⟩
      · cases hj
    · rw [if_neg hij] at hj
      exact Or.inr ⟨fun hji => hij hji.symm, hj⟩
  intro j k id hj hk
  rcases hset j id hj with ⟨hji, hnew⟩ | ⟨hji, hold⟩
  · rcases hset k id hk with ⟨hki, -⟩ | ⟨hki, hold⟩
    · exact hji.trans hki.symm
    · exact absurd (hother k id hold hnew) hki
  · rcases hset k id hk with ⟨-, hnew⟩ | ⟨-, hold'⟩
    · exact absurd (hother j id hold hnew) hji
    · exact h j k id hold hold'

variable (perform inv live rely guarantee) in
/-- The programs of the pool, with what each of them holds. -/
structure Owned (pool : Pool Op Ans W) (owned : List (Program Op Ans Unit × Option ι)) : Prop where
  world : inv pool.world
  threads : owned.map Prod.fst = pool.threads
  exclusive : Exclusive (owned.map Prod.snd)
  handedOut : ∀ id, some id ∈ owned.map Prod.snd → live pool.world id
  secures : ∀ thread ∈ owned, Secures perform inv live rely guarantee thread.1 thread.2 pool.world
    fun _ _ _ => True

section Owned

variable {pool : Pool Op Ans W} {owned : List (Program Op Ans Unit × Option ι)}

/-- A program that is started holds nothing. -/
theorem Owned.spawn (h : Owned perform inv live rely guarantee pool owned) {p : Program Op Ans Unit}
    (hp : Secures perform inv live rely guarantee p none pool.world fun _ _ _ => True) :
    Owned perform inv live rely guarantee ⟨pool.world, pool.threads ++ [p]⟩
      (owned ++ [(p, none)]) := by
  refine ⟨h.world, by simp [h.threads], ?_, ?_, ?_⟩
  · simpa using h.exclusive.append
  · simpa using h.handedOut
  · intro thread hmem
    rcases List.mem_append.mp hmem with hmem | hmem
    · exact h.secures thread hmem
    · rw [List.mem_singleton.mp hmem]
      exact hp

theorem Owned.drop (h : Owned perform inv live rely guarantee pool owned) (i : ℕ) :
    Owned perform inv live rely guarantee ⟨pool.world, pool.threads.eraseIdx i⟩
      (owned.eraseIdx i) := by
  refine ⟨h.world, ?_, ?_, ?_, ?_⟩
  · rw [← h.threads, List.eraseIdx_map]
  · rw [← List.eraseIdx_map]
    exact h.exclusive.eraseIdx i
  · rw [← List.eraseIdx_map]
    exact fun id hmem => h.handedOut id (List.mem_of_mem_eraseIdx hmem)
  · exact fun thread hmem => h.secures thread (List.mem_of_mem_eraseIdx hmem)

/-- A step of one program satisfies the guarantee, and the others go on as before. -/
theorem Owned.step (h : Owned perform inv live rely guarantee pool owned)
    (htrans : ∀ id w₁ w₂ w₃, rely id w₁ w₂ → rely id w₂ w₃ → rely id w₁ w₃)
    (hrefl : ∀ id w, rely id w w)
    (hlive : ∀ op answer w w' id, perform op answer w = some w' → live w id → live w' id)
    {i : ℕ} {op : Op} {next : Ans op → Program Op Ans Unit} {answer : Ans op} {w' : W}
    (hget : pool.threads[i]? = some (.ask op next))
    (hperform : perform op answer pool.world = some w') :
    guarantee ⟨pool.world, op, answer, w'⟩ ∧
      ∃ owned', Owned perform inv live rely guarantee
        ⟨w', pool.threads.set i (next answer)⟩ owned' := by
  rw [← h.threads, List.getElem?_map, Option.map_eq_some_iff] at hget
  obtain ⟨⟨p, held⟩, hget, hp⟩ := hget
  obtain rfl : p = .ask op next := hp
  have hsnd : (owned.map Prod.snd)[i]? = some held := by
    rw [List.getElem?_map, hget]
    rfl
  -- the program's own step: what it guarantees and what it holds afterwards
  obtain ⟨hstep, held', htakes, hnext⟩ := h.secures _ (List.mem_of_getElem? hget) pool.world
    (fun id _ => hrefl id _) h.world answer w' hperform
  refine ⟨hstep.guarantee, owned.set i (next answer, held'), hstep.inv, ?_, ?_, ?_, ?_⟩
  · rw [List.map_set, h.threads]
  · rw [List.map_set]
    exact h.exclusive.set h.handedOut hsnd htakes
  · intro id hmem
    rw [List.map_set] at hmem
    rcases List.mem_or_eq_of_mem_set hmem with hmem | hnew
    · exact hlive op answer _ w' id hperform (h.handedOut id hmem)
    · cases htakes with
      | keep =>
          exact hlive op answer _ w' id hperform (h.handedOut id (hnew ▸ List.mem_of_getElem? hsnd))
      | release => cases hnew
      | acquire fresh _ hfresh => exact Option.some.inj hnew ▸ hfresh
  · intro thread hmem
    obtain ⟨j, hj⟩ := List.getElem?_of_mem hmem
    rw [List.getElem?_set] at hj
    by_cases hij : i = j
    · rw [if_pos hij] at hj
      split at hj
      · rw [← Option.some.inj hj]
        exact hnext
      · cases hj
    · -- another program holds something else, which the step leaves alone
      rw [if_neg hij] at hj
      have hthread := List.mem_of_getElem? hj
      refine (h.secures thread hthread).stable htrans fun id hid => ?_
      refine hstep.others id (h.handedOut id ?_) fun hsame => hij (h.exclusive i j id ?_ ?_)
      · exact hid ▸ List.mem_map_of_mem hthread
      · exact hsnd.trans (congrArg some hsame)
      · rw [List.getElem?_map, hj, Option.map_some, hid]

end Owned

/-- **Ownership rule.**  If every program that may be started secures its steps, then in every
interleaving every step satisfies `guarantee`, and the invariant holds at the end. -/
theorem PoolRun.secured {Entry : Program Op Ans Unit → Prop} {w : W} {pool : Pool Op Ans W}
    {steps : List (Step Op Ans W)} (hinit : inv w)
    (htrans : ∀ id w₁ w₂ w₃, rely id w₁ w₂ → rely id w₂ w₃ → rely id w₁ w₃)
    (hrefl : ∀ id w, rely id w w)
    (hlive : ∀ op answer w w' id, perform op answer w = some w' → live w id → live w' id)
    (hentry : ∀ p, Entry p → ∀ w,
      Secures perform inv live rely guarantee p none w fun _ _ _ => True)
    (h : PoolRun perform Entry ⟨w, []⟩ steps pool) :
    (∀ step ∈ steps, guarantee step) ∧ inv pool.world := by
  -- the programs hold resources, none of which is held twice, all along
  suffices howned : (∀ step ∈ steps, guarantee step) ∧
      ∃ owned, Owned perform inv live rely guarantee pool owned by
    obtain ⟨hsteps, owned, howned⟩ := howned
    exact ⟨hsteps, howned.world⟩
  induction h with
  | refl => exact ⟨by simp, [], hinit, rfl, by simp [Exclusive], by simp, by simp⟩
  | spawn p _ hp ih =>
      obtain ⟨hsteps, owned, howned⟩ := ih
      exact ⟨hsteps, _, howned.spawn (hentry p hp _)⟩
  | step i op next answer w' _ hget hperform ih =>
      obtain ⟨hsteps, owned, howned⟩ := ih
      obtain ⟨hstep, howned'⟩ := howned.step htrans hrefl hlive hget hperform
      refine ⟨fun step hmem => ?_, howned'⟩
      rcases List.mem_append.mp hmem with hmem | hmem
      · exact hsteps step hmem
      · rw [List.mem_singleton.mp hmem]
        exact hstep
  | drop i _ ih =>
      obtain ⟨hsteps, owned, howned⟩ := ih
      exact ⟨hsteps, _, howned.drop i⟩

end Secures

end Interaction
