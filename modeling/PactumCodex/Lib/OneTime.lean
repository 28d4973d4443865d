import Mathlib.Data.Set.Insert
import Mathlib.Logic.Function.Basic
import Mathlib.Order.BooleanAlgebra.Set
import PactumCodex.Lib.History

/-!
# Keys that are used once

A store of keys shared by numbered programs.  A program draws a key that nobody
has drawn before and may then put it into the store; anyone can take a key out,
and keys may be discarded.  `Run s actions s'` says that the actions lead from
`s` to `s'`.

Started from a store that is `Blank`, a key is put at most once.  Once it has
been put and is no longer stored it is `Spent`: it is never stored or taken
again (`Run.spent`).  So it is taken at most once, and not after it was
discarded.

## The invariant

`Sound past s` relates a state to the actions that led there:

* keys that are held or were put have been drawn;
* a key that is held was not put, and is held by one program;
* a key in the store was put.

Drawing is what needs all three, since only the freshness of the drawn key
separates it from the keys that others hold or have put.  For the other
actions each part follows from the same part before.

## Histories

`run_of_history` turns a history of programs into such a run, if every step that
its program was allowed to take acts on the keys in one of these ways.  Which key
a program holds is read off its phase, so a program that is stopped loses it.
-/

namespace OneTime

open Interaction

variable {κ : Type}

/-- What happens to the keys. -/
inductive Action (κ : Type) : Type
  | draw (i : ℕ) (k : κ) : Action κ
  | put (i : ℕ) (k : κ) : Action κ
  | take (i : ℕ) (k : κ) : Action κ
  | discard (ks : Set κ) : Action κ
  | idle : Action κ

/-- The keys drawn so far, the key each program holds, and the keys in the store. -/
@[ext] structure State (κ : Type) where
  used : Set κ
  held : ℕ → Option κ
  stored : Set κ

/-- Nobody holds a key, and the store is empty. -/
def State.Blank (s : State κ) : Prop := (∀ i, s.held i = none) ∧ s.stored = ∅

/-- How an action changes the state; keys may also be used up otherwise. -/
inductive Acts (s : State κ) : Action κ → State κ → Prop
  | draw {used' : Set κ} (i : ℕ) (k : κ) : k ∉ s.used → k ∈ used' → s.used ⊆ used' →
      Acts s (.draw i k) ⟨used', Function.update s.held i (some k), s.stored⟩
  | put {used' : Set κ} (i : ℕ) (k : κ) : s.held i = some k → s.used ⊆ used' →
      Acts s (.put i k) ⟨used', Function.update s.held i none, insert k s.stored⟩
  | take {used' : Set κ} (i : ℕ) (k : κ) : k ∈ s.stored → s.used ⊆ used' →
      Acts s (.take i k) ⟨used', s.held, s.stored \ {k}⟩
  | discard {used' : Set κ} (ks : Set κ) : s.used ⊆ used' →
      Acts s (.discard ks) ⟨used', s.held, s.stored \ ks⟩
  | idle {used' : Set κ} : s.used ⊆ used' → Acts s .idle ⟨used', s.held, s.stored⟩

section Acts

variable {used used' stored stored' : Set κ} {held : ℕ → Option κ} {i : ℕ} {k : κ} {new : Option κ}

theorem acts_draw (hfresh : k ∉ used) (hk : k ∈ used') (hused : used ⊆ used') (hnew : new = some k)
    (hstored : stored' = stored) :
    Acts ⟨used, held, stored⟩ (.draw i k) ⟨used', Function.update held i new, stored'⟩ := by
  subst hnew hstored
  exact .draw i k hfresh hk hused

theorem acts_put (hheld : held i = some k) (hused : used ⊆ used') (hnew : new = none)
    (hstored : stored' = insert k stored) :
    Acts ⟨used, held, stored⟩ (.put i k) ⟨used', Function.update held i new, stored'⟩ := by
  subst hnew hstored
  exact .put i k hheld hused

theorem acts_take (hk : k ∈ stored) (hused : used ⊆ used') (hnew : new = held i)
    (hstored : stored' = stored \ {k}) :
    Acts ⟨used, held, stored⟩ (.take i k) ⟨used', Function.update held i new, stored'⟩ := by
  subst hnew hstored
  rw [Function.update_eq_self]
  exact .take i k hk hused

theorem acts_discard {ks : Set κ} (hused : used ⊆ used') (hnew : new = held i)
    (hstored : stored' = stored \ ks) :
    Acts ⟨used, held, stored⟩ (.discard ks) ⟨used', Function.update held i new, stored'⟩ := by
  subst hnew hstored
  rw [Function.update_eq_self]
  exact .discard ks hused

theorem acts_idle (hused : used ⊆ used') (hnew : new = held i) (hstored : stored' = stored) :
    Acts ⟨used, held, stored⟩ .idle ⟨used', Function.update held i new, stored'⟩ := by
  subst hnew hstored
  rw [Function.update_eq_self]
  exact .idle hused

end Acts

/-- The actions lead from one state to the other. -/
def Run : State κ → List (Action κ) → State κ → Prop
  | s, [], s' => s' = s
  | s, action :: rest, s' => ∃ middle, Acts s action middle ∧ Run middle rest s'

/-- A run is a run of its first part followed by one of the rest. -/
theorem run_append {s s' : State κ} {first second : List (Action κ)} :
    Run s (first ++ second) s' ↔ ∃ middle, Run s first middle ∧ Run middle second s' := by
  induction first generalizing s with
  | nil => exact ⟨fun h => ⟨s, rfl, h⟩, fun ⟨_, hfirst, hsecond⟩ => hfirst ▸ hsecond⟩
  | cons action first ih =>
      constructor
      · rintro ⟨next, hacts, hrest⟩
        obtain ⟨middle, hfirst, hsecond⟩ := ih.mp hrest
        exact ⟨middle, ⟨next, hacts, hfirst⟩, hsecond⟩
      · rintro ⟨middle, ⟨next, hacts, hfirst⟩, hsecond⟩
        exact ⟨next, hacts, ih.mpr ⟨middle, hfirst, hsecond⟩⟩

/-! ## Keys are put once -/

/-- What holds after every run from a blank state. -/
structure Sound (past : List (Action κ)) (s : State κ) : Prop where
  held_used : ∀ i k, s.held i = some k → k ∈ s.used
  held_fresh : ∀ i k, s.held i = some k → ∀ j, .put j k ∉ past
  held_once : ∀ i j k, s.held i = some k → s.held j = some k → i = j
  put_used : ∀ i k, .put i k ∈ past → k ∈ s.used
  stored_put : ∀ k ∈ s.stored, ∃ i, .put i k ∈ past

theorem State.Blank.sound {s : State κ} (h : s.Blank) : Sound [] s := by
  constructor
  · intro i k hheld
    rw [h.1 i] at hheld
    cases hheld
  · intro i k _ j
    exact List.not_mem_nil
  · intro i j k hheld
    rw [h.1 i] at hheld
    cases hheld
  · intro i k hput
    cases hput
  · intro k hk
    rw [h.2] at hk
    exact hk.elim

theorem update_eq_some {held : ℕ → Option κ} {i j : ℕ} {new : Option κ} {k : κ} :
    Function.update held i new j = some k ↔ (j = i ∧ new = some k) ∨ (j ≠ i ∧ held j = some k) := by
  rw [Function.update_apply]
  split <;> simp [*]

/-- Keys may be used up and may leave the store. -/
theorem Sound.grow {past : List (Action κ)} {s s' : State κ} {action : Action κ}
    (h : Sound past s) (hused : s.used ⊆ s'.used) (hheld : s'.held = s.held)
    (hstored : s'.stored ⊆ s.stored) (haction : ∀ i k, action ≠ .put i k) :
    Sound (past ++ [action]) s' := by
  have hput : ∀ {i k}, .put i k ∈ past ++ [action] → .put i k ∈ past := by
    intro i k hmem
    rw [List.mem_append, List.mem_singleton] at hmem
    exact hmem.resolve_right fun heq => haction i k heq.symm
  constructor
  · intro i k hi
    rw [hheld] at hi
    exact hused (h.held_used i k hi)
  · intro i k hi j hmem
    rw [hheld] at hi
    exact h.held_fresh i k hi j (hput hmem)
  · intro i j k hi hj
    rw [hheld] at hi hj
    exact h.held_once i j k hi hj
  · intro i k hmem
    exact hused (h.put_used i k (hput hmem))
  · intro k hk
    obtain ⟨i, hmem⟩ := h.stored_put k (hstored hk)
    exact ⟨i, List.mem_append_left _ hmem⟩

/-- A key that is drawn is not held by another program and was not put. -/
theorem Sound.draw {past : List (Action κ)} {s : State κ} {used' : Set κ} {i : ℕ} {k : κ}
    (h : Sound past s) (hfresh : k ∉ s.used) (hk : k ∈ used') (hused : s.used ⊆ used') :
    Sound (past ++ [.draw i k]) ⟨used', Function.update s.held i (some k), s.stored⟩ := by
  have hput : ∀ {j l}, .put j l ∈ past ++ [.draw i k] → .put j l ∈ past := by
    intro j l hmem
    rw [List.mem_append, List.mem_singleton] at hmem
    exact hmem.resolve_right nofun
  constructor
  · intro j l hj
    rcases update_eq_some.mp hj with ⟨-, hl⟩ | ⟨-, hj₀⟩
    · rw [← Option.some.inj hl]
      exact hk
    · exact hused (h.held_used j l hj₀)
  · intro j l hj m hmem
    rcases update_eq_some.mp hj with ⟨-, hl⟩ | ⟨-, hj₀⟩
    · rw [← Option.some.inj hl] at hmem
      exact hfresh (h.put_used m k (hput hmem))
    · exact h.held_fresh j l hj₀ m (hput hmem)
  -- two programs hold the key: one of them has just drawn it, and it was fresh
  · intro j m l hj hm
    rcases update_eq_some.mp hj with ⟨rfl, hl⟩ | ⟨-, hj₀⟩ <;>
      rcases update_eq_some.mp hm with ⟨rfl, hl'⟩ | ⟨-, hm₀⟩
    · rfl
    · rw [← Option.some.inj hl] at hm₀
      exact absurd (h.held_used m k hm₀) hfresh
    · rw [← Option.some.inj hl'] at hj₀
      exact absurd (h.held_used j k hj₀) hfresh
    · exact h.held_once j m l hj₀ hm₀
  · intro j l hmem
    exact hused (h.put_used j l (hput hmem))
  · intro l hl
    obtain ⟨j, hmem⟩ := h.stored_put l hl
    exact ⟨j, List.mem_append_left _ hmem⟩

/-- A key that is put is held no more. -/
theorem Sound.put {past : List (Action κ)} {s : State κ} {used' : Set κ} {i : ℕ} {k : κ}
    (h : Sound past s) (hholds : s.held i = some k) (hused : s.used ⊆ used') :
    Sound (past ++ [.put i k]) ⟨used', Function.update s.held i none, insert k s.stored⟩ := by
  have hput : ∀ {j l}, .put j l ∈ past ++ [.put i k] → .put j l ∈ past ∨ l = k := by
    intro j l hmem
    rw [List.mem_append, List.mem_singleton] at hmem
    exact hmem.imp_right fun heq => (Action.put.inj heq).2
  have hheld : ∀ {j l}, Function.update s.held i none j = some l → j ≠ i ∧ s.held j = some l := by
    intro j l hj
    exact (update_eq_some.mp hj).resolve_left fun hi => nomatch hi.2
  constructor
  · intro j l hj
    exact hused (h.held_used j l (hheld hj).2)
  -- another program cannot hold the key that is put
  · intro j l hj m hmem
    obtain ⟨hji, hj₀⟩ := hheld hj
    rcases hput hmem with hmem | rfl
    · exact h.held_fresh j l hj₀ m hmem
    · exact hji (h.held_once j i l hj₀ hholds)
  · intro j m l hj hm
    exact h.held_once j m l (hheld hj).2 (hheld hm).2
  · intro j l hmem
    rcases hput hmem with hmem | rfl
    · exact hused (h.put_used j l hmem)
    · exact hused (h.held_used i l hholds)
  · intro l hl
    rcases hl with rfl | hl
    · exact ⟨i, List.mem_append_right _ (List.mem_singleton_self _)⟩
    · obtain ⟨j, hmem⟩ := h.stored_put l hl
      exact ⟨j, List.mem_append_left _ hmem⟩

/-- An action keeps the state sound. -/
theorem Sound.acts {past : List (Action κ)} {s s' : State κ} {action : Action κ}
    (h : Sound past s) (hacts : Acts s action s') : Sound (past ++ [action]) s' := by
  cases hacts with
  | draw i k hfresh hk hused => exact h.draw hfresh hk hused
  | put i k hholds hused => exact h.put hholds hused
  | take i k hk hused => exact h.grow hused rfl Set.sdiff_subset nofun
  | discard ks hused => exact h.grow hused rfl Set.sdiff_subset nofun
  | idle hused => exact h.grow hused rfl subset_rfl nofun

theorem Sound.run {past actions : List (Action κ)} {s s' : State κ} (h : Sound past s)
    (hrun : Run s actions s') : Sound (past ++ actions) s' := by
  induction actions generalizing past s with
  | nil =>
      obtain rfl := hrun
      rwa [List.append_nil]
  | cons action rest ih =>
      obtain ⟨middle, hacts, hrest⟩ := hrun
      rw [List.append_cons]
      exact ih (h.acts hacts) hrest

/-! ## Keys that are gone

A key that was put and has left the store is not held by anybody, by the
invariant, so no program can put it again; and only stored keys are taken. -/

/-- The key was put and is not stored any more. -/
def Spent (k : κ) (past : List (Action κ)) (s : State κ) : Prop :=
  (∃ i, .put i k ∈ past) ∧ k ∉ s.stored

variable {k : κ} {past actions : List (Action κ)} {s s' : State κ} {action : Action κ}

/-- A spent key stays spent, and is not taken. -/
theorem Spent.acts (h : Spent k past s) (hsound : Sound past s) (hacts : Acts s action s') :
    Spent k (past ++ [action]) s' ∧ ∀ i, action ≠ .take i k := by
  obtain ⟨⟨j, hput⟩, hgone⟩ := h
  refine ⟨⟨⟨j, List.mem_append_left _ hput⟩, ?_⟩, ?_⟩
  · cases hacts with
    | draw i l => exact hgone
    | put i l hholds =>
        rintro (rfl | hstored)
        · exact hsound.held_fresh i k hholds j hput
        · exact hgone hstored
    | take i l => exact fun hstored => hgone hstored.1
    | discard ks => exact fun hstored => hgone hstored.1
    | idle => exact hgone
  · rintro i rfl
    cases hacts with
    | take _ _ hstored => exact hgone hstored

/-- **A spent key is never stored or taken again.** -/
theorem Run.spent (h : Spent k past s) (hsound : Sound past s) (hrun : Run s actions s') :
    k ∉ s'.stored ∧ ∀ i, .take i k ∉ actions := by
  induction actions generalizing past s with
  | nil =>
      obtain rfl := hrun
      exact ⟨h.2, fun i => List.not_mem_nil⟩
  | cons action rest ih =>
      obtain ⟨middle, hacts, hrest⟩ := hrun
      obtain ⟨hspent, hnot⟩ := h.acts hsound hacts
      obtain ⟨hgone, hrest'⟩ := ih hspent (hsound.acts hacts) hrest
      refine ⟨hgone, fun i hmem => ?_⟩
      rcases List.mem_cons.mp hmem with heq | hmem
      · exact hnot i heq.symm
      · exact hrest' i hmem

section Blank

variable {s₀ : State κ} {before after : List (Action κ)}

/-- A key that is taken was put before. -/
theorem put_before_take (hblank : s₀.Blank) {i : ℕ}
    (hrun : Run s₀ (before ++ .take i k :: after) s) :
    ∃ j, .put j k ∈ before := by
  obtain ⟨middle, hbefore, next, hacts, -⟩ := run_append.mp hrun
  cases hacts with
  | take _ _ hstored => exact (hblank.sound.run hbefore).stored_put k hstored

/-- What is taken or discarded is neither stored nor taken later. -/
theorem gone_after (hblank : s₀.Blank) (hrun : Run s₀ (before ++ action :: after) s)
    (hput : ∃ j, .put j k ∈ before)
    (haction : (∃ i, action = .take i k) ∨ ∃ ks, action = .discard ks ∧ k ∈ ks) :
    k ∉ s.stored ∧ ∀ i, .take i k ∉ after := by
  obtain ⟨middle, hbefore, next, hacts, hafter⟩ := run_append.mp hrun
  have hsound : Sound before middle := hblank.sound.run hbefore
  refine Run.spent ⟨hput.imp fun j hmem => List.mem_append_left [action] hmem, ?_⟩
    (hsound.acts hacts) hafter
  rcases haction with ⟨i, rfl⟩ | ⟨ks, rfl, hk⟩
  · cases hacts
    exact fun hstored => hstored.2 rfl
  · cases hacts
    exact fun hstored => hstored.2 hk

/-- A key is taken at most once, and is not stored afterwards. -/
theorem taken_once (hblank : s₀.Blank) {i : ℕ} (hrun : Run s₀ (before ++ .take i k :: after) s) :
    k ∉ s.stored ∧ ∀ j, .take j k ∉ after :=
  gone_after hblank hrun (put_before_take hblank hrun) (Or.inl ⟨i, rfl⟩)

/-- A key is put at most once. -/
theorem put_once (hblank : s₀.Blank) {i : ℕ}
    (hrun : Run s₀ (before ++ .put i k :: after) s) (j : ℕ) :
    .put j k ∉ after := by
  intro hmem
  obtain ⟨between, rest, rfl⟩ := List.append_of_mem hmem
  rw [List.append_cons, ← List.append_assoc] at hrun
  obtain ⟨middle, hbetween, next, hacts, -⟩ := run_append.mp hrun
  cases hacts with
  | put _ _ hholds =>
      refine (hblank.sound.run hbetween).held_fresh j k hholds i ?_
      simp

end Blank

/-! ## Histories -/

section Histories

variable {Op : Type} {Ans : Op → Type} {W σ : Type}
variable {perform : (op : Op) → Ans op → W → Option W} {Entry : Program Op Ans Unit → Prop}
variable {next : σ → (op : Op) → Ans op → σ} {allowed : σ → Op → Prop} {start : σ}

/-- The keys of a world and of the programs that have got into their phases. -/
def stateOf (used stored : W → Set κ) (held : σ → Option κ) (phases : ℕ → σ) (w : W) : State κ :=
  ⟨used w, fun i => held (phases i), stored w⟩

/-- The action of an event. -/
def actionOf (action : ℕ → Step Op Ans W → Action κ) : Event Op Ans W → Action κ
  | .ran i step => action i step
  | .stopped _ => .idle

/-- **Histories use keys once.**  If every allowed step acts on the keys, then so does every history
in which programs conform. -/
theorem run_of_history {done : σ → Prop} {w : W} {events : List (Event Op Ans W)}
    {pool : Pool Op Ans W} {used stored : W → Set κ} {held : σ → Option κ}
    {action : ℕ → Step Op Ans W → Action κ} (hdone : ∀ s, done s)
    (hentry : ∀ p, Entry p → Conforms next allowed p start fun _ s => done s)
    (cond : List (Event Op Ans W) → Event Op Ans W → Prop)
    (hacts : ∀ past i (step : Step Op Ans W) (phases : ℕ → σ), step.Valid perform →
      allowed (phases i) step.op → cond past (.ran i step) →
      Acts ⟨used step.pre, fun j => held (phases j), stored step.pre⟩ (action i step)
        ⟨used step.post, Function.update (fun j => held (phases j)) i
          (held (next (phases i) step.op step.ans)), stored step.post⟩)
    (h : History perform Entry ⟨w, []⟩ events pool) (hcond : Meets cond events) :
    Run (stateOf used stored held (fun _ => start) w) (events.map (actionOf action))
      (stateOf used stored held (fun i => phase next id start i events) pool.world) := by
  refine History.invariant (show ∀ s, done (id s) from hdone) hentry cond (fun events w' =>
    Run (stateOf used stored held (fun _ => start) w) (events.map (actionOf action))
      (stateOf used stored held (fun i => phase next id start i events) w')) rfl ?_ ?_ h hcond
  · intro past i step hvalid hallowed hthis hpast
    rw [List.map_append, List.map_singleton]
    refine run_append.mpr ⟨_, hpast, _, hacts past i step _ hvalid hallowed hthis, ?_⟩
    rw [stateOf]
    congr 1
    -- the step changes the phase of its own program only
    funext j
    rw [Function.update_apply, phase_ran]
    by_cases hij : j = i
    · subst hij
      simp
    · rw [if_neg hij, if_neg (Ne.symm hij)]
  -- a stop may end what the program held
  · intro past i _ hpast
    rw [List.map_append, List.map_singleton]
    refine run_append.mpr ⟨_, hpast, _, .idle subset_rfl, ?_⟩
    congr 1
    funext j
    rw [phase_stopped]
    split <;> rfl

end Histories

end OneTime
