import Mathlib.Data.List.Induction
import Mathlib.Order.Basic
import PactumCodex.Lib.Fallible

/-!
# Histories of interleaved programs

A `History` is a run of a pool in which every step carries the number of the
program that took it, and every stop of a program is recorded.  A program keeps
its number: one that was started later gets the next one.

## Events

What is said of a history is said of its events, each together with the events
before it: of all of them (`Meets`), of some of them (`Occurs`), or as a list of what
they give (`collect`).  These need no programs, and are proved by adding one event
at the end (`meets_snoc`, `occurs_snoc`, `collect_snoc`).

* `countP_le_one`: what never happens again happens at most once, and
  `eq_of_countP_le_one`: what happens at most once happens in one event;
* `pairwise_collect`: what is collected is pairwise related if every event relates
  what it gives to what was collected before;
* `History.of_append` and `History.at_step`: up to any of its events a history is a
  history, and the event is a step of a program that was waiting for it.

## Phases

What a program may do can depend on what it has done before.  Such a discipline
is given by phases: `next` says how an operation and its answer change the phase
of the program, `stop` how a stop changes it, and `allowed` which operations the
program may issue in a phase.  `Conforms next allowed p s Φ` says that `p`, in
phase `s`, keeps to the discipline and returns in a phase with `Φ`; it is proved
for the programs once, by their text.

* `History.step_allowed`: if all programs conform, then in every history every step
  was allowed in the phase that the earlier steps of the same program lead to;
* `History.invariant`: what such steps preserve holds throughout;
* `occurs_of_phase` and `since_of_phase` read a phase backwards: a program in it has
  taken the step that leads there, and since then only steps that stay there.

The proof of the first two is an induction on the history in which every program
of the pool conforms from the phase it is in (`History.conforms`).  The steps of
other programs do not change that phase, and a program that is started later is
in the first one.

## Recording

`record` carries out a schedule and writes down the events; `record_history` makes a
history of what it has written, so that a history of given programs can be
computed.
-/

namespace Interaction

variable {Op : Type} {Ans : Op → Type} {W α β ε σ : Type}

/-- A program takes a step, or it is stopped. -/
inductive Event (Op : Type) (Ans : Op → Type) (W : Type) : Type
  | ran (i : ℕ) (step : Step Op Ans W) : Event Op Ans W
  | stopped (i : ℕ) : Event Op Ans W

section Histories

variable (perform : (op : Op) → Ans op → W → Option W)
variable (Entry : Program Op Ans Unit → Prop)

/-- The histories of a pool in which every program started satisfies `Entry`. -/
inductive History (start : Pool Op Ans W) : List (Event Op Ans W) → Pool Op Ans W → Prop
  | refl : History start [] start
  | spawn {events : List (Event Op Ans W)} {pool : Pool Op Ans W} (p : Program Op Ans Unit) :
      History start events pool → Entry p →
      History start events ⟨pool.world, pool.threads ++ [p]⟩
  | ran {events : List (Event Op Ans W)} {pool : Pool Op Ans W} (i : ℕ) (op : Op)
      (next : Ans op → Program Op Ans Unit) (answer : Ans op) (w' : W) :
      History start events pool → pool.threads[i]? = some (.ask op next) →
      perform op answer pool.world = some w' →
      History start (events ++ [.ran i ⟨pool.world, op, answer, w'⟩])
        ⟨w', pool.threads.set i (next answer)⟩
  | stopped {events : List (Event Op Ans W)} {pool : Pool Op Ans W} (i : ℕ) :
      History start events pool → i < pool.threads.length →
      History start (events ++ [.stopped i]) ⟨pool.world, pool.threads.set i (.ret ())⟩

/-- Every event satisfies a condition that may depend on the events before it. -/
def Meets (cond : List (Event Op Ans W) → Event Op Ans W → Prop) (events : List (Event Op Ans W)) :
    Prop :=
  ∀ before event after, events = before ++ event :: after → cond before event

/-- Some event has a property that may depend on the events before it. -/
def Occurs (P : List (Event Op Ans W) → Event Op Ans W → Prop) (events : List (Event Op Ans W)) :
    Prop :=
  ∃ before event after, events = before ++ event :: after ∧ P before event

/-- The world that an event leaves. -/
def Event.world (w : W) : Event Op Ans W → W
  | .ran _ step => step.post
  | .stopped _ => w

/-- The world after the events of a history that starts in `w`. -/
def worldAfter (w : W) (events : List (Event Op Ans W)) : W := events.foldl Event.world w

variable {perform Entry}

@[simp] theorem worldAfter_snoc {w : W} {events : List (Event Op Ans W)} {event : Event Op Ans W} :
    worldAfter w (events ++ [event]) = event.world (worldAfter w events) := by
  simp [worldAfter]

theorem History.world_eq {start pool : Pool Op Ans W} {events : List (Event Op Ans W)}
    (h : History perform Entry start events pool) : pool.world = worldAfter start.world events := by
  induction h with
  | refl => rfl
  | spawn p _ _ ih => exact ih
  | ran i op next answer w' _ _ _ _ =>
      rw [worldAfter_snoc]
      rfl
  | stopped i _ _ ih =>
      rw [worldAfter_snoc]
      exact ih

/-- What never happens again happens at most once. -/
theorem countP_le_one {p : Event Op Ans W → Bool} {events : List (Event Op Ans W)}
    (h : ∀ before event after, events = before ++ event :: after → p event = true →
      ∀ later ∈ after, p later = false) : events.countP p ≤ 1 := by
  induction events with
  | nil => exact Nat.zero_le 1
  | cons event events ih =>
      rw [List.countP_cons]
      by_cases hevent : p event = true
      · have hnone : events.countP p = 0 := by
          refine List.countP_eq_zero.mpr fun later hlater => ?_
          rw [h [] event events rfl hevent later hlater]
          exact Bool.false_ne_true
        simp [hnone, hevent]
      · rw [if_neg hevent]
        refine ih fun before event' after heq => h (event :: before) event' after ?_
        exact congrArg (List.cons event) heq

/-- What happens at most once happens in one event. -/
theorem eq_of_countP_le_one {p : Event Op Ans W → Bool} {events : List (Event Op Ans W)}
    (h : events.countP p ≤ 1) {event event' : Event Op Ans W} (hmem : event ∈ events)
    (hmem' : event' ∈ events) (hevent : p event = true) (hevent' : p event' = true) :
    event = event' := by
  rw [List.countP_eq_length_filter] at h
  have hfilter : event ∈ events.filter p := List.mem_filter.mpr ⟨hmem, hevent⟩
  have hfilter' : event' ∈ events.filter p := List.mem_filter.mpr ⟨hmem', hevent'⟩
  obtain ⟨only, honly⟩ : ∃ only, events.filter p = [only] :=
    List.length_eq_one_iff.mp (Nat.le_antisymm h (List.length_pos_of_mem hfilter))
  rw [honly, List.mem_singleton] at hfilter hfilter'
  rw [hfilter, hfilter']

/-- Of two positions in a history, one is before the other. -/
theorem positions_trichotomy {before before' after after' : List (Event Op Ans W)}
    {event event' : Event Op Ans W} (h : before ++ event :: after = before' ++ event' :: after') :
    (before = before' ∧ event = event') ∨ (∃ between, before' = before ++ event :: between) ∨
      ∃ between, before = before' ++ event' :: between := by
  rcases List.append_eq_append_iff.mp h with ⟨rest, rfl, hrest⟩ | ⟨rest, rfl, hrest⟩ <;>
    cases rest with
    | nil =>
        left
        simp only [List.nil_append, List.cons.injEq] at hrest
        simp [hrest.1]
    | cons last rest =>
        rw [List.cons_append, List.cons.injEq] at hrest
        rw [hrest.1]
        first
          | exact Or.inr (Or.inl ⟨rest, rfl⟩)
          | exact Or.inr (Or.inr ⟨rest, rfl⟩)

theorem meets_snoc {cond : List (Event Op Ans W) → Event Op Ans W → Prop}
    {events : List (Event Op Ans W)} {event : Event Op Ans W} :
    Meets cond (events ++ [event]) ↔ Meets cond events ∧ cond events event := by
  constructor
  · intro h
    refine ⟨fun before event' after heq => h before event' (after ++ [event]) ?_,
      h events event [] rfl⟩
    rw [heq, List.append_assoc, List.cons_append]
  · rintro ⟨hpast, hlast⟩ before event' after heq
    rcases List.eq_nil_or_concat after with rfl | ⟨after, last, rfl⟩
    · obtain ⟨rfl, hsame⟩ := List.append_inj' heq rfl
      rw [← List.singleton_inj.mp hsame]
      exact hlast
    · rw [List.concat_eq_append, ← List.cons_append, ← List.append_assoc] at heq
      exact hpast before event' after (List.append_inj' heq rfl).1

theorem occurs_snoc {P : List (Event Op Ans W) → Event Op Ans W → Prop}
    {events : List (Event Op Ans W)} {event : Event Op Ans W} :
    Occurs P (events ++ [event]) ↔ Occurs P events ∨ P events event := by
  constructor
  · rintro ⟨before, event', after, heq, hP⟩
    rcases List.eq_nil_or_concat after with rfl | ⟨after, last, rfl⟩
    · obtain ⟨rfl, hsame⟩ := List.append_inj' heq rfl
      rw [List.singleton_inj.mp hsame]
      exact Or.inr hP
    · rw [List.concat_eq_append, ← List.cons_append, ← List.append_assoc] at heq
      exact Or.inl ⟨before, event', after, (List.append_inj' heq rfl).1, hP⟩
  · rintro (⟨before, event', after, rfl, hP⟩ | hP)
    · exact ⟨before, event', after ++ [event], by simp, hP⟩
    · exact ⟨events, event, [], rfl, hP⟩

theorem Occurs.append {P : List (Event Op Ans W) → Event Op Ans W → Prop}
    {events : List (Event Op Ans W)} (h : Occurs P events) (after : List (Event Op Ans W)) :
    Occurs P (events ++ after) := by
  obtain ⟨before, event, rest, rfl, hP⟩ := h
  exact ⟨before, event, rest ++ after, by simp, hP⟩

theorem Occurs.mono {P Q : List (Event Op Ans W) → Event Op Ans W → Prop}
    {events : List (Event Op Ans W)} (h : Occurs P events)
    (himp : ∀ before event, P before event → Q before event) : Occurs Q events := by
  obtain ⟨before, event, after, heq, hP⟩ := h
  exact ⟨before, event, after, heq, himp before event hP⟩

theorem Meets.of_append {cond : List (Event Op Ans W) → Event Op Ans W → Prop}
    {before after : List (Event Op Ans W)} (h : Meets cond (before ++ after)) :
    Meets cond before := by
  rintro before' event after' rfl
  exact h before' event (after' ++ after) (by simp)

/-- What the events give, each of them together with the events before it. -/
def collectFrom {δ : Type} (f : List (Event Op Ans W) → Event Op Ans W → Option δ) :
    List (Event Op Ans W) → List (Event Op Ans W) → List δ
  | _, [] => []
  | past, event :: rest => (f past event).toList ++ collectFrom f (past ++ [event]) rest

/-- What the events of a history give. -/
def collect {δ : Type} (f : List (Event Op Ans W) → Event Op Ans W → Option δ)
    (events : List (Event Op Ans W)) : List δ := collectFrom f [] events

theorem collect_snoc {δ : Type} {f : List (Event Op Ans W) → Event Op Ans W → Option δ}
    {events : List (Event Op Ans W)} {event : Event Op Ans W} :
    collect f (events ++ [event]) = collect f events ++ (f events event).toList := by
  suffices hfrom : ∀ past, collectFrom f past (events ++ [event]) =
      collectFrom f past events ++ (f (past ++ events) event).toList from hfrom []
  induction events with
  | nil =>
      intro past
      simp [collectFrom]
  | cons first rest ih =>
      intro past
      have hrest := ih (past ++ [first])
      rw [List.append_assoc] at hrest
      rw [List.cons_append, collectFrom, collectFrom, hrest, List.append_assoc]
      rfl

theorem mem_collect {δ : Type} {f : List (Event Op Ans W) → Event Op Ans W → Option δ}
    {events : List (Event Op Ans W)} {d : δ} :
    d ∈ collect f events ↔ Occurs (fun past event => f past event = some d) events := by
  induction events using List.reverseRecOn with
  | nil =>
      constructor
      · exact fun h => absurd h List.not_mem_nil
      · rintro ⟨before, event, after, heq, -⟩
        exact absurd heq.symm (by simp)
  | append_singleton past event ih =>
      rw [collect_snoc, occurs_snoc, List.mem_append, ih, Option.mem_toList]

/-- What is collected is pairwise related if every event relates what it gives to what was collected
before it. -/
theorem pairwise_collect {δ : Type} {R : δ → δ → Prop}
    {f : List (Event Op Ans W) → Event Op Ans W → Option δ} {events : List (Event Op Ans W)} :
    (collect f events).Pairwise R ↔
      Meets (fun past event => ∀ d, f past event = some d → ∀ d' ∈ collect f past,
        R d' d) events := by
  induction events using List.reverseRecOn with
  | nil =>
      exact iff_of_true List.Pairwise.nil fun before event after heq => absurd heq.symm (by simp)
  | append_singleton past event ih =>
      have hlast : (f past event).toList.Pairwise R := by
        cases f past event with
        | none => exact List.Pairwise.nil
        | some d => exact List.pairwise_singleton R d
      rw [collect_snoc, List.pairwise_append, meets_snoc, ih]
      constructor
      · rintro ⟨hpast, -, hacross⟩
        exact ⟨hpast, fun d hd d' hd' => hacross d' hd' d (Option.mem_toList.mpr hd)⟩
      · rintro ⟨hpast, hthis⟩
        exact ⟨hpast, hlast, fun d' hd' d hd => hthis d (Option.mem_toList.mp hd) d' hd'⟩

/-- Up to any of its events, a history is a history. -/
theorem History.of_append {start pool : Pool Op Ans W} {before after : List (Event Op Ans W)}
    (h : History perform Entry start (before ++ after) pool) :
    ∃ threads, History perform Entry start before ⟨worldAfter start.world before, threads⟩ := by
  generalize hevents : before ++ after = events at h
  induction h generalizing after with
  | refl =>
      obtain ⟨rfl, -⟩ := List.append_eq_nil_iff.mp hevents
      exact ⟨start.threads, .refl⟩
  | spawn p _ _ ih => exact ih hevents
  | @ran events pool j op next answer w' hpast hget hperform ih =>
      -- the last event is the step, or it belongs to what is cut off
      rcases List.eq_nil_or_concat after with rfl | ⟨after, last, rfl⟩
      · rw [List.append_nil] at hevents
        subst hevents
        refine ⟨pool.threads.set j (next answer), ?_⟩
        rw [worldAfter_snoc]
        exact .ran j op next answer w' hpast hget hperform
      · rw [List.concat_eq_append, ← List.append_assoc] at hevents
        exact ih (List.append_inj' hevents rfl).1
  | @stopped events pool j hpast hj ih =>
      rcases List.eq_nil_or_concat after with rfl | ⟨after, last, rfl⟩
      · rw [List.append_nil] at hevents
        subst hevents
        refine ⟨pool.threads.set j (.ret ()), ?_⟩
        rw [worldAfter_snoc, Event.world, ← hpast.world_eq]
        exact .stopped j hpast hj
      · rw [List.concat_eq_append, ← List.append_assoc] at hevents
        exact ih (List.append_inj' hevents rfl).1

/-- The state in which a program took one of its steps. -/
theorem History.at_step {start pool : Pool Op Ans W} {before after : List (Event Op Ans W)} {i : ℕ}
    {step : Step Op Ans W} (h : History perform Entry start (before ++ .ran i step :: after) pool) :
    step.Valid perform ∧ ∃ threads, History perform Entry start before ⟨step.pre, threads⟩ := by
  generalize hevents : before ++ .ran i step :: after = events at h
  induction h generalizing after with
  | refl => simp at hevents
  | spawn p _ _ ih => exact ih hevents
  | @ran events pool j op next answer w' hpast _ hperform ih =>
      rcases List.eq_nil_or_concat after with rfl | ⟨after, last, rfl⟩
      · obtain ⟨rfl, hsame⟩ := List.append_inj' hevents rfl
        obtain ⟨-, rfl⟩ := Event.ran.inj (List.singleton_inj.mp hsame)
        exact ⟨hperform, pool.threads, hpast⟩
      · rw [List.concat_eq_append, ← List.cons_append, ← List.append_assoc] at hevents
        exact ih (List.append_inj' hevents rfl).1
  | stopped j hpast _ ih =>
      rcases List.eq_nil_or_concat after with rfl | ⟨after, last, rfl⟩
      · obtain ⟨-, hsame⟩ := List.append_inj' hevents rfl
        cases List.singleton_inj.mp hsame
      · rw [List.concat_eq_append, ← List.cons_append, ← List.append_assoc] at hevents
        exact ih (List.append_inj' hevents rfl).1

/-- What the later steps of a history preserve, holds in the end if it held before them. -/
theorem History.preserved {P : W → Prop} {start pool : Pool Op Ans W}
    {before after : List (Event Op Ans W)} (h : History perform Entry start (before ++ after) pool)
    (hstep : ∀ past i step later, after = past ++ .ran i step :: later → step.Valid perform →
      P step.pre → P step.post)
    (hbefore : P (worldAfter start.world before)) : P pool.world := by
  rw [h.world_eq]
  induction after using List.reverseRecOn generalizing pool with
  | nil => rwa [List.append_nil]
  | append_singleton past event ih =>
      rw [← List.append_assoc] at h ⊢
      obtain ⟨threads, hpast⟩ := h.of_append
      have hholds := ih hpast fun past' i step later hafter =>
        hstep past' i step (later ++ [event]) (by simp [hafter])
      rw [worldAfter_snoc]
      cases event with
      | stopped i => exact hholds
      | ran i step =>
          obtain ⟨hvalid, threads', hpre⟩ := h.at_step
          rw [← hpre.world_eq] at hholds
          exact hstep past i step [] rfl hvalid hholds

/-- What every step increases, a history increases. -/
theorem History.monotone {δ : Type} [Preorder δ] (f : W → δ)
    (hstep : ∀ step : Step Op Ans W, step.Valid perform → f step.pre ≤ f step.post)
    {start pool : Pool Op Ans W} {before after : List (Event Op Ans W)}
    (h : History perform Entry start (before ++ after) pool) :
    f (worldAfter start.world before) ≤ f pool.world :=
  h.preserved (P := fun w => f (worldAfter start.world before) ≤ f w)
    (fun _ _ step _ _ hvalid hpre => hpre.trans (hstep step hvalid)) (le_refl _)

end Histories

/-! ## Phases -/

section Phases

variable (next : σ → (op : Op) → Ans op → σ) (stop : σ → σ) (start : σ)

/-- The phase of a program after an event. -/
def Event.phase (i : ℕ) (s : σ) : Event Op Ans W → σ
  | .ran j step => if j = i then next s step.op step.ans else s
  | .stopped j => if j = i then stop s else s

/-- The phase of a program that has taken its steps of a history. -/
def phase (i : ℕ) (events : List (Event Op Ans W)) : σ :=
  events.foldl (Event.phase next stop i) start

variable {next stop start}

@[simp] theorem phase_nil {i : ℕ} : phase next stop start i ([] : List (Event Op Ans W)) = start :=
  rfl

theorem phase_snoc {i : ℕ} {events : List (Event Op Ans W)} {event : Event Op Ans W} :
    phase next stop start i (events ++ [event]) =
      event.phase next stop i (phase next stop start i events) := by
  simp [phase]

@[simp] theorem phase_ran {i j : ℕ} {events : List (Event Op Ans W)} {step : Step Op Ans W} :
    phase next stop start i (events ++ [.ran j step]) =
      if j = i then next (phase next stop start i events) step.op step.ans
      else phase next stop start i events := phase_snoc

@[simp] theorem phase_stopped {i j : ℕ} {events : List (Event Op Ans W)} :
    phase next stop start i (events ++ [.stopped j]) =
      if j = i then stop (phase next stop start i events) else phase next stop start i events :=
  phase_snoc

/-- A property of the phase of a program that did not hold at the start was brought about by one of
its steps. -/
theorem occurs_of_phase {P : σ → Prop} {i : ℕ} {events : List (Event Op Ans W)}
    (hstart : ¬ P start) (hstop : ∀ s, P (stop s) → P s) (h : P (phase next stop start i events)) :
    Occurs (fun before event => ∃ step, event = .ran i step ∧
      ¬ P (phase next stop start i before) ∧
      P (next (phase next stop start i before) step.op step.ans)) events := by
  induction events using List.reverseRecOn with
  | nil => exact absurd h hstart
  | append_singleton past event ih =>
      rw [occurs_snoc]
      -- the last event has brought it about, or an earlier one has
      by_cases hpast : P (phase next stop start i past)
      · exact Or.inl (ih hpast)
      · right
        cases event with
        | ran j step =>
            rw [phase_ran] at h
            by_cases hij : j = i
            · subst hij
              rw [if_pos rfl] at h
              exact ⟨step, rfl, hpast, h⟩
            · rw [if_neg hij] at h
              exact absurd h hpast
        | stopped j =>
            rw [phase_stopped] at h
            split at h
            · exact absurd (hstop _ h) hpast
            · exact absurd h hpast

/-- Program `i` has taken a step with `P`, and only operations with `kept` since. -/
def Since (P : (op : Op) → Ans op → Prop) (kept : Op → Prop) (i : ℕ)
    (events : List (Event Op Ans W)) : Prop :=
  ∃ before step after, events = before ++ .ran i step :: after ∧ P step.op step.ans ∧
    ∀ step', .ran i step' ∈ after → kept step'.op

theorem Since.snoc {P : (op : Op) → Ans op → Prop} {kept : Op → Prop} {i : ℕ}
    {events : List (Event Op Ans W)} {event : Event Op Ans W} (h : Since P kept i events)
    (hevent : ∀ step, event = .ran i step → kept step.op) : Since P kept i (events ++ [event]) := by
  obtain ⟨before, step, after, rfl, hP, hkept⟩ := h
  refine ⟨before, step, after ++ [event], by simp, hP, fun step' hstep' => ?_⟩
  rcases List.mem_append.mp hstep' with hstep' | hstep'
  · exact hkept step' hstep'
  · exact hevent step' (List.mem_singleton.mp hstep').symm

/-- If a program gets into the phases `Q` by steps with `P` only, and stays there by operations with
`kept` only, then in a phase `Q` it has taken a step with `P` and only operations with `kept` since.
-/
theorem since_of_phase {Q : σ → Prop} {P : (op : Op) → Ans op → Prop} {kept : Op → Prop} {i : ℕ}
    {events : List (Event Op Ans W)} (hstart : ¬ Q start) (hstop : ∀ s, Q (stop s) → Q s)
    (hnext : ∀ s op answer, Q (next s op answer) → (Q s ∧ kept op) ∨ P op answer)
    (h : Q (phase next stop start i events)) : Since P kept i events := by
  induction events using List.reverseRecOn with
  | nil => exact absurd h hstart
  | append_singleton past event ih =>
      cases event with
      | ran j step =>
          rw [phase_ran] at h
          -- only a step of the program itself changes its phase
          by_cases hij : j = i
          · subst hij
            rw [if_pos rfl] at h
            rcases hnext _ _ _ h with ⟨hpast, hkept⟩ | hP
            · refine (ih hpast).snoc ?_
              rintro step' ⟨⟩
              exact hkept
            · exact ⟨past, step, [], rfl, hP, nofun⟩
          · rw [if_neg hij] at h
            refine (ih h).snoc ?_
            rintro step' ⟨⟩
            exact absurd rfl hij
      | stopped j =>
          rw [phase_stopped] at h
          refine (ih ?_).snoc nofun
          split at h
          · exact hstop _ h
          · exact h

variable (next) (allowed : σ → Op → Prop)

/-- From the given phase on, every operation of the program is allowed, and it returns with `Φ`. -/
def Conforms : Program Op Ans α → σ → (α → σ → Prop) → Prop
  | .ret a, s, Φ => Φ a s
  | .ask op continuation, s, Φ =>
      allowed s op ∧ ∀ answer, Conforms (continuation answer) (next s op answer) Φ

variable {next allowed}

@[simp] theorem conforms_ret {a : α} {s : σ} {Φ : α → σ → Prop} :
    Conforms next allowed (.ret a : Program Op Ans α) s Φ ↔ Φ a s := Iff.rfl

@[simp] theorem conforms_pure {a : α} {s : σ} {Φ : α → σ → Prop} :
    Conforms next allowed (pure a : Program Op Ans α) s Φ ↔ Φ a s := Iff.rfl

@[simp] theorem conforms_issue {op : Op} {s : σ} {Φ : Ans op → σ → Prop} :
    Conforms next allowed (.issue op) s Φ ↔
      allowed s op ∧ ∀ answer, Φ answer (next s op answer) := Iff.rfl

theorem conforms_bind {p : Program Op Ans α} {f : α → Program Op Ans β} {s : σ}
    {Φ : β → σ → Prop} :
    Conforms next allowed (p >>= f) s Φ ↔
      Conforms next allowed p s fun a s' => Conforms next allowed (f a) s' Φ := by
  induction p generalizing s with
  | ret a => exact Iff.rfl
  | ask op continuation ih =>
      exact and_congr_right fun _ => forall_congr' fun answer => ih answer

theorem conforms_issue_bind {op : Op} {f : Ans op → Program Op Ans β} {s : σ} {Φ : β → σ → Prop} :
    Conforms next allowed (Program.issue op >>= f) s Φ ↔
      allowed s op ∧ ∀ answer, Conforms next allowed (f answer) (next s op answer) Φ := Iff.rfl

theorem Conforms.mono {p : Program Op Ans α} {s : σ} {Φ Ψ : α → σ → Prop}
    (h : Conforms next allowed p s Φ) (himp : ∀ a s', Φ a s' → Ψ a s') :
    Conforms next allowed p s Ψ := by
  induction p generalizing s with
  | ret a => exact himp a s h
  | ask op continuation ih => exact ⟨h.1, fun answer => ih answer (h.2 answer)⟩

/-- A run takes a conforming program to a phase with `Φ`. -/
theorem Conforms.of_runs {perform : (op : Op) → Ans op → W → Option W}
    {p : Program Op Ans α} {s : σ}
    {Φ : α → σ → Prop} {w w' : W} {a : α} {steps : List (Step Op Ans W)}
    (hp : Conforms next allowed p s Φ) (h : Runs perform p w steps a w') (i : ℕ) :
    Φ a (phase next stop s i (steps.map (.ran i))) := by
  induction p generalizing s w steps with
  | ret result =>
      obtain ⟨rfl, rfl, rfl⟩ := h
      exact hp
  | ask op continuation ih =>
      obtain ⟨answer, w₁, rest, -, rfl, hrest⟩ := h
      have hphase := ih answer (hp.2 answer) hrest
      have hstep : Event.phase next stop i s (.ran i ⟨w, op, answer, w₁⟩) = next s op answer :=
        if_pos rfl
      rw [List.map_cons, phase, List.foldl_cons, hstep]
      exact hphase

/-- A composition of programs that can fail: an error ends both. -/
theorem conforms_run_bind {x : Fallible Op Ans ε α} {f : α → Fallible Op Ans ε β} {s : σ}
    {Φ : Except ε β → σ → Prop} :
    Conforms next allowed (x >>= f).run s Φ ↔
      Conforms next allowed x.run s fun r s' => Conforms next allowed (continueWith f r) s' Φ := by
  rw [run_bind_eq, conforms_bind]

theorem conforms_ask_bind {op : Op} {f : Ans op → Fallible Op Ans ε β} {s : σ}
    {Φ : Except ε β → σ → Prop} :
    Conforms next allowed (Fallible.ask op >>= f).run s Φ ↔
      allowed s op ∧ ∀ answer, Conforms next allowed (f answer).run (next s op answer) Φ :=
  conforms_run_bind

theorem conforms_orFail {δ : Type} {e : ε} {p : Program Op Ans (Except δ α)} {s : σ}
    {Φ : Except ε α → σ → Prop} :
    Conforms next allowed (Fallible.orFail e p).run s Φ ↔
      Conforms next allowed p s fun r s' =>
        (∀ a, r = .ok a → Φ (.ok a) s') ∧ ∀ x, r = .error x → Φ (.error e) s' := by
  rw [Fallible.orFail, ExceptT.run_mk, conforms_bind]
  constructor <;>
  · intro h
    refine h.mono fun r s' hr => ?_
    cases r with
    | ok a => simpa using hr
    | error x => simpa using hr

theorem conforms_orFail_bind {δ : Type} {e : ε} {p : Program Op Ans (Except δ α)}
    {f : α → Fallible Op Ans ε β} {s : σ} {Φ : Except ε β → σ → Prop} :
    Conforms next allowed (Fallible.orFail e p >>= f).run s Φ ↔
      Conforms next allowed p s fun r s' =>
        (∀ a, r = .ok a → Conforms next allowed (f a).run s' Φ) ∧
          ∀ x, r = .error x → Φ (.error e) s' :=
  conforms_run_bind.trans conforms_orFail

/-- A program of operations that are allowed in some phases and do not lead out of them. -/
theorem conforms_keeping {quiet : Op → Prop} {Keeps : σ → Prop} {p : Program Op Ans α} {s : σ}
    (hp : p.Issues quiet) (hquiet : ∀ s' op, Keeps s' → quiet op →
      allowed s' op ∧ ∀ answer, Keeps (next s' op answer)) (hs : Keeps s) :
    Conforms next allowed p s fun _ s' => Keeps s' := by
  induction p generalizing s with
  | ret a => exact hs
  | ask op continuation ih =>
      obtain ⟨hop, hnext⟩ := hquiet s op hs hp.1
      exact ⟨hop, fun answer => ih answer (hp.2 answer) (hnext answer)⟩

/-- A program of operations that are allowed in a phase and do not change it. -/
theorem conforms_of_issues {quiet : Op → Prop} {p : Program Op Ans α} {s : σ}
    (hp : p.Issues quiet)
    (hquiet : ∀ op, quiet op → allowed s op ∧ ∀ answer, next s op answer = s) :
    Conforms next allowed p s fun _ s' => s' = s :=
  conforms_keeping hp (fun _ op hs hop => hs ▸ hquiet op hop) rfl

/-- The same for the first part of a composition. -/
theorem conforms_quiet_run_bind {quiet : Op → Prop} {x : Fallible Op Ans ε α}
    {f : α → Fallible Op Ans ε β} {s : σ} {Φ : Except ε β → σ → Prop} (hx : x.run.Issues quiet)
    (hquiet : ∀ op, quiet op → allowed s op ∧ ∀ answer, next s op answer = s)
    (hok : ∀ a, Conforms next allowed (f a).run s Φ) (herror : ∀ e, Φ (.error e) s) :
    Conforms next allowed (x >>= f).run s Φ := by
  rw [conforms_run_bind]
  refine (conforms_of_issues hx hquiet).mono fun r s' hs => ?_
  subst hs
  cases r with
  | ok a => exact hok a
  | error e => exact herror e

end Phases

/-! ## Disciplined histories -/

section Disciplined

variable {perform : (op : Op) → Ans op → W → Option W} {Entry : Program Op Ans Unit → Prop}
variable {next : σ → (op : Op) → Ans op → σ} {stop : σ → σ} {allowed : σ → Op → Prop}
variable {start : σ} {done : σ → Prop} {w : W} {pool : Pool Op Ans W}
  {events : List (Event Op Ans W)}

/-- Replacing one program of a pool by one that conforms from its new phase. -/
theorem conforms_set {threads : List (Program Op Ans Unit)} {i j : ℕ} {q : Program Op Ans Unit}
    {s s' : σ} (hj : j < threads.length)
    (hpool : (∀ p, threads[i]? = some p → Conforms next allowed p s fun _ s => done s) ∧
      (threads.length ≤ i → s = start))
    (hq : j = i → Conforms next allowed q s' fun _ s => done s) :
    (∀ p, (threads.set j q)[i]? = some p →
      Conforms next allowed p (if j = i then s' else s) fun _ s => done s) ∧
    ((threads.set j q).length ≤ i → (if j = i then s' else s) = start) := by
  by_cases hij : j = i
  · subst hij
    rw [List.getElem?_set_self hj, List.length_set, if_pos rfl]
    refine ⟨fun p hp => ?_, fun hlength => absurd hlength (by omega)⟩
    rw [← Option.some.inj hp]
    exact hq rfl
  · rw [List.getElem?_set_ne hij, List.length_set, if_neg hij]
    exact hpool

/-- Every program goes on conforming from the phase it is in, and a number that is not used yet is
in the first phase. -/
theorem History.conforms (hdone : ∀ s, done (stop s))
    (hentry : ∀ p, Entry p → Conforms next allowed p start fun _ s => done s)
    (h : History perform Entry ⟨w, []⟩ events pool) (i : ℕ) :
    (∀ p, pool.threads[i]? = some p →
      Conforms next allowed p (phase next stop start i events) fun _ s => done s) ∧
    (pool.threads.length ≤ i → phase next stop start i events = start) := by
  induction h generalizing i with
  | refl => exact ⟨nofun, fun _ => rfl⟩
  | @spawn events pool p _ hp ih =>
      obtain ⟨hpast, hnew⟩ := ih i
      constructor
      · intro q hq
        -- a program of the pool, or the one that is started
        rw [List.getElem?_append] at hq
        split at hq
        · exact hpast q hq
        · rw [List.getElem?_singleton] at hq
          obtain ⟨-, hsame⟩ := Option.ite_none_right_eq_some.mp hq
          rw [← Option.some.inj hsame, hnew (by omega)]
          exact hentry _ hp
      · intro hlength
        rw [List.length_append] at hlength
        exact hnew (by omega)
  | @ran events pool j op continuation answer w' _ hget _ ih =>
      rw [phase_ran]
      refine conforms_set (List.getElem?_eq_some_iff.mp hget).1 (ih i) fun hij => ?_
      rw [← hij]
      exact ((ih j).1 _ hget).2 answer
  | @stopped events pool j _ hj ih =>
      rw [phase_stopped]
      exact conforms_set hj (ih i) fun _ => hdone _

/-- **Discipline rule.**  If every program that may be started conforms, then every step of a
history was allowed in the phase of its program, and what such steps preserve holds throughout. -/
theorem History.invariant (hdone : ∀ s, done (stop s))
    (hentry : ∀ p, Entry p → Conforms next allowed p start fun _ s => done s)
    (cond : List (Event Op Ans W) → Event Op Ans W → Prop)
    (Inv : List (Event Op Ans W) → W → Prop) (hinit : Inv [] w)
    (hran : ∀ past i step, step.Valid perform → allowed (phase next stop start i past) step.op →
      cond past (.ran i step) → Inv past step.pre → Inv (past ++ [.ran i step]) step.post)
    (hstopped : ∀ past i, cond past (.stopped i) → Inv past (worldAfter w past) →
      Inv (past ++ [.stopped i]) (worldAfter w past))
    (h : History perform Entry ⟨w, []⟩ events pool) (hcond : Meets cond events) :
    Inv events pool.world := by
  induction h with
  | refl => exact hinit
  | spawn p _ _ ih => exact ih hcond
  | ran i op continuation answer w' hpast hget hperform ih =>
      obtain ⟨hpastcond, hthis⟩ := meets_snoc.mp hcond
      have hallowed := ((hpast.conforms hdone hentry i).1 _ hget).1
      exact hran _ i _ hperform hallowed hthis (ih hpastcond)
  | stopped i hpast _ ih =>
      obtain ⟨hpastcond, hthis⟩ := meets_snoc.mp hcond
      have hinv := ih hpastcond
      rw [hpast.world_eq] at hinv ⊢
      exact hstopped _ i hthis hinv

/-- Every step was allowed in the phase of its program. -/
theorem History.step_allowed (hdone : ∀ s, done (stop s))
    (hentry : ∀ p, Entry p → Conforms next allowed p start fun _ s => done s)
    (h : History perform Entry ⟨w, []⟩ events pool) {before after : List (Event Op Ans W)} {i : ℕ}
    {step : Step Op Ans W} (hevents : events = before ++ .ran i step :: after) :
    allowed (phase next stop start i before) step.op := by
  induction h generalizing after with
  | refl => simp at hevents
  | spawn p _ _ ih => exact ih hevents
  | @ran events pool j op continuation answer w' hpast hget hperform ih =>
      rcases List.eq_nil_or_concat after with rfl | ⟨after, last, rfl⟩
      · obtain ⟨rfl, hsame⟩ := List.append_inj' hevents rfl
        obtain ⟨rfl, rfl⟩ := Event.ran.inj (List.singleton_inj.mp hsame)
        exact ((hpast.conforms hdone hentry j).1 _ hget).1
      · rw [List.concat_eq_append, ← List.cons_append, ← List.append_assoc] at hevents
        exact ih (List.append_inj' hevents rfl).1
  | stopped j _ _ ih =>
      rcases List.eq_nil_or_concat after with rfl | ⟨after, last, rfl⟩
      · obtain ⟨-, hsame⟩ := List.append_inj' hevents rfl
        cases List.singleton_inj.mp hsame
      · rw [List.concat_eq_append, ← List.cons_append, ← List.append_assoc] at hevents
        exact ih (List.append_inj' hevents rfl).1

/-- What allowed steps and stops preserve of the phase of a program, lasts. -/
theorem History.phase_lasts {Q : σ → Prop} {i : ℕ} (hdone : ∀ s, done (stop s))
    (hentry : ∀ p, Entry p → Conforms next allowed p start fun _ s => done s)
    (hnext : ∀ s op answer, allowed s op → Q s → Q (next s op answer))
    (hstop : ∀ s, Q s → Q (stop s)) {before after : List (Event Op Ans W)}
    (h : History perform Entry ⟨w, []⟩ (before ++ after) pool)
    (hQ : Q (phase next stop start i before)) : Q (phase next stop start i (before ++ after)) := by
  induction after using List.reverseRecOn generalizing pool with
  | nil => rwa [List.append_nil]
  | append_singleton after event ih =>
      rw [← List.append_assoc] at h ⊢
      obtain ⟨threads, hpast⟩ := h.of_append
      have hlast := ih hpast
      cases event with
      | ran j step =>
          -- the step was allowed, so its phase keeps the property
          have hallowed := h.step_allowed hdone hentry rfl
          rw [phase_ran]
          by_cases hij : j = i
          · subst hij
            rw [if_pos rfl]
            exact hnext _ _ _ hallowed hlast
          · rwa [if_neg hij]
      | stopped j =>
          rw [phase_stopped]
          by_cases hij : j = i
          · rw [if_pos hij]
            exact hstop _ hlast
          · rwa [if_neg hij]

end Disciplined

/-! ## Recording a schedule -/

section Recording

variable (perform : (op : Op) → Ans op → W → Option W)

/-- Carry out one scheduling decision and record it. -/
def Move.record (events : List (Event Op Ans W)) (pool : Pool Op Ans W) :
    Move Op Ans W → Option (List (Event Op Ans W) × Pool Op Ans W)
  | .start p => some (events, ⟨pool.world, pool.threads ++ [p]⟩)
  | .drop i =>
      if i < pool.threads.length then
        some (events ++ [.stopped i], ⟨pool.world, pool.threads.set i (.ret ())⟩)
      else none
  | .run i answer =>
      match pool.threads[i]? with
      | some (.ask op next) =>
          match perform op (answer op pool.world) pool.world with
          | some w' => some (events ++ [.ran i ⟨pool.world, op, answer op pool.world, w'⟩],
              ⟨w', pool.threads.set i (next (answer op pool.world))⟩)
          | none => none
      | _ => none

/-- Carry out a schedule and record it. -/
def record : List (Event Op Ans W) → Pool Op Ans W → List (Move Op Ans W) →
    Option (List (Event Op Ans W) × Pool Op Ans W)
  | events, pool, [] => some (events, pool)
  | events, pool, move :: moves =>
      match move.record perform events pool with
      | some (events', pool') => record events' pool' moves
      | none => none

variable {perform} {Entry : Program Op Ans Unit → Prop}

theorem Move.record_history {start pool pool' : Pool Op Ans W}
    {events events' : List (Event Op Ans W)}
    {move : Move Op Ans W} (hentry : ∀ p, move = .start p → Entry p)
    (hpast : History perform Entry start events pool)
    (h : move.record perform events pool = some (events', pool')) :
    History perform Entry start events' pool' := by
  cases move with
  | start p =>
      simp only [Move.record, Option.some.injEq, Prod.mk.injEq] at h
      obtain ⟨rfl, rfl⟩ := h
      exact .spawn p hpast (hentry p rfl)
  | drop i =>
      simp only [Move.record, Option.ite_none_right_eq_some, Option.some.injEq, Prod.mk.injEq] at h
      obtain ⟨hi, rfl, rfl⟩ := h
      exact .stopped i hpast hi
  | run i answer =>
      simp only [Move.record] at h
      split at h
      · split at h
        · rename_i _ op next hget _ w' hperform
          simp only [Option.some.injEq, Prod.mk.injEq] at h
          obtain ⟨rfl, rfl⟩ := h
          exact .ran i op next _ w' hpast hget hperform
        · cases h
      · cases h

/-- A recorded schedule is a history. -/
theorem record_history {start pool pool' : Pool Op Ans W} {events events' : List (Event Op Ans W)}
    {moves : List (Move Op Ans W)} (hentry : ∀ p, .start p ∈ moves → Entry p)
    (hpast : History perform Entry start events pool)
    (h : record perform events pool moves = some (events', pool')) :
    History perform Entry start events' pool' := by
  induction moves generalizing events pool with
  | nil =>
      simp only [record, Option.some.injEq, Prod.mk.injEq] at h
      obtain ⟨rfl, rfl⟩ := h
      exact hpast
  | cons move moves ih =>
      simp only [record] at h
      split at h
      · rename_i events₁ pool₁ hmove
        refine ih (fun p hp => hentry p (List.mem_cons_of_mem _ hp)) ?_ h
        exact Move.record_history (fun p hp => hentry p (hp ▸ List.mem_cons_self)) hpast hmove
      · cases h

/-- A recorded schedule that passes a test is a history. -/
theorem exists_history_of_record {start : Pool Op Ans W} {moves : List (Move Op Ans W)}
    (test : List (Event Op Ans W) → Pool Op Ans W → Bool) (hentry : ∀ p, .start p ∈ moves → Entry p)
    (h : (record perform [] start moves).any (fun result => test result.1 result.2) = true) :
    ∃ events pool, History perform Entry start events pool ∧ test events pool = true := by
  obtain ⟨⟨events, pool⟩, hrecord, htest⟩ := (Option.any_eq_true _ _).mp h
  exact ⟨events, pool, record_history hentry .refl hrecord, htest⟩

/-- Test every event, together with the events before it. -/
def testEach (test : List (Event Op Ans W) → Event Op Ans W → Bool) :
    List (Event Op Ans W) → List (Event Op Ans W) → Bool
  | _, [] => true
  | past, event :: rest => test past event && testEach test (past ++ [event]) rest

/-- A condition holds of a history if it holds of all events that pass a test. -/
theorem meets_of_testEach {cond : List (Event Op Ans W) → Event Op Ans W → Prop}
    {test : List (Event Op Ans W) → Event Op Ans W → Bool} {events : List (Event Op Ans W)}
    (hcond : ∀ past event, test past event = true → cond past event)
    (h : testEach test [] events = true) : Meets cond events := by
  suffices hfrom : ∀ past, testEach test past events = true → ∀ before event after,
      events = before ++ event :: after → cond (past ++ before) event from
    fun before event after hevents => hfrom [] h before event after hevents
  clear h
  induction events with
  | nil =>
      intro past _ before event after hevents
      exact absurd hevents.symm (by simp)
  | cons first rest ih =>
      intro past htest before event after hevents
      obtain ⟨hfirst, hrest⟩ := Bool.and_eq_true_iff.mp htest
      cases before with
      | nil =>
          obtain ⟨rfl, -⟩ := List.cons.inj hevents
          rw [List.append_nil]
          exact hcond past first hfirst
      | cons _ before =>
          obtain ⟨rfl, hrest'⟩ := List.cons.inj hevents
          have hlater := ih (past ++ [first]) hrest before event after hrest'
          rwa [List.append_assoc] at hlater

end Recording

end Interaction
