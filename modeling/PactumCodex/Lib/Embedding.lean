import PactumCodex.Lib.History
import PactumCodex.Lib.Ownership

/-!
# Programs inside other programs

A system has operations of its own besides those of a component, and its programs
may run one program of the component after the other, with operations of their
own in between: a worker that carries out its tasks in a loop, say.

A `Lifting` says how the system carries out the operations of the component, and
`Program.embed` makes a program of the component one of the system.  In an
`Embedding` nothing else touches the world of the component.
`Composed E Entry p` says that `p` is put together from programs satisfying
`Entry` and from other operations.  If all programs of a system are, then what
the system does to the world of the component is what a pool of the component's
own programs does (`History.project`), so that results about the component hold
in the system.
-/

namespace Interaction

variable {Op Op₁ : Type} {Ans : Op → Type} {Ans₁ : Op₁ → Type} {W W₁ α β : Type}
variable {perform : (op : Op) → Ans op → W → Option W}
variable {perform₁ : (op : Op₁) → Ans₁ op → W₁ → Option W₁}

/-- How operations `Op₁` on a world `W₁` are carried out by a system with operations `Op` and world
`W`. -/
structure Lifting (perform₁ : (op : Op₁) → Ans₁ op → W₁ → Option W₁)
    (perform : (op : Op) → Ans op → W → Option W) where
  lift : Op₁ → Op
  answer : (op : Op₁) → Ans (lift op) → Ans₁ op
  view : W → W₁
  performs_lift : ∀ {op a w w'}, perform (lift op) a w = some w' →
    perform₁ op (answer op a) (view w) = some (view w')

/-- A component with operations `Op₁` and world `W₁`, in a system with operations `Op` and world
`W`; nothing else in the system touches its world. -/
structure Embedding (perform₁ : (op : Op₁) → Ans₁ op → W₁ → Option W₁)
    (perform : (op : Op) → Ans op → W → Option W) extends Lifting perform₁ perform where
  /-- What an operation of the system with its answer is in the component. -/
  part : (op : Op) → Ans op → Option (Σ op : Op₁, Ans₁ op)
  part_lift : ∀ op a, part (lift op) a = some ⟨op, answer op a⟩
  performs : ∀ {op a op₁ a₁ w w'}, part op a = some ⟨op₁, a₁⟩ → perform op a w = some w' →
    perform₁ op₁ a₁ (view w) = some (view w')
  leaves : ∀ {op a w w'}, part op a = none → perform op a w = some w' → view w' = view w

theorem Program.issues_issue {allowed : Op → Prop} {op : Op} (h : allowed op) :
    (Program.issue op : Program Op Ans (Ans op)).Issues allowed := ⟨h, fun _ => trivial⟩

theorem Program.issues_of_forall {allowed : Op → Prop} (p : Program Op Ans α)
    (h : ∀ op, allowed op) : p.Issues allowed := by
  induction p with
  | ret a => trivial
  | ask op next ih => exact ⟨h op, fun answer => ih answer⟩

theorem Program.bind_assoc {γ : Type} (p : Program Op Ans α) (f : α → Program Op Ans β)
    (g : β → Program Op Ans γ) : (p >>= f) >>= g = p >>= fun a => f a >>= g := by
  induction p with
  | ret a => rfl
  | ask op next ih => exact congrArg (Program.ask op) (funext ih)

theorem Program.bind_unit (p : Program Op Ans Unit) : (p >>= fun _ => .ret ()) = p := by
  induction p with
  | ret a => rfl
  | ask op next ih => exact congrArg (Program.ask op) (funext ih)

/-- A program of the component as one of the system. -/
def Program.embed (L : Lifting perform₁ perform) : Program Op₁ Ans₁ α → Program Op Ans α
  | .ret a => .ret a
  | .ask op next => .ask (L.lift op) fun answer => (next (L.answer op answer)).embed L

section Embed

variable {L : Lifting perform₁ perform}

theorem Program.embed_bind (p : Program Op₁ Ans₁ α) (f : α → Program Op₁ Ans₁ β) :
    (p >>= f).embed L = p.embed L >>= fun a => (f a).embed L := by
  induction p with
  | ret a => rfl
  | ask op next ih => exact congrArg (Program.ask (L.lift op)) (funext fun answer => ih _)

/-- An embedded program issues the operations of the program. -/
theorem issues_embed {allowed : Op → Prop} {p : Program Op₁ Ans₁ α}
    (h : p.Issues fun op => allowed (L.lift op)) : (p.embed L).Issues allowed := by
  induction p with
  | ret a => trivial
  | ask op next ih => exact ⟨h.1, fun answer => ih _ (h.2 _)⟩

end Embed

variable {E : Embedding perform₁ perform}

/-- What an event of the system is in the component. -/
def Embedding.project (E : Embedding perform₁ perform) : Event Op Ans W → Option (Step Op₁ Ans₁ W₁)
  | .ran _ step => (E.part step.op step.ans).map fun part =>
      ⟨E.view step.pre, part.1, part.2, E.view step.post⟩
  | .stopped _ => none

/-! ## Programs composed of programs of the component -/

variable (E) in
/-- The program runs programs satisfying `Entry` one after the other, with other operations in
between; it is inside the given one of them, if any. -/
inductive Composed (Entry : Program Op₁ Ans₁ Unit → Prop) :
    Program Op Ans Unit → Option (Program Op₁ Ans₁ Unit) → Prop
  | ret : Composed Entry (.ret ()) none
  | other {op : Op} {next : Ans op → Program Op Ans Unit} :
      (∀ answer, E.part op answer = none) → (∀ answer, Composed Entry (next answer) none) →
      Composed Entry (.ask op next) none
  | enter {p : Program Op Ans Unit} {p₁ : Program Op₁ Ans₁ Unit} :
      Entry p₁ → Composed Entry p (some p₁) → Composed Entry p none
  | within {op : Op₁} {next : Ans (E.lift op) → Program Op Ans Unit}
      {next₁ : Ans₁ op → Program Op₁ Ans₁ Unit} :
      (∀ answer, Composed Entry (next answer) (some (next₁ (E.answer op answer)))) →
      Composed Entry (.ask (E.lift op) next) (some (.ask op next₁))
  | leave {p : Program Op Ans Unit} :
      Composed Entry p none → Composed Entry p (some (.ret ()))

variable {Entry : Program Op₁ Ans₁ Unit → Prop}

variable (E Entry) in
/-- The program is composed as well, and any composed program may follow it. -/
def Composes (p : Program Op Ans α) : Prop :=
  ∀ f : α → Program Op Ans Unit, (∀ a, Composed E Entry (f a) none) →
    Composed E Entry (p >>= f) none

theorem Composes.composed {p : Program Op Ans Unit} (h : Composes E Entry p) :
    Composed E Entry p none := by
  have hp := h (fun _ => .ret ()) fun _ => .ret
  rwa [Program.bind_unit] at hp

theorem composes_pure {a : α} : Composes E Entry (pure a : Program Op Ans α) := fun _ hf => hf a

theorem composes_bind {p : Program Op Ans α} {f : α → Program Op Ans β}
    (hp : Composes E Entry p) (hf : ∀ a, Composes E Entry (f a)) : Composes E Entry (p >>= f) := by
  intro g hg
  rw [Program.bind_assoc]
  exact hp _ fun a => hf a g hg

/-- Running a program of the component. -/
theorem composes_embed {p : Program Op₁ Ans₁ α} (hp : Entry (p >>= fun _ => pure ())) :
    Composes E Entry (p.embed E.toLifting) := by
  intro f hf
  refine .enter hp ?_
  clear hp
  induction p with
  | ret a => exact .leave (hf a)
  | ask op next ih => exact .within fun answer => ih _

theorem composes_embed_unit {p : Program Op₁ Ans₁ Unit} (hp : Entry p) :
    Composes E Entry (p.embed E.toLifting) :=
  composes_embed (p.bind_unit.symm ▸ hp)

/-- Operations of the system. -/
theorem composes_of_issues {p : Program Op Ans α}
    (hp : p.Issues fun op => ∀ answer, E.part op answer = none) : Composes E Entry p := by
  intro f hf
  induction p with
  | ret a => exact hf a
  | ask op next ih => exact .other hp.1 fun answer => ih answer (hp.2 answer)

/-! ## Projecting a history -/

/-- How a program of the system goes on with `p` after a step that leads to `w'`: the component has
taken its part of the step, and the programs of the component at other positions than `slot`, where
the program of the system was inside of one, have not moved. -/
structure Follow (E : Embedding perform₁ perform) (Entry : Program Op₁ Ans₁ Unit → Prop)
    (start : Pool Op₁ Ans₁ W₁) (threads : List (Program Op₁ Ans₁ Unit)) (slot : Option ℕ)
    (steps : List (Step Op₁ Ans₁ W₁)) (w' : W) (p : Program Op Ans Unit)
    (threads' : List (Program Op₁ Ans₁ Unit)) (slot' : Option ℕ) : Prop where
  run : PoolRun perform₁ Entry start steps ⟨E.view w', threads'⟩
  composed : Composed E Entry p (slot'.bind fun k => threads'[k]?)
  length : threads.length ≤ threads'.length
  takes : Takes (fun n k => k < n) threads.length threads'.length slot slot'
  others : ∀ k < threads.length, slot ≠ some k → threads'[k]? = threads[k]?

section Step

variable {start : Pool Op₁ Ans₁ W₁} {steps : List (Step Op₁ Ans₁ W₁)}
variable {threads : List (Program Op₁ Ans₁ Unit)} {w w' : W}

/-- Starting a program of the component and going on with it. -/
theorem Takes.entering {n m : ℕ} {slot slot' : Option ℕ}
    (h : Takes (fun n k => k < n) (n + 1) m (some n) slot') (hm : n + 1 ≤ m) :
    Takes (fun n k => k < n) n m slot slot' := by
  cases h with
  | keep => exact .acquire n (Nat.lt_irrefl n) hm
  | release => exact .release
  | acquire k hk hk' => exact .acquire k (fun h => hk (Nat.lt_succ_of_lt h)) hk'

/-- A step of a composed program. -/
theorem Composed.step {op : Op} {next : Ans op → Program Op Ans Unit} {answer : Ans op}
    {inside : Option (Program Op₁ Ans₁ Unit)} (h : Composed E Entry (.ask op next) inside)
    {slot : Option ℕ} (hslot : ∀ k, slot = some k → k < threads.length)
    (hinside : inside = slot.bind fun k => threads[k]?)
    (hrun : PoolRun perform₁ Entry start steps ⟨E.view w, threads⟩)
    (hperform : perform op answer w = some w') (i : ℕ) :
    ∃ threads' slot', Follow E Entry start threads slot
      (steps ++ (E.project (.ran i ⟨w, op, answer, w'⟩)).toList) w' (next answer)
      threads' slot' := by
  generalize hp : Program.ask op next = p at h
  induction h generalizing threads slot with
  | ret => cases hp
  | @other op' next' hforeign hnext ih =>
      obtain ⟨rfl, hnexts⟩ := Program.ask.inj hp
      obtain rfl := eq_of_heq hnexts
      have hview : E.view w' = E.view w := E.leaves (hforeign answer) hperform
      refine ⟨threads, none, ?_, hnext answer, Nat.le_refl _, .release, fun _ _ _ => rfl⟩
      simpa [Embedding.project, hforeign answer, hview] using hrun
  | @enter p p₁ hentry _ ih =>
      -- the program of the component is started just before its first operation
      have hfree : slot = none := by
        cases slot with
        | none => rfl
        | some k => simp [hslot k rfl] at hinside
      have hentered : ∀ k, some threads.length = some k → k < (threads ++ [p₁]).length := by simp
      obtain ⟨threads', slot', hfollow⟩ := ih hentered (by simp) (hrun.spawn p₁ hentry) hp
      refine ⟨threads', slot', hfollow.run, hfollow.composed, ?_, ?_, fun k hk _ => ?_⟩
      · have := hfollow.length
        rw [List.length_append] at this
        omega
      · have htakes := hfollow.takes
        rw [List.length_append, List.length_singleton] at htakes
        exact htakes.entering (by simpa using hfollow.length)
      · rw [hfollow.others k (by rw [List.length_append]; omega) (by simp; omega),
          List.getElem?_append_left hk]
  | @within op₁ next' next₁ hnext ih =>
      obtain ⟨rfl, hnexts⟩ := Program.ask.inj hp
      obtain rfl := eq_of_heq hnexts
      obtain ⟨k, rfl, hk⟩ := Option.bind_eq_some_iff.mp hinside.symm
      have hpart : E.part (E.lift op₁) answer = some ⟨op₁, E.answer op₁ answer⟩ := E.part_lift _ _
      have hstep := hrun.step k op₁ next₁ (E.answer op₁ answer) (E.view w') hk
        (E.performs hpart hperform)
      have hlt := hslot k rfl
      refine ⟨threads.set k (next₁ (E.answer op₁ answer)), some k, ?_, ?_, ?_, .keep, ?_⟩
      · simpa [Embedding.project, hpart] using hstep
      · simpa [hlt] using hnext answer
      · simp
      · intro j _ hj
        rw [List.getElem?_set_ne fun hkj => hj (congrArg some hkj)]
  | @leave p hcomposed ih =>
      have hleft : ∀ k, none = some k → k < threads.length := nofun
      obtain ⟨threads', slot', hfollow⟩ := ih hleft rfl hrun hp
      refine ⟨threads', slot', hfollow.run, hfollow.composed, hfollow.length, ?_, fun k hk _ =>
        hfollow.others k hk nofun⟩
      cases hfollow.takes with
      | keep => exact .release
      | release => exact .release
      | acquire k hk hk' => exact .acquire k hk hk'

end Step

theorem filterMap_snoc {γ δ : Type} (f : γ → Option δ) (l : List γ) (a : γ) :
    (l ++ [a]).filterMap f = l.filterMap f ++ (f a).toList := by
  rw [List.filterMap_append]
  cases h : f a <;> simp [h]

section Project

variable {Started : Program Op Ans Unit → Prop} {pool : Pool Op Ans W} {w : W}
variable {events : List (Event Op Ans W)}

/-- Every program of the pool is composed, inside of a program of the component of its own or of
none. -/
structure Mirrored (E : Embedding perform₁ perform) (Entry : Program Op₁ Ans₁ Unit → Prop)
    (running : List (Program Op Ans Unit)) (threads : List (Program Op₁ Ans₁ Unit))
    (slots : List (Option ℕ)) : Prop where
  length : slots.length = running.length
  exclusive : Exclusive slots
  inRange : ∀ k, some k ∈ slots → k < threads.length
  composed : ∀ (i : ℕ) p (slot : Option ℕ), running[i]? = some p → slots[i]? = some slot →
    Composed E Entry p (slot.bind fun k => threads[k]?)

variable {running : List (Program Op Ans Unit)} {threads : List (Program Op₁ Ans₁ Unit)}
variable {slots : List (Option ℕ)}

theorem Mirrored.spawn (h : Mirrored E Entry running threads slots) {p : Program Op Ans Unit}
    (hp : Composed E Entry p none) :
    Mirrored E Entry (running ++ [p]) threads (slots ++ [none]) := by
  refine ⟨by simp [h.length], h.exclusive.append, by simpa using h.inRange, ?_⟩
  intro i q slot hq hslot
  rw [List.getElem?_append] at hq hslot
  rw [h.length] at hslot
  split at hq
  · rename_i hi
    rw [if_pos hi] at hslot
    exact h.composed i q slot hq hslot
  · rename_i hi
    rw [if_neg hi] at hslot
    rw [List.getElem?_singleton] at hq hslot
    obtain ⟨-, hq⟩ := Option.ite_none_right_eq_some.mp hq
    obtain ⟨-, hslot⟩ := Option.ite_none_right_eq_some.mp hslot
    obtain rfl := Option.some.inj hq
    obtain rfl := Option.some.inj hslot
    exact hp

/-- One program goes on, and the programs of the component that the others are inside of do not
move. -/
theorem Mirrored.set (h : Mirrored E Entry running threads slots) {i : ℕ}
    {q : Program Op Ans Unit} {slot slot' : Option ℕ} {threads' : List (Program Op₁ Ans₁ Unit)}
    (hslot : slots[i]? = some slot) (hq : Composed E Entry q (slot'.bind fun k => threads'[k]?))
    (hlength : threads.length ≤ threads'.length)
    (htakes : Takes (fun n k => k < n) threads.length threads'.length slot slot')
    (hothers : ∀ k < threads.length, slot ≠ some k → threads'[k]? = threads[k]?) :
    Mirrored E Entry (running.set i q) threads' (slots.set i slot') := by
  have hi : i < slots.length := (List.getElem?_eq_some_iff.mp hslot).1
  refine ⟨by simp [h.length], h.exclusive.set h.inRange hslot htakes, ?_, ?_⟩
  · intro k hk
    rcases List.mem_or_eq_of_mem_set hk with hk | rfl
    · exact Nat.lt_of_lt_of_le (h.inRange k hk) hlength
    · cases htakes with
      | keep => exact Nat.lt_of_lt_of_le (h.inRange k (List.mem_of_getElem? hslot)) hlength
      | acquire k _ hk => exact hk
  -- another program is inside of a program of its own, which has not moved
  · intro j p other hp hother
    by_cases hij : i = j
    · subst hij
      rw [List.getElem?_set_self hi] at hother
      rw [List.getElem?_set_self (h.length ▸ hi)] at hp
      obtain rfl := Option.some.inj hother
      obtain rfl := Option.some.inj hp
      exact hq
    · rw [List.getElem?_set_ne hij] at hp hother
      have hcomposed := h.composed j p other hp hother
      cases other with
      | none => exact hcomposed
      | some k =>
          have hk := h.inRange k (List.mem_of_getElem? hother)
          have hne : slot ≠ some k := by
            rintro rfl
            exact hij (h.exclusive i j k hslot hother)
          rw [Option.bind_some, hothers k hk hne]
          exact hcomposed

/-- **Projection rule.**  If every program that may be started is composed, then the component's
part of a history is a run of a pool of the component's programs. -/
theorem History.project (hstarted : ∀ p, Started p → Composed E Entry p none)
    (h : History perform Started ⟨w, []⟩ events pool) :
    ∃ threads, PoolRun perform₁ Entry ⟨E.view w, []⟩ (events.filterMap E.project)
      ⟨E.view pool.world, threads⟩ := by
  suffices hmirror : ∃ threads slots, PoolRun perform₁ Entry ⟨E.view w, []⟩
      (events.filterMap E.project) ⟨E.view pool.world, threads⟩ ∧
      Mirrored E Entry pool.threads threads slots by
    obtain ⟨threads, -, hrun, -⟩ := hmirror
    exact ⟨threads, hrun⟩
  -- each program of the system is inside of one program of the component, or of none
  induction h with
  | refl => exact ⟨[], [], .refl, rfl, nofun, nofun, nofun⟩
  | spawn p _ hp ih =>
      obtain ⟨threads, slots, hrun, hmirrored⟩ := ih
      exact ⟨threads, slots ++ [none], hrun, hmirrored.spawn (hstarted p hp)⟩
  | @ran events pool i op next answer w' _ hget hperform ih =>
      obtain ⟨threads, slots, hrun, hmirrored⟩ := ih
      have hi : i < slots.length :=
        hmirrored.length ▸ (List.getElem?_eq_some_iff.mp hget).1
      have hslot : slots[i]? = some slots[i] := List.getElem?_eq_getElem hi
      have hcomposed := hmirrored.composed i _ _ hget hslot
      obtain ⟨threads', slot', hfollow⟩ := hcomposed.step
        (fun k hk => hmirrored.inRange k (hk ▸ List.getElem_mem hi)) rfl hrun hperform i
      refine ⟨threads', slots.set i slot', ?_, hmirrored.set hslot hfollow.composed hfollow.length
        hfollow.takes hfollow.others⟩
      rw [filterMap_snoc]
      exact hfollow.run
  | @stopped events pool i _ hi ih =>
      obtain ⟨threads, slots, hrun, hmirrored⟩ := ih
      have hi : i < slots.length := hmirrored.length ▸ hi
      refine ⟨threads, slots.set i none, ?_, hmirrored.set (List.getElem?_eq_getElem hi) .ret
        (Nat.le_refl _) .release fun _ _ _ => rfl⟩
      rw [filterMap_snoc, Embedding.project, Option.toList_none, List.append_nil]
      exact hrun

end Project

end Interaction
