import Mathlib.Algebra.Order.Group.Defs
import Mathlib.Data.List.Basic
import Mathlib.Order.Lattice
import Mathlib.Tactic.Abel
import Mathlib.Tactic.Common

/-!
# A sliding-window limiter

A limiter that keeps, for each key, the times of the requests it has accepted,
forgets those that have left the window, and rejects a request if as many as
`limit` are left.  Times are taken from an ordered group.

What is forgotten never counts again, because time does not go back: two states
that agree on what is recent at the times still to come answer alike
(`servedFrom_agree`).  That gives all results: a limiter that forgets nothing
answers the same (`serve_fst_eq_of_accepted`), rejected requests and requests of
other keys leave no trace (`servedFrom_remove_rejected`, `servedFrom_filter`),
and no window has more than `limit` accepted requests (`length_window_le`).
-/

namespace SlidingWindow

variable {Request Key Time : Type} [AddCommGroup Time] [LinearOrder Time]

/-- The times that have not left the window at `now`. -/
def recent (span now : Time) (times : List Time) : List Time :=
  times.filter fun time => now - time < span

/-- The times kept for each key. -/
abbrev State (Key Time : Type) := Key → List Time

/-- The times in the window that starts at `start`. -/
def window (span start : Time) (times : List Time) : List Time :=
  times.filter fun time => start ≤ time ∧ time < start + span

section Limiter

variable [DecidableEq Key]
variable (key : Request → Key) (time : Request → Time) (limit : ℕ) (span : Time)

/-- Answer a request: forget what has left the window, then accept if there is room. -/
def serve (state : State Key Time) (r : Request) : Bool × State Key Time :=
  let times := recent span (time r) (state (key r))
  if limit ≤ times.length then (false, Function.update state (key r) times)
  else (true, Function.update state (key r) (times ++ [time r]))

/-- The answers to the requests of a sequence. -/
def servedFrom (state : State Key Time) : List Request → List (Request × Bool)
  | [] => []
  | r :: rs =>
      (r, (serve key time limit span state r).1) ::
        servedFrom (serve key time limit span state r).2 rs

/-- The times of the accepted requests of a key. -/
def acceptedTimes (k : Key) (served : List (Request × Bool)) : List Time :=
  (served.filter fun answer => answer.2 = true ∧ key answer.1 = k).map fun answer => time answer.1

end Limiter

/-! ## What is recent -/

section Recent

variable {span now later : Time} {times : List Time}

theorem recent_append (first second : List Time) :
    recent span now (first ++ second) = recent span now first ++ recent span now second :=
  List.filter_append ..

theorem window_append {start : Time} (first second : List Time) :
    window span start (first ++ second) = window span start first ++ window span start second :=
  List.filter_append ..

variable [IsOrderedAddMonoid Time]

/-- What has left the window does not come back. -/
theorem recent_recent (h : now ≤ later) :
    recent span later (recent span now times) = recent span later times := by
  rw [recent, recent, List.filter_filter]
  refine List.filter_congr fun t _ => ?_
  have hmono : later - t < span → now - t < span := (sub_le_sub_right h t).trans_lt
  simpa using hmono

/-- The times that share a window with `now`, and are in it, are recent at `now`. -/
theorem length_window_le_recent {start : Time} (h : now < start + span) :
    (window span start times).length ≤ (recent span now times).length := by
  apply List.Sublist.length_le
  refine List.monotone_filter_right times fun t ht => ?_
  have hstart : start ≤ t := by
    rw [decide_eq_true_iff] at ht
    exact ht.1
  rw [decide_eq_true_iff]
  calc now - t ≤ now - start := sub_le_sub_left hstart now
    _ < span := sub_lt_iff_lt_add'.mpr h

end Recent

section Answers

variable [DecidableEq Key]
variable {key : Request → Key} {time : Request → Time} {limit : ℕ} {span : Time}
variable {state state' : State Key Time} {r : Request} {rs : List Request} {k : Key}

/-- Nothing changes for other keys. -/
theorem serve_other (h : k ≠ key r) : (serve key time limit span state r).2 k = state k := by
  unfold serve
  dsimp only
  split <;> exact Function.update_of_ne h _ _

theorem serve_fst : (serve key time limit span state r).1 = true ↔
    (recent span (time r) (state (key r))).length < limit := by
  unfold serve
  dsimp only
  split
  · rename_i hfull
    simpa using hfull
  · rename_i hroom
    simpa using hroom

variable [IsOrderedAddMonoid Time]

/-- What is recent for the key afterwards: what was, and the request if it is accepted. -/
theorem recent_serve {later : Time} (h : time r ≤ later) :
    recent span later ((serve key time limit span state r).2 (key r)) =
      recent span later (state (key r) ++
        if (serve key time limit span state r).1 = true then [time r] else []) := by
  unfold serve
  dsimp only
  split
  · simp [recent_recent h]
  · simp [recent_append, recent_recent h]

/-- Two states agree for the keys in `P` at the times of the given requests. -/
def Agree (time : Request → Time) (span : Time) (P : Key → Prop) (rs : List Request)
    (state state' : State Key Time) : Prop :=
  ∀ k, P k → ∀ r ∈ rs, recent span (time r) (state k) = recent span (time r) (state' k)

variable {P : Key → Prop}

omit [IsOrderedAddMonoid Time] in
theorem Agree.serve_fst (h : Agree time span P (r :: rs) state state') (hkey : P (key r)) :
    (serve key time limit span state r).1 = (serve key time limit span state' r).1 := by
  rw [Bool.eq_iff_iff, SlidingWindow.serve_fst, SlidingWindow.serve_fst,
    h (key r) hkey r List.mem_cons_self]

/-- A request that both limiters answer. -/
theorem Agree.serve (h : Agree time span P (r :: rs) state state')
    (hsorted : ∀ later ∈ rs, time r ≤ time later) (hkey : P (key r)) :
    Agree time span P rs (serve key time limit span state r).2
      (serve key time limit span state' r).2 := by
  intro k hk later hlater
  have hold := h k hk later (List.mem_cons_of_mem r hlater)
  by_cases heq : k = key r
  · subst heq
    rw [recent_serve (hsorted later hlater), recent_serve (hsorted later hlater), recent_append,
      recent_append, hold, h.serve_fst hkey]
  · rw [serve_other heq, serve_other heq, hold]

/-- A request that only one limiter answers: it is of another key, or rejected. -/
theorem Agree.serve_left (h : Agree time span P (r :: rs) state state')
    (hsorted : ∀ later ∈ rs, time r ≤ time later)
    (hskip : ¬ P (key r) ∨ (SlidingWindow.serve key time limit span state r).1 = false) :
    Agree time span P rs (SlidingWindow.serve key time limit span state r).2 state' := by
  intro k hk later hlater
  rw [← h k hk later (List.mem_cons_of_mem r hlater)]
  by_cases heq : k = key r
  · subst heq
    have hrejected := hskip.resolve_left (not_not_intro hk)
    rw [recent_serve (hsorted later hlater), hrejected]
    simp
  · rw [serve_other heq]

/-! ## Runs -/

omit [IsOrderedAddMonoid Time] in
theorem map_fst_servedFrom :
    (servedFrom key time limit span state rs).map Prod.fst = rs := by
  induction rs generalizing state with
  | nil => rfl
  | cons r rs ih => rw [servedFrom, List.map_cons, ih]

/-- States that agree for some keys answer the requests of these keys alike, whatever else the
first one is asked. -/
theorem servedFrom_agree [DecidablePred P] (hsorted : rs.Pairwise fun r r' => time r ≤ time r')
    (h : Agree time span P rs state state') :
    (servedFrom key time limit span state rs).filter (fun answer => P (key answer.1)) =
      servedFrom key time limit span state' (rs.filter fun r => P (key r)) := by
  induction rs generalizing state state' with
  | nil => rfl
  | cons r rs ih =>
      rw [List.pairwise_cons] at hsorted
      by_cases hkey : P (key r)
      · rw [servedFrom, List.filter_cons_of_pos (by simpa using hkey),
          List.filter_cons_of_pos (by simpa using hkey), servedFrom,
          ih hsorted.2 (h.serve hsorted.1 hkey), h.serve_fst hkey]
      · rw [servedFrom, List.filter_cons_of_neg (by simpa using hkey),
          List.filter_cons_of_neg (by simpa using hkey),
          ih hsorted.2 (h.serve_left hsorted.1 (Or.inl hkey))]

theorem servedFrom_congr (hsorted : rs.Pairwise fun r r' => time r ≤ time r')
    (h : Agree time span (fun _ => True) rs state state') :
    servedFrom key time limit span state rs = servedFrom key time limit span state' rs := by
  calc servedFrom key time limit span state rs
      = (servedFrom key time limit span state rs).filter (fun _ => True) := by simp
    _ = servedFrom key time limit span state' (rs.filter fun _ => True) :=
        servedFrom_agree hsorted h
    _ = servedFrom key time limit span state' rs := by simp

omit [IsOrderedAddMonoid Time] in
/-- The first answer is to the first request. -/
theorem servedFrom_eq_cons {answer : Request × Bool} {answers : List (Request × Bool)}
    (h : servedFrom key time limit span state rs = answer :: answers) :
    ∃ first rest, rs = first :: rest ∧
      answer = (first, (serve key time limit span state first).1) ∧
      servedFrom key time limit span (serve key time limit span state first).2 rest = answers := by
  cases rs with
  | nil => cases h
  | cons first rest =>
      obtain ⟨hanswer, hrest⟩ := List.cons.inj h
      exact ⟨first, rest, rfl, hanswer.symm, hrest⟩

/-- **Rejected requests.**  Without a request that was rejected, all others are answered as they
were. -/
theorem servedFrom_remove_rejected (hsorted : rs.Pairwise fun r r' => time r ≤ time r')
    {earlier later : List (Request × Bool)}
    (h : servedFrom key time limit span state rs = earlier ++ (r, false) :: later) :
    servedFrom key time limit span state ((earlier ++ later).map Prod.fst) = earlier ++ later := by
  induction earlier generalizing state rs with
  | nil =>
      obtain ⟨first, rest, rfl, hanswer, rfl⟩ := servedFrom_eq_cons h
      obtain ⟨rfl, hrejected⟩ := Prod.mk.inj hanswer
      rw [List.pairwise_cons] at hsorted
      have hagree : Agree time span (fun _ => True) rest
        (serve key time limit span state r).2 state :=
        Agree.serve_left (fun _ _ _ _ => rfl) hsorted.1 (Or.inr hrejected.symm)
      rw [List.nil_append, map_fst_servedFrom]
      exact (servedFrom_congr hsorted.2 hagree).symm
  | cons answer earlier ih =>
      obtain ⟨first, rest, rfl, rfl, hrest⟩ := servedFrom_eq_cons h
      rw [List.pairwise_cons] at hsorted
      rw [List.cons_append, List.map_cons, servedFrom, ih hsorted.2 hrest]

/-- **Other keys.**  The requests of some keys are answered as if there were no others. -/
theorem servedFrom_filter [DecidablePred P] (hsorted : rs.Pairwise fun r r' => time r ≤ time r') :
    servedFrom key time limit span state (rs.filter fun r => P (key r)) =
      (servedFrom key time limit span state rs).filter fun answer => P (key answer.1) :=
  (servedFrom_agree hsorted fun _ _ _ _ => rfl).symm

/-! ## Against everything accepted -/

/-- The history after one more answer. -/
def remember (key : Request → Key) (time : Request → Time) (history : State Key Time)
    (answer : Request × Bool) : State Key Time :=
  fun k => history k ++ acceptedTimes key time k [answer]

omit [AddCommGroup Time] [LinearOrder Time] [IsOrderedAddMonoid Time] in
theorem remember_append {history : State Key Time} {answer : Request × Bool}
    {served : List (Request × Bool)} :
    remember key time history answer k ++ acceptedTimes key time k served =
      history k ++ acceptedTimes key time k (answer :: served) := by
  rw [remember, List.append_assoc, acceptedTimes, acceptedTimes, acceptedTimes, ← List.map_append,
    ← List.filter_append, List.singleton_append]

omit [AddCommGroup Time] [LinearOrder Time] [IsOrderedAddMonoid Time] in
theorem acceptedTimes_singleton {b : Bool} : acceptedTimes key time k [(r, b)] =
    if b = true ∧ key r = k then [time r] else [] := by
  unfold acceptedTimes
  by_cases h : b = true ∧ key r = k <;> simp [h]

theorem Agree.remember {history : State Key Time}
    (h : Agree time span (fun _ => True) (r :: rs) state history)
    (hsorted : ∀ later ∈ rs, time r ≤ time later) :
    Agree time span (fun _ => True) rs (SlidingWindow.serve key time limit span state r).2
      (SlidingWindow.remember key time history
        (r, (SlidingWindow.serve key time limit span state r).1)) := by
  intro k hk later hlater
  have hold := h k hk later (List.mem_cons_of_mem r hlater)
  rw [SlidingWindow.remember, acceptedTimes_singleton, recent_append, ← hold]
  by_cases heq : k = key r
  · subst heq
    simp only [and_true]
    rw [recent_serve (hsorted later hlater), recent_append]
  · have hne : key r ≠ k := fun hkey => heq hkey.symm
    simp [serve_other heq, hne, recent]

/-- **Answers.**  A request is accepted if and only if fewer than `limit` requests of its key were
accepted within the last `span`. -/
theorem accepted_iff {history : State Key Time}
    (hsorted : rs.Pairwise fun r r' => time r ≤ time r')
    (hagree : Agree time span (fun _ => True) rs state history) {b : Bool}
    {earlier later : List (Request × Bool)}
    (h : servedFrom key time limit span state rs = earlier ++ (r, b) :: later) :
    b = true ↔ (recent span (time r)
      (history (key r) ++ acceptedTimes key time (key r) earlier)).length < limit := by
  induction earlier generalizing state rs history with
  | nil =>
      obtain ⟨first, rest, rfl, hanswer, -⟩ := servedFrom_eq_cons h
      obtain ⟨rfl, rfl⟩ := Prod.mk.inj hanswer
      rw [serve_fst, hagree (key r) trivial r List.mem_cons_self]
      simp [acceptedTimes]
  | cons answer earlier ih =>
      obtain ⟨first, rest, rfl, rfl, hrest⟩ := servedFrom_eq_cons h
      rw [List.pairwise_cons] at hsorted
      rw [ih hsorted.2 (hagree.remember hsorted.1) hrest, remember_append]

/-- **Windows.**  In no window more than `limit` requests of a key are accepted. -/
theorem length_window_le {history : State Key Time}
    (hsorted : rs.Pairwise fun r r' => time r ≤ time r')
    (hagree : Agree time span (fun _ => True) rs state history)
    (hhistory : ∀ k start, (window span start (history k)).length ≤ limit) (k : Key)
    (start : Time) :
    (window span start (history k ++
      acceptedTimes key time k (servedFrom key time limit span state rs))).length ≤ limit := by
  induction rs generalizing state history with
  | nil => simpa [servedFrom, acceptedTimes] using hhistory k start
  | cons first rs ih =>
      rw [List.pairwise_cons] at hsorted
      rw [servedFrom, ← remember_append]
      refine ih hsorted.2 (hagree.remember hsorted.1) fun k start => ?_
      have hold := hhistory k start
      rw [remember, acceptedTimes_singleton, window_append, List.length_append]
      split
      · rename_i haccepted
        obtain ⟨haccepted, rfl⟩ := haccepted
        rw [serve_fst, hagree (key first) trivial first List.mem_cons_self] at haccepted
        by_cases hlast : time first < start + span
        · -- what is in the window is recent, and there was room
          have hle : (window span start (history (key first))).length ≤
              (recent span (time first) (history (key first))).length :=
            length_window_le_recent hlast
          have hone : (window span start [time first]).length ≤ 1 := List.length_filter_le _ _
          omega
        · have hnone : window span start [time first] = [] := by simp [window, hlast]
          simpa [hnone] using hold
      · simpa [window] using hold

end Answers

end SlidingWindow
