import PactumCodex.Handlers.InviteRateLimit
import PactumCodex.Lib.SlidingWindow

/-!
# Rate limit of invitation lookups

Along a sequence of lookups whose times do not go back, the limiter of
`get_invite` is a sliding window of `RATE_LIMIT_WINDOW_SECS` for each address
(`served_eq`).  The only difference is that it subtracts in 64 bits, which is
exact for the times of `current_unix_timestamp`: none of them is negative.

The address of a call is what its headers say (`InviteCall.ComesFrom`): the first
entry of `X-Forwarded-For`, else of `X-Real-IP`, else the text `unknown`, which
all clients without these headers share.
-/

namespace PactumCodex

/-- A call of `enforce_get_invite_rate_limit`. -/
structure InviteCall where
  headers : HeaderMap
  now : Int64
  deriving DecidableEq

namespace InviteCall

/-- The first value of the header is a text whose part up to the first comma is the address, with
blanks around it; an empty address is none. -/
def Names (call : InviteCall) (header ip : String) : Prop :=
  ∃ value raw, call.headers.get header = some value ∧ value.toStr = some raw ∧
    trim (firstPart raw) = ip ∧ ip ≠ ""

/-- The address that the headers give the call. -/
inductive ComesFrom (call : InviteCall) : String → Prop
  | forwarded {ip : String} : call.Names "x-forwarded-for" ip → ComesFrom call ip
  | real {ip : String} : (∀ other, ¬ call.Names "x-forwarded-for" other) →
      call.Names "x-real-ip" ip → ComesFrom call ip
  | unknown : (∀ header ∈ ["x-forwarded-for", "x-real-ip"], ∀ ip, ¬ call.Names header ip) →
      ComesFrom call "unknown"

/-- The address that the call is counted for. -/
def address (call : InviteCall) : String := extractRequestIp call.headers

/-- The time of the call in seconds. -/
def time (call : InviteCall) : ℤ := call.now.toInt

theorem parseIpHeader_eq_some_iff {call : InviteCall} {header ip : String} :
    parseIpHeader (call.headers.get header) = some ip ↔ call.Names header ip := by
  unfold parseIpHeader Names
  constructor
  · intro h
    obtain ⟨value, hvalue, h⟩ := Option.bind_eq_some_iff.mp h
    obtain ⟨raw, hraw, h⟩ := Option.bind_eq_some_iff.mp h
    simp only [Option.ite_none_left_eq_some, Option.some.injEq] at h
    obtain ⟨hne, rfl⟩ := h
    exact ⟨value, raw, hvalue, hraw, rfl, fun h => hne (String.isEmpty_iff.mpr h)⟩
  · rintro ⟨value, raw, hvalue, hraw, rfl, hne⟩
    simp only [hvalue, hraw, Option.bind_eq_bind, Option.bind_some]
    exact if_neg fun h => hne (String.isEmpty_iff.mp h)

theorem parseIpHeader_eq_none_iff {call : InviteCall} {header : String} :
    parseIpHeader (call.headers.get header) = none ↔ ∀ ip, ¬ call.Names header ip := by
  simp only [← parseIpHeader_eq_some_iff, Option.eq_none_iff_forall_ne_some, ne_eq]

/-- A call is counted for the address that its headers give. -/
theorem address_eq_iff {call : InviteCall} {ip : String} :
    call.address = ip ↔ call.ComesFrom ip := by
  have hfound : call.ComesFrom call.address := by
    unfold address extractRequestIp
    cases hforwarded : parseIpHeader (call.headers.get "x-forwarded-for") with
    | some ip => exact .forwarded (parseIpHeader_eq_some_iff.mp hforwarded)
    | none =>
        have hnone := parseIpHeader_eq_none_iff.mp hforwarded
        cases hreal : parseIpHeader (call.headers.get "x-real-ip") with
        | some ip => exact .real hnone (parseIpHeader_eq_some_iff.mp hreal)
        | none =>
            have hneither := parseIpHeader_eq_none_iff.mp hreal
            exact .unknown (List.forall_mem_cons.mpr
              ⟨hnone, List.forall_mem_singleton.mpr hneither⟩)
  refine ⟨fun h => h ▸ hfound, fun h => ?_⟩
  unfold address extractRequestIp
  cases h with
  | forwarded hnames => rw [parseIpHeader_eq_some_iff.mpr hnames]; rfl
  | real hnone hnames =>
      rw [parseIpHeader_eq_none_iff.mpr hnone, parseIpHeader_eq_some_iff.mpr hnames]
      rfl
  | unknown hnone =>
      rw [List.forall_mem_cons, List.forall_mem_singleton] at hnone
      rw [parseIpHeader_eq_none_iff.mpr hnone.1, parseIpHeader_eq_none_iff.mpr hnone.2]
      rfl

end InviteCall

/-- The limiter before the first call. -/
def noCalls : InviteRateLimiter := fun _ => []

/-- Answer calls one after the other; `true` for those that are let through. -/
def served (limiter : InviteRateLimiter) : List InviteCall → List (InviteCall × Bool)
  | [] => []
  | call :: calls =>
      let (result, limiter') := enforceGetInviteRateLimit call.headers call.now limiter
      (call, result.isOk) :: served limiter' calls

/-- The times of the calls of an address that were let through. -/
def acceptedAt (ip : String) (answers : List (InviteCall × Bool)) : List ℤ :=
  SlidingWindow.acceptedTimes InviteCall.address InviteCall.time ip answers

/-- The length of the window in seconds. -/
def windowSecs : ℤ := rateLimitWindowSecs.toInt

/-- Times as `current_unix_timestamp` gives them, of a clock that does not go back. -/
structure ClockTimes (calls : List InviteCall) : Prop where
  nonneg : ∀ call ∈ calls, 0 ≤ call.now
  sorted : calls.Pairwise fun earlier later => earlier.now ≤ later.now

/-! ## Times in 64 bits -/

section Times

variable {now timestamp : Int64}

theorem sub_lt_window_iff (hnonneg : 0 ≤ timestamp) (hle : timestamp ≤ now) :
    now - timestamp < rateLimitWindowSecs ↔ now.toInt - timestamp.toInt < windowSecs := by
  rw [Int64.le_iff_toInt_le] at hnonneg hle
  have hzero : (0 : Int64).toInt = 0 := rfl
  have hnow := now.toInt_lt
  have hsub : (now - timestamp).toInt = now.toInt - timestamp.toInt := by
    rw [Int64.toInt_sub]
    exact Int.bmod_eq_of_le (by omega) (by omega)
  rw [Int64.lt_iff_toInt_lt, hsub]
  rfl

/-- The times kept by the limiter, as integers. -/
def keptTimes (limiter : InviteRateLimiter) : SlidingWindow.State String ℤ :=
  fun ip => (limiter ip).map Int64.toInt

theorem keptTimes_update (limiter : InviteRateLimiter) (ip : String) (times : List Int64) :
    keptTimes (Function.update limiter ip times) =
      Function.update (keptTimes limiter) ip (times.map Int64.toInt) := by
  funext other
  by_cases heq : other = ip
  · subst heq
    simp [keptTimes]
  · simp [keptTimes, heq]

/-- What the limiter keeps at a call is what is recent. -/
theorem map_filter_eq_recent {times : List Int64} (h : ∀ t ∈ times, 0 ≤ t ∧ t ≤ now) :
    (times.filter fun timestamp => now - timestamp < rateLimitWindowSecs).map Int64.toInt =
      SlidingWindow.recent windowSecs now.toInt (times.map Int64.toInt) := by
  rw [SlidingWindow.recent, List.filter_map]
  congr 1
  refine List.filter_congr fun t ht => ?_
  simpa using sub_lt_window_iff (h t ht).1 (h t ht).2

end Times

/-! ## The limiter as a sliding window -/

/-- The times that are kept are over when the calls come. -/
def Past (limiter : InviteRateLimiter) (calls : List InviteCall) : Prop :=
  ∀ ip, ∀ t ∈ limiter ip, 0 ≤ t ∧ ∀ call ∈ calls, t ≤ call.now

section Refinement

variable {limiter : InviteRateLimiter} {call : InviteCall} {calls : List InviteCall}

/-- One call is answered as a sliding window answers it. -/
theorem enforce_eq_serve (hpast : Past limiter (call :: calls)) :
    ((enforceGetInviteRateLimit call.headers call.now limiter).1.isOk,
        keptTimes (enforceGetInviteRateLimit call.headers call.now limiter).2) =
      SlidingWindow.serve InviteCall.address InviteCall.time rateLimitMaxRequests windowSecs
        (keptTimes limiter) call := by
  have hkept : ∀ t ∈ limiter call.address, 0 ≤ t ∧ t ≤ call.now := fun t ht =>
    ⟨(hpast call.address t ht).1, (hpast call.address t ht).2 call List.mem_cons_self⟩
  set kept := (limiter call.address).filter fun timestamp =>
    call.now - timestamp < rateLimitWindowSecs with hdef
  have hrecent : SlidingWindow.recent windowSecs call.time (keptTimes limiter call.address) =
      kept.map Int64.toInt := (map_filter_eq_recent hkept).symm
  have hcode : enforceGetInviteRateLimit call.headers call.now limiter =
      if rateLimitMaxRequests ≤ kept.length then
        (.error .rateLimited, Function.update limiter call.address kept)
      else (.ok (), Function.update limiter call.address (kept ++ [call.now])) := rfl
  rw [hcode, SlidingWindow.serve, hrecent, List.length_map]
  split
  · rw [keptTimes_update]
    rfl
  · rw [keptTimes_update, List.map_append]
    rfl

/-- Nothing is kept but what was kept before and the time of the call. -/
theorem mem_of_enforce {headers : HeaderMap} {now t : Int64} {ip : String}
    (h : t ∈ (enforceGetInviteRateLimit headers now limiter).2 ip) : t ∈ limiter ip ∨ t = now := by
  unfold enforceGetInviteRateLimit at h
  dsimp only at h
  split at h
  all_goals
    dsimp only at h
    rw [Function.update_apply] at h
    split at h
  · rename_i heq
    subst heq
    exact Or.inl (List.mem_of_mem_filter h)
  · exact Or.inl h
  · rename_i heq
    subst heq
    rw [List.mem_append, List.mem_singleton] at h
    exact h.imp_left List.mem_of_mem_filter
  · exact Or.inl h

/-- What is kept stays in the past. -/
theorem Past.enforce (hpast : Past limiter (call :: calls)) (hnonneg : 0 ≤ call.now)
    (hsorted : ∀ later ∈ calls, call.now ≤ later.now) :
    Past (enforceGetInviteRateLimit call.headers call.now limiter).2 calls := by
  intro ip t ht
  rcases mem_of_enforce ht with ht | rfl
  · refine ⟨(hpast ip t ht).1, fun later hlater => ?_⟩
    exact (hpast ip t ht).2 later (List.mem_cons_of_mem call hlater)
  · exact ⟨hnonneg, hsorted⟩

/-- **Refinement.**  The limiter answers as the sliding window does. -/
theorem served_eq (htimes : ClockTimes calls) (hpast : Past limiter calls) :
    served limiter calls = SlidingWindow.servedFrom InviteCall.address InviteCall.time
      rateLimitMaxRequests windowSecs (keptTimes limiter) calls := by
  induction calls generalizing limiter with
  | nil => rfl
  | cons call calls ih =>
      obtain ⟨hnonneg, hsorted⟩ := htimes
      rw [List.forall_mem_cons] at hnonneg
      rw [List.pairwise_cons] at hsorted
      have hstep := enforce_eq_serve hpast
      have hrest := ih ⟨hnonneg.2, hsorted.2⟩ (hpast.enforce hnonneg.1 hsorted.1)
      rw [served, SlidingWindow.servedFrom, ← hstep]
      exact congrArg (_ :: ·) hrest

end Refinement

/-! ## Results -/

section Results

variable {calls : List InviteCall}

theorem served_noCalls (htimes : ClockTimes calls) :
    served noCalls calls = SlidingWindow.servedFrom InviteCall.address InviteCall.time
      rateLimitMaxRequests windowSecs (fun _ => []) calls :=
  served_eq htimes fun _ _ ht => absurd ht List.not_mem_nil

theorem ClockTimes.time_sorted (htimes : ClockTimes calls) :
    calls.Pairwise fun earlier later => earlier.time ≤ later.time :=
  htimes.sorted.imp fun h => Int64.le_iff_toInt_le.mp h

theorem ClockTimes.sublist {calls' : List InviteCall} (htimes : ClockTimes calls)
    (h : calls'.Sublist calls) : ClockTimes calls' :=
  ⟨fun call hcall => htimes.nonneg call (h.subset hcall), htimes.sorted.sublist h⟩

/-- **Rate limit.**  A call counts for the address that its headers give.  Over every sequence of
calls at times that do not go back: in every window of sixty seconds at most five calls of an
address are let through; a call is rejected only if five calls of its address were let through in
the window before it; without a rejected call all others are answered as they were; and the calls of
an address are answered as if there were no others. -/
theorem invite_rate_limit (htimes : ClockTimes calls) :
    (∀ (call : InviteCall) ip, call.address = ip ↔ call.ComesFrom ip) ∧
    (∀ ip start, (SlidingWindow.window windowSecs start
      (acceptedAt ip (served noCalls calls))).length ≤ rateLimitMaxRequests) ∧
    (∀ earlier call later, served noCalls calls = earlier ++ (call, false) :: later →
      rateLimitMaxRequests ≤ (SlidingWindow.recent windowSecs call.time
        (acceptedAt call.address earlier)).length) ∧
    (∀ earlier call later, served noCalls calls = earlier ++ (call, false) :: later →
      served noCalls ((earlier ++ later).map Prod.fst) = earlier ++ later) ∧
    ∀ ip, served noCalls (calls.filter fun call => call.address = ip) =
      (served noCalls calls).filter fun answer => answer.1.address = ip := by
  have hserved := served_noCalls htimes
  have hsorted := htimes.time_sorted
  have hagree : SlidingWindow.Agree InviteCall.time windowSecs (fun _ => True) calls
    (fun _ : String => ([] : List ℤ)) (fun _ => []) := fun _ _ _ _ => rfl
  refine ⟨fun _ _ => InviteCall.address_eq_iff, fun ip start => ?_,
    fun earlier call later hsplit => ?_, fun earlier call later hsplit => ?_, fun ip => ?_⟩
  · rw [hserved]
    have hempty : ∀ (k : String) start, (SlidingWindow.window windowSecs start
        ((fun _ => []) k)).length ≤ rateLimitMaxRequests := fun _ _ => Nat.zero_le _
    exact SlidingWindow.length_window_le hsorted hagree hempty ip start
  · rw [hserved] at hsplit
    have haccepted := SlidingWindow.accepted_iff hsorted hagree hsplit
    by_contra hroom
    exact absurd (haccepted.mpr (Nat.lt_of_not_le hroom)) (by simp)
  · have hsublist : ((earlier ++ later).map Prod.fst).Sublist calls := by
      have hcalls : (served noCalls calls).map Prod.fst = calls := by
        rw [hserved, SlidingWindow.map_fst_servedFrom]
      rw [← hcalls, hsplit]
      exact (List.Sublist.append_left (List.sublist_cons_self ..) earlier).map Prod.fst
    rw [hserved] at hsplit
    rw [served_noCalls (htimes.sublist hsublist)]
    exact SlidingWindow.servedFrom_remove_rejected hsorted hsplit
  · rw [hserved, served_noCalls (htimes.sublist (List.filter_sublist ..))]
    exact SlidingWindow.servedFrom_filter (P := fun k => k = ip) hsorted

end Results

/-- Calls of one client, a second apart. -/
def callsOfOneClient (count : ℕ) : List InviteCall :=
  (List.range count).map fun i =>
    ⟨[("x-forwarded-for", "198.51.100.7".toUTF8.data.toList)], 1700000000 + Int64.ofNat i⟩

/-- Its sixth call. -/
def sixthCall : InviteCall :=
  ⟨[("x-forwarded-for", "198.51.100.7".toUTF8.data.toList)], 1700000005⟩

theorem sixthCall_rejected : served noCalls (callsOfOneClient 6) =
    (callsOfOneClient 5).map (·, true) ++ (sixthCall, false) :: [] := by
  decide +kernel

theorem invite_rate_limit_sixthCall :
    sixthCall.ComesFrom "198.51.100.7" ∧
    (∀ ip start, (SlidingWindow.window windowSecs start
      (acceptedAt ip (served noCalls (callsOfOneClient 6)))).length ≤ rateLimitMaxRequests) ∧
    rateLimitMaxRequests ≤ (SlidingWindow.recent windowSecs sixthCall.time
      (acceptedAt sixthCall.address ((callsOfOneClient 5).map (·, true)))).length ∧
    served noCalls (((callsOfOneClient 5).map (·, true) ++ []).map Prod.fst) =
      (callsOfOneClient 5).map (·, true) ++ [] ∧
    ∀ ip, served noCalls ((callsOfOneClient 6).filter fun call => call.address = ip) =
      (served noCalls (callsOfOneClient 6)).filter fun answer => answer.1.address = ip := by
  have htimes : ClockTimes (callsOfOneClient 6) := ⟨by decide, by decide⟩
  obtain ⟨hclient, hwindow, hreason, hrejected, haddress⟩ := invite_rate_limit htimes
  exact ⟨(hclient sixthCall _).mp (by decide), hwindow, hreason _ _ _ sixthCall_rejected,
    hrejected _ _ _ sixthCall_rejected, haddress⟩

end PactumCodex
