import Mathlib.Algebra.Order.Field.Rat
import Mathlib.Data.List.DropRight
import Mathlib.Tactic.FieldSimp
import Mathlib.Tactic.Positivity
import Mathlib.Tactic.Ring

/-!
# Decimal numerals

Decimal numerals with a sign and digits after the point, the rational number that
one stands for, and the numeral of an integer scaled by a power of ten.  The
fraction of a `Numeral` does not end in zeros, so no numeral is written with
trailing zeros or a trailing point.
-/

/-- A decimal numeral: a sign, the digits before the point, and those after it. -/
structure Numeral where
  negative : Bool
  whole : List Char
  fraction : List Char
  whole_ne_nil : whole ≠ []
  whole_digits : ∀ c ∈ whole, c.isDigit = true
  fraction_digits : ∀ c ∈ fraction, c.isDigit = true
  fraction_trimmed : fraction.getLast? ≠ some '0'

namespace Numeral

/-! ## Popping characters -/

section Popping

variable {α : Type*}

/-- Pop the last element as long as it satisfies `p`, in at most `fuel` tests. -/
def popWhile (p : α → Bool) : ℕ → List α → Option (List α)
  | 0, _ => none
  | fuel + 1, xs => if xs.getLast?.any p then popWhile p fuel xs.dropLast else some xs

/-- The loop ends: each element is tested at most once, and the empty list once more. -/
theorem popWhile_of_length_lt {p : α → Bool} {fuel : ℕ} {xs : List α} (h : xs.length < fuel) :
    popWhile p fuel xs = some (xs.rdropWhile p) := by
  induction fuel generalizing xs with
  | zero => exact absurd h (Nat.not_lt_zero _)
  | succ fuel ih =>
      rcases List.eq_nil_or_concat' xs with rfl | ⟨ys, y, rfl⟩
      · simp [popWhile]
      · rw [List.length_append, List.length_singleton] at h
        have hys : ys.length < fuel := by omega
        by_cases hy : p y = true
        · rw [popWhile, List.getLast?_concat, Option.any_some, if_pos hy, List.dropLast_concat,
            ih hys, List.rdropWhile_concat_pos p ys y hy]
        · rw [popWhile, List.getLast?_concat, Option.any_some, if_neg hy,
            List.rdropWhile_concat_neg p ys y hy]

end Popping

/-! ## Digits -/

section Digits

variable {digits : List Char}

/-- The value of digits after the point. -/
def fractionValue (digits : List Char) : ℚ := Nat.ofDigitChars 10 digits 0 / 10 ^ digits.length

theorem fractionValue_concat_zero (digits : List Char) :
    fractionValue (digits ++ ['0']) = fractionValue digits := by
  have hvalue : Nat.ofDigitChars 10 (digits ++ ['0']) 0 = 10 * Nat.ofDigitChars 10 digits 0 := by
    rw [Nat.ofDigitChars_append, Nat.ofDigitChars_cons, Nat.ofDigitChars_nil]
    rfl
  rw [fractionValue, fractionValue, hvalue, List.length_append, List.length_singleton, pow_succ]
  push_cast
  field_simp

/-- Zeros at the end do not count. -/
theorem fractionValue_rdropWhile (digits : List Char) :
    fractionValue (digits.rdropWhile (· = '0')) = fractionValue digits := by
  induction digits using List.reverseRecOn with
  | nil => rfl
  | append_singleton digits digit ih =>
      by_cases hdigit : digit = '0'
      · subst hdigit
        rw [List.rdropWhile_concat_pos _ _ _ (by simp), ih, fractionValue_concat_zero]
      · rw [List.rdropWhile_concat_neg _ _ _ (by simpa using hdigit)]

/-- The digits of `n`, filled up with zeros to `width`. -/
def padded (width n : ℕ) : List Char :=
  List.replicate (width - (Nat.toDigits 10 n).length) '0' ++ Nat.toDigits 10 n

theorem toDigits_ne_nil {n : ℕ} : Nat.toDigits 10 n ≠ [] :=
  List.ne_nil_of_length_pos Nat.length_toDigits_pos

theorem isDigit_of_mem_toDigits {n : ℕ} : ∀ c ∈ Nat.toDigits 10 n, c.isDigit = true := by
  intro c hc
  exact Nat.isDigit_of_mem_toDigits (by decide) (by decide) hc

theorem ofDigitChars_padded (width n : ℕ) : Nat.ofDigitChars 10 (padded width n) 0 = n := by
  rw [padded, Nat.ofDigitChars_append, Nat.ofDigitChars_replicate_zero, Nat.mul_zero,
    Nat.ofDigitChars_ten_toDigits]

theorem length_padded {width n : ℕ} (hwidth : 0 < width) (h : n < 10 ^ width) :
    (padded width n).length = width := by
  have hlength : (Nat.toDigits 10 n).length ≤ width :=
    (Nat.length_toDigits_le_iff (by decide) hwidth).mpr h
  rw [padded, List.length_append, List.length_replicate]
  omega

theorem isDigit_of_mem_padded {width n : ℕ} : ∀ c ∈ padded width n, c.isDigit = true := by
  intro c hc
  rcases List.mem_append.mp hc with hzero | hdigit
  · rw [List.eq_of_mem_replicate hzero]
    rfl
  · exact isDigit_of_mem_toDigits c hdigit

theorem fractionValue_padded {width n : ℕ} (h : n < 10 ^ width) :
    fractionValue (padded width n) = n / 10 ^ width := by
  rw [fractionValue, ofDigitChars_padded]
  rcases width.eq_zero_or_pos with rfl | hwidth
  · obtain rfl : n = 0 := by omega
    simp
  · rw [length_padded hwidth h]

/-- The digits of `n / 10 ^ width` after the point, without zeros at the end. -/
def decimals (width n : ℕ) : List Char := (padded width n).rdropWhile (· = '0')

theorem isDigit_of_mem_decimals {width n : ℕ} : ∀ c ∈ decimals width n, c.isDigit = true := by
  intro c hc
  exact isDigit_of_mem_padded c ((List.rdropWhile_prefix _ _).subset hc)

theorem getLast?_decimals_ne {width n : ℕ} : (decimals width n).getLast? ≠ some '0' := by
  intro hlast
  have hne : decimals width n ≠ [] := by
    intro hempty
    rw [hempty] at hlast
    cases hlast
  rw [List.getLast?_eq_some_getLast hne] at hlast
  have hnot := List.rdropWhile_last_not (· = '0') (padded width n) hne
  exact hnot (decide_eq_true (Option.some.inj hlast))

theorem fractionValue_decimals {width n : ℕ} (h : n < 10 ^ width) :
    fractionValue (decimals width n) = n / 10 ^ width := by
  rw [decimals, fractionValue_rdropWhile, fractionValue_padded h]

theorem decimals_eq_nil_iff {width n : ℕ} (h : n < 10 ^ width) : decimals width n = [] ↔ n = 0 := by
  constructor
  · intro hempty
    have hvalue := fractionValue_decimals h
    have hne : (10 : ℚ) ^ width ≠ 0 := by positivity
    rw [hempty, fractionValue, Nat.ofDigitChars_nil, Nat.cast_zero, zero_div] at hvalue
    exact_mod_cast (div_eq_zero_iff.mp hvalue.symm).resolve_right hne
  · rintro rfl
    refine List.rdropWhile_eq_nil_iff.mpr fun c hc => decide_eq_true ?_
    rcases List.mem_append.mp hc with hpad | hdigit
    · exact List.eq_of_mem_replicate hpad
    · exact List.mem_singleton.mp hdigit

end Digits

/-! ## Reading -/

/-- The value of a string of digits. -/
def readDigits (digits : List Char) : Option ℕ :=
  if digits.isEmpty || !digits.all Char.isDigit then none
  else some (Nat.ofDigitChars 10 digits 0)

/-- The value of a numeral without a sign: digits, or digits on both sides of a point. -/
def readUnsigned (text : List Char) : Option ℚ :=
  match text.splitOn '.' with
  | [whole] => do
      let wholeValue ← readDigits whole
      return wholeValue
  | [whole, fraction] => do
      let wholeValue ← readDigits whole
      let fractionDigits ← readDigits fraction
      return wholeValue + fractionDigits / 10 ^ fraction.length
  | _ => none

/-- The value of a numeral, possibly after a minus sign. -/
def read (text : List Char) : Option ℚ :=
  if text.head? = some '-' then (readUnsigned text.tail).map fun value => -value
  else readUnsigned text

/-- A text with a point ends neither in the point nor in a zero. -/
def Trimmed (text : List Char) : Prop :=
  '.' ∈ text → text.getLast? ≠ some '.' ∧ text.getLast? ≠ some '0'

theorem readDigits_of_isDigit {digits : List Char} (hne : digits ≠ [])
    (hdigits : ∀ c ∈ digits, c.isDigit = true) :
    readDigits digits = some (Nat.ofDigitChars 10 digits 0) := by
  have hall : digits.all Char.isDigit = true := List.all_eq_true.mpr hdigits
  have hempty : digits.isEmpty = false := List.isEmpty_eq_false_iff.mpr hne
  rw [readDigits, hall, hempty]
  rfl

theorem not_mem_of_isDigit {digits : List Char} (hdigits : ∀ c ∈ digits, c.isDigit = true)
    {c : Char} (hc : c.isDigit = false) : c ∉ digits := by
  intro hmem
  rw [hdigits c hmem] at hc
  cases hc

/-! ## Writing -/

section Writing

variable (n : Numeral)

/-- The numeral without its sign. -/
def unsigned : List Char :=
  if n.fraction = [] then n.whole else n.whole ++ '.' :: n.fraction

/-- The numeral as it is written. -/
def written : List Char := if n.negative then '-' :: n.unsigned else n.unsigned

/-- The absolute value. -/
def magnitude : ℚ := Nat.ofDigitChars 10 n.whole 0 + fractionValue n.fraction

/-- The number that the numeral stands for. -/
def value : ℚ := if n.negative then -n.magnitude else n.magnitude

theorem point_not_mem_whole : '.' ∉ n.whole := not_mem_of_isDigit n.whole_digits rfl

theorem point_not_mem_fraction : '.' ∉ n.fraction := not_mem_of_isDigit n.fraction_digits rfl

theorem readUnsigned_unsigned : readUnsigned n.unsigned = some n.magnitude := by
  have hwhole := readDigits_of_isDigit n.whole_ne_nil n.whole_digits
  by_cases hempty : n.fraction = []
  · have hsplit : n.unsigned.splitOn '.' = [n.whole] := by
      rw [unsigned, if_pos hempty, List.splitOn_eq_singleton n.point_not_mem_whole]
    simp only [readUnsigned, hsplit, hwhole]
    simp [magnitude, hempty, fractionValue]
  · have hfraction := readDigits_of_isDigit hempty n.fraction_digits
    have hsplit : n.unsigned.splitOn '.' = [n.whole, n.fraction] := by
      rw [unsigned, if_neg hempty, List.splitOn_append_cons_self_of_not_mem n.point_not_mem_whole,
        List.splitOn_eq_singleton n.point_not_mem_fraction]
    simp only [readUnsigned, hsplit, hwhole, hfraction]
    rfl

theorem head?_unsigned_ne : n.unsigned.head? ≠ some '-' := by
  have hwhole : n.whole.head? ≠ some '-' := by
    intro hhead
    exact not_mem_of_isDigit n.whole_digits rfl (List.mem_of_mem_head? hhead)
  rw [unsigned]
  split
  · exact hwhole
  · rwa [List.head?_append_of_ne_nil _ n.whole_ne_nil]

/-- A numeral is read back. -/
theorem read_written : read n.written = some n.value := by
  rw [written, value]
  split
  · rw [read, List.head?_cons, if_pos rfl, List.tail_cons, n.readUnsigned_unsigned, Option.map_some]
  · rw [read, if_neg n.head?_unsigned_ne, n.readUnsigned_unsigned]

theorem trimmed_written : Trimmed n.written := by
  intro hpoint
  have hunsigned : '.' ∈ n.unsigned := by
    rw [written] at hpoint
    split at hpoint
    · exact (List.mem_cons.mp hpoint).resolve_left (by decide)
    · exact hpoint
  have hne : n.fraction ≠ [] := by
    intro hempty
    rw [unsigned, if_pos hempty] at hunsigned
    exact n.point_not_mem_whole hunsigned
  have hsuffix : ∃ before, n.written = before ++ n.fraction := by
    rw [written, unsigned, if_neg hne]
    split
    · exact ⟨'-' :: n.whole ++ ['.'], by simp⟩
    · exact ⟨n.whole ++ ['.'], by simp⟩
  obtain ⟨before, hwritten⟩ := hsuffix
  rw [hwritten, List.getLast?_append_of_ne_nil _ hne]
  refine ⟨?_, n.fraction_trimmed⟩
  intro hlast
  exact n.point_not_mem_fraction (List.mem_of_getLast? hlast)

end Writing

/-! ## Scaled integers -/

section Scaled

variable {places : ℕ} {n : ℤ}

/-- The numeral of `n / 10 ^ places`. -/
def ofScaled (places : ℕ) (n : ℤ) : Numeral where
  negative := n < 0
  whole := Nat.toDigits 10 (n.natAbs / 10 ^ places)
  fraction := decimals places (n.natAbs % 10 ^ places)
  whole_ne_nil := toDigits_ne_nil
  whole_digits := isDigit_of_mem_toDigits
  fraction_digits := isDigit_of_mem_decimals
  fraction_trimmed := getLast?_decimals_ne

theorem magnitude_ofScaled : (ofScaled places n).magnitude = n.natAbs / 10 ^ places := by
  have hlt : n.natAbs % 10 ^ places < 10 ^ places := Nat.mod_lt _ (by positivity)
  have hsplit : (n.natAbs : ℚ) =
      10 ^ places * (n.natAbs / 10 ^ places : ℕ) + (n.natAbs % 10 ^ places : ℕ) := by
    exact_mod_cast (Nat.div_add_mod n.natAbs (10 ^ places)).symm
  rw [magnitude, ofScaled, Nat.ofDigitChars_ten_toDigits, fractionValue_decimals hlt]
  have hne : (10 : ℚ) ^ places ≠ 0 := by positivity
  rw [hsplit, add_div, mul_div_cancel_left₀ _ hne]

/-- It stands for `n / 10 ^ places`. -/
theorem value_ofScaled : (ofScaled places n).value = n / 10 ^ places := by
  rw [value, magnitude_ofScaled, Nat.cast_natAbs]
  by_cases hnegative : n < 0
  · have habs : |n| = -n := abs_of_neg hnegative
    rw [if_pos (by simpa [ofScaled] using hnegative), habs]
    push_cast
    ring
  · have habs : |n| = n := abs_of_nonneg (not_lt.mp hnegative)
    rw [if_neg (by simpa [ofScaled] using hnegative), habs]

/-- Different integers have different numerals. -/
theorem written_ofScaled_injective :
    Function.Injective fun n => (ofScaled places n).written := by
  intro m n hwritten
  have hread : some (ofScaled places m).value = some (ofScaled places n).value := by
    rw [← read_written, ← read_written]
    exact congrArg read hwritten
  have hvalue : (m : ℚ) / 10 ^ places = n / 10 ^ places := by
    rw [← value_ofScaled, ← value_ofScaled]
    exact Option.some.inj hread
  have hne : (10 : ℚ) ^ places ≠ 0 := by positivity
  exact Int.cast_injective ((div_left_inj' hne).mp hvalue)

end Scaled

end Numeral
