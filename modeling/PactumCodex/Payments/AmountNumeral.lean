import PactumCodex.Lib.Checked
import PactumCodex.Lib.Numeral
import PactumCodex.Services.SolanaPay

/-!
# The amount in a payment request

`format_amount_6dp` writes the sign, the whole tokens and, after a point, what is
left without the zeros at its end.  For every amount above the least `i64`, whose
absolute value is not one, this is the numeral of the amount at six decimals
(`toList_formatAmount6dp`): it is read as exactly that amount
(`formatAmount6dp_exact`).
-/

namespace PactumCodex

/-- `format_amount_6dp` as a build with overflow checks runs it: it fails where `abs` overflows, and
the loop that pops zeros is given up after `fuel` tests. -/
def formatAmount6dpWithin (fuel : ℕ) (amountUnits : Int64) : Option String := do
  let sign := if amountUnits < 0 then "-" else ""
  let abs ← Checked.absI64 amountUnits
  let whole := abs / 1000000
  let fractional := abs % 1000000
  if fractional = 0 then return sign ++ decimal whole
  else
    let frac ← Numeral.popWhile (· = '0') fuel (zeroPad6 fractional).toList
    return sign ++ decimal whole ++ "." ++ String.ofList frac

section Amount

variable {amountUnits : Int64}

/-! ## Whole tokens and the rest -/

theorem toInt_whole (h : amountUnits ≠ Int64.minValue) :
    (amountUnits.abs / 1000000).toInt = (amountUnits.toInt.natAbs / 10 ^ 6 : ℕ) := by
  rw [Int64.toInt_div_of_ne_right _ _ (by decide), Checked.toInt_abs h]
  rfl

theorem toInt_fractional (h : amountUnits ≠ Int64.minValue) :
    (amountUnits.abs % 1000000).toInt = (amountUnits.toInt.natAbs % 10 ^ 6 : ℕ) := by
  rw [Int64.toInt_mod, Checked.toInt_abs h]
  rfl

theorem toList_decimal {n : Int64} {digits : ℕ} (h : n.toInt = digits) :
    (decimal n).toList = Nat.toDigits 10 digits := by
  rw [decimal, h, Int.toString_eq_repr, Int.repr_eq_if, if_pos (Int.natCast_nonneg digits),
    Int.toNat_natCast, Nat.repr_eq_ofList_toDigits, String.toList_ofList]

theorem toList_zeroPad6 {n : Int64} {digits : ℕ} (h : n.toInt = digits) :
    (zeroPad6 n).toList = Numeral.padded 6 digits := by
  have hneg : ¬ n < 0 := by
    rw [Int64.lt_iff_toInt_lt, h]
    exact not_lt.mpr (Int.natCast_nonneg digits)
  rw [zeroPad6, if_neg hneg, String.toList_ofList, h]
  rfl

theorem fractional_eq_zero_iff (h : amountUnits ≠ Int64.minValue) :
    amountUnits.abs % 1000000 = 0 ↔ amountUnits.toInt.natAbs % 10 ^ 6 = 0 := by
  rw [← Int64.toInt_inj, toInt_fractional h]
  exact Int.natCast_eq_zero

theorem toList_sign_append (rest : List Char) :
    (if amountUnits < 0 then "-" else "").toList ++ rest =
      if amountUnits.toInt < 0 then '-' :: rest else rest := by
  have hiff : amountUnits < 0 ↔ amountUnits.toInt < 0 := Int64.lt_iff_toInt_lt
  by_cases hneg : amountUnits < 0
  · rw [if_pos hneg, if_pos (hiff.mp hneg)]
    rfl
  · rw [if_neg hneg, if_neg fun hlt => hneg (hiff.mpr hlt)]
    rfl

/-! ## The numeral -/

/-- The amount is written as its numeral at six decimals. -/
theorem toList_formatAmount6dp (h : amountUnits ≠ Int64.minValue) :
    (formatAmount6dp amountUnits).toList = (Numeral.ofScaled 6 amountUnits.toInt).written := by
  have hwhole := toList_decimal (toInt_whole h)
  have hfraction := toList_zeroPad6 (toInt_fractional h)
  have hzero := fractional_eq_zero_iff h
  have hlt : amountUnits.toInt.natAbs % 10 ^ 6 < 10 ^ 6 := Nat.mod_lt _ (by decide)
  have hempty := Numeral.decimals_eq_nil_iff hlt
  have hunsigned : (Numeral.ofScaled 6 amountUnits.toInt).written =
      if amountUnits.toInt < 0 then '-' :: (Numeral.ofScaled 6 amountUnits.toInt).unsigned
      else (Numeral.ofScaled 6 amountUnits.toInt).unsigned := by
    simp [Numeral.written, Numeral.ofScaled]
  rw [hunsigned, ← toList_sign_append]
  by_cases hfractional : amountUnits.abs % 1000000 = 0
  · have hnil : (Numeral.ofScaled 6 amountUnits.toInt).fraction = [] :=
      hempty.mpr (hzero.mp hfractional)
    simp only [formatAmount6dp, if_pos hfractional, String.toList_append, hwhole]
    rw [Numeral.unsigned, if_pos hnil]
    rfl
  · have hcons : (Numeral.ofScaled 6 amountUnits.toInt).fraction ≠ [] :=
      fun hnil => hfractional (hzero.mpr (hempty.mp hnil))
    simp only [formatAmount6dp, if_neg hfractional, String.toList_append, String.toList_ofList,
      hwhole, hfraction]
    rw [Numeral.unsigned, if_neg hcons, List.append_assoc, List.append_assoc]
    rfl

/-- The loop ends within seven tests, and nothing overflows. -/
theorem formatAmount6dpWithin_eq (h : amountUnits ≠ Int64.minValue) {fuel : ℕ} (hfuel : 6 < fuel) :
    formatAmount6dpWithin fuel amountUnits = some (formatAmount6dp amountUnits) := by
  have hfraction := toList_zeroPad6 (toInt_fractional h)
  have hlt : amountUnits.toInt.natAbs % 10 ^ 6 < 10 ^ 6 := Nat.mod_lt _ (by decide)
  have hlength : (zeroPad6 (amountUnits.abs % 1000000)).toList.length < fuel := by
    rw [hfraction, Numeral.length_padded (by decide) hlt]
    exact hfuel
  simp only [formatAmount6dpWithin, formatAmount6dp, Checked.absI64_of_ne h, Option.bind_eq_bind,
    Option.bind_some, Numeral.popWhile_of_length_lt hlength]
  split
  · rfl
  · rfl

/-- **Amounts.**  The amount is written, and the text is a decimal numeral of exactly the amount in
tokens, which does not end in zeros or a point.  Different amounts are written differently. -/
theorem formatAmount6dp_exact (hleast : Int64.minValue < amountUnits) :
    (∀ fuel > 6, formatAmount6dpWithin fuel amountUnits = some (formatAmount6dp amountUnits)) ∧
    Numeral.read (formatAmount6dp amountUnits).toList = some (amountUnits.toInt / 10 ^ 6 : ℚ) ∧
    Numeral.Trimmed (formatAmount6dp amountUnits).toList ∧
    ∀ other, Int64.minValue < other → formatAmount6dp other = formatAmount6dp amountUnits →
      other = amountUnits := by
  have hne := Int64.ne_of_lt hleast
  have hwritten := toList_formatAmount6dp hne.symm
  refine ⟨fun fuel hfuel => formatAmount6dpWithin_eq hne.symm hfuel, ?_, ?_, ?_⟩
  · rw [hwritten, Numeral.read_written, Numeral.value_ofScaled]
  · rw [hwritten]
    exact Numeral.trimmed_written _
  · intro other hother hsame
    have hwritten' := toList_formatAmount6dp (Int64.ne_of_lt hother).symm
    rw [hsame, hwritten] at hwritten'
    exact Int64.toInt_inj.mp (Numeral.written_ofScaled_injective hwritten'.symm)

theorem formatAmount6dp_exact_pro :
    (∀ fuel > 6, formatAmount6dpWithin fuel 1990000 = some (formatAmount6dp 1990000)) ∧
    Numeral.read (formatAmount6dp 1990000).toList = some ((1990000 : Int64).toInt / 10 ^ 6 : ℚ) ∧
    Numeral.Trimmed (formatAmount6dp 1990000).toList ∧
    ∀ other, Int64.minValue < other → formatAmount6dp other = formatAmount6dp 1990000 →
      other = 1990000 :=
  formatAmount6dp_exact (by decide)

end Amount

end PactumCodex
