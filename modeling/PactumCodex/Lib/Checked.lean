import Mathlib.Algebra.Ring.Int.Defs
import Mathlib.Algebra.Ring.Nat
import Mathlib.Tactic.Common

/-!
# Checked arithmetic

Operations on 64-bit integers that fail when the exact result does not fit: what
a build with overflow checks computes.  Where they succeed, the wrapping
operation of the same operands is the exact one.
-/

namespace Checked

section Unsigned

variable {a b c : UInt64}

/-- `u64` multiplication. -/
def mulU64 (a b : UInt64) : Option UInt64 :=
  if a.toNat * b.toNat < 2 ^ 64 then some (a * b) else none

theorem mulU64_isSome_iff : (mulU64 a b).isSome ↔ a.toNat * b.toNat < 2 ^ 64 :=
  Option.isSome_ite

theorem mulU64_eq_some (h : mulU64 a b = some c) : a * b = c ∧ c.toNat = a.toNat * b.toNat := by
  obtain ⟨hlt, hmul⟩ := Option.ite_none_right_eq_some.mp h
  obtain rfl : a * b = c := Option.some.inj hmul
  refine ⟨rfl, ?_⟩
  rw [UInt64.toNat_mul, Nat.mod_eq_of_lt hlt]

end Unsigned

section Signed

variable {a b c : Int64}

/-- `i64` multiplication. -/
def mulI64 (a b : Int64) : Option Int64 :=
  if -2 ^ 63 ≤ a.toInt * b.toInt ∧ a.toInt * b.toInt < 2 ^ 63 then some (a * b) else none

theorem mulI64_eq_some (h : mulI64 a b = some c) : a * b = c ∧ c.toInt = a.toInt * b.toInt := by
  obtain ⟨hfits, hmul⟩ := Option.ite_none_right_eq_some.mp h
  obtain rfl : a * b = c := Option.some.inj hmul
  refine ⟨rfl, ?_⟩
  rw [Int64.toInt_mul]
  exact Int.bmod_eq_of_le (by omega) (by omega)

/-- `i64::pow`. -/
def powI64 (base : Int64) : ℕ → Option Int64
  | 0 => some 1
  | n + 1 => do
      let power ← powI64 base n
      mulI64 power base

/-- `i64::abs`. -/
def absI64 (a : Int64) : Option Int64 := if a = Int64.minValue then none else some a.abs

theorem absI64_of_ne (h : a ≠ Int64.minValue) : absI64 a = some a.abs := if_neg h

theorem toInt_abs (h : a ≠ Int64.minValue) : a.abs.toInt = a.toInt.natAbs := by
  have hbits : a.toBitVec ≠ BitVec.intMin 64 := fun heq => h (Int64.toBitVec_inj.mp heq)
  exact BitVec.toInt_abs_eq_natAbs_of_ne_intMin hbits

end Signed

end Checked
