import PactumCodex.Handlers.Payment
import PactumCodex.Lib.Checked

/-!
# Refunds of the fee that is charged

A payment charges `cents_to_token_units` of the platform fee, and
`calculate_refund_amount` scales what was paid by the refundable part of the
fee.  At six decimals a cent is 10⁴ units, so the division is exact and the
refund is the price of the refundable part, as long as the product before the
division fits in a `u64` (`refund_exact_iff`).  It grows with the square of the
fee.
-/

namespace PactumCodex

/-! ## With overflow checks -/

/-- `cents_to_token_units`, failing where an operation overflows. -/
def centsToTokenUnitsChecked (cents : UInt32) (decimals : UInt8) : Option Int64 := do
  let factor ← Checked.powI64 10 decimals.toNat
  let scaled ← Checked.mulI64 (Int64.ofNat cents.toNat) factor
  return scaled / 100

/-- `calculate_refund_amount`, failing where an operation overflows. -/
def calculateRefundAmountChecked (paidUnits : UInt64) (nonrefundableCents totalFeeCents : UInt32) :
    Option UInt64 :=
  if totalFeeCents = 0 ∨ paidUnits = 0 then some 0
  else do
    let refundableCents := saturatingSub totalFeeCents nonrefundableCents
    let scaled ← Checked.mulU64 paidUnits refundableCents.toUInt64
    return scaled / totalFeeCents.toUInt64

/-- Where nothing overflows, this is what the code computes. -/
theorem calculateRefundAmountChecked_eq_some {paidUnits amount : UInt64}
    {nonrefundableCents totalFeeCents : UInt32}
    (h : calculateRefundAmountChecked paidUnits nonrefundableCents totalFeeCents = some amount) :
    calculateRefundAmount paidUnits nonrefundableCents totalFeeCents = amount := by
  rw [calculateRefundAmountChecked] at h
  rw [calculateRefundAmount]
  split at h
  · next hzero =>
      rw [if_pos hzero]
      exact Option.some.inj h
  · next hcharged =>
      obtain ⟨scaled, hscaled, hamount⟩ := Option.bind_eq_some_iff.mp h
      rw [if_neg hcharged]
      show paidUnits * (saturatingSub totalFeeCents nonrefundableCents).toUInt64 /
        totalFeeCents.toUInt64 = amount
      rw [(Checked.mulU64_eq_some hscaled).1]
      exact Option.some.inj hamount

/-- No operation overflows when `fee` is charged, when what was paid for it is refunded, and when
the refundable part is priced: with the checks, the results are those of the code. -/
def RefundFits (fee nonrefundable : UInt32) : Prop :=
  centsToTokenUnitsChecked fee 6 = some (centsToTokenUnits fee 6) ∧
  calculateRefundAmountChecked (centsToTokenUnits fee 6).toUInt64 nonrefundable fee =
    some (calculateRefundAmount (centsToTokenUnits fee 6).toUInt64 nonrefundable fee) ∧
  centsToTokenUnitsChecked (saturatingSub fee nonrefundable) 6 =
    some (centsToTokenUnits (saturatingSub fee nonrefundable) 6)

/-- The refund of what is charged for `fee` is the price of the refundable part. -/
def RefundExact (fee nonrefundable : UInt32) : Prop :=
  calculateRefundAmount (centsToTokenUnits fee 6).toUInt64 nonrefundable fee =
    (centsToTokenUnits (saturatingSub fee nonrefundable) 6).toUInt64

section Exactness

variable {fee nonrefundable : UInt32}

/-! ## Charging the fee -/

theorem toInt_ofNat_cents (cents : UInt32) : (Int64.ofNat cents.toNat).toInt = cents.toNat := by
  have hlt : cents.toNat < 2 ^ 32 := cents.toNat_lt
  exact Int64.toInt_ofNat_of_lt (by omega)

theorem mulI64_cents (cents : UInt32) :
    Checked.mulI64 (Int64.ofNat cents.toNat) 1000000 =
      some (Int64.ofNat cents.toNat * 1000000) := by
  have hlt : cents.toNat < 2 ^ 32 := cents.toNat_lt
  refine if_pos ?_
  rw [toInt_ofNat_cents]
  show -2 ^ 63 ≤ (cents.toNat : ℤ) * 1000000 ∧ (cents.toNat : ℤ) * 1000000 < 2 ^ 63
  omega

theorem centsToTokenUnitsChecked_six (cents : UInt32) :
    centsToTokenUnitsChecked cents 6 = some (centsToTokenUnits cents 6) := by
  have hfactor : Checked.powI64 10 (6 : UInt8).toNat = some 1000000 := by decide
  simp only [centsToTokenUnitsChecked, hfactor, Option.bind_eq_bind, Option.bind_some, mulI64_cents]
  rfl

/-- A cent is 10⁴ units. -/
theorem toInt_centsToTokenUnits_six (cents : UInt32) :
    (centsToTokenUnits cents 6).toInt = 10000 * cents.toNat := by
  have hscaled : (Int64.ofNat cents.toNat * 1000000).toInt = cents.toNat * 1000000 := by
    rw [(Checked.mulI64_eq_some (mulI64_cents cents)).2, toInt_ofNat_cents]
    rfl
  calc (centsToTokenUnits cents 6).toInt
      = (Int64.ofNat cents.toNat * 1000000 / 100).toInt := rfl
    _ = ((cents.toNat : ℤ) * 1000000).tdiv 100 := by
        rw [Int64.toInt_div_of_ne_right _ _ (by decide), hscaled]
        rfl
    _ = (cents.toNat : ℤ) * 1000000 / 100 := Int.tdiv_eq_ediv_of_nonneg (by omega)
    _ = 10000 * cents.toNat := by omega

theorem toNat_centsToTokenUnits_six (cents : UInt32) :
    (centsToTokenUnits cents 6).toUInt64.toNat = 10000 * cents.toNat := by
  have hint := toInt_centsToTokenUnits_six cents
  have hnonneg : 0 ≤ centsToTokenUnits cents 6 := by
    rw [Int64.le_iff_toInt_le, hint]
    simp
  rw [Int64.toNat_toUInt64_of_le hnonneg, Int64.toNatClampNeg, hint]
  omega

/-! ## Refunding it -/

theorem toNat_refundable : (saturatingSub fee nonrefundable).toUInt64.toNat =
    fee.toNat - nonrefundable.toNat := by
  rw [UInt32.toNat_toUInt64, toNat_saturatingSub]

theorem charged_ne_zero (hfee : 0 < fee) :
    ¬ (fee = 0 ∨ (centsToTokenUnits fee 6).toUInt64 = 0) := by
  have hpos : 0 < fee.toNat := hfee
  rintro (rfl | hzero)
  · exact absurd hpos (by decide)
  · have hcharged := toNat_centsToTokenUnits_six fee
    rw [hzero, UInt64.toNat_zero] at hcharged
    omega

/-- What a payment of the fee is refunded, with the product taken modulo 2⁶⁴. -/
theorem toNat_refund (hfee : 0 < fee) :
    (calculateRefundAmount (centsToTokenUnits fee 6).toUInt64 nonrefundable fee).toNat =
      10000 * fee.toNat * (fee.toNat - nonrefundable.toNat) % 2 ^ 64 / fee.toNat := by
  rw [calculateRefundAmount, if_neg (charged_ne_zero hfee), UInt64.toNat_div, UInt64.toNat_mul,
    toNat_centsToTokenUnits_six, toNat_refundable, UInt32.toNat_toUInt64]

/-- The refund is exact if and only if the product fits: a product that is cut off is smaller than
the fee times the price. -/
theorem refundExact_iff (hfee : 0 < fee) : RefundExact fee nonrefundable ↔
    10000 * fee.toNat * (fee.toNat - nonrefundable.toNat) < 2 ^ 64 := by
  have hpos : 0 < fee.toNat := hfee
  set refundable := fee.toNat - nonrefundable.toNat with hrefundable
  have hproduct : 10000 * fee.toNat * refundable = fee.toNat * (10000 * refundable) := by ring
  rw [RefundExact, ← UInt64.toNat_inj, toNat_refund hfee, toNat_centsToTokenUnits_six,
    toNat_saturatingSub, ← hrefundable, hproduct]
  constructor
  · intro hexact
    have hle : fee.toNat * (10000 * refundable) ≤ fee.toNat * (10000 * refundable) % 2 ^ 64 := by
      calc fee.toNat * (10000 * refundable)
          = fee.toNat * (fee.toNat * (10000 * refundable) % 2 ^ 64 / fee.toNat) := by rw [hexact]
        _ ≤ fee.toNat * (10000 * refundable) % 2 ^ 64 := Nat.mul_div_le _ _
    exact hle.trans_lt (Nat.mod_lt _ (by decide))
  · intro hfits
    rw [Nat.mod_eq_of_lt hfits, Nat.mul_div_cancel_left _ hpos]

theorem refundFits_iff (hfee : 0 < fee) : RefundFits fee nonrefundable ↔
    10000 * fee.toNat * (fee.toNat - nonrefundable.toNat) < 2 ^ 64 := by
  have hchecked : calculateRefundAmountChecked (centsToTokenUnits fee 6).toUInt64
    nonrefundable fee =
      some (calculateRefundAmount (centsToTokenUnits fee 6).toUInt64 nonrefundable fee) ↔
        (calculateRefundAmountChecked (centsToTokenUnits fee 6).toUInt64 nonrefundable
          fee).isSome := by
    rw [Option.isSome_iff_exists]
    constructor
    · exact fun h => ⟨_, h⟩
    · rintro ⟨amount, h⟩
      rw [h, calculateRefundAmountChecked_eq_some h]
  -- pricing never overflows, so the product of the refund decides
  rw [RefundFits, centsToTokenUnitsChecked_six, centsToTokenUnitsChecked_six, hchecked,
    calculateRefundAmountChecked, if_neg (charged_ne_zero hfee), ← toNat_centsToTokenUnits_six,
    ← toNat_refundable, ← Checked.mulU64_isSome_iff]
  simp [Option.isSome_bind]

/-- **Refunds of the fee.**  The refund of what is charged for a fee is the price of the refundable
part, and nothing overflows, if and only if 10⁴ · fee · refundable part is less than 2⁶⁴. -/
theorem refund_exact_iff (hfee : 0 < fee) :
    RefundExact fee nonrefundable ∧ RefundFits fee nonrefundable ↔
      10000 * fee.toNat * (fee.toNat - nonrefundable.toNat) < 2 ^ 64 := by
  rw [refundExact_iff hfee, refundFits_iff hfee, and_self_iff]

end Exactness

theorem refund_exact_iff_default :
    RefundExact 199 10 ∧ RefundFits 199 10 ↔
      10000 * (199 : UInt32).toNat * ((199 : UInt32).toNat - (10 : UInt32).toNat) < 2 ^ 64 :=
  refund_exact_iff (by decide)

/-- The smallest fee for which a full refund goes wrong. -/
theorem refund_of_large_fee_wrong :
    ¬ ∀ fee nonrefundable : UInt32, 0 < fee →
      RefundExact fee nonrefundable ∧ RefundFits fee nonrefundable := by
  intro hclaim
  have hexact := (hclaim 42949673 0 (by decide)).1
  rw [refundExact_iff (by decide)] at hexact
  exact absurd hexact (by decide)

end PactumCodex
