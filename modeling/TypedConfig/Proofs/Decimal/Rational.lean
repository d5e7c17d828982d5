import Mathlib.Algebra.Field.Rat
import Mathlib.Data.Rat.Cast.CharZero
import TypedConfig.Proofs.Decimal.Canonical

/-!
# The rational number of a decimal

A decimal stands for its mantissa times a power of ten.  What is made of a
mantissa and a scale stands for the same number, though it is kept in lowest
terms, and decimals that stand for the same number are equal.
-/

namespace TypedConfig
namespace Decimal

/-- The rational number that a decimal stands for. -/
def toRat (d : Decimal) : ℚ :=
  d.mantissa * 10 ^ (-d.scale)

theorem cast_tenPow
    (k : Nat) :
    (tenPow k : ℚ) = 10 ^ k := by
  rw [tenPow, Nat.pow_eq, Nat.cast_pow, Nat.cast_ofNat]

theorem ten_ne_zero :
    (10 : ℚ) ≠ 0 := by
  decide

/-- A decimal that is made of a mantissa and a scale stands for the number that
these give. -/
theorem toRat_ofScaled
    (m s : Int) :
    (ofScaled m s).toRat = m * 10 ^ (-s) := by
  by_cases hm : m = 0
  · simp [hm, toRat, zero]
  · have hzeros : -(s - trailingZeros m.natAbs) = (trailingZeros m.natAbs : Int) + -s := by
      omega
    have hmantissa := congrArg (Int.cast (R := ℚ)) (mantissa_ofScaled m s)
    rw [Int.cast_mul, Int.cast_natCast, cast_tenPow] at hmantissa
    rw [toRat, scale_ofScaled hm, hzeros, zpow_add₀ ten_ne_zero, zpow_natCast, ← mul_assoc,
      hmantissa]

/-- At a larger scale the mantissa of a decimal is the number times the power of
ten of that scale. -/
theorem cast_mantissaAt
    {d : Decimal} {scale : Int} (h : d.scale ≤ scale) :
    (d.mantissaAt scale : ℚ) = d.toRat * 10 ^ scale := by
  have hplaces : ((scale - d.scale).toNat : Int) = -d.scale + scale := by omega
  rw [mantissaAt, Int.cast_mul, Int.cast_natCast, cast_tenPow, ← zpow_natCast, hplaces,
    zpow_add₀ ten_ne_zero, toRat, mul_assoc]

/-- Decimals that stand for the same number are equal. -/
theorem toRat_injective :
    Function.Injective toRat := by
  intro a b h
  have ha := Int.le_max_left a.scale b.scale
  have hb := Int.le_max_right a.scale b.scale
  refine eq_of_mantissaAt_eq_mantissaAt ha hb ?_
  have hcast : (a.mantissaAt (max a.scale b.scale) : ℚ) = b.mantissaAt (max a.scale b.scale) := by
    rw [cast_mantissaAt ha, cast_mantissaAt hb, h]
  exact Int.cast_injective hcast

end Decimal
end TypedConfig
