import TypedConfig.Decimal.Basic

/-!
# The order of decimals

Decimals are compared as the numbers they are.  Both mantissas are brought to
the larger of the two scales, where they compare as integers.

The main statements say that the order may be read at any larger scale as well,
and that it is a total order whose equality is that of decimals.
-/

namespace TypedConfig
namespace Decimal

/-- The mantissa of a decimal at a scale that is not less than its own. -/
def mantissaAt (scale : Int) (d : Decimal) : Int :=
  d.mantissa * tenPow (scale - d.scale).toNat

/-- The order of the numbers. -/
def compare (a b : Decimal) : Ordering :=
  let scale := max a.scale b.scale
  Ord.compare (a.mantissaAt scale) (b.mantissaAt scale)

instance : Ord Decimal :=
  ⟨compare⟩

@[simp] theorem mantissaAt_self
    (d : Decimal) :
    d.mantissaAt d.scale = d.mantissa := by
  simp [mantissaAt]

/-- One step further in scale makes the mantissa ten times as large. -/
theorem mantissaAt_succ
    {d : Decimal} {scale : Int} (h : d.scale ≤ scale) :
    d.mantissaAt (scale + 1) = 10 * d.mantissaAt scale := by
  have hnat : (scale + 1 - d.scale).toNat = (scale - d.scale).toNat + 1 := by omega
  simp only [mantissaAt, hnat, tenPow_succ, Int.natCast_mul]
  rw [← Int.mul_assoc, Int.mul_comm]
  rfl

/-- The order does not depend on the scale at which it is read. -/
theorem compare_mantissaAt_add
    {a b : Decimal} {scale : Int} (ha : a.scale ≤ scale) (hb : b.scale ≤ scale) (k : Nat) :
    Ord.compare (a.mantissaAt (scale + k)) (b.mantissaAt (scale + k)) =
      Ord.compare (a.mantissaAt scale) (b.mantissaAt scale) := by
  induction k with
  | zero => simp
  | succ k ih =>
      have hcast : scale + ((k + 1 : Nat) : Int) = scale + (k : Int) + 1 := by omega
      rw [hcast, mantissaAt_succ (by omega), mantissaAt_succ (by omega), ← ih]
      simp only [Int.compare_eq_ite_lt]
      by_cases h : a.mantissaAt (scale + ↑k) < b.mantissaAt (scale + ↑k)
      · simp [h]
      · by_cases hgt : b.mantissaAt (scale + ↑k) < a.mantissaAt (scale + ↑k)
        · simp [hgt, Int.lt_asymm hgt]
        · simp [h, hgt]

/-- The order read at any scale that is not less than those of both. -/
theorem compare_eq_compare_mantissaAt
    {a b : Decimal} {scale : Int} (ha : a.scale ≤ scale) (hb : b.scale ≤ scale) :
    Ord.compare a b = Ord.compare (a.mantissaAt scale) (b.mantissaAt scale) := by
  have hadd := compare_mantissaAt_add (Int.le_max_left a.scale b.scale)
    (Int.le_max_right a.scale b.scale) (scale - max a.scale b.scale).toNat
  have hscale : max a.scale b.scale + (scale - max a.scale b.scale).toNat = scale := by omega
  rw [hscale] at hadd
  exact hadd.symm

/-- Decimals that are equal at a common scale are equal. -/
theorem eq_of_mantissaAt_eq
    {a b : Decimal} (hle : a.scale ≤ b.scale)
    (h : a.mantissaAt b.scale = b.mantissa) :
    a = b := by
  by_cases heq : a.scale = b.scale
  · rw [← heq, mantissaAt_self] at h
    exact ext_iff.2 ⟨h, heq⟩
  · exfalso
    have hstep : a.mantissaAt b.scale = 10 * a.mantissaAt (b.scale - 1) := by
      have := @mantissaAt_succ a (b.scale - 1) (by omega)
      rwa [Int.sub_add_cancel] at this
    have hmod : b.mantissa % 10 = 0 := by omega
    obtain ⟨hb, hbs⟩ := b.lowest hmod
    have ha : a.mantissa = 0 := by
      rw [hb, mantissaAt] at h
      rcases Int.mul_eq_zero.1 h with h0 | h0
      · exact h0
      · have hpos := tenPow_pos (b.scale - a.scale).toNat
        omega
    have has := (a.lowest (by rw [ha]; rfl)).2
    omega

instance : Std.OrientedOrd Decimal where
  eq_swap {a b} := by
    rw [compare_eq_compare_mantissaAt (Int.le_max_left a.scale b.scale)
        (Int.le_max_right a.scale b.scale),
      compare_eq_compare_mantissaAt (Int.le_max_right a.scale b.scale)
        (Int.le_max_left a.scale b.scale)]
    exact Std.OrientedOrd.eq_swap

instance : Std.TransOrd Decimal where
  isLE_trans {a b c} hab hbc := by
    have ha : a.scale ≤ max a.scale (max b.scale c.scale) := by omega
    have hb : b.scale ≤ max a.scale (max b.scale c.scale) := by omega
    have hc : c.scale ≤ max a.scale (max b.scale c.scale) := by omega
    rw [compare_eq_compare_mantissaAt ha hb] at hab
    rw [compare_eq_compare_mantissaAt hb hc] at hbc
    rw [compare_eq_compare_mantissaAt ha hc]
    exact Std.TransOrd.isLE_trans hab hbc

instance : Std.LawfulEqOrd Decimal where
  compare_self {a} := by
    rw [compare_eq_compare_mantissaAt (Int.le_refl a.scale) (Int.le_refl a.scale)]
    exact Std.ReflOrd.compare_self
  eq_of_compare {a b} h := by
    by_cases hle : a.scale ≤ b.scale
    · rw [compare_eq_compare_mantissaAt hle (Int.le_refl _)] at h
      have heq := Std.LawfulEqOrd.eq_of_compare h
      rw [mantissaAt_self] at heq
      exact eq_of_mantissaAt_eq hle heq
    · have hle' : b.scale ≤ a.scale := by omega
      rw [compare_eq_compare_mantissaAt (Int.le_refl _) hle'] at h
      have heq := Std.LawfulEqOrd.eq_of_compare h
      rw [mantissaAt_self] at heq
      exact (eq_of_mantissaAt_eq hle' heq.symm).symm

end Decimal
end TypedConfig
