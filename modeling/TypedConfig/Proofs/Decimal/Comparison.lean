import Mathlib.Algebra.Order.Field.Power
import Mathlib.Algebra.Order.Ring.Rat
import TypedConfig.Proofs.Decimal.Range

/-!
# Equality and order of scaled numbers

A scaled number stands for a rational number.  The numbers that are read, and
those that are converted from integers, are compared here by their mantissas and
scales, as the machine compares them.

The main statements say that two of them are the same pair exactly if they stand
for the same number, and that their order is that of the rational numbers, as long
as their scales are no further apart than powers of ten are raised to.
-/

namespace TypedConfig

theorem ten_zpow_pos
    (scale : Int) :
    (0 : ℚ) < 10 ^ scale :=
  zpow_pos (by decide) scale

/-- Integers that stand at a common scale for two rational numbers are in their
order. -/
theorem compare_intCast_eq
    {x y : Int} {p q c : ℚ} (hc : 0 < c) (hx : (x : ℚ) = p * c) (hy : (y : ℚ) = q * c) :
    compare x y = compare p q := by
  rcases lt_trichotomy p q with hlt | rfl | hgt
  · have hcast : (x : ℚ) < y := by
      rw [hx, hy]
      exact mul_lt_mul_of_pos_right hlt hc
    rw [compare_lt_iff_lt.2 hlt, compare_lt_iff_lt.2 (Int.cast_lt.1 hcast)]
  · have hcast : (x : ℚ) = y := hx.trans hy.symm
    rw [compare_eq_iff_eq.2 rfl, compare_eq_iff_eq.2 (Int.cast_injective hcast)]
  · have hcast : (y : ℚ) < x := by
      rw [hx, hy]
      exact mul_lt_mul_of_pos_right hgt hc
    rw [compare_gt_iff_gt.2 hgt, compare_gt_iff_gt.2 (Int.cast_lt.1 hcast)]

/-- Decimals are in the order of the numbers they stand for. -/
theorem Decimal.compare_eq_compare_toRat
    (d e : Decimal) :
    Ord.compare d e = Ord.compare d.toRat e.toRat := by
  have hd := Int.le_max_left d.scale e.scale
  have he := Int.le_max_right d.scale e.scale
  rw [compare_eq_compare_mantissaAt hd he]
  exact compare_intCast_eq (ten_zpow_pos _) (cast_mantissaAt hd) (cast_mantissaAt he)

namespace Scaled

open Decimal

section Sources

/-- Whether a number is read from a text, or converted from an integer that is
allowed. -/
inductive Obtained (allowed : Int → Prop) : Scaled → Prop
  | read
      {n : Scaled}
      (text : String)
      (h : parse? text = some (.ok n)) :
      Obtained allowed n
  | converted
      {n : Scaled}
      (i : Int)
      (hi : allowed i)
      (h : ofInt? i = some n) :
      Obtained allowed n

/-- Whether an integer has fewer than 2 ^ 31 digits. -/
def FewDigits (i : Int) : Prop :=
  (Nat.toDigits 10 i.natAbs).length < twoPow 31

/-- A number is a decimal, or an integer that has more zeros than 32 bits
count. -/
theorem Obtained.outcome
    {allowed : Int → Prop} {n : Scaled} (h : Obtained allowed n) :
    (∃ d : Decimal, d.scaled = n) ∨
      ∃ i : Int, allowed i ∧ n = ⟨i, 0⟩ ∧ twoPow 32 ≤ mantissaZeros i ∧
        (Decimal.ofInt i).scale ≤ -mantissaZeros i := by
  cases h with
  | read text h =>
      obtain ⟨d, -, hd⟩ := exists_parse_of_parse? h
      exact Or.inl ⟨d, hd⟩
  | converted i hi h =>
      rcases ofInt?_outcome i with hdecimal | ⟨hself, hzeros, hscale⟩
      · rw [hdecimal, Option.some.injEq] at h
        exact Or.inl ⟨_, h⟩
      · rw [hself, Option.some.injEq] at h
        exact Or.inr ⟨i, hi, h.symm, hzeros, hscale⟩

end Sources

section Equality

theorem scaled_eq_of_toRat_eq
    {d e : Decimal} (h : d.scaled.toRat = e.scaled.toRat) :
    d.scaled = e.scaled := by
  rw [toRat_scaled, toRat_scaled] at h
  rw [toRat_injective h]

theorem Obtained.inLowestTerms
    {n : Scaled} (h : Obtained FewDigits n) :
    n.InLowestTerms := by
  rcases h.outcome with hdecimal | ⟨i, hi, -, hzeros, -⟩
  · exact inLowestTerms_iff.2 hdecimal
  · have hlength : mantissaZeros i ≤ (Nat.toDigits 10 i.natAbs).length := zerosAtEnd_le _
    have hwidths := widths_lt
    have hfew : (Nat.toDigits 10 i.natAbs).length < twoPow 31 := hi
    omega

theorem InLowestTerms.eq_iff_toRat_eq
    {a b : Scaled} (ha : a.InLowestTerms) (hb : b.InLowestTerms) :
    a = b ↔ a.toRat = b.toRat := by
  obtain ⟨d, rfl⟩ := inLowestTerms_iff.1 ha
  obtain ⟨e, rfl⟩ := inLowestTerms_iff.1 hb
  exact ⟨congrArg toRat, scaled_eq_of_toRat_eq⟩

/-- Numbers that are read, or converted from integers of fewer than 2 ^ 31 digits,
are in lowest terms, and the same pair exactly if they stand for the same rational
number. -/
theorem eq_iff_toRat_eq_of_obtained
    (a b : Scaled) (ha : Obtained FewDigits a) (hb : Obtained FewDigits b) :
    (a = b ↔ a.toRat = b.toRat) ∧ a.InLowestTerms ∧ b.InLowestTerms :=
  ⟨ha.inLowestTerms.eq_iff_toRat_eq hb.inLowestTerms, ha.inLowestTerms, hb.inLowestTerms⟩

theorem eq_iff_toRat_eq_of_obtained_thousand :
    Obtained FewDigits ⟨-1, -3⟩ ∧ parse? "-100.0e1" = some (.ok ⟨-1, -3⟩) ∧
      (⟨-1, -3⟩ : Scaled).InLowestTerms := by
  have hread : parse? "-100.0e1" = some (.ok ⟨-1, -3⟩) := by decide +kernel
  have hconverted : ofInt? (-1000) = some ⟨-1, -3⟩ := by decide +kernel
  have hinteger : Obtained FewDigits ⟨-1, -3⟩ :=
    .converted (-1000) (by unfold FewDigits; decide +kernel) hconverted
  exact ⟨hinteger, hread, (eq_iff_toRat_eq_of_obtained _ _ hinteger (.read _ hread)).2.1⟩

end Equality

section Order

/-- Whether two scales are no further apart than powers of ten are raised to. -/
def Close (a b : Scaled) : Prop :=
  (a.scale - b.scale).natAbs < twoPow 32

theorem Close.symm
    {a b : Scaled} (h : a.Close b) :
    b.Close a := by
  unfold Close at *
  omega

/-- An integer with more zeros than 32 bits count is not close to its decimal. -/
theorem not_close_of_toRat_eq
    {d : Decimal} {i : Int} (hzeros : twoPow 32 ≤ mantissaZeros i)
    (hscale : (Decimal.ofInt i).scale ≤ -mantissaZeros i)
    (h : d.scaled.toRat = (⟨i, 0⟩ : Scaled).toRat) :
    ¬ d.scaled.Close ⟨i, 0⟩ := by
  intro hclose
  have hdecimal : d = Decimal.ofInt i := by
    apply toRat_injective
    rw [← toRat_scaled, h, Decimal.ofInt, toRat_ofScaled]
    rfl
  subst hdecimal
  have hnatAbs : ((Decimal.ofInt i).scale - 0).natAbs < twoPow 32 := hclose
  omega

/-- Close numbers that stand for the same rational number are the same pair, also
where integers have more zeros than 32 bits count. -/
theorem Obtained.eq_of_toRat_eq
    {a b : Scaled} (ha : Obtained (fun _ => True) a) (hb : Obtained (fun _ => True) b)
    (hclose : a.Close b) (h : a.toRat = b.toRat) :
    a = b := by
  rcases ha.outcome with ⟨d, rfl⟩ | ⟨i, -, rfl, hi, hscalei⟩
  · rcases hb.outcome with ⟨e, rfl⟩ | ⟨j, -, rfl, hj, hscalej⟩
    · exact scaled_eq_of_toRat_eq h
    · exact absurd hclose (not_close_of_toRat_eq hj hscalej h)
  · rcases hb.outcome with ⟨e, rfl⟩ | ⟨j, -, rfl, -, -⟩
    · exact absurd hclose.symm (not_close_of_toRat_eq hi hscalei h.symm)
    · -- Integers that are left as they are have scale zero, both of them.
      have hcast : (i : ℚ) = j := by
        simpa only [toRat, neg_zero, zpow_zero, mul_one] using h
      rw [Int.cast_injective hcast]

/-- A mantissa brought to a larger scale is the number times the power of ten of
that scale. -/
theorem cast_rescale
    {n : Scaled} {scale : Int} (hle : n.scale ≤ scale) (hbits : scale - n.scale < twoPow 32) :
    (rescale n.mantissa (scale - n.scale) : ℚ) = n.toRat * 10 ^ scale := by
  have hexponent : exponent32? (scale - n.scale) = some (scale - n.scale).toNat :=
    if_pos (by omega)
  have hrescale : rescale n.mantissa (scale - n.scale) =
      n.mantissa * tenPow (scale - n.scale).toNat := by
    rw [rescale, hexponent]
    dsimp only
    split
    · rename_i hzero
      rw [hzero, tenPow_zero, Int.natCast_one, Int.mul_one]
    · rw [tenPow32_eq (by omega)]
  have hplaces : ((scale - n.scale).toNat : Int) = -n.scale + scale := by omega
  rw [hrescale, Int.cast_mul, Int.cast_natCast, cast_tenPow, ← zpow_natCast, hplaces,
    zpow_add₀ ten_ne_zero, toRat, mul_assoc]

/-- Numbers are in the order of their signs where these differ. -/
theorem toRat_lt_toRat_of_sign_lt
    {a b : Scaled} (h : a.mantissa.sign < b.mantissa.sign) :
    a.toRat < b.toRat := by
  rcases lt_trichotomy b.mantissa 0 with hneg | hzero | hpos
  · rw [Int.sign_eq_neg_one_of_neg hneg] at h
    rcases Int.sign_trichotomy a.mantissa with hsign | hsign | hsign <;> omega
  · rw [hzero, Int.sign_zero, Int.sign_neg_iff] at h
    have hmantissa : (a.mantissa : ℚ) < 0 := Int.cast_lt_zero.2 h
    rw [toRat, toRat, hzero, Int.cast_zero, zero_mul]
    exact mul_neg_of_neg_of_pos hmantissa (ten_zpow_pos _)
  · have hmantissa : a.mantissa ≤ 0 := by
      by_contra hnot
      rw [Int.sign_eq_one_of_pos hpos, Int.sign_eq_one_of_pos (by omega)] at h
      omega
    calc a.toRat ≤ 0 := mul_nonpos_of_nonpos_of_nonneg (Int.cast_nonpos.2 hmantissa)
          (ten_zpow_pos _).le
      _ < b.toRat := mul_pos (Int.cast_pos.2 hpos) (ten_zpow_pos _)

/-- Close numbers are in the order of the rational numbers they stand for. -/
theorem compare?_eq
    {a b : Scaled} (hclose : a.Close b) :
    a.compare? b = some (Ord.compare a.toRat b.toRat) := by
  rcases lt_trichotomy a.mantissa.sign b.mantissa.sign with hlt | heq | hgt
  · rw [compare?, if_pos hlt.ne, compare_lt_iff_lt.2 hlt,
      compare_lt_iff_lt.2 (toRat_lt_toRat_of_sign_lt hlt)]
  · -- Only numbers of one sign are brought to a common scale.
    have hwidths := widths_lt
    have hnatAbs : (a.scale - b.scale).natAbs < twoPow 32 := hclose
    have hleft := int64?_eq_some (i := max a.scale b.scale - a.scale) (by omega)
    have hright := int64?_eq_some (i := max a.scale b.scale - b.scale) (by omega)
    have hcompare := compare_intCast_eq (ten_zpow_pos (max a.scale b.scale))
      (cast_rescale (Int.le_max_left a.scale b.scale) (by omega))
      (cast_rescale (Int.le_max_right a.scale b.scale) (by omega))
    rw [compare?, if_neg (not_not.2 heq)]
    simp only [hleft, hright, Option.bind_eq_bind, Option.bind_some, Option.pure_def, hcompare]
  · rw [compare?, if_pos hgt.ne', compare_gt_iff_gt.2 hgt,
      compare_gt_iff_gt.2 (toRat_lt_toRat_of_sign_lt hgt)]

/-- The order of numbers that are read, or converted from integers, is that of the
rational numbers they stand for, as long as their scales are close.  It is that of
the same pair only, it is turned around with its numbers, and it is transitive.
Decimals with these mantissas and scales are in the same order. -/
theorem comparison_isRationalOrder
    (a b c : Scaled)
    (ha : Obtained (fun _ => True) a) (hb : Obtained (fun _ => True) b)
    (hc : Obtained (fun _ => True) c)
    (hab : a.Close b) (hbc : b.Close c) (hac : a.Close c) :
    a.compare? b = some (Ord.compare a.toRat b.toRat) ∧
      (a.compare? b = some .eq ↔ a = b) ∧
      b.compare? a = (a.compare? b).map Ordering.swap ∧
      (a.compare? b ≠ some .gt → b.compare? c ≠ some .gt →
        a.compare? c ≠ some .gt ∧ (a.compare? c = some .eq → a = b ∧ b = c)) ∧
      ∀ d e : Decimal, d.scaled = a → e.scaled = b →
        a.compare? b = some (Ord.compare d e) := by
  rw [compare?_eq hab, compare?_eq hbc, compare?_eq hac, compare?_eq hab.symm]
  simp only [Option.map_some, ne_eq, Option.some.injEq, compare_eq_iff_eq, compare_gt_iff_gt,
    not_lt]
  refine ⟨trivial, ⟨ha.eq_of_toRat_eq hb hab, congrArg toRat⟩, ?_, ?_, ?_⟩
  · exact Std.OrientedOrd.eq_swap
  · intro hle hle'
    refine ⟨hle.trans hle', ?_⟩
    intro heq
    have hfirst : a.toRat = b.toRat := le_antisymm hle (heq ▸ hle')
    exact ⟨ha.eq_of_toRat_eq hb hab hfirst, hb.eq_of_toRat_eq hc hbc (hfirst ▸ heq)⟩
  · rintro d e rfl rfl
    exact (compare_eq_compare_toRat d e).symm

theorem comparison_isRationalOrder_mixed :
    parse? "-2.5" = some (.ok ⟨-25, 1⟩) ∧ ofInt? 100 = some ⟨1, -2⟩ ∧
      parse? "100.5" = some (.ok ⟨1005, 1⟩) ∧
        (⟨-25, 1⟩ : Scaled).compare? ⟨1, -2⟩ = some .lt ∧
          (⟨1, -2⟩ : Scaled).compare? ⟨1005, 1⟩ = some .lt ∧
            (⟨-25, 1⟩ : Scaled).compare? ⟨1005, 1⟩ ≠ some .gt := by
  have hnegative : parse? "-2.5" = some (.ok ⟨-25, 1⟩) := by decide +kernel
  have hhundred : ofInt? 100 = some ⟨1, -2⟩ := by decide +kernel
  have hmore : parse? "100.5" = some (.ok ⟨1005, 1⟩) := by decide +kernel
  have hfirst : (⟨-25, 1⟩ : Scaled).compare? ⟨1, -2⟩ = some .lt := by decide +kernel
  have hsecond : (⟨1, -2⟩ : Scaled).compare? ⟨1005, 1⟩ = some .lt := by decide +kernel
  obtain ⟨-, -, -, htrans, -⟩ := comparison_isRationalOrder ⟨-25, 1⟩ ⟨1, -2⟩ ⟨1005, 1⟩
    (.read _ hnegative) (.converted 100 trivial hhundred) (.read _ hmore)
    (by unfold Close; decide) (by unfold Close; decide) (by unfold Close; decide)
  have hthird := htrans (by rw [hfirst]; exact nofun) (by rw [hsecond]; exact nofun)
  exact ⟨hnegative, hhundred, hmore, hfirst, hsecond, hthird.1⟩

end Order

end Scaled
end TypedConfig
