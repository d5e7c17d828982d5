import Mathlib.Data.List.DropRight
import TypedConfig.Decimal.Scaled
import TypedConfig.Proofs.Decimal.Denotation

/-!
# Scaled numbers in lowest terms

A scaled number is in lowest terms if zero has scale zero and no other mantissa
is divisible by ten; the numbers that are so are the decimals.  Zeros at the end
of digits are moved to the scale twice: in the text of a literal, and once more
when a mantissa and a scale are put together.

The main statements say that what comes of either is the decimal that stands for
the same number, unless the zeros of an integer are too many for 32 bits.
-/

namespace TypedConfig
namespace Scaled

open Decimal

section Powers

/-- Squaring the base for each bit of the exponent multiplies by the power. -/
theorem mulPow_eq
    {bits exponent : Nat} (h : exponent < 2 ^ bits) (n base : Nat) :
    mulPow bits n base exponent = n * base ^ exponent := by
  induction bits generalizing exponent n base with
  | zero =>
      obtain rfl : exponent = 0 := by omega
      rw [mulPow, pow_zero, Nat.mul_one]
  | succ bits ih =>
      rcases Nat.lt_trichotomy exponent 1 with hzero | rfl | hmore
      · obtain rfl : exponent = 0 := by omega
        rw [mulPow, if_pos rfl, pow_zero, Nat.mul_one]
      · -- The base is not squared behind the last bit.
        have hnone : 1 / 2 < 2 ^ bits := Nat.two_pow_pos bits
        rw [mulPow, if_neg Nat.one_ne_zero, ih hnone, if_pos rfl, pow_one]
        exact Nat.mul_one (n * base)
      · have hhalf : exponent / 2 < 2 ^ bits := by
          rw [pow_succ] at h
          omega
        have hsquare : (base * base) ^ (exponent / 2) = base ^ (2 * (exponent / 2)) := by
          rw [← sq, ← pow_mul]
        have hfirst : (if exponent % 2 = 1 then n * base else n) = n * base ^ (exponent % 2) := by
          rcases Nat.mod_two_eq_zero_or_one exponent with hbit | hbit
          · rw [hbit, pow_zero, Nat.mul_one, if_neg Nat.zero_ne_one]
          · rw [hbit, pow_one, if_pos rfl]
        rw [mulPow, if_neg (by omega), ih hhalf, if_pos hmore, hsquare, hfirst, Nat.mul_assoc,
          ← pow_add, Nat.mod_add_div]

theorem tenPow32_eq
    {exponent : Nat} (h : exponent < twoPow 32) :
    tenPow32 exponent = tenPow exponent := by
  rw [tenPow32, mulPow_eq h, Nat.one_mul]
  rfl

end Powers

section Zeros

/-- Digits are what is left of them without the zeros at their end, and those
zeros. -/
theorem trimZeros_append
    (digits : List Char) :
    trimZeros digits ++ List.replicate (zerosAtEnd digits) '0' = digits := by
  have hsplit : trimZeros digits ++ digits.rtakeWhile (· == '0') = digits :=
    List.rdropWhile_append_rtakeWhile
  have hzeros : digits.rtakeWhile (· == '0') = List.replicate (zerosAtEnd digits) '0' := by
    have hall : digits.rtakeWhile (· == '0') =
        List.replicate (digits.rtakeWhile (· == '0')).length '0' := by
      refine List.eq_replicate_of_mem fun c hc => ?_
      have hzero := List.mem_rtakeWhile_imp hc
      exact beq_iff_eq.1 hzero
    have hlength := congrArg List.length hsplit
    rw [List.length_append] at hlength
    rw [hall, zerosAtEnd]
    congr 1
    omega
  rw [← hzeros]
  exact hsplit

theorem zerosAtEnd_le
    (digits : List Char) :
    zerosAtEnd digits ≤ digits.length :=
  Nat.sub_le _ _

theorem digitsValue_trimZeros
    (digits : List Char) :
    digitsValue (trimZeros digits) * tenPow (zerosAtEnd digits) = digitsValue digits := by
  rw [← digitsValue_append_zeros, trimZeros_append]

/-- What is left ends with a digit other than zero, so ten does not divide what it
writes. -/
theorem digitsValue_trimZeros_mod
    {digits : List Char} (hdigits : ∀ c ∈ digits, c.isDigit = true)
    (hne : trimZeros digits ≠ []) :
    digitsValue (trimZeros digits) % 10 ≠ 0 := by
  have hlast := List.rdropWhile_last_not (· == '0') digits hne
  have hmem : (trimZeros digits).getLast hne ∈ digits :=
    (List.rdropWhile_prefix (· == '0') digits).subset (List.getLast_mem hne)
  have hbounds := isDigit_bounds (hdigits _ hmem)
  have hnonzero : ((trimZeros digits).getLast hne).toNat ≠ 48 := by
    intro heq
    exact hlast (beq_iff_eq.2 (Char.toNat_inj.1 heq))
  have hvalue : digitsValue [(trimZeros digits).getLast hne] =
      ((trimZeros digits).getLast hne).toNat - 48 := by
    simp [digitsValue, Nat.ofDigitChars]
  rw [← List.dropLast_append_getLast hne, digitsValue_append, hvalue, List.length_singleton,
    tenPow_succ, tenPow_zero]
  omega

end Zeros

section LowestTerms

/-- The rational number that a scaled number stands for. -/
def toRat (n : Scaled) : ℚ :=
  n.mantissa * 10 ^ (-n.scale)

theorem toRat_scaled
    (d : Decimal) :
    d.scaled.toRat = d.toRat :=
  rfl

/-- Whether zero has scale zero, and ten divides no other mantissa. -/
structure InLowestTerms (n : Scaled) : Prop where
  scale : n.mantissa = 0 → n.scale = 0
  mantissa : n.mantissa ≠ 0 → ¬ 10 ∣ n.mantissa

/-- The scaled numbers in lowest terms are those of the decimals. -/
theorem inLowestTerms_iff
    {n : Scaled} :
    n.InLowestTerms ↔ ∃ d : Decimal, d.scaled = n := by
  constructor
  · intro h
    refine ⟨⟨n.mantissa, n.scale, ?_⟩, rfl⟩
    intro hmod
    by_cases hzero : n.mantissa = 0
    · exact ⟨hzero, h.scale hzero⟩
    · exact absurd (Int.dvd_of_emod_eq_zero hmod) (h.mantissa hzero)
  · rintro ⟨d, rfl⟩
    constructor
    · intro hzero
      exact (d.lowest (by rw [show d.mantissa = 0 from hzero]; rfl)).2
    · intro hne hdvd
      exact hne (d.lowest (Int.emod_eq_zero_of_dvd hdvd)).1

/-- A mantissa that ten does not divide stays with its scale. -/
theorem scaled_ofScaled
    {m : Int} (hm : m % 10 ≠ 0) (s : Int) :
    (ofScaled m s).scaled = ⟨m, s⟩ :=
  congrArg Decimal.scaled (ofScaled_self ⟨m, s, fun h => absurd h hm⟩)

end LowestTerms

section Parts

/-- Exponents within the limit and counts of 31 bits leave room in 32 bits, and these
in 64 bits with a sign. -/
theorem widths_lt :
    twoPow 31 + maxExponent < twoPow 32 ∧ twoPow 32 < twoPow 63 := by
  decide

theorem int64?_eq_some_iff
    {i j : Int} :
    int64? i = some j ↔ (-twoPow 63 ≤ i ∧ i < twoPow 63) ∧ i = j := by
  unfold int64?
  split
  · rename_i h
    rw [Option.some.injEq, and_iff_right h]
  · rename_i h
    exact iff_of_false nofun fun hj => h hj.1

theorem int64?_eq_some
    {i : Int} (h : i.natAbs < twoPow 63) :
    int64? i = some i :=
  int64?_eq_some_iff.2 ⟨by omega, rfl⟩

/-- A mantissa is one that ten does not divide, times the power of ten of its
zeros. -/
theorem exists_mul_tenPow
    {m : Int} (hm : m ≠ 0) :
    ∃ k : Int, k % 10 ≠ 0 ∧ m = k * tenPow (mantissaZeros m) := by
  have hdigits : ∀ c ∈ Nat.toDigits 10 m.natAbs, c.isDigit = true :=
    fun c hc => isDigit_of_mem_toDigits hc
  have hvalue : digitsValue (trimZeros (Nat.toDigits 10 m.natAbs)) * tenPow (mantissaZeros m) =
      m.natAbs := by
    rw [mantissaZeros, digitsValue_trimZeros, digitsValue, Nat.ofDigitChars_ten_toDigits]
  have hne : trimZeros (Nat.toDigits 10 m.natAbs) ≠ [] := by
    intro hnil
    rw [hnil, digitsValue, Nat.ofDigitChars_nil, Nat.zero_mul] at hvalue
    exact hm (Int.natAbs_eq_zero.1 hvalue.symm)
  have hmod := digitsValue_trimZeros_mod hdigits hne
  refine ⟨m.sign * digitsValue (trimZeros (Nat.toDigits 10 m.natAbs)), ?_, ?_⟩
  · rcases Int.lt_or_gt_of_ne hm with hneg | hpos
    · rw [Int.sign_eq_neg_one_of_neg hneg]
      omega
    · rw [Int.sign_eq_one_of_pos hpos]
      omega
  · rw [Int.mul_assoc, ← Int.natCast_mul, hvalue]
    exact (Int.sign_mul_natAbs m).symm

theorem ten_dvd_of_eq_mul
    {m k : Int} {z : Nat} (hz : z ≠ 0) (h : m = k * tenPow z) :
    10 ∣ m := by
  obtain ⟨z, rfl⟩ := Nat.exists_eq_succ_of_ne_zero hz
  rw [h, tenPow_succ, Int.natCast_mul, ← Int.mul_assoc]
  exact Int.dvd_mul_left _ _

/-- A mantissa that ten does not divide has no zeros to be moved. -/
theorem ofParts?_of_mod_ne_zero
    {m : Int} (hm : m % 10 ≠ 0) (s : Int) :
    ofParts? m s = some ⟨m, s⟩ := by
  have hzero : m ≠ 0 := by
    rintro rfl
    exact hm rfl
  have hzeros : mantissaZeros m = 0 := by
    obtain ⟨k, -, hk⟩ := exists_mul_tenPow hzero
    by_contra hsome
    exact hm (Int.emod_eq_zero_of_dvd (ten_dvd_of_eq_mul hsome hk))
  have hnone : ¬ (0 < mantissaZeros m ∧ mantissaZeros m < twoPow 32) := by omega
  rw [ofParts?, if_neg hzero]
  split
  · rfl
  · exact if_neg hnone

/-- Zeros that are counted in 32 bits are moved to the scale, which gives the
decimal of the same parts. -/
theorem ofParts?_eq
    {m s : Int} (hzeros : mantissaZeros m < twoPow 32)
    (hscale : (s - mantissaZeros m).natAbs < twoPow 63) :
    ofParts? m s = some (ofScaled m s).scaled := by
  by_cases hm : m = 0
  · rw [hm, ofScaled_zero]
    rfl
  · obtain ⟨k, hk, hmantissa⟩ := exists_mul_tenPow hm
    have hdecimal : (ofScaled m s).scaled = ⟨k, s - mantissaZeros m⟩ := by
      have hmove := ofScaled_mul_tenPow k (s - mantissaZeros m) (mantissaZeros m)
      rw [← hmantissa, Int.sub_add_cancel] at hmove
      rw [hmove, scaled_ofScaled hk]
    by_cases hnone : mantissaZeros m = 0
    · rw [hnone, tenPow_zero, Int.natCast_one, Int.mul_one] at hmantissa
      subst hmantissa
      rw [ofParts?_of_mod_ne_zero hk, scaled_ofScaled hk]
    · have hten := ten_dvd_of_eq_mul hnone hmantissa
      have heven : ¬ m % 2 = 1 := by omega
      have hsome : 0 < mantissaZeros m ∧ mantissaZeros m < twoPow 32 := by omega
      have hpos := tenPow_pos (mantissaZeros m)
      have hquotient : m.tdiv (tenPow (mantissaZeros m)) = k :=
        Int.tdiv_eq_of_eq_mul_left (by omega) hmantissa
      rw [ofParts?, if_neg hm, if_neg heven]
      dsimp only
      rw [if_pos hsome, int64?_eq_some hscale, tenPow32_eq hzeros, hquotient, hdecimal]
      rfl

/-- The zeros of an integer are moved to the scale of its decimal. -/
theorem scale_ofInt
    {i : Int} (hi : i ≠ 0) :
    (Decimal.ofInt i).scale = -mantissaZeros i := by
  obtain ⟨k, hk, hmantissa⟩ := exists_mul_tenPow hi
  have hmove := ofScaled_mul_tenPow k (-mantissaZeros i) (mantissaZeros i)
  rw [← hmantissa, Int.add_left_neg] at hmove
  rw [Decimal.ofInt, hmove]
  exact congrArg Scaled.scale (scaled_ofScaled hk (-mantissaZeros i))

/-- An integer is converted to its decimal, or left as it is where its zeros are
too many for 32 bits. -/
theorem ofInt?_outcome
    (i : Int) :
    ofInt? i = some (Decimal.ofInt i).scaled ∨
      (ofInt? i = some ⟨i, 0⟩ ∧ twoPow 32 ≤ mantissaZeros i ∧
        (Decimal.ofInt i).scale ≤ -mantissaZeros i) := by
  rcases Nat.lt_or_ge (mantissaZeros i) (twoPow 32) with hzeros | hzeros
  · left
    have hwidths := widths_lt
    exact ofParts?_eq hzeros (by omega)
  · right
    have hi : i ≠ 0 := by
      rintro rfl
      exact absurd hzeros (by decide)
    have hwidths := widths_lt
    obtain ⟨k, hk, hmantissa⟩ := exists_mul_tenPow hi
    refine ⟨?_, hzeros, Int.le_of_eq (scale_ofInt hi)⟩
    have hten := ten_dvd_of_eq_mul (by omega) hmantissa
    have heven : ¬ i % 2 = 1 := by omega
    have hmany : ¬ (0 < mantissaZeros i ∧ mantissaZeros i < twoPow 32) := by omega
    rw [ofInt?, ofParts?, if_neg hi, if_neg heven]
    exact if_neg hmany

end Parts

section Significands

variable {s : Significand} {exponent : Int}

/-- Without digits but zeros a significand stands for zero. -/
theorem value_of_trimZeros_eq_nil
    (h : trimZeros (s.whole ++ s.fraction) = []) :
    s.value exponent = zero := by
  have hvalue := digitsValue_trimZeros (s.whole ++ s.fraction)
  rw [h, digitsValue, Nat.ofDigitChars_nil, Nat.zero_mul] at hvalue
  have hsigned : signed s.negative 0 = 0 := by
    cases s.negative <;> rfl
  rw [Significand.value, ← hvalue, hsigned, ofScaled_zero]

/-- The zeros at the end of the digits of a significand may be left out. -/
theorem scaled_value_of_trimZeros_ne_nil
    (hs : s.WellFormed) (h : trimZeros (s.whole ++ s.fraction) ≠ []) (exponent : Int) :
    signed s.negative (digitsValue (trimZeros (s.whole ++ s.fraction))) % 10 ≠ 0 ∧
      (s.value exponent).scaled =
        ⟨signed s.negative (digitsValue (trimZeros (s.whole ++ s.fraction))),
          s.fraction.length - zerosAtEnd (s.whole ++ s.fraction) - exponent⟩ := by
  have hdigits : ∀ c ∈ s.whole ++ s.fraction, c.isDigit = true :=
    List.forall_mem_append.2 ⟨hs.whole, hs.fraction⟩
  have hmod := digitsValue_trimZeros_mod hdigits h
  have hsigned :
      signed s.negative (digitsValue (trimZeros (s.whole ++ s.fraction))) % 10 ≠ 0 := by
    unfold signed
    split <;> omega
  refine ⟨hsigned, ?_⟩
  have hplaces : (s.fraction.length : Int) - exponent =
      s.fraction.length - zerosAtEnd (s.whole ++ s.fraction) - exponent +
        zerosAtEnd (s.whole ++ s.fraction) := by omega
  rw [Significand.value, ← digitsValue_trimZeros, signed_mul, hplaces, ofScaled_mul_tenPow,
    scaled_ofScaled hsigned]

/-- What a significand gives is the decimal that it stands for. -/
theorem ofSignificand?_eq_some
    (hs : s.WellFormed) {n : Scaled} (h : ofSignificand? s exponent = some n) :
    n = (s.value exponent).scaled := by
  by_cases hnil : trimZeros (s.whole ++ s.fraction) = []
  · rw [value_of_trimZeros_eq_nil hnil]
    simp only [ofSignificand?, hnil, List.isEmpty_nil, if_true, Option.some.injEq] at h
    exact h.symm
  · obtain ⟨hmod, hvalue⟩ := scaled_value_of_trimZeros_ne_nil hs hnil exponent
    simp only [ofSignificand?, List.isEmpty_iff, hnil, if_false, Option.bind_eq_bind,
      Option.bind_eq_some_iff, int64?_eq_some_iff, ofParts?_of_mod_ne_zero hmod] at h
    obtain ⟨_, ⟨-, rfl⟩, _, ⟨-, rfl⟩, hn⟩ := h
    rw [hvalue]
    exact (Option.some.inj hn).symm

/-- It does so if it has not too many digits and its exponent is within the
limit. -/
theorem ofSignificand?_eq
    (hs : s.WellFormed) (hlength : s.whole.length + s.fraction.length < twoPow 31)
    (hexponent : exponent.natAbs ≤ maxExponent) :
    ofSignificand? s exponent = some (s.value exponent).scaled := by
  by_cases hnil : trimZeros (s.whole ++ s.fraction) = []
  · rw [value_of_trimZeros_eq_nil hnil]
    simp only [ofSignificand?, hnil, List.isEmpty_nil, if_true]
    rfl
  · obtain ⟨hmod, hvalue⟩ := scaled_value_of_trimZeros_ne_nil hs hnil exponent
    have hzeros := zerosAtEnd_le (s.whole ++ s.fraction)
    rw [List.length_append] at hzeros
    have hwidths := widths_lt
    have hplaces := int64?_eq_some
      (i := s.fraction.length - zerosAtEnd (s.whole ++ s.fraction)) (by omega)
    have hscale := int64?_eq_some
      (i := s.fraction.length - zerosAtEnd (s.whole ++ s.fraction) - exponent) (by omega)
    simp only [ofSignificand?, List.isEmpty_iff, hnil, if_false, Option.bind_eq_bind, hplaces,
      hscale, Option.bind_some, ofParts?_of_mod_ne_zero hmod, hvalue]

/-- The scale of what a significand stands for. -/
theorem natAbs_scale_value_le
    (hs : s.WellFormed) (exponent : Int) :
    (s.value exponent).scale.natAbs ≤
      s.whole.length + s.fraction.length + exponent.natAbs := by
  by_cases hnil : trimZeros (s.whole ++ s.fraction) = []
  · rw [value_of_trimZeros_eq_nil hnil]
    exact Nat.zero_le _
  · obtain ⟨-, hvalue⟩ := scaled_value_of_trimZeros_ne_nil hs hnil exponent
    have hscale := congrArg Scaled.scale hvalue
    have hzeros := zerosAtEnd_le (s.whole ++ s.fraction)
    rw [List.length_append] at hzeros
    change (s.value exponent).scale = _ at hscale
    rw [hscale]
    dsimp only
    omega

end Significands

end Scaled
end TypedConfig
