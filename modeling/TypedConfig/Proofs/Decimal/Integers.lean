import TypedConfig.Proofs.Decimal.Comparison
import TypedConfig.Value.Generic

/-!
# Integers among the numbers

A decimal that stands for an integer is the decimal of that integer, so its scale
is not positive.  Hence its integer can be read off the pair, and a machine integer
is given exactly if the number is an integer of the range; numbers that are refused
unexpanded, for the zeros behind their mantissa, are beyond every such range.

The main statement says this of the numbers that are read, and of those converted
from integers, in machine integers: none of the steps leaves the range, and what
becomes machine data as an integer is the exact integer.  Nor is the range left
where such a number is written: different numbers have different texts, and a text is
read back as its number unless the exponent that it writes is beyond the limit.
-/

namespace TypedConfig

namespace Decimal

variable {d : Decimal} {k lower upper : Int}

section Integers

theorem toRat_ofInt
    (k : Int) :
    (ofInt k).toRat = k := by
  rw [ofInt, toRat_ofScaled, neg_zero, zpow_zero, mul_one]

/-- A decimal without a fraction stands for the integer that its mantissa is at
scale zero. -/
theorem cast_mantissaAt_zero
    (h : d.scale ≤ 0) :
    (d.mantissaAt 0 : ℚ) = d.toRat := by
  rw [cast_mantissaAt h, zpow_zero, mul_one]

theorem scale_ofInt_le
    (k : Int) :
    (ofInt k).scale ≤ 0 := by
  by_cases hk : k = 0
  · rw [hk, ofInt, ofScaled_zero]
    exact Int.le_refl 0
  · exact scale_ofScaled_le hk

/-- A decimal with a fraction stands for no integer. -/
theorem scale_le_zero_of_toRat_eq
    (h : d.toRat = k) :
    d.scale ≤ 0 := by
  have hdecimal : d = ofInt k := toRat_injective (h.trans (toRat_ofInt k).symm)
  rw [hdecimal]
  exact scale_ofInt_le k

theorem toInt?_eq_some_iff :
    d.toInt? = some k ↔ d.toRat = k := by
  by_cases hscale : d.scale ≤ 0
  · have hinteger : d.toInt? = some (d.mantissaAt 0) := by
      rw [toInt?, if_pos hscale, mantissaAt, Int.zero_sub]
    rw [hinteger, ← cast_mantissaAt_zero hscale, Option.some.injEq, Int.cast_inj]
  · rw [toInt?, if_neg hscale]
    refine iff_of_false (Option.some_ne_none k).symm ?_
    exact fun h => hscale (scale_le_zero_of_toRat_eq h)

end Integers

section Machine

theorem tenPow_le_natAbs_mul
    {m : Int} (hm : m ≠ 0) {a b : Nat} (h : a ≤ b) :
    tenPow a ≤ (m * tenPow b).natAbs := by
  obtain ⟨c, rfl⟩ := Nat.exists_eq_add_of_le h
  have hpos : 0 < m.natAbs * tenPow c := Nat.mul_pos (Int.natAbs_pos.2 hm) (tenPow_pos c)
  calc tenPow a ≤ tenPow a * (m.natAbs * tenPow c) := Nat.le_mul_of_pos_right _ hpos
    _ = m.natAbs * (tenPow a * tenPow c) := Nat.mul_left_comm _ _ _
    _ = (m * tenPow (a + c)).natAbs := by
        rw [← tenPow_add, Int.natAbs_mul, Int.natAbs_natCast]

/-- A number with too many zeros to be looked at is not between two bounds of
fewer digits. -/
theorem not_within_of_zeros
    (hlower : -tenPow 21 < lower) (hupper : upper < tenPow 21)
    (hzeros : maxMachineZeros < -d.scale) (h : d.toInt? = some k) :
    ¬ (lower ≤ k ∧ k ≤ upper) := by
  have hlimit : maxMachineZeros = 20 := rfl
  have hm : d.mantissa ≠ 0 := by
    intro hzero
    have hscale := (d.lowest (by rw [hzero]; rfl)).2
    omega
  have hsize := tenPow_le_natAbs_mul hm (show 21 ≤ (-d.scale).toNat by omega)
  rw [toInt?, if_pos (by omega), Option.some.injEq] at h
  rw [h] at hsize
  omega

theorem toIntWithin?_eq_some_iff
    (hlower : -tenPow 21 < lower) (hupper : upper < tenPow 21) :
    d.toIntWithin? lower upper = some k ↔ d.toRat = k ∧ lower ≤ k ∧ k ≤ upper := by
  rw [← toInt?_eq_some_iff, toIntWithin?]
  by_cases hzeros : maxMachineZeros < -d.scale
  · rw [if_pos hzeros]
    refine iff_of_false (Option.some_ne_none k).symm ?_
    rintro ⟨h, hwithin⟩
    exact not_within_of_zeros hlower hupper hzeros h hwithin
  · rw [if_neg hzeros, Option.filter_eq_some_iff, Bool.and_eq_true, decide_eq_true_iff,
      decide_eq_true_iff]

theorem toInt64?_eq_some_iff :
    d.toInt64? = some k ↔ d.toRat = k ∧ -twoPow 63 ≤ k ∧ k ≤ twoPow 63 - 1 :=
  toIntWithin?_eq_some_iff (by decide) (by decide)

theorem toUInt64?_eq_some_iff :
    d.toUInt64? = some k ↔ d.toRat = k ∧ 0 ≤ k ∧ k ≤ twoPow 64 - 1 :=
  toIntWithin?_eq_some_iff (by decide) (by decide)

theorem toMachineData_eq_integer_iff_toInt :
    d.toMachineData = .integer k ↔
      d.toInt64? = some k ∨ (d.toInt64? = none ∧ d.toUInt64? = some k) := by
  unfold toMachineData
  cases d.toInt64? with
  | some i => simp
  | none =>
      cases d.toUInt64? with
      | some i => simp
      | none =>
          dsimp only
          split <;> simp

/-- A number becomes an integer of machine data exactly if it is one of either
range of 64 bits, and then that very integer. -/
theorem toMachineData_eq_integer_iff :
    d.toMachineData = .integer k ↔ d.toRat = k ∧ -twoPow 63 ≤ k ∧ k ≤ twoPow 64 - 1 := by
  have hwidths : (0 : Int) ≤ twoPow 63 ∧ (twoPow 63 : Int) ≤ twoPow 64 := by decide
  rw [toMachineData_eq_integer_iff_toInt, toInt64?_eq_some_iff, toUInt64?_eq_some_iff]
  constructor
  · rintro (⟨hvalue, hbounds⟩ | ⟨-, hvalue, hbounds⟩)
    · exact ⟨hvalue, by omega⟩
    · exact ⟨hvalue, by omega⟩
  · rintro ⟨hvalue, hleast, hgreatest⟩
    by_cases hsigned : k ≤ twoPow 63 - 1
    · exact Or.inl ⟨hvalue, hleast, hsigned⟩
    · -- Beyond the signed integers there is no other integer that the number is.
      refine Or.inr ⟨Option.eq_none_iff_forall_ne_some.2 ?_, hvalue, by omega, hgreatest⟩
      intro i hi
      obtain ⟨hother, -, hi⟩ := toInt64?_eq_some_iff.1 hi
      rw [hvalue, Int.cast_inj] at hother
      exact hsigned (hother ▸ hi)

end Machine

end Decimal

namespace Scaled

open Decimal

section Sources

/-- Whether a text has fewer than 2 ^ 31 digits. -/
def FewDigitsIn (text : String) : Prop :=
  text.toList.countP Char.isDigit < twoPow 31

/-- Whether a number is read from a text, or converted from an integer, of fewer
than 2 ^ 31 digits. -/
inductive FromFewDigits : Scaled → Prop
  | read
      {n : Scaled}
      (text : String)
      (hfew : FewDigitsIn text)
      (h : parse? text = some (.ok n)) :
      FromFewDigits n
  | converted
      {n : Scaled}
      (i : Int)
      (hfew : FewDigits i)
      (h : ofInt? i = some n) :
      FromFewDigits n

/-- The digits of a numeral before its exponent are digits of a text that holds
it. -/
theorem length_digits_le_countP
    {n : Numeral} (hn : n.WellFormed) {text : String} (htext : Text.Encloses text n.chars) :
    n.whole.length + n.fractionDigits.length ≤ text.toList.countP Char.isDigit := by
  have hfraction : n.fractionDigits.Sublist (pointChars n.fraction) := by
    unfold Numeral.fractionDigits
    cases n.fraction with
    | none => exact List.nil_sublist _
    | some digits => exact List.sublist_cons_self _ _
  have hchars : (n.whole ++ n.fractionDigits).Sublist n.chars :=
    ((hfraction.append_left n.whole).trans (List.sublist_append_right _ _)).trans
      (List.sublist_append_left _ _)
  obtain ⟨before, after, -, -, hsplit⟩ := htext
  have hsub : (n.whole ++ n.fractionDigits).Sublist text.toList := by
    rw [hsplit]
    exact (hchars.trans (List.sublist_append_right _ _)).trans (List.sublist_append_left _ _)
  have hdigits : ∀ c ∈ n.whole ++ n.fractionDigits, c.isDigit = true :=
    List.forall_mem_append.2 ⟨hn.whole, hn.fraction⟩
  rw [← List.length_append, ← List.countP_eq_length.2 hdigits]
  exact hsub.countP_le

/-- The scale of a number that is read is bounded by the digits of the text. -/
theorem natAbs_scale_le_of_parse
    {text : String} {d : Decimal} (h : Decimal.parse text = .ok d) :
    d.scale.natAbs ≤ text.toList.countP Char.isDigit + maxExponent := by
  rcases parse_outcome text with ⟨n, hn, htrim, -⟩ | ⟨-, hparse⟩ | hparse
  · have htext := (Text.trim_eq_iff_encloses (Numeral.isBlank_chars hn)).1 htrim
    obtain ⟨hlimit, rfl⟩ := (Numeral.parse_eq_ok_iff hn htext).1 h
    have hscale := natAbs_scale_value_le (s := n.significand)
      ⟨hn.whole, hn.fraction, hn.nonempty⟩ n.exponentValue
    have hdigits := length_digits_le_countP hn htext
    change _ ≤ n.whole.length + n.fractionDigits.length + n.exponentValue.natAbs at hscale
    omega
  · rw [h] at hparse
    cases hparse
  · rw [h] at hparse
    cases hparse

/-- The scale of an integer is bounded by its digits. -/
theorem natAbs_scale_ofInt_le
    (i : Int) :
    (Decimal.ofInt i).scale.natAbs ≤ mantissaZeros i := by
  by_cases hi : i = 0
  · rw [hi, Decimal.ofInt, ofScaled_zero]
    exact Nat.zero_le _
  · rw [scale_ofInt hi]
    omega

/-- A number of few digits is a decimal, whose scale is far from the ends of the
range. -/
theorem FromFewDigits.exists_decimal
    {n : Scaled} (h : FromFewDigits n) :
    ∃ d : Decimal, d.scaled = n ∧ d.scale.natAbs < twoPow 31 + maxExponent := by
  cases h with
  | read text hfew h =>
      obtain ⟨d, hparse, rfl⟩ := exists_parse_of_parse? h
      have hscale := natAbs_scale_le_of_parse hparse
      have hdigits : text.toList.countP Char.isDigit < twoPow 31 := hfew
      exact ⟨d, rfl, by omega⟩
  | converted i hfew h =>
      have hzeros : mantissaZeros i ≤ (Nat.toDigits 10 i.natAbs).length := zerosAtEnd_le _
      have hdigits : (Nat.toDigits 10 i.natAbs).length < twoPow 31 := hfew
      have hscale := natAbs_scale_ofInt_le i
      have hwidths := widths_lt
      rcases ofInt?_outcome i with hdecimal | ⟨-, hmany, -⟩
      · rw [hdecimal, Option.some.injEq] at h
        exact ⟨_, h, by omega⟩
      · omega

end Sources

section Texts

/-- A number of few digits is written as the decimal that it is. -/
theorem FromFewDigits.exists_canonical
    {n : Scaled} (h : FromFewDigits n) :
    ∃ d : Decimal, d.scaled = n ∧ d.scale.natAbs < twoPow 31 + maxExponent ∧
      n.canonical? = some d.canonical := by
  obtain ⟨d, rfl, hscale⟩ := h.exists_decimal
  have hwidths := widths_lt
  exact ⟨d, rfl, hscale, canonical?_scaled (int64?_eq_some (by omega))⟩

/-- The text of a number of few digits is written without leaving the range, and is
a number of the JSON grammar; it is the text of no other such number, and is read as
no other number.  If it is not too long, it is read back as the number, or refused
where the exponent that it writes is beyond the limit. -/
theorem canonical?_readBack
    (n : Scaled) (hn : FromFewDigits n) :
    ∃ d : Decimal, d.scaled = n ∧ n.canonical? = some d.canonical ∧
      (∃ m : Numeral, m.IsJson ∧ m.chars = d.canonical.toList) ∧
      (∀ k, FromFewDigits k → k.canonical? = n.canonical? → k = n) ∧
      (∀ k, parse? d.canonical = some (.ok k) → k = n) ∧
      (d.canonical.length < twoPow 31 →
        parse? d.canonical =
          some (if d.ExponentWithinLimit then .ok n else .error (.invalid d.canonical))) := by
  obtain ⟨d, rfl, hscale, hd⟩ := hn.exists_canonical
  obtain ⟨m, hm, hchars, -⟩ := d.exists_numeral_canonical
  refine ⟨d, rfl, hd, ⟨m, hm, hchars⟩, ?_, ?_, ?_⟩
  · intro k hk htext
    obtain ⟨e, rfl, -, he⟩ := hk.exists_canonical
    rw [hd, he, Option.some.injEq] at htext
    rw [canonical_injective htext]
  · intro k hk
    obtain ⟨e, hparse, rfl⟩ := exists_parse_of_parse? hk
    rw [(d.parse_canonical_eq_ok_iff.1 hparse).2]
  · intro hlength
    have hwidths := widths_lt
    have hparse := d.parse_canonical (by omega)
    have hleast : Decimal.parse d.canonical ≠ .error (.overflow d.canonical) := by
      rw [hparse]
      split
      · exact nofun
      · exact nofun
    rw [parse?_eq_map hlength hleast, hparse]
    split
    · rfl
    · rfl

end Texts

section Accessors

/-- Numbers of fewer than 2 ^ 31 digits give an integer exactly if they stand for
it, and one of 64 bits, with a sign or without, exactly if it is in that range; no
step leaves the range of the machine.  Machine data receives an integer exactly
where the number is one of either range, and then that integer. -/
theorem integerAccessors_exact
    (n : Scaled) (hn : FromFewDigits n) :
    (∃ i, n.toInt? = some i ∧ ∀ k, i = some k ↔ n.toRat = k) ∧
      (∃ i, n.toInt64? = some i ∧
        ∀ k, i = some k ↔ n.toRat = k ∧ -twoPow 63 ≤ k ∧ k ≤ twoPow 63 - 1) ∧
      (∃ i, n.toUInt64? = some i ∧
        ∀ k, i = some k ↔ n.toRat = k ∧ 0 ≤ k ∧ k ≤ twoPow 64 - 1) ∧
      ∃ d : Decimal, d.scaled = n ∧
        ∀ k, d.toMachineData = .integer k ↔
          n.toRat = k ∧ -twoPow 63 ≤ k ∧ k ≤ twoPow 64 - 1 := by
  obtain ⟨d, rfl, hscale⟩ := hn.exists_decimal
  have hwidths := widths_lt
  have hnegated : int64? (-d.scale) = some (-d.scale) := int64?_eq_some (by omega)
  have hzeros : -d.scale < twoPow 32 := by omega
  refine ⟨⟨_, toInt?_scaled hnegated hzeros, fun k => toInt?_eq_some_iff⟩,
    ⟨_, toIntWithin?_scaled hnegated hzeros _ _, fun k => toInt64?_eq_some_iff⟩,
    ⟨_, toIntWithin?_scaled hnegated hzeros _ _, fun k => toUInt64?_eq_some_iff⟩,
    d, rfl, fun k => toMachineData_eq_integer_iff⟩

/-- The greatest unsigned integer is no signed one, and is received as it is. -/
theorem integerAccessors_exact_greatest :
    FewDigits 18446744073709551615 ∧
      ofInt? 18446744073709551615 = some ⟨18446744073709551615, 0⟩ ∧
      (⟨18446744073709551615, 0⟩ : Scaled).toInt64? = some none ∧
      (⟨18446744073709551615, 0⟩ : Scaled).toUInt64? = some (some 18446744073709551615) ∧
      ∃ d : Decimal, d.scaled = ⟨18446744073709551615, 0⟩ ∧
        d.toMachineData = .integer 18446744073709551615 := by
  have hfew : FewDigits 18446744073709551615 := by
    unfold FewDigits
    decide +kernel
  have hconverted : ofInt? 18446744073709551615 = some ⟨18446744073709551615, 0⟩ := by
    decide +kernel
  have hvalue : (⟨18446744073709551615, 0⟩ : Scaled).toRat = (18446744073709551615 : Int) := by
    rw [toRat, neg_zero, zpow_zero, mul_one]
  obtain ⟨-, ⟨i, hi, hsigned⟩, ⟨j, hj, hunsigned⟩, d, hd, hdata⟩ :=
    integerAccessors_exact _ (.converted _ hfew hconverted)
  refine ⟨hfew, hconverted, ?_, ?_, d, hd, ?_⟩
  · rw [hi]
    cases i with
    | none => rfl
    | some k =>
        obtain ⟨hk, -, hgreatest⟩ := (hsigned k).1 rfl
        rw [hvalue, Int.cast_inj] at hk
        subst hk
        exact absurd hgreatest (by decide)
  · rw [hj, (hunsigned 18446744073709551615).2 ⟨hvalue, by decide, by decide⟩]
  · exact (hdata 18446744073709551615).2 ⟨hvalue, by decide, by decide⟩

end Accessors

end Scaled
end TypedConfig
