import Mathlib.Tactic.FieldSimp
import TypedConfig.Proofs.Decimal.Rational

/-!
# What number literals stand for

A numeral stands for what is written: its whole digits and the digits behind the
point with their places, times the power of ten of its exponent.

The main statement says that a text is read as a decimal exactly if it is a
numeral between blanks whose exponent is within the limit, and then as the
decimal that stands for the same number.  Every other text is refused, and its
error quotes it.
-/

namespace TypedConfig
namespace Decimal

section Value

/-- The number that is written. -/
def Numeral.value (n : Numeral) : ℚ :=
  n.sign.factor *
    (digitsValue n.whole + digitsValue n.fractionDigits / 10 ^ n.fractionDigits.length) *
    10 ^ n.exponentValue

theorem digitsValue_append
    (whole fraction : List Char) :
    digitsValue (whole ++ fraction) =
      tenPow fraction.length * digitsValue whole + digitsValue fraction := by
  rw [digitsValue, Nat.ofDigitChars_append, Nat.ofDigitChars_eq_ofDigitChars_zero]
  rfl

/-- The decimal of the parts of a numeral stands for the number that is
written. -/
theorem Numeral.toRat_significand_value
    (n : Numeral) :
    (n.significand.value n.exponentValue).toRat = n.value := by
  have hplaces : -((n.fractionDigits.length : Int) - n.exponentValue) =
      n.exponentValue - n.fractionDigits.length := by omega
  have hpow : (10 : ℚ) ^ n.fractionDigits.length ≠ 0 := pow_ne_zero _ ten_ne_zero
  rw [Significand.value, toRat_ofScaled, significand, ← Sign.factor_mul, digitsValue_append,
    hplaces, zpow_sub₀ ten_ne_zero, zpow_natCast, value]
  push_cast
  rw [cast_tenPow]
  field_simp

end Value

section Denotation

variable {text : String}

/-- Whether a text is a numeral between blanks, with an exponent within the
limit, that stands for a number. -/
def Denotes (text : String) (q : ℚ) : Prop :=
  ∃ n : Numeral, n.WellFormed ∧ Text.Encloses text n.chars ∧
    n.exponentValue.natAbs ≤ maxExponent ∧ n.value = q

theorem parse_eq_ok_iff_denotes
    {d : Decimal} :
    parse text = .ok d ↔ Denotes text d.toRat := by
  constructor
  · intro h
    rcases parse_outcome text with ⟨n, hn, htrim, hparse⟩ | ⟨-, hparse⟩ | hparse
    · have htext := (Text.trim_eq_iff_encloses (Numeral.isBlank_chars hn)).1 htrim
      obtain ⟨hlimit, -⟩ := (Numeral.parse_eq_ok_iff hn htext).1 hparse
      rw [h, Except.ok.injEq] at hparse
      exact ⟨n, hn, htext, hlimit, by rw [hparse, n.toRat_significand_value]⟩
    · rw [h] at hparse
      cases hparse
    · rw [h] at hparse
      cases hparse
  · rintro ⟨n, hn, htext, hlimit, hvalue⟩
    rw [← n.toRat_significand_value] at hvalue
    exact (Numeral.parse_eq_ok_iff hn htext).2 ⟨hlimit, toRat_injective hvalue⟩

/-- A text that stands for a number is read. -/
theorem Denotes.exists_parse_eq_ok
    {q : ℚ} (h : Denotes text q) :
    ∃ d, parse text = .ok d := by
  obtain ⟨n, hn, htext, hlimit, -⟩ := h
  exact ⟨_, (Numeral.parse_eq_ok_iff hn htext).2 ⟨hlimit, rfl⟩⟩

/-- A text is read exactly if it is a numeral between blanks whose exponent is
within the limit, and then as the decimal that stands for the same number.
Every other text is refused and quoted, but nothing is returned where the exponent
is the least 64-bit integer. -/
theorem parse_reads_exactly_numerals
    (text : String) :
    (∀ d, parse text = .ok d ↔ Denotes text d.toRat) ∧
      (parse text = .error (.invalid text) ↔
        ¬ (∃ q, Denotes text q) ∧ ¬ HasLeastExponent text) ∧
      (parse text = .error (.overflow text) ↔ HasLeastExponent text) := by
  refine ⟨fun d => parse_eq_ok_iff_denotes, ?_, ?_⟩
  · constructor
    · intro h
      constructor
      · rintro ⟨q, hq⟩
        obtain ⟨d, hd⟩ := hq.exists_parse_eq_ok
        rw [h] at hd
        cases hd
      · intro hleast
        have hoverflow := parse_of_hasLeastExponent hleast
        rw [h] at hoverflow
        cases hoverflow
    · rintro ⟨hnumber, hleast⟩
      rcases parse_outcome text with ⟨n, -, -, hparse⟩ | ⟨hexponent, -⟩ | hparse
      · exact absurd ⟨_, parse_eq_ok_iff_denotes.1 hparse⟩ hnumber
      · exact absurd hexponent hleast
      · exact hparse
  · exact parse_eq_overflow_iff

end Denotation

end Decimal
end TypedConfig
