import Mathlib.Data.List.Basic
import TypedConfig.Decimal.Order
import TypedConfig.Proofs.Decimal.Numeral
import TypedConfig.Value.Generic

/-!
# Canonical texts read back

The canonical text of a decimal is a significand, with an exponent where the
zeros would be too many to be written out, and stands for that decimal.  So it
is read back as the same decimal exactly if the exponent that it writes is
within the limit of literals; beyond the limit it is not read at all.  The same
holds of the literal of a decimal in JSON.
-/

namespace TypedConfig
namespace Decimal

section Scaling

/-- Decimals that are equal at any common scale are equal. -/
theorem eq_of_mantissaAt_eq_mantissaAt
    {a b : Decimal} {scale : Int} (ha : a.scale ≤ scale) (hb : b.scale ≤ scale)
    (h : a.mantissaAt scale = b.mantissaAt scale) :
    a = b := by
  refine Std.LawfulEqOrd.eq_of_compare (α := Decimal) ?_
  rw [compare_eq_compare_mantissaAt ha hb, h]
  exact Std.ReflOrd.compare_self

theorem scale_ofScaled_le
    {m s : Int} (hm : m ≠ 0) :
    (ofScaled m s).scale ≤ s := by
  rw [scale_ofScaled hm]
  omega

theorem tenPow_add
    (i j : Nat) :
    tenPow (i + j) = tenPow i * tenPow j :=
  Nat.pow_add 10 i j

/-- What is made of a mantissa and a scale has that mantissa at that scale. -/
theorem mantissaAt_ofScaled
    {m s : Int} (hm : m ≠ 0) (k : Nat) :
    (ofScaled m s).mantissaAt (s + k) = m * tenPow k := by
  have hzeros : (s + k - (s - trailingZeros m.natAbs)).toNat =
      trailingZeros m.natAbs + k := by omega
  rw [mantissaAt, scale_ofScaled hm, hzeros, tenPow_add, Int.natCast_mul, ← Int.mul_assoc,
    mantissa_ofScaled]

/-- Zeros may be moved between the mantissa and the scale. -/
theorem ofScaled_mul_tenPow
    (m s : Int) (k : Nat) :
    ofScaled (m * tenPow k) (s + k) = ofScaled m s := by
  by_cases hm : m = 0
  · simp [hm]
  · have hpos := tenPow_pos k
    have hmk : m * tenPow k ≠ 0 := Int.mul_ne_zero hm (by omega)
    have hle := scale_ofScaled_le (s := s + k) hmk
    have hle' := scale_ofScaled_le (s := s) hm
    refine eq_of_mantissaAt_eq_mantissaAt hle (by omega) ?_
    have hself := mantissaAt_ofScaled (s := s + k) hmk 0
    rw [mantissaAt_ofScaled hm k]
    simpa using hself

end Scaling

/-- Whether the exponent that the canonical text of a decimal writes, if it
writes one, is within the limit of literals. -/
def ExponentWithinLimit (d : Decimal) : Prop :=
  -d.scale ≤ maxExponent ∧
    (d.scale ≤ maxExponent ∨ d.scale ≤ maxPlainZeros + d.digits.length)

instance (d : Decimal) : Decidable d.ExponentWithinLimit :=
  inferInstanceAs (Decidable (_ ∧ _))

/-- Zeros behind digits multiply what they write by a power of ten. -/
theorem digitsValue_append_zeros
    (digits : List Char) (zeros : Nat) :
    digitsValue (digits ++ List.replicate zeros '0') = digitsValue digits * tenPow zeros := by
  rw [digitsValue, Nat.ofDigitChars_append, Nat.ofDigitChars_replicate_zero, Nat.mul_comm]
  rfl

section Layout

variable (d : Decimal)

theorem digitsValue_digits :
    digitsValue d.digits = d.mantissa.natAbs :=
  Nat.ofDigitChars_ten_toDigits

theorem signed_natAbs :
    signed d.isNegative d.mantissa.natAbs = d.mantissa := by
  unfold signed isNegative
  by_cases hneg : d.mantissa < 0
  · rw [if_pos (decide_eq_true hneg)]
    omega
  · rw [if_neg (ne_true_of_eq_false (decide_eq_false hneg))]
    omega

variable {d} in
/-- A significand of the digits of a decimal, and any zeros before them, stands
for that decimal if its places are made up for by the exponent. -/
theorem value_of_digits
    {s : Significand} (hsign : s.negative = d.isNegative)
    (hdigits : digitsValue (s.whole ++ s.fraction) = d.mantissa.natAbs) {e : Int}
    (hscale : s.fraction.length - e = d.scale) :
    s.value e = d := by
  rw [Significand.value, hsign, hdigits, signed_natAbs, hscale, ofScaled_self]

theorem signed_mul
    (negative : Bool) (n k : Nat) :
    signed negative (n * k) = signed negative n * k := by
  unfold signed
  split
  · exact (Int.neg_mul n k).symm
  · rfl

theorem digitsValue_zeros_append
    (zeros : Nat) :
    digitsValue (List.replicate zeros '0' ++ d.digits) = d.mantissa.natAbs := by
  rw [digitsValue, Nat.ofDigitChars_append, Nat.ofDigitChars_replicate_zero, Nat.mul_zero]
  exact d.digitsValue_digits

/-- How a decimal is written: by a significand that stands for it, and behind
that an exponent, which makes up for all places, if the zeros are too many. -/
inductive Layout : Significand → Option Int → Prop where
  | plain {s : Significand} (hs : s.WellFormed) (hvalue : s.value 0 = d)
      (hlimit : d.ExponentWithinLimit) : Layout s none
  | exponent {s : Significand} (hs : s.WellFormed) (hvalue : s.value (-d.scale) = d)
      (hlimit : d.ExponentWithinLimit ↔ (-d.scale).natAbs ≤ maxExponent) :
      Layout s (some (-d.scale))

/-- The characters of an exponent, which has a plus if signs are not left out. -/
def exponentChars (withPlus : Bool) : Option Int → List Char
  | none => []
  | some e =>
      'e' ::
        if e < 0 then '-' :: Nat.toDigits 10 e.natAbs
        else if withPlus then '+' :: Nat.toDigits 10 e.natAbs
        else Nat.toDigits 10 e.natAbs

theorem isDigit_of_mem_toDigits
    {n : Nat} {c : Char} (hc : c ∈ Nat.toDigits 10 n) :
    c.isDigit = true :=
  Nat.isDigit_of_mem_toDigits (by decide) (by decide) hc

theorem exists_exponent
    (withPlus : Bool) (e : Int) :
    ∃ x : Numeral.Exponent, x.WellFormed ∧ x.value = e ∧
      exponentChars withPlus (some e) = x.chars := by
  have hdigits : IsDigits (Nat.toDigits 10 e.natAbs) :=
    ⟨Nat.toDigits_ne_nil, fun c hc => isDigit_of_mem_toDigits hc⟩
  have hvalue : ∀ sign : Sign, sign.factor * e.natAbs = e →
      (⟨'e', sign, Nat.toDigits 10 e.natAbs⟩ : Numeral.Exponent).value = e := by
    intro sign hsign
    rwa [Numeral.Exponent.value, digitsValue, Nat.ofDigitChars_ten_toDigits]
  rcases Int.lt_or_le e 0 with h | h
  · refine ⟨⟨'e', .minus, Nat.toDigits 10 e.natAbs⟩, ⟨Or.inl rfl, hdigits⟩, hvalue _ ?_, ?_⟩
    · rw [Sign.factor]
      omega
    · rw [exponentChars, if_pos h]
      rfl
  · have hsign : 1 * (e.natAbs : Int) = e := by omega
    have hnot : ¬ e < 0 := Int.not_lt.2 h
    cases withPlus with
    | false =>
        refine ⟨⟨'e', .absent, Nat.toDigits 10 e.natAbs⟩, ⟨Or.inl rfl, hdigits⟩,
          hvalue _ hsign, ?_⟩
        rw [exponentChars, if_neg hnot]
        rfl
    | true =>
        refine ⟨⟨'e', .plus, Nat.toDigits 10 e.natAbs⟩, ⟨Or.inl rfl, hdigits⟩, hvalue _ hsign, ?_⟩
        rw [exponentChars, if_neg hnot]
        rfl

variable {d} in
theorem Layout.wellFormed
    {s : Significand} {e : Option Int} (h : d.Layout s e) :
    s.WellFormed := by
  cases h with
  | plain hs => exact hs
  | exponent hs => exact hs

variable {d} in
/-- What is written in a layout of a decimal is a numeral with that decimal's
parts, whose exponent is within the limit as that of the decimal is.  The exponent
is none, or makes up for all places. -/
theorem Layout.exists_exponent
    {s : Significand} {e : Option Int} (h : d.Layout s e) (withPlus : Bool) :
    ∃ x : Option Numeral.Exponent, (∀ y ∈ x, y.WellFormed) ∧
      s.chars ++ exponentChars withPlus e = (s.numeral x).chars ∧
        s.value (s.numeral x).exponentValue = d ∧
          ((s.numeral x).exponentValue = 0 ∨ (s.numeral x).exponentValue = -d.scale) ∧
            ((s.numeral x).exponentValue.natAbs ≤ maxExponent ↔ d.ExponentWithinLimit) := by
  cases h with
  | plain hs hvalue hlimit =>
      have hzero : (0 : Int).natAbs ≤ maxExponent := by decide
      refine ⟨none, nofun, ?_, hvalue, Or.inl rfl, iff_of_true hzero hlimit⟩
      rw [Numeral.chars, s.significandChars_numeral]
      rfl
  | exponent hs hvalue hlimit =>
      obtain ⟨x, hx, hscale, hchars⟩ := Decimal.exists_exponent withPlus (-d.scale)
      have hexponent : (s.numeral (some x)).exponentValue = -d.scale := hscale
      rw [← hexponent] at hvalue hlimit
      refine ⟨some x, ?_, ?_, hvalue, Or.inr hexponent, hlimit.symm⟩
      · rintro y ⟨⟩
        exact hx
      · rw [Numeral.chars, s.significandChars_numeral, hchars]
        rfl

variable {d} in
/-- What is written in a layout of a decimal is read as that decimal exactly if
the exponent is within the limit, and otherwise not read. -/
theorem Layout.parse_eq_ok_iff
    {s : Significand} {e : Option Int} (h : d.Layout s e) (withPlus : Bool) {result : Decimal} :
    parse (String.ofList (s.chars ++ exponentChars withPlus e)) = .ok result ↔
      d.ExponentWithinLimit ∧ d = result := by
  obtain ⟨x, hx, hchars, hvalue, -, hlimit⟩ := h.exists_exponent withPlus
  have htext : Text.Encloses (String.ofList (s.numeral x).chars) (s.numeral x).chars :=
    ⟨[], [], nofun, nofun, by simp⟩
  rw [hchars, Numeral.parse_eq_ok_iff (h.wellFormed.numeral hx) htext, s.significand_numeral,
    hvalue, hlimit]

theorem isDigit_of_mem_zeros
    {zeros : Nat} {c : Char} (hc : c ∈ List.replicate zeros '0') :
    c.isDigit = true := by
  rw [List.eq_of_mem_replicate hc]
  rfl

theorem wellFormed_of_digits
    (negative : Bool) (zeros : Nat) :
    (⟨negative, d.digits ++ List.replicate zeros '0', []⟩ : Significand).WellFormed := by
  refine ⟨List.forall_mem_append.2 ⟨?_, ?_⟩, List.forall_mem_nil _, Or.inl ?_⟩
  · exact fun c hc => isDigit_of_mem_digits hc
  · exact fun c hc => isDigit_of_mem_zeros hc
  · exact List.append_ne_nil_of_left_ne_nil d.digits_ne_nil _

variable {d}

/-- Digits with zeros behind them, the exponent being none. -/
theorem layout_zeros
    (hscale : d.scale ≤ 0) (hlimit : d.ExponentWithinLimit) :
    d.Layout ⟨d.isNegative, d.digits ++ List.replicate (-d.scale).toNat '0', []⟩ none := by
  refine .plain (wellFormed_of_digits _ _ _) ?_ hlimit
  have hplaces : (([] : List Char).length : Int) - 0 = d.scale + (-d.scale).toNat := by
    rw [List.length_nil]
    omega
  rw [Significand.value, List.append_nil, digitsValue_append_zeros, digitsValue_digits, signed_mul,
    signed_natAbs, hplaces, ofScaled_mul_tenPow, ofScaled_self]

/-- Digits with an exponent that makes up for all places. -/
theorem layout_exponent
    (hlimit : d.ExponentWithinLimit ↔ (-d.scale).natAbs ≤ maxExponent) :
    d.Layout ⟨d.isNegative, d.digits, []⟩ (some (-d.scale)) := by
  refine .exponent ?_ (value_of_digits rfl ?_ ?_) hlimit
  · simpa using d.wellFormed_of_digits d.isNegative 0
  · rw [List.append_nil, digitsValue_digits]
  · simp

/-- Digits with the point among them. -/
theorem layout_point
    (hscale : 0 < d.scale) (hplaces : d.scale.toNat < d.digits.length)
    (hlimit : d.ExponentWithinLimit) :
    d.Layout ⟨d.isNegative, d.digits.take (d.digits.length - d.scale.toNat),
      d.digits.drop (d.digits.length - d.scale.toNat)⟩ none := by
  refine .plain ⟨?_, ?_, ?_⟩ (value_of_digits rfl ?_ ?_) hlimit
  · exact fun c hc => isDigit_of_mem_digits (List.mem_of_mem_take hc)
  · exact fun c hc => isDigit_of_mem_digits (List.mem_of_mem_drop hc)
  · right
    rw [Ne, List.drop_eq_nil_iff]
    omega
  · rw [List.take_append_drop, digitsValue_digits]
  · rw [List.length_drop]
    omega

/-- Digits behind a zero, the point and as many zeros as there are places
before them. -/
theorem layout_leading
    (hplaces : (d.digits.length : Int) ≤ d.scale) (hlimit : d.ExponentWithinLimit) :
    d.Layout ⟨d.isNegative, ['0'],
      List.replicate (d.scale.toNat - d.digits.length) '0' ++ d.digits⟩ none := by
  refine .plain ⟨?_, ?_, ?_⟩ (value_of_digits rfl ?_ ?_) hlimit
  · exact List.forall_mem_singleton.2 rfl
  · refine List.forall_mem_append.2 ⟨?_, ?_⟩
    · exact fun c hc => isDigit_of_mem_zeros hc
    · exact fun c hc => isDigit_of_mem_digits hc
  · exact Or.inl (by simp)
  · exact d.digitsValue_zeros_append (d.scale.toNat - d.digits.length + 1)
  · rw [List.length_append, List.length_replicate]
    omega

end Layout

section LeadingDigit

/-- The digits of a number do not start with a zero. -/
theorem head?_toDigits
    {n : Nat} (h : 0 < n) :
    (Nat.toDigits 10 n).head? ≠ some '0' := by
  induction n using Nat.strongRecOn with
  | ind n ih =>
      by_cases hsmall : n < 10
      · have hdigit : ∀ k < 10, 0 < k → k.digitChar ≠ '0' := by decide
        rw [Nat.toDigits_of_lt_base hsmall, List.head?_cons]
        exact fun heq => hdigit n hsmall h (Option.some.inj heq)
      · rw [Nat.toDigits_of_base_le (by decide) (Nat.not_lt.1 hsmall),
          List.head?_append_of_ne_nil _ Nat.toDigits_ne_nil]
        exact ih (n / 10) (by omega) (by omega)

/-- Only the digits of zero start with a zero. -/
theorem eq_zero_of_head?_digits
    {d : Decimal} (h : d.digits.head? = some '0') :
    d = zero := by
  have hmantissa : d.mantissa = 0 := by
    by_contra hne
    exact head?_toDigits (Int.natAbs_pos.2 hne) h
  have hscale := (d.lowest (by rw [hmantissa]; rfl)).2
  exact ext_iff.2 ⟨hmantissa, hscale⟩

/-- Whether a significand starts with a digit, and with a zero only if nothing
else stands before its point. -/
structure Significand.StartsPlainly (s : Significand) : Prop where
  whole : s.whole ≠ []
  leading : s.whole.head? = some '0' → s.whole = ['0']

variable {d : Decimal}

theorem startsPlainly_zeros :
    (⟨d.isNegative, d.digits ++ List.replicate (-d.scale).toNat '0', []⟩ :
      Significand).StartsPlainly := by
  refine ⟨List.append_ne_nil_of_left_ne_nil d.digits_ne_nil _, ?_⟩
  dsimp only
  rw [List.head?_append_of_ne_nil _ d.digits_ne_nil]
  intro h
  rw [eq_zero_of_head?_digits h]
  rfl

theorem startsPlainly_digits :
    (⟨d.isNegative, d.digits, []⟩ : Significand).StartsPlainly := by
  refine ⟨d.digits_ne_nil, ?_⟩
  intro h
  rw [eq_zero_of_head?_digits h]
  rfl

theorem startsPlainly_point
    (hscale : 0 < d.scale) (hplaces : d.scale.toNat < d.digits.length) :
    (⟨d.isNegative, d.digits.take (d.digits.length - d.scale.toNat),
      d.digits.drop (d.digits.length - d.scale.toNat)⟩ : Significand).StartsPlainly := by
  have hpos : d.digits.length - d.scale.toNat ≠ 0 := by omega
  constructor
  · rw [Ne, List.take_eq_nil_iff]
    exact fun h => h.elim hpos d.digits_ne_nil
  · dsimp only
    rw [List.head?_take, if_neg hpos]
    intro h
    rw [eq_zero_of_head?_digits h] at hscale
    exact absurd hscale (by decide)

end LeadingDigit

section Texts

variable (d : Decimal)

theorem exists_layout_integer
    (h : d.scale ≤ 0) :
    ∃ s e, d.Layout s e ∧ s.StartsPlainly ∧ s.negative = d.isNegative ∧
      integerText d.digits (-d.scale).toNat = s.unsignedChars ++ exponentChars false e := by
  have hsmall : maxPlainZeros ≤ maxExponent := by decide
  unfold integerText
  split
  · have hlimit : d.ExponentWithinLimit := ⟨by omega, Or.inl (by omega)⟩
    exact ⟨_, _, layout_zeros h hlimit, startsPlainly_zeros, rfl,
      by simp [exponentChars, Significand.unsignedChars]⟩
  · have hlimit : d.ExponentWithinLimit ↔ (-d.scale).natAbs ≤ maxExponent := by
      unfold ExponentWithinLimit
      omega
    have hsign : ¬ -d.scale < 0 := by omega
    have hnat : (-d.scale).natAbs = (-d.scale).toNat := by omega
    refine ⟨_, _, layout_exponent hlimit, startsPlainly_digits, rfl, ?_⟩
    rw [exponentChars, if_neg hsign, hnat]
    rfl

theorem exists_layout_fraction
    (h : 0 < d.scale) :
    ∃ s e, d.Layout s e ∧ s.StartsPlainly ∧ s.negative = d.isNegative ∧
      fractionText d.digits d.scale.toNat = s.unsignedChars ++ exponentChars false e := by
  unfold fractionText
  split
  · rename_i hplaces
    have hlimit : d.ExponentWithinLimit := ⟨by omega, Or.inr (by omega)⟩
    have hdrop : (d.digits.drop (d.digits.length - d.scale.toNat)).isEmpty = false := by
      rw [List.isEmpty_eq_false_iff, Ne, List.drop_eq_nil_iff]
      omega
    refine ⟨_, _, layout_point h hplaces hlimit, startsPlainly_point h hplaces, rfl, ?_⟩
    simp only [Significand.unsignedChars, exponentChars, hdrop, List.append_nil]
    rfl
  · split
    · have hlimit : d.ExponentWithinLimit := ⟨by omega, Or.inr (by omega)⟩
      refine ⟨_, _, layout_leading (by omega) hlimit, ⟨by simp, fun _ => rfl⟩, rfl, ?_⟩
      simp [Significand.unsignedChars, exponentChars, d.digits_ne_nil]
    · have hlimit : d.ExponentWithinLimit ↔ (-d.scale).natAbs ≤ maxExponent := by
        unfold ExponentWithinLimit
        omega
      have hsign : -d.scale < 0 := by omega
      have hnat : (-d.scale).natAbs = d.scale.toNat := by omega
      refine ⟨_, _, layout_exponent hlimit, startsPlainly_digits, rfl, ?_⟩
      rw [exponentChars, if_pos hsign, hnat]
      rfl

/-- The canonical text is in a layout of the decimal. -/
theorem exists_layout :
    ∃ s e, d.Layout s e ∧ s.StartsPlainly ∧
      d.canonicalChars = s.chars ++ exponentChars false e := by
  have hmagnitude : ∃ s e, d.Layout s e ∧ s.StartsPlainly ∧ s.negative = d.isNegative ∧
      (if d.scale ≤ 0 then integerText d.digits (-d.scale).toNat
        else fractionText d.digits d.scale.toNat) = s.unsignedChars ++ exponentChars false e := by
    split
    · rename_i hscale
      exact d.exists_layout_integer hscale
    · rename_i hscale
      exact d.exists_layout_fraction (Int.not_le.1 hscale)
  obtain ⟨s, e, hlayout, hplain, hsign, htext⟩ := hmagnitude
  refine ⟨s, e, hlayout, hplain, ?_⟩
  rw [canonicalChars, htext, Significand.chars, hsign]
  split <;> rfl

/-- So is the literal in JSON, in which an exponent always has a sign. -/
theorem exists_layout_jsonLiteral :
    ∃ s e, d.Layout s e ∧ d.jsonLiteral = String.ofList (s.chars ++ exponentChars true e) := by
  obtain ⟨s, e, hlayout, -, htext⟩ := d.exists_layout
  refine ⟨s, e, hlayout, ?_⟩
  have hmark : ∀ c ∈ s.chars, (c == 'e') = false := by
    intro c hc
    have hsmall := hlayout.wellFormed.isExponentMark_chars c hc
    exact (Bool.or_eq_false_iff.1 hsmall).1
  cases e with
  | none =>
      rw [exponentChars, List.append_nil] at htext ⊢
      rw [jsonLiteral, htext, Text.splitFirst_of_forall_not hmark, canonical, htext]
  | some e =>
      rw [exponentChars] at htext ⊢
      rw [jsonLiteral, htext, Text.splitFirst_append hmark rfl]
      by_cases hsign : e < 0
      · simp only [if_pos hsign]
      · -- The text starts with a digit, and so with no minus.
        simp only [if_neg hsign]
        split
        · rename_i heq
          cases heq
        · rename_i digits heq
          have hdigits : Nat.toDigits 10 e.natAbs = '-' :: digits := Option.some.inj heq
          have hmem : '-' ∈ Nat.toDigits 10 e.natAbs := hdigits ▸ List.mem_cons_self
          exact absurd (isDigit_of_mem_toDigits hmem) (by decide)
        · rename_i heq
          cases heq
          rfl

/-- The canonical text is a numeral of the JSON grammar with the parts of the
decimal, in which an exponent makes up for all places. -/
theorem exists_numeral_canonical :
    ∃ n : Numeral, n.IsJson ∧ n.chars = d.canonical.toList ∧
      n.significand.value n.exponentValue = d ∧
        (n.exponentValue = 0 ∨ n.exponentValue = -d.scale) := by
  obtain ⟨s, e, hlayout, hplain, htext⟩ := d.exists_layout
  obtain ⟨x, hx, hchars, hvalue, hexponent, -⟩ := hlayout.exists_exponent false
  refine ⟨s.numeral x, ?_, ?_, ?_, hexponent⟩
  · exact hlayout.wellFormed.isJson_numeral hx hplain.whole hplain.leading
  · rw [toList_canonical, htext, hchars]
  · rw [s.significand_numeral, hvalue]

/-- Different decimals have different canonical texts. -/
theorem canonical_injective :
    Function.Injective canonical := by
  intro a b h
  obtain ⟨n, hn, hchars, hvalue, -⟩ := a.exists_numeral_canonical
  obtain ⟨m, hm, hchars', hvalue', -⟩ := b.exists_numeral_canonical
  rw [h, ← hchars'] at hchars
  obtain ⟨hsignificand, hexponent⟩ := Numeral.eq_of_chars_eq hn.wellFormed hm.wellFormed hchars
  rw [← hvalue, ← hvalue', hsignificand, hexponent]

/-- A canonical text is read back exactly if its exponent is within the limit. -/
theorem parse_canonical_eq_ok_iff
    {result : Decimal} :
    parse d.canonical = .ok result ↔ d.ExponentWithinLimit ∧ d = result := by
  obtain ⟨s, e, hlayout, -, htext⟩ := d.exists_layout
  rw [canonical, htext]
  exact hlayout.parse_eq_ok_iff false

/-- Beyond the limit it is refused for that, unless its exponent is the least
integer of 64 bits. -/
theorem parse_canonical
    (hscale : d.scale ≠ twoPow 63) :
    parse d.canonical =
      if d.ExponentWithinLimit then .ok d else .error (.invalid d.canonical) := by
  obtain ⟨n, hn, hchars, -, hexponent⟩ := d.exists_numeral_canonical
  have htext : Text.Encloses d.canonical n.chars := ⟨[], [], nofun, nofun, by simp [hchars]⟩
  have hleast : n.exponentValue ≠ -twoPow 63 := by
    have hpos : 0 < twoPow 63 := by decide
    omega
  have hparse := Numeral.parse_of_encloses hn.wellFormed htext
  rw [if_neg hleast] at hparse
  split
  · rename_i hwithin
    exact d.parse_canonical_eq_ok_iff.2 ⟨hwithin, rfl⟩
  · rename_i hbeyond
    split at hparse
    · exact hparse
    · exact absurd (d.parse_canonical_eq_ok_iff.1 hparse).1 hbeyond

/-- The literal of a decimal in JSON is read back under the same condition. -/
theorem parse_jsonLiteral_eq_ok_iff
    {result : Decimal} :
    parse d.jsonLiteral = .ok result ↔ d.ExponentWithinLimit ∧ d = result := by
  obtain ⟨s, e, hlayout, htext⟩ := d.exists_layout_jsonLiteral
  rw [htext]
  exact hlayout.parse_eq_ok_iff true

/-- The canonical text is a number of the JSON grammar, different decimals have
different ones, and it is read back as the decimal unless it writes an exponent
beyond the limit, when it is refused: that is where more zeros than the limit
stand behind the digits, or the places behind the point exceed both the limit
and what is written without an exponent. -/
theorem canonical_json_injective_readBack :
    (∀ d : Decimal, ∃ n : Numeral, n.IsJson ∧ n.chars = d.canonical.toList) ∧
      Function.Injective canonical ∧
      ∀ d : Decimal,
        if maxExponent < -d.scale ∨
            (maxExponent < d.scale ∧ (d.digits.length + maxPlainZeros : Int) < d.scale) then
          ∃ e, parse d.canonical = .error e
        else
          parse d.canonical = .ok d := by
  refine ⟨?_, canonical_injective, ?_⟩
  · intro d
    obtain ⟨n, hn, hchars, -⟩ := d.exists_numeral_canonical
    exact ⟨n, hn, hchars⟩
  · intro d
    have hlimit : d.ExponentWithinLimit ↔ ¬ (maxExponent < -d.scale ∨
        (maxExponent < d.scale ∧ (d.digits.length + maxPlainZeros : Int) < d.scale)) := by
      unfold ExponentWithinLimit
      omega
    split
    · rename_i hbeyond
      cases h : parse d.canonical with
      | error e => exact ⟨e, rfl⟩
      | ok result => exact absurd hbeyond (hlimit.1 (d.parse_canonical_eq_ok_iff.1 h).1)
    · rename_i hwithin
      exact d.parse_canonical_eq_ok_iff.2 ⟨hlimit.2 hwithin, rfl⟩

end Texts

end Decimal
end TypedConfig
