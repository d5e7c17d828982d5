import TypedConfig.Proofs.Decimal.Reading

/-!
# The grammar of number literals

A numeral is an optional sign, whole digits, an optional point with the digits
behind it, and an optional exponent: a mark, an optional sign and digits.  It
has a digit beside the point.

Numerals between blanks are read as the decimal of their parts, unless their
exponent is beyond the limit, and nothing else is read.  Each numeral has its
own characters.
-/

namespace TypedConfig
namespace Decimal

/-- An exponent as it is written: a mark, a sign and digits. -/
structure Numeral.Exponent where
  mark : Char
  sign : Sign
  digits : List Char

namespace Numeral.Exponent

/-- The characters of an exponent. -/
def chars (e : Exponent) : List Char :=
  e.mark :: (e.sign.chars ++ e.digits)

/-- The integer that an exponent writes. -/
def value (e : Exponent) : Int :=
  e.sign.factor * digitsValue e.digits

/-- Whether an exponent has its mark and at least one digit. -/
structure WellFormed (e : Exponent) : Prop where
  mark : e.mark = 'e' ∨ e.mark = 'E'
  digits : IsDigits e.digits

end Numeral.Exponent

/-- A number as it is written: a sign, whole digits, the digits behind a point if
there is one, and an exponent if there is one. -/
structure Numeral where
  sign : Sign
  whole : List Char
  fraction : Option (List Char)
  exponent : Option Numeral.Exponent

namespace Numeral

/-- The digits behind the point, none where there is no point. -/
def fractionDigits (n : Numeral) : List Char :=
  n.fraction.getD []

/-- The characters before the exponent. -/
def significandChars (n : Numeral) : List Char :=
  n.sign.chars ++ (n.whole ++ pointChars n.fraction)

/-- The characters of a numeral. -/
def chars (n : Numeral) : List Char :=
  n.significandChars ++ n.exponent.elim [] Exponent.chars

/-- The integer that the exponent writes, zero where there is none. -/
def exponentValue (n : Numeral) : Int :=
  n.exponent.elim 0 Exponent.value

/-- Whether a numeral has nothing but digits around its point, at least one of
them, and a well-formed exponent if it has one. -/
structure WellFormed (n : Numeral) : Prop where
  whole : ∀ c ∈ n.whole, c.isDigit = true
  fraction : ∀ c ∈ n.fractionDigits, c.isDigit = true
  nonempty : n.whole ≠ [] ∨ n.fractionDigits ≠ []
  exponent : ∀ e ∈ n.exponent, e.WellFormed

/-- Whether a numeral is a number of the JSON grammar: it has no plus before it,
digits before its point and behind it, and no zero before other whole digits. -/
structure IsJson (n : Numeral) : Prop where
  wellFormed : n.WellFormed
  sign : n.sign ≠ .plus
  whole : n.whole ≠ []
  leading : n.whole.head? = some '0' → n.whole = ['0']
  fraction : n.fraction ≠ some []

/-- What a numeral has before its exponent, without regard to how it is
written. -/
def significand (n : Numeral) : Significand :=
  ⟨n.sign.isNegative, n.whole, n.fractionDigits⟩

section Characters

/-- What the characters of a numeral before its exponent are. -/
theorem mem_significandChars
    {n : Numeral} (hn : n.WellFormed) {c : Char} (hc : c ∈ n.significandChars) :
    c.isDigit = true ∨ c = '.' ∨ c = '+' ∨ c = '-' := by
  rcases List.mem_append.1 hc with hc | hc
  · exact Or.inr (Or.inr (Sign.mem_chars hc))
  · rcases List.mem_append.1 hc with hc | hc
    · exact Or.inl (hn.whole c hc)
    · have hfraction := hn.fraction
      rw [fractionDigits] at hfraction
      cases hpoint : n.fraction with
      | none =>
          rw [hpoint] at hc
          cases hc
      | some digits =>
          rw [hpoint] at hc hfraction
          rcases List.mem_cons.1 hc with rfl | hc
          · exact Or.inr (Or.inl rfl)
          · exact Or.inl (hfraction c hc)

theorem isExponentMark_significandChars
    {n : Numeral} (hn : n.WellFormed) :
    ∀ c ∈ n.significandChars, isExponentMark c = false := by
  intro c hc
  rcases mem_significandChars hn hc with hc | rfl | rfl | rfl
  · exact isExponentMark_of_isDigit hc
  · decide
  · decide
  · decide

theorem Exponent.isBlank_chars
    {e : Exponent} (he : e.WellFormed) :
    ∀ c ∈ e.chars, Text.isBlank c = false := by
  intro c hc
  rcases List.mem_cons.1 hc with rfl | hc
  · rcases he.mark with hmark | hmark
    · rw [hmark]
      decide
    · rw [hmark]
      decide
  · rcases List.mem_append.1 hc with hc | hc
    · rcases Sign.mem_chars hc with rfl | rfl
      · decide
      · decide
    · exact Text.isBlank_of_isDigit (he.digits.2 c hc)

theorem isBlank_chars
    {n : Numeral} (hn : n.WellFormed) :
    ∀ c ∈ n.chars, Text.isBlank c = false := by
  intro c hc
  rcases List.mem_append.1 hc with hc | hc
  · rcases mem_significandChars hn hc with hc | rfl | rfl | rfl
    · exact Text.isBlank_of_isDigit hc
    · decide
    · decide
    · decide
  · cases hexponent : n.exponent with
    | none =>
        rw [hexponent] at hc
        cases hc
    | some e =>
        rw [hexponent] at hc
        exact Exponent.isBlank_chars (hn.exponent e hexponent) c hc

end Characters

end Numeral

section Parse

variable {text : String}

/-- A text whose exponent is read, zero where there is none. -/
theorem parse_of_splitFirst
    {significand : List Char} {exponent : Option (List Char)}
    (h : Text.splitFirst isExponentMark (Text.trim text.toList) = (significand, exponent))
    {e : Int} (he : exponent.elim (some 0) exponentValue? = some e) :
    parse text =
      if e = -twoPow 63 then .error (.overflow text)
      else if maxExponent < e.natAbs then .error (.invalid text)
      else
        match Significand.read? significand with
        | some s => .ok (s.value e)
        | none => .error (.invalid text) := by
  cases exponent with
  | none =>
      obtain rfl : 0 = e := Option.some.inj he
      have hleast : (0 : Int) ≠ -twoPow 63 := by decide
      have hlimit : ¬ maxExponent < (0 : Int).natAbs := by decide
      rw [if_neg hleast, if_neg hlimit]
      cases hread : Significand.read? significand <;> simp only [parse, h, hread]
  | some digits =>
      rw [Option.elim_some] at he
      cases hread : Significand.read? significand <;> simp only [parse, h, he, hread]

/-- A text whose exponent is not read. -/
theorem parse_of_splitFirst_none
    {significand : List Char} {exponent : Option (List Char)}
    (h : Text.splitFirst isExponentMark (Text.trim text.toList) = (significand, exponent))
    (he : exponent.elim (some 0) exponentValue? = none) :
    parse text = .error (.invalid text) := by
  cases exponent with
  | none => cases he
  | some digits =>
      rw [Option.elim_some] at he
      simp only [parse, h, he]

namespace Numeral

/-- The characters behind the mark of an exponent. -/
def Exponent.integerChars (e : Exponent) : List Char :=
  e.sign.chars ++ e.digits

theorem Exponent.isExponentMark_mark
    {e : Exponent} (he : e.WellFormed) :
    isExponentMark e.mark = true := by
  rcases he.mark with h | h
  · rw [h]
    decide
  · rw [h]
    decide

/-- A numeral is split at the mark of its exponent. -/
theorem splitFirst_chars
    {n : Numeral} (hn : n.WellFormed) :
    Text.splitFirst isExponentMark n.chars =
      (n.significandChars, n.exponent.map Exponent.integerChars) := by
  have hmarks := isExponentMark_significandChars hn
  cases hexponent : n.exponent with
  | none =>
      rw [chars, hexponent, Option.elim_none, List.append_nil]
      exact Text.splitFirst_of_forall_not hmarks
  | some e =>
      have hmark := Exponent.isExponentMark_mark (hn.exponent e hexponent)
      rw [chars, hexponent]
      exact Text.splitFirst_append hmarks hmark e.integerChars

/-- The exponent of a numeral is read if it is an integer of 64 bits. -/
theorem exponentValue?_integerChars
    {n : Numeral} (hn : n.WellFormed) :
    (n.exponent.map Exponent.integerChars).elim (some 0) exponentValue? =
      if -twoPow 63 ≤ n.exponentValue ∧ n.exponentValue < twoPow 63 then
        some n.exponentValue
      else
        none := by
  have hexponent := hn.exponent
  obtain ⟨sign, whole, fraction, exponent⟩ := n
  cases exponent with
  | none =>
      have hzero : -twoPow 63 ≤ (0 : Int) ∧ (0 : Int) < twoPow 63 := by decide
      exact (if_pos hzero).symm
  | some e => exact exponentValue?_append e.sign (hexponent e rfl).digits

theorem read?_significandChars
    {n : Numeral} (hn : n.WellFormed) :
    Significand.read? n.significandChars = some n.significand :=
  Significand.read?_eq_some_iff.2
    ⟨n.sign, n.fraction, rfl, rfl, rfl, hn.whole, hn.fraction, hn.nonempty⟩

/-- A numeral is read as the decimal of its parts if its exponent is within the
limit, and is refused otherwise. -/
theorem parse_of_encloses
    {n : Numeral} (hn : n.WellFormed) (htext : Text.Encloses text n.chars) :
    parse text =
      if n.exponentValue = -twoPow 63 then .error (.overflow text)
      else if maxExponent < n.exponentValue.natAbs then .error (.invalid text)
      else .ok (n.significand.value n.exponentValue) := by
  have htrim := (Text.trim_eq_iff_encloses (isBlank_chars hn)).2 htext
  have hsplit := splitFirst_chars hn
  rw [← htrim] at hsplit
  have hexponent := exponentValue?_integerChars hn
  split at hexponent
  · rw [parse_of_splitFirst hsplit hexponent, read?_significandChars hn]
  · -- What is no integer of 64 bits is beyond the limit, and is not the least of them.
    rename_i hrange
    have hbeyond : maxExponent < n.exponentValue.natAbs ∧ n.exponentValue ≠ -twoPow 63 := by
      have hlimit : maxExponent < twoPow 63 := by decide
      omega
    rw [parse_of_splitFirst_none hsplit hexponent, if_neg hbeyond.2, if_pos hbeyond.1]

theorem parse_eq_ok_iff
    {n : Numeral} (hn : n.WellFormed) (htext : Text.Encloses text n.chars) {d : Decimal} :
    parse text = .ok d ↔
      n.exponentValue.natAbs ≤ maxExponent ∧ n.significand.value n.exponentValue = d := by
  rw [parse_of_encloses hn htext]
  by_cases hlimit : n.exponentValue.natAbs ≤ maxExponent
  · have hleast : n.exponentValue ≠ -twoPow 63 := by
      have hbound : maxExponent < twoPow 63 := by decide
      omega
    rw [if_neg hleast, if_neg (Nat.not_lt.2 hlimit), Except.ok.injEq]
    exact (and_iff_right hlimit).symm
  · have hnot : ¬ (n.exponentValue.natAbs ≤ maxExponent ∧
        n.significand.value n.exponentValue = d) := fun h => hlimit h.1
    rw [iff_false_right hnot, if_pos (Nat.not_le.1 hlimit)]
    split
    · exact nofun
    · exact nofun

end Numeral

/-- Whether the first exponent in a text writes the least 64-bit integer. -/
def HasLeastExponent (text : String) : Prop :=
  ∃ (before : List Char) (e : Numeral.Exponent),
    (∀ c ∈ before, isExponentMark c = false) ∧ e.WellFormed ∧ e.value = -twoPow 63 ∧
      Text.trim text.toList = before ++ e.chars

/-- An exponent that is read is none, or an exponent as it may be written. -/
theorem exists_exponent_of_splitFirst
    {cs significand : List Char} {exponent : Option (List Char)}
    (h : Text.splitFirst isExponentMark cs = (significand, exponent))
    {e : Int} (he : exponent.elim (some 0) exponentValue? = some e) :
    ∃ x : Option Numeral.Exponent, (∀ y ∈ x, y.WellFormed) ∧
      cs = significand ++ x.elim [] Numeral.Exponent.chars ∧
        x.elim 0 Numeral.Exponent.value = e := by
  cases exponent with
  | none =>
      have hcs := Text.splitFirst_eq_none (congrArg Prod.snd h)
      rw [h] at hcs
      refine ⟨none, nofun, ?_, Option.some.inj he⟩
      rw [← hcs, Option.elim_none, List.append_nil]
  | some digits =>
      obtain ⟨mark, hmark, hcs⟩ := Text.splitFirst_eq_some (congrArg Prod.snd h)
      rw [h] at hcs
      obtain ⟨sign, run, rfl, hdigits, rfl⟩ := exists_of_exponentValue? he
      refine ⟨some ⟨mark, sign, run⟩, ?_, hcs, rfl⟩
      rintro y ⟨⟩
      exact ⟨by simpa [isExponentMark] using hmark, hdigits⟩

/-- A significand that is read, and any exponent, are those of a numeral. -/
theorem exists_numeral_of_read?
    {cs : List Char} {s : Significand} (hs : Significand.read? cs = some s)
    {x : Option Numeral.Exponent} (hx : ∀ e ∈ x, e.WellFormed) :
    ∃ n : Numeral, n.WellFormed ∧ n.significandChars = cs ∧ n.significand = s ∧
      n.exponent = x := by
  obtain ⟨sign, fraction, rfl, hsign, hfraction, hwell⟩ := Significand.read?_eq_some_iff.1 hs
  obtain ⟨negative, whole, digits⟩ := s
  dsimp only at hsign hfraction
  subst hsign hfraction
  exact ⟨⟨sign, whole, fraction, x⟩, ⟨hwell.whole, hwell.fraction, hwell.nonempty, hx⟩,
    rfl, rfl, rfl⟩

/-- What comes of a text: it is a numeral and read as the decimal of its parts,
or refused for its exponent, or refused for another cause. -/
theorem parse_outcome
    (text : String) :
    (∃ n : Numeral, n.WellFormed ∧ Text.trim text.toList = n.chars ∧
        parse text = .ok (n.significand.value n.exponentValue)) ∨
      (HasLeastExponent text ∧ parse text = .error (.overflow text)) ∨
      parse text = .error (.invalid text) := by
  have hmarks : ∀ c ∈ (Text.splitFirst isExponentMark (Text.trim text.toList)).1,
      isExponentMark c = false := fun c hc => Text.not_isMark_of_mem_splitFirst hc
  rcases hsplit : Text.splitFirst isExponentMark (Text.trim text.toList) with
    ⟨significand, exponent⟩
  rw [hsplit] at hmarks
  cases he : exponent.elim (some 0) exponentValue? with
  | none => exact Or.inr (Or.inr (parse_of_splitFirst_none hsplit he))
  | some e =>
      obtain ⟨x, hx, hchars, rfl⟩ := exists_exponent_of_splitFirst hsplit he
      rw [parse_of_splitFirst hsplit he]
      split
      · rename_i hleast
        right
        left
        refine ⟨?_, rfl⟩
        cases x with
        | none => exact absurd hleast (by decide)
        | some y => exact ⟨significand, y, hmarks, hx y rfl, hleast, hchars⟩
      · split
        · exact Or.inr (Or.inr rfl)
        · cases hread : Significand.read? significand with
          | none => exact Or.inr (Or.inr rfl)
          | some s =>
              obtain ⟨n, hn, rfl, rfl, rfl⟩ := exists_numeral_of_read? hread hx
              exact Or.inl ⟨n, hn, hchars, rfl⟩

/-- Nothing is returned for the least 64-bit integer as an exponent, whatever else the
text consists of. -/
theorem parse_of_hasLeastExponent
    (h : HasLeastExponent text) :
    parse text = .error (.overflow text) := by
  obtain ⟨before, e, hbefore, he, hvalue, htrim⟩ := h
  have hsplit := Text.splitFirst_append hbefore (Numeral.Exponent.isExponentMark_mark he)
    e.integerChars
  have hchars : before ++ e.mark :: e.integerChars = Text.trim text.toList := htrim.symm
  rw [hchars] at hsplit
  have hread : exponentValue? e.integerChars = some (-twoPow 63 : Int) := by
    have hrange : -(twoPow 63 : Int) ≤ -twoPow 63 ∧ (-twoPow 63 : Int) < twoPow 63 := by decide
    have happend := exponentValue?_append e.sign he.digits
    rw [← Numeral.Exponent.value, hvalue, if_pos hrange] at happend
    exact happend
  rw [parse_of_splitFirst hsplit hread, if_pos rfl]

/-- It is the text itself that is quoted. -/
theorem hasLeastExponent_of_parse
    {quoted : String} (h : parse text = .error (.overflow quoted)) :
    HasLeastExponent quoted := by
  rcases parse_outcome text with ⟨n, -, -, hparse⟩ | ⟨hleast, hparse⟩ | hparse
  · rw [h] at hparse
    cases hparse
  · rw [h] at hparse
    cases hparse
    exact hleast
  · rw [h] at hparse
    cases hparse

/-- Nothing is returned exactly where the exponent is the least 64-bit integer. -/
theorem parse_eq_overflow_iff :
    parse text = .error (.overflow text) ↔ HasLeastExponent text :=
  ⟨hasLeastExponent_of_parse, parse_of_hasLeastExponent⟩

end Parse

section Unambiguous

namespace Numeral

theorem Exponent.splitSign_integerChars
    {e : Exponent} (he : e.WellFormed) :
    splitSign e.integerChars = (e.sign.isNegative, e.digits) := by
  obtain ⟨c, rest, hdigits⟩ := List.exists_cons_of_ne_nil he.digits.1
  have hc : c.isDigit = true := by
    refine he.digits.2 c ?_
    rw [hdigits]
    exact List.mem_cons_self
  rw [integerChars, hdigits]
  exact e.sign.splitSign_append (ne_of_isDigit hc (by decide)) (ne_of_isDigit hc (by decide)) rest

/-- Numerals with the same characters have the same digits before their exponents,
and the same exponents. -/
theorem eq_of_chars_eq
    {n m : Numeral} (hn : n.WellFormed) (hm : m.WellFormed) (h : n.chars = m.chars) :
    n.significand = m.significand ∧ n.exponentValue = m.exponentValue := by
  have hsplit := splitFirst_chars hn
  rw [h, splitFirst_chars hm, Prod.mk.injEq] at hsplit
  obtain ⟨hsignificand, hexponent⟩ := hsplit
  constructor
  · have hread := read?_significandChars hn
    rw [← hsignificand, read?_significandChars hm] at hread
    exact (Option.some.inj hread).symm
  · unfold exponentValue
    cases hx : n.exponent with
    | none =>
        rw [hx, Option.map_none, Option.map_eq_none_iff] at hexponent
        rw [hexponent]
    | some e =>
        rw [hx, Option.map_some, Option.map_eq_some_iff] at hexponent
        obtain ⟨e', hx', hchars⟩ := hexponent
        have hsign := Exponent.splitSign_integerChars (hm.exponent e' hx')
        rw [hchars, Exponent.splitSign_integerChars (hn.exponent e hx), Prod.mk.injEq] at hsign
        rw [hx', Option.elim_some, Option.elim_some, Exponent.value, Exponent.value,
          Sign.factor_mul, Sign.factor_mul, hsign.1, hsign.2]

end Numeral

end Unambiguous

namespace Significand

/-- The characters of a significand but for its sign. -/
def unsignedChars (s : Significand) : List Char :=
  if s.fraction.isEmpty then s.whole else s.whole ++ '.' :: s.fraction

/-- The characters of a significand. -/
def chars (s : Significand) : List Char :=
  if s.negative then '-' :: s.unsignedChars else s.unsignedChars

/-- A significand written without a plus, and with a point only before digits,
and an exponent. -/
def numeral (s : Significand) (exponent : Option Numeral.Exponent) : Numeral :=
  ⟨if s.negative then .minus else .absent, s.whole,
    if s.fraction.isEmpty then none else some s.fraction, exponent⟩

section Numeral

variable (s : Significand) (exponent : Option Numeral.Exponent)

theorem significandChars_numeral :
    (s.numeral exponent).significandChars = s.chars := by
  obtain ⟨negative, whole, fraction⟩ := s
  cases fraction with
  | nil => cases negative <;> simp [numeral, Numeral.significandChars, chars, unsignedChars,
      Sign.chars, pointChars]
  | cons c cs => cases negative <;> rfl

theorem significand_numeral :
    (s.numeral exponent).significand = s := by
  obtain ⟨negative, whole, fraction⟩ := s
  cases fraction <;> cases negative <;> rfl

variable {s exponent}

theorem WellFormed.numeral
    (hs : s.WellFormed) (hexponent : ∀ e ∈ exponent, e.WellFormed) :
    (s.numeral exponent).WellFormed := by
  have hfraction : (s.numeral exponent).fractionDigits = s.fraction :=
    congrArg Significand.fraction (significand_numeral s exponent)
  refine ⟨hs.whole, ?_, ?_, hexponent⟩
  · rw [hfraction]
    exact hs.fraction
  · rw [hfraction]
    exact hs.nonempty

theorem WellFormed.isExponentMark_chars
    (hs : s.WellFormed) :
    ∀ c ∈ s.chars, isExponentMark c = false := by
  rw [← significandChars_numeral s none]
  exact Numeral.isExponentMark_significandChars (hs.numeral nofun)

/-- Such a numeral is one of JSON if no zero stands before its other whole
digits. -/
theorem WellFormed.isJson_numeral
    (hs : s.WellFormed) (hexponent : ∀ e ∈ exponent, e.WellFormed) (hwhole : s.whole ≠ [])
    (hleading : s.whole.head? = some '0' → s.whole = ['0']) :
    (s.numeral exponent).IsJson := by
  refine ⟨hs.numeral hexponent, ?_, hwhole, hleading, ?_⟩
  · unfold Significand.numeral
    split
    · exact nofun
    · exact nofun
  · unfold Significand.numeral
    cases s.fraction with
    | nil => exact nofun
    | cons c cs => exact fun h => by cases h

end Numeral

end Significand

end Decimal
end TypedConfig
