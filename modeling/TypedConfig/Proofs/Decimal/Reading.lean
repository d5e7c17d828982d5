import Mathlib.Logic.Basic
import TypedConfig.Decimal.Literal

/-!
# Reading the parts of numbers

What a number literal is split into is stated here in both directions: the
characters that are read as a sign, as a significand and as an exponent, and
what these are read as.  A significand is whole digits and the digits behind a
point if there is one, at least one digit in all.  An exponent is at least one
digit.
-/

namespace TypedConfig

section Characters

variable {c : Char} (h : c.isDigit = true)
include h

theorem isDigit_bounds :
    48 ≤ c.toNat ∧ c.toNat ≤ 57 := by
  simp only [Char.isDigit, Bool.and_eq_true, decide_eq_true_eq] at h
  exact ⟨UInt32.le_iff_toNat_le.1 h.1, UInt32.le_iff_toNat_le.1 h.2⟩

theorem ne_of_isDigit
    {d : Char} (hd : d.isDigit = false) :
    c ≠ d := by
  rintro rfl
  rw [h] at hd
  cases hd

theorem Text.isBlank_of_isDigit :
    isBlank c = false := by
  have hc := isDigit_bounds h
  simp only [isBlank, Bool.or_eq_false_iff, Bool.and_eq_false_iff, decide_eq_false_iff_not,
    beq_eq_false_iff_ne]
  omega

theorem Decimal.isExponentMark_of_isDigit :
    isExponentMark c = false := by
  simp [isExponentMark, ne_of_isDigit h]

end Characters

namespace Text

/-- A text without blanks is not trimmed. -/
theorem trim_eq_self
    {cs : List Char} (h : ∀ c ∈ cs, isBlank c = false) :
    trim cs = cs := by
  have hstart : ∀ ds : List Char, (∀ c ∈ ds, isBlank c = false) → ds.dropWhile isBlank = ds := by
    intro ds hds
    cases ds with
    | nil => rfl
    | cons c ds => exact trimStart_eq_self (hds c List.mem_cons_self)
  have hreverse := hstart cs.reverse (by simpa using h)
  rw [trim, trimStart, hstart cs h, trimEnd, hreverse, List.reverse_reverse]

/-- Whether a text is a list of characters with blanks around it. -/
def Encloses (text : String) (cs : List Char) : Prop :=
  ∃ before after,
    (∀ c ∈ before, isBlank c = true) ∧ (∀ c ∈ after, isBlank c = true) ∧
      text.toList = before ++ cs ++ after

section Trim

variable {cs before after : List Char}

theorem trimStart_append
    (hbefore : ∀ c ∈ before, isBlank c = true) :
    trimStart (before ++ cs) = trimStart cs :=
  List.dropWhile_append_of_pos hbefore

theorem trimEnd_append
    (hafter : ∀ c ∈ after, isBlank c = true) :
    trimEnd (cs ++ after) = trimEnd cs := by
  have hreverse : ∀ c ∈ after.reverse, isBlank c = true := by simpa using hafter
  rw [trimEnd, trimEnd, List.reverse_append, List.dropWhile_append_of_pos hreverse]

/-- Only the blanks around a text are trimmed. -/
theorem trim_append
    (hbefore : ∀ c ∈ before, isBlank c = true) (hafter : ∀ c ∈ after, isBlank c = true)
    (hcs : ∀ c ∈ cs, isBlank c = false) :
    trim (before ++ cs ++ after) = cs := by
  rw [trim, List.append_assoc, trimStart_append hbefore]
  cases cs with
  | nil =>
      have hnil : trimStart after = [] := by
        have happend : trimStart (after ++ []) = trimStart [] := trimStart_append hafter
        rwa [List.append_nil] at happend
      rw [List.nil_append, hnil]
      rfl
  | cons c cs =>
      rw [List.cons_append, trimStart_eq_self (hcs c List.mem_cons_self), ← List.cons_append,
        trimEnd_append hafter]
      have hself := trim_eq_self hcs
      rwa [trim, trimStart_eq_self (hcs c List.mem_cons_self)] at hself

theorem trim_eq_iff_encloses
    {text : String} (hcs : ∀ c ∈ cs, isBlank c = false) :
    trim text.toList = cs ↔ Encloses text cs := by
  constructor
  · rintro rfl
    exact eq_append_trim_append text.toList
  · rintro ⟨before, after, hbefore, hafter, htext⟩
    rw [htext, trim_append hbefore hafter hcs]

end Trim

end Text

namespace Decimal

/-- The sign of a number, which may be left out. -/
inductive Sign where
  | absent
  | plus
  | minus
  deriving DecidableEq

namespace Sign

/-- The characters of a sign. -/
def chars : Sign → List Char
  | absent => []
  | plus => ['+']
  | minus => ['-']

/-- Whether the sign is a minus. -/
def isNegative : Sign → Bool
  | minus => true
  | absent | plus => false

/-- What the sign multiplies a number by. -/
def factor : Sign → Int
  | minus => -1
  | absent | plus => 1

theorem factor_mul
    (sign : Sign) (n : Nat) :
    sign.factor * n = signed sign.isNegative n := by
  cases sign with
  | absent | plus => exact Int.one_mul n
  | minus => exact Int.neg_one_mul n

theorem mem_chars
    {sign : Sign} {c : Char} (h : c ∈ sign.chars) :
    c = '+' ∨ c = '-' := by
  cases sign with
  | absent => cases h
  | plus => exact Or.inl (List.mem_singleton.1 h)
  | minus => exact Or.inr (List.mem_singleton.1 h)

/-- What starts with a sign or without one is split behind it. -/
theorem splitSign_append
    (sign : Sign) {c : Char} (hplus : c ≠ '+') (hminus : c ≠ '-') (cs : List Char) :
    splitSign (sign.chars ++ c :: cs) = (sign.isNegative, c :: cs) := by
  cases sign with
  | plus | minus => rfl
  | absent =>
      rw [chars, List.nil_append]
      unfold splitSign
      split
      · rename_i heq
        exact absurd (List.cons.inj heq).1 hminus
      · rename_i heq
        exact absurd (List.cons.inj heq).1 hplus
      · rfl

theorem exists_splitSign_eq
    (cs : List Char) :
    ∃ sign : Sign, cs = sign.chars ++ (splitSign cs).2 ∧ (splitSign cs).1 = sign.isNegative := by
  unfold splitSign
  split
  · exact ⟨.minus, rfl, rfl⟩
  · exact ⟨.plus, rfl, rfl⟩
  · exact ⟨.absent, rfl, rfl⟩

end Sign

/-- A run of at least one digit. -/
def IsDigits (cs : List Char) : Prop :=
  cs ≠ [] ∧ ∀ c ∈ cs, c.isDigit = true

/-- A point and the digits behind it, if there is one. -/
def pointChars : Option (List Char) → List Char
  | none => []
  | some digits => '.' :: digits

section Parts

/-- Whether a significand has digits, and nothing but digits. -/
structure Significand.WellFormed (s : Significand) : Prop where
  whole : ∀ c ∈ s.whole, c.isDigit = true
  fraction : ∀ c ∈ s.fraction, c.isDigit = true
  nonempty : s.whole ≠ [] ∨ s.fraction ≠ []

/-- Digits with a point among them are split at the point. -/
theorem splitFirst_pointChars
    {whole : List Char} (hwhole : ∀ c ∈ whole, c.isDigit = true) (fraction : Option (List Char)) :
    Text.splitFirst (· == '.') (whole ++ pointChars fraction) = (whole, fraction) := by
  have hpoint : ∀ c ∈ whole, (c == '.') = false := by
    intro c hc
    simpa using ne_of_isDigit (hwhole c hc) (by decide)
  cases fraction with
  | none =>
      rw [pointChars, List.append_nil]
      exact Text.splitFirst_of_forall_not hpoint
  | some digits => exact Text.splitFirst_append hpoint (by decide) digits

/-- What is split at its first point is the digits before it and the point with
those behind it. -/
theorem append_pointChars_splitFirst
    (cs : List Char) :
    (Text.splitFirst (· == '.') cs).1 ++ pointChars (Text.splitFirst (· == '.') cs).2 = cs := by
  cases hpoint : (Text.splitFirst (· == '.') cs).2 with
  | none => rw [pointChars, List.append_nil, Text.splitFirst_eq_none hpoint]
  | some digits =>
      obtain ⟨mark, hmark, hcs⟩ := Text.splitFirst_eq_some hpoint
      obtain rfl : mark = '.' := beq_iff_eq.1 hmark
      exact hcs.symm

/-- Without its sign a significand starts with a digit or the point. -/
theorem Significand.WellFormed.exists_head
    {s : Significand} (hs : s.WellFormed) {fraction : Option (List Char)}
    (hfraction : s.fraction = fraction.getD []) :
    ∃ c cs, s.whole ++ pointChars fraction = c :: cs ∧ c ≠ '+' ∧ c ≠ '-' := by
  cases hwhole : s.whole with
  | cons c cs =>
      have hc : c.isDigit = true := by
        refine hs.whole c ?_
        rw [hwhole]
        exact List.mem_cons_self
      exact ⟨c, _, rfl, ne_of_isDigit hc (by decide), ne_of_isDigit hc (by decide)⟩
  | nil =>
      cases fraction with
      | none => exact absurd hs.nonempty (by simp [hwhole, hfraction])
      | some digits => exact ⟨'.', digits, rfl, by decide, by decide⟩

/-- The characters of a significand are read as its parts. -/
theorem Significand.read?_eq_some_iff
    {cs : List Char} {s : Significand} :
    read? cs = some s ↔
      ∃ (sign : Sign) (fraction : Option (List Char)),
        cs = sign.chars ++ (s.whole ++ pointChars fraction) ∧
          s.negative = sign.isNegative ∧ s.fraction = fraction.getD [] ∧ s.WellFormed := by
  constructor
  · intro h
    obtain ⟨sign, hcs, hsign⟩ := Sign.exists_splitSign_eq cs
    have hparts := append_pointChars_splitFirst (splitSign cs).2
    simp only [read?] at h
    split at h
    · cases h
    · rename_i hnonempty
      split at h
      · rename_i hdigits
        obtain rfl := Option.some.inj h
        rw [List.all_append, Bool.and_eq_true, List.all_eq_true, List.all_eq_true] at hdigits
        rw [Bool.and_eq_true, List.isEmpty_iff, List.isEmpty_iff, not_and_or] at hnonempty
        refine ⟨sign, _, ?_, hsign, rfl, hdigits.1, hdigits.2, hnonempty⟩
        rw [hparts]
        exact hcs
      · cases h
  · rintro ⟨sign, fraction, rfl, hsign, hfraction, hs⟩
    obtain ⟨c, rest, hhead, hplus, hminus⟩ := hs.exists_head hfraction
    have hsplit := sign.splitSign_append hplus hminus rest
    rw [← hhead] at hsplit
    have hdigits : (s.whole ++ s.fraction).all Char.isDigit = true := by
      rw [List.all_append, Bool.and_eq_true, List.all_eq_true, List.all_eq_true]
      exact ⟨hs.whole, hs.fraction⟩
    have hnonempty : ¬ (s.whole.isEmpty && s.fraction.isEmpty) = true := by
      rw [Bool.and_eq_true, List.isEmpty_iff, List.isEmpty_iff, not_and_or]
      exact hs.nonempty
    simp only [read?, hsplit, splitFirst_pointChars hs.whole, ← hfraction, ← hsign]
    rw [if_neg hnonempty, if_pos hdigits]

/-- A sign and digits are read as the integer that they write if it is one of 64
bits, and otherwise not read. -/
theorem exponentValue?_append
    (sign : Sign) {digits : List Char} (hdigits : IsDigits digits) :
    exponentValue? (sign.chars ++ digits) =
      if -twoPow 63 ≤ sign.factor * digitsValue digits ∧
          sign.factor * digitsValue digits < twoPow 63 then
        some (sign.factor * digitsValue digits)
      else
        none := by
  obtain ⟨c, rest, rfl⟩ := List.exists_cons_of_ne_nil hdigits.1
  have hc := hdigits.2 c List.mem_cons_self
  have hsplit := sign.splitSign_append (ne_of_isDigit hc (by decide))
    (ne_of_isDigit hc (by decide)) rest
  have hall : (c :: rest).all Char.isDigit = true := List.all_eq_true.2 hdigits.2
  simp only [exponentValue?, hsplit, hall, List.isEmpty_cons, Bool.not_true, Bool.or_self,
    Sign.factor_mul]
  exact if_neg Bool.false_ne_true

/-- What is read as an exponent is a sign and digits that write it. -/
theorem exists_of_exponentValue?
    {cs : List Char} {value : Int} (h : exponentValue? cs = some value) :
    ∃ (sign : Sign) (digits : List Char),
      cs = sign.chars ++ digits ∧ IsDigits digits ∧ sign.factor * digitsValue digits = value := by
  obtain ⟨sign, hcs, hsign⟩ := Sign.exists_splitSign_eq cs
  simp only [exponentValue?] at h
  split at h
  · cases h
  · rename_i hdigits
    rw [Bool.or_eq_true, not_or, List.isEmpty_iff, Bool.not_eq_true', Bool.not_eq_false,
      List.all_eq_true] at hdigits
    split at h
    · obtain rfl := Option.some.inj h
      exact ⟨sign, _, hcs, hdigits, by rw [hsign, Sign.factor_mul]⟩
    · cases h

end Parts

end Decimal
end TypedConfig
