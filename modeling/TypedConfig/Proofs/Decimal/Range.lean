import TypedConfig.Proofs.Decimal.LowestTerms

/-!
# Literals in machine integers

A number literal is read without leaving the range of 64-bit integers, and as the
decimal that it stands for, unless its exponent is the least of them: that one has
no magnitude among them, though it is beyond the limit of exponents.  The scale
of what is read is far from the ends of the range, so it may be negated, and the
number is written and converted to integers as its decimal is.
-/

namespace TypedConfig

section Lengths

theorem Text.length_trim_le
    (cs : List Char) :
    (trim cs).length ≤ cs.length := by
  obtain ⟨before, after, -, -, hcs⟩ := eq_append_trim_append cs
  have hlength := congrArg List.length hcs
  rw [List.length_append, List.length_append] at hlength
  omega

theorem Text.length_splitFirst_le
    (isMark : Char → Bool) (cs : List Char) :
    (splitFirst isMark cs).1.length ≤ cs.length := by
  cases hafter : (splitFirst isMark cs).2 with
  | none => rw [splitFirst_eq_none hafter]
  | some after =>
      obtain ⟨mark, -, hcs⟩ := splitFirst_eq_some hafter
      have hlength := congrArg List.length hcs
      rw [List.length_append] at hlength
      omega

/-- A significand has no more digits than it has characters. -/
theorem Decimal.Significand.length_le_of_read?
    {cs : List Char} {s : Significand} (h : read? cs = some s) :
    s.whole.length + s.fraction.length ≤ cs.length := by
  obtain ⟨sign, fraction, rfl, -, hfraction, -⟩ := read?_eq_some_iff.1 h
  rw [hfraction, List.length_append, List.length_append]
  cases fraction with
  | none =>
      rw [Option.getD_none, List.length_nil]
      omega
  | some digits =>
      rw [Option.getD_some, pointChars, List.length_cons]
      omega

end Lengths

namespace Decimal

theorem exponentValue?_bounds
    {cs : List Char} {e : Int} (h : exponentValue? cs = some e) :
    -twoPow 63 ≤ e ∧ e < twoPow 63 := by
  simp only [exponentValue?] at h
  split at h
  · cases h
  · split at h
    · rename_i hbounds
      exact Option.some.inj h ▸ hbounds
    · cases h

end Decimal

namespace Scaled

open Decimal

section Reading

theorem int64?_natAbs_eq_none
    {e : Int} (h : e = -twoPow 63) :
    int64? e.natAbs = none := by
  rw [h]
  rfl

theorem int64?_natAbs_eq_some
    {e : Int} (hbounds : -twoPow 63 ≤ e ∧ e < twoPow 63) (h : e ≠ -twoPow 63) :
    int64? e.natAbs = some (e.natAbs : Int) :=
  int64?_eq_some (i := (e.natAbs : Int)) (by omega)

section Split

variable {text : String} {significand : List Char} {exponent : Option (List Char)}
  (h : Text.splitFirst isExponentMark (Text.trim text.toList) = (significand, exponent))
include h

/-- A text whose exponent is read and has a magnitude, zero where there is
none. -/
theorem parse?_of_splitFirst
    {e : Int} (he : exponent.elim (some 0) exponentValue? = some e) (hleast : e ≠ -twoPow 63) :
    parse? text =
      if maxExponent < e.natAbs then some (.error (.invalid text))
      else
        match Significand.read? significand with
        | some s => (ofSignificand? s e).map .ok
        | none => some (.error (.invalid text)) := by
  cases exponent with
  | none =>
      obtain rfl : 0 = e := Option.some.inj he
      have hlimit : ¬ maxExponent < (0 : Int).natAbs := by decide
      rw [if_neg hlimit]
      cases hread : Significand.read? significand <;> simp only [parse?, h, hread]
  | some digits =>
      rw [Option.elim_some] at he
      have hmagnitude := int64?_natAbs_eq_some (exponentValue?_bounds he) hleast
      have hcast : (maxExponent : Int) < (e.natAbs : Int) ↔ maxExponent < e.natAbs :=
        Int.ofNat_lt
      cases hread : Significand.read? significand <;>
        simp only [parse?, h, he, hmagnitude, hread, Option.bind_eq_bind, Option.bind_some,
          hcast, Option.pure_def]

/-- A text whose exponent has no magnitude. -/
theorem parse?_of_splitFirst_least
    {e : Int} (he : exponent.elim (some 0) exponentValue? = some e) (hleast : e = -twoPow 63) :
    parse? text = none := by
  cases exponent with
  | none =>
      obtain rfl : 0 = e := Option.some.inj he
      exact absurd hleast (by decide)
  | some digits =>
      rw [Option.elim_some] at he
      simp only [parse?, h, he, int64?_natAbs_eq_none hleast, Option.bind_eq_bind,
        Option.bind_none]

/-- A text whose exponent is not read. -/
theorem parse?_of_splitFirst_none
    (he : exponent.elim (some 0) exponentValue? = none) :
    parse? text = some (.error (.invalid text)) := by
  cases exponent with
  | none => cases he
  | some digits =>
      rw [Option.elim_some] at he
      simp only [parse?, h, he]

end Split

/-- What comes of a text, read in machine integers and exactly: it has the least
exponent, or is refused, or its significand and exponent are taken as they
are. -/
theorem parse?_outcome
    (text : String) :
    (parse? text = none ∧ Decimal.parse text = .error (.overflow text)) ∨
      (parse? text = some (.error (.invalid text)) ∧
        Decimal.parse text = .error (.invalid text)) ∨
      ∃ (s : Significand) (e : Int), s.WellFormed ∧
        s.whole.length + s.fraction.length ≤ text.length ∧ e.natAbs ≤ maxExponent ∧
          parse? text = (ofSignificand? s e).map .ok ∧ Decimal.parse text = .ok (s.value e) := by
  rcases hsplit : Text.splitFirst isExponentMark (Text.trim text.toList) with
    ⟨significand, exponent⟩
  have hlength : significand.length ≤ text.length := by
    have hfirst := Text.length_splitFirst_le isExponentMark (Text.trim text.toList)
    have htrim := Text.length_trim_le text.toList
    rw [hsplit] at hfirst
    rw [String.length_toList] at htrim
    exact hfirst.trans htrim
  cases he : exponent.elim (some 0) exponentValue? with
  | none =>
      exact Or.inr (Or.inl
        ⟨parse?_of_splitFirst_none hsplit he, parse_of_splitFirst_none hsplit he⟩)
  | some e =>
      rw [parse_of_splitFirst hsplit he]
      by_cases hleast : e = -twoPow 63
      · rw [if_pos hleast]
        exact Or.inl ⟨parse?_of_splitFirst_least hsplit he hleast, rfl⟩
      · rw [parse?_of_splitFirst hsplit he hleast, if_neg hleast]
        by_cases hlimit : maxExponent < e.natAbs
        · rw [if_pos hlimit, if_pos hlimit]
          exact Or.inr (Or.inl ⟨rfl, rfl⟩)
        · rw [if_neg hlimit, if_neg hlimit]
          right
          cases hread : Significand.read? significand with
          | none => exact Or.inl ⟨rfl, rfl⟩
          | some s =>
              obtain ⟨_, _, -, -, -, hwell⟩ := Significand.read?_eq_some_iff.1 hread
              have hdigits := Significand.length_le_of_read? hread
              exact Or.inr ⟨s, e, hwell, hdigits.trans hlength, Nat.not_lt.1 hlimit, rfl, rfl⟩

/-- What is read in machine integers is the decimal of the text. -/
theorem exists_parse_of_parse?
    {text : String} {n : Scaled} (h : parse? text = some (.ok n)) :
    ∃ d, Decimal.parse text = .ok d ∧ d.scaled = n := by
  rcases parse?_outcome text with ⟨hnone, -⟩ | ⟨herror, -⟩ | ⟨s, e, hs, -, -, hread, hparse⟩
  · rw [h] at hnone
    cases hnone
  · rw [h] at herror
    cases herror
  · rw [h] at hread
    obtain ⟨m, hm, hok⟩ := Option.map_eq_some_iff.1 hread.symm
    obtain rfl := Except.ok.inj hok
    exact ⟨_, hparse, (ofSignificand?_eq_some hs hm).symm⟩

/-- A text of fewer than 2 ^ 31 characters is read in machine integers as it is
read exactly, but for the least exponent. -/
theorem parse?_eq_of_length_lt
    {text : String} (hlength : text.length < twoPow 31) :
    (parse? text = none ∧ Decimal.parse text = .error (.overflow text)) ∨
      (parse? text = some (.error (.invalid text)) ∧
        Decimal.parse text = .error (.invalid text)) ∨
      ∃ d, parse? text = some (.ok d.scaled) ∧ Decimal.parse text = .ok d ∧
        d.scale.natAbs < twoPow 31 + maxExponent := by
  rcases parse?_outcome text with hleast | herror | ⟨s, e, hs, hdigits, he, hread, hparse⟩
  · exact Or.inl hleast
  · exact Or.inr (Or.inl herror)
  · have hscale := natAbs_scale_value_le hs e
    rw [ofSignificand?_eq hs (by omega) he] at hread
    exact Or.inr (Or.inr ⟨s.value e, hread, hparse, by omega⟩)

/-- What is not refused for the least exponent is read, or refused, as it is
exactly. -/
theorem parse?_eq_map
    {text : String} (hlength : text.length < twoPow 31)
    (hleast : Decimal.parse text ≠ .error (.overflow text)) :
    parse? text = some ((Decimal.parse text).map Decimal.scaled) := by
  rcases parse?_eq_of_length_lt hlength with ⟨-, hparse⟩ | ⟨hread, hparse⟩ | ⟨d, hread, hparse, -⟩
  · exact absurd hparse hleast
  · rw [hread, hparse]
    rfl
  · rw [hread, hparse]
    rfl

end Reading

section Writing

variable {d : Decimal}

theorem canonical?_scaled
    (h : int64? (-d.scale) = some (-d.scale)) :
    d.scaled.canonical? = some d.canonical := by
  by_cases hsign : d.mantissa < 0
  · by_cases hscale : d.scale ≤ 0
    · simp [canonical?, scaled, hscale, h, hsign, canonical, canonicalChars, digits, isNegative]
    · simp [canonical?, scaled, hscale, hsign, canonical, canonicalChars, digits, isNegative]
  · by_cases hscale : d.scale ≤ 0
    · simp [canonical?, scaled, hscale, h, hsign, canonical, canonicalChars, digits, isNegative]
    · simp [canonical?, scaled, hscale, hsign, canonical, canonicalChars, digits, isNegative]

theorem toInt?_scaled
    (h : int64? (-d.scale) = some (-d.scale)) (hzeros : -d.scale < twoPow 32) :
    d.scaled.toInt? = some d.toInt? := by
  by_cases hscale : d.scale ≤ 0
  · have hexponent : exponent32? (-d.scale) = some (-d.scale).toNat := if_pos (by omega)
    have hpower : tenPow32 (-d.scale).toNat = tenPow (-d.scale).toNat := tenPow32_eq (by omega)
    simp [toInt?, Decimal.toInt?, scaled, hscale, h, hexponent, hpower]
  · have hpositive : 0 < d.scale := by omega
    simp [toInt?, Decimal.toInt?, scaled, hscale, hpositive]

theorem toIntWithin?_scaled
    (h : int64? (-d.scale) = some (-d.scale)) (hzeros : -d.scale < twoPow 32)
    (lower upper : Int) :
    d.scaled.toIntWithin? lower upper = some (d.toIntWithin? lower upper) := by
  have hscale : d.scaled.scale = d.scale := rfl
  rw [toIntWithin?, Decimal.toIntWithin?, hscale, h, toInt?_scaled h hzeros]
  by_cases hmany : maxMachineZeros < -d.scale
  · rw [if_pos hmany]
    exact if_pos hmany
  · rw [if_neg hmany]
    exact if_neg hmany

end Writing

section LeastExponent

/-- The reading of a text of fewer than 2 ^ 31 characters leaves the range of
64-bit integers exactly if its exponent is the least of them.  Otherwise the text
is read as its decimal, or refused as it is exactly; an exponent beyond the limit
is refused.  The scale of what is read may be negated, so that the number is
written and converted to integers as its decimal. -/
theorem reading_leavesRange_iff
    (text : String) (hlength : text.length < twoPow 31) :
    (parse? text = none ↔ HasLeastExponent text) ∧
      (¬ HasLeastExponent text →
        (∃ d, Decimal.parse text = .ok d ∧ parse? text = some (.ok d.scaled)) ∨
          (Decimal.parse text = .error (.invalid text) ∧
            parse? text = some (.error (.invalid text)))) ∧
      (∀ n : Numeral, n.WellFormed → Text.Encloses text n.chars →
        maxExponent < n.exponentValue.natAbs → n.exponentValue ≠ -twoPow 63 →
          parse? text = some (.error (.invalid text))) ∧
      ∀ n, parse? text = some (.ok n) →
        int64? (-n.scale) = some (-n.scale) ∧
          ∃ d, Decimal.parse text = .ok d ∧ n.canonical? = some d.canonical ∧
            n.toInt? = some d.toInt? ∧ n.toInt64? = some d.toInt64? ∧
              n.toUInt64? = some d.toUInt64? := by
  have hreading := parse?_eq_of_length_lt hlength
  refine ⟨?_, ?_, ?_, ?_⟩
  · rw [← parse_eq_overflow_iff]
    rcases hreading with ⟨hnone, hparse⟩ | ⟨herror, hparse⟩ | ⟨d, hread, hparse, -⟩
    · exact iff_of_true hnone hparse
    · rw [herror, hparse]
      exact iff_of_false nofun nofun
    · rw [hread, hparse]
      exact iff_of_false nofun nofun
  · intro hleast
    rcases hreading with ⟨-, hparse⟩ | ⟨herror, hparse⟩ | ⟨d, hread, hparse, -⟩
    · exact absurd (parse_eq_overflow_iff.1 hparse) hleast
    · exact Or.inr ⟨hparse, herror⟩
    · exact Or.inl ⟨d, hparse, hread⟩
  · intro n hn htext hlimit hleast
    have hrefused := Numeral.parse_of_encloses hn htext
    rw [if_neg hleast, if_pos hlimit] at hrefused
    rcases hreading with ⟨-, hparse⟩ | ⟨herror, -⟩ | ⟨d, -, hparse, -⟩
    · rw [hrefused] at hparse
      cases hparse
    · exact herror
    · rw [hrefused] at hparse
      cases hparse
  · intro n hn
    rcases hreading with ⟨hnone, -⟩ | ⟨herror, -⟩ | ⟨d, hread, hparse, hscale⟩
    · rw [hn] at hnone
      cases hnone
    · rw [hn] at herror
      cases herror
    · rw [hn, Option.some.injEq, Except.ok.injEq] at hread
      subst hread
      have hwidths := widths_lt
      have hnegated : int64? (-d.scale) = some (-d.scale) := int64?_eq_some (by omega)
      have hzeros : -d.scale < twoPow 32 := by omega
      exact ⟨hnegated, d, hparse, canonical?_scaled hnegated, toInt?_scaled hnegated hzeros,
        toIntWithin?_scaled hnegated hzeros _ _, toIntWithin?_scaled hnegated hzeros _ _⟩

theorem reading_leavesRange_iff_fraction :
    "12.50e-3".length < twoPow 31 ∧ parse? "12.50e-3" = some (.ok ⟨125, 4⟩) ∧
      ¬ HasLeastExponent "12.50e-3" ∧ int64? (-4) = some (-4) ∧
        (⟨125, 4⟩ : Scaled).canonical? = some "0.0125" := by
  have hlength : "12.50e-3".length < twoPow 31 := by decide
  have hread : parse? "12.50e-3" = some (.ok ⟨125, 4⟩) := by decide +kernel
  obtain ⟨hleast, -, -, hnumber⟩ := reading_leavesRange_iff "12.50e-3" hlength
  refine ⟨hlength, hread, ?_, (hnumber _ hread).1, by decide +kernel⟩
  intro h
  rw [hleast.2 h] at hread
  cases hread

/-- The least 64-bit integer as an exponent is beyond the limit, but is not
refused for that: its magnitude is out of range. -/
theorem not_refused_leastExponent :
    "1e-9223372036854775808".length < twoPow 31 ∧
      exponentValue? "-9223372036854775808".toList = some (-twoPow 63 : Int) ∧
        maxExponent < (-twoPow 63 : Int).natAbs ∧
          parse? "1e-9223372036854775808" = none := by
  refine ⟨by decide, by rfl, by decide, ?_⟩
  have hnone : (parse? "1e-9223372036854775808").isNone = true := by decide +kernel
  exact Option.isNone_iff_eq_none.1 hnone

end LeastExponent

end Scaled
end TypedConfig
