/-!
# Blank characters

Number literals may be surrounded by blanks.  A blank is a character with the
Unicode property White_Space, of which there are twenty-five.  This module
holds the table and the trimming of a character list, and shows that trimming
takes blanks only and leaves none at either end.
-/

namespace TypedConfig
namespace Text

/-- Whether a character has the Unicode property White_Space. -/
def isBlank (c : Char) : Bool :=
  let n := c.toNat
  (9 ≤ n && n ≤ 13) || n == 0x20 || n == 0x85 || n == 0xA0 || n == 0x1680 ||
    (0x2000 ≤ n && n ≤ 0x200A) || n == 0x2028 || n == 0x2029 || n == 0x202F ||
    n == 0x205F || n == 0x3000

/-- The list without its leading blanks. -/
def trimStart (cs : List Char) : List Char :=
  cs.dropWhile isBlank

/-- The list without its trailing blanks. -/
def trimEnd (cs : List Char) : List Char :=
  (cs.reverse.dropWhile isBlank).reverse

/-- The list without the blanks around it. -/
def trim (cs : List Char) : List Char :=
  trimEnd (trimStart cs)

theorem trimStart_eq_self
    {c : Char} {cs : List Char} (h : isBlank c = false) :
    trimStart (c :: cs) = c :: cs := by
  simp [trimStart, h]

/-- What is trimmed at the start is blank. -/
theorem eq_append_trimStart
    (cs : List Char) :
    ∃ before, (∀ c ∈ before, isBlank c = true) ∧ cs = before ++ trimStart cs := by
  induction cs with
  | nil => exact ⟨[], by simp, by simp [trimStart]⟩
  | cons c cs ih =>
      by_cases h : isBlank c = true
      · obtain ⟨before, hbefore, heq⟩ := ih
        refine ⟨c :: before, ?_, ?_⟩
        · simpa [h] using hbefore
        · simpa [trimStart, h] using heq
      · exact ⟨[], by simp, by simp [trimStart, h]⟩

/-- What is trimmed at the end is blank. -/
theorem eq_trimEnd_append
    (cs : List Char) :
    ∃ after, (∀ c ∈ after, isBlank c = true) ∧ cs = trimEnd cs ++ after := by
  obtain ⟨before, hbefore, heq⟩ := eq_append_trimStart cs.reverse
  refine ⟨before.reverse, by simpa using hbefore, ?_⟩
  have h := congrArg List.reverse heq
  simpa [trimEnd, trimStart] using h

/-- A text is its trimmed form between blanks. -/
theorem eq_append_trim_append
    (cs : List Char) :
    ∃ before after,
      (∀ c ∈ before, isBlank c = true) ∧ (∀ c ∈ after, isBlank c = true) ∧
        cs = before ++ trim cs ++ after := by
  obtain ⟨before, hbefore, heq⟩ := eq_append_trimStart cs
  obtain ⟨after, hafter, heq'⟩ := eq_trimEnd_append (trimStart cs)
  refine ⟨before, after, hbefore, hafter, ?_⟩
  rw [List.append_assoc, trim, ← heq', ← heq]

end Text
end TypedConfig
