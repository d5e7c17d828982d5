/-!
# Splitting a text at its first mark

Literals and version texts are read in parts: what stands before the first
character of a kind, and what stands after it, if there is one.  The statements
say that a split text is the two parts with the mark between them, and that
nothing before the mark is of its kind.
-/

namespace TypedConfig
namespace Text

/-- The part before the first character of a kind, and the part after it if
there is one. -/
def splitFirst (isMark : Char → Bool) : List Char → List Char × Option (List Char)
  | [] => ([], none)
  | c :: cs =>
      if isMark c then
        ([], some cs)
      else
        let (before, after) := splitFirst isMark cs
        (c :: before, after)

theorem not_isMark_of_mem_splitFirst
    {isMark : Char → Bool} {c : Char} {cs : List Char}
    (h : c ∈ (splitFirst isMark cs).1) :
    isMark c = false := by
  induction cs with
  | nil => simp [splitFirst] at h
  | cons d cs ih =>
      by_cases hd : isMark d = true
      · simp [splitFirst, hd] at h
      · simp only [splitFirst, hd] at h
        rcases List.mem_cons.1 h with rfl | h
        · simpa using hd
        · exact ih h

/-- Without a mark the whole text comes before it. -/
theorem splitFirst_eq_none
    {isMark : Char → Bool} {cs : List Char} (h : (splitFirst isMark cs).2 = none) :
    (splitFirst isMark cs).1 = cs := by
  induction cs with
  | nil => rfl
  | cons d cs ih =>
      by_cases hd : isMark d = true
      · simp [splitFirst, hd] at h
      · simp only [splitFirst, hd] at h ⊢
        simpa using ih h

/-- With a mark the text is the two parts around it. -/
theorem splitFirst_eq_some
    {isMark : Char → Bool} {cs after : List Char}
    (h : (splitFirst isMark cs).2 = some after) :
    ∃ mark, isMark mark = true ∧ cs = (splitFirst isMark cs).1 ++ mark :: after := by
  induction cs with
  | nil => simp [splitFirst] at h
  | cons d cs ih =>
      by_cases hd : isMark d = true
      · refine ⟨d, hd, ?_⟩
        simpa [splitFirst, hd] using h
      · simp only [splitFirst, hd] at h
        obtain ⟨mark, hmark, heq⟩ := ih h
        refine ⟨mark, hmark, ?_⟩
        simp only [splitFirst, hd]
        simpa using heq

/-- A part without marks, a mark and any rest split there. -/
theorem splitFirst_append
    {isMark : Char → Bool} {before : List Char}
    (hbefore : ∀ c ∈ before, isMark c = false)
    {mark : Char} (hmark : isMark mark = true) (after : List Char) :
    splitFirst isMark (before ++ mark :: after) = (before, some after) := by
  induction before with
  | nil => simp [splitFirst, hmark]
  | cons c cs ih =>
      have hc := hbefore c (by simp)
      have hcs := ih fun d hd => hbefore d (by simp [hd])
      simp [splitFirst, hc, hcs]

theorem splitFirst_of_forall_not
    {isMark : Char → Bool} {cs : List Char} (h : ∀ c ∈ cs, isMark c = false) :
    splitFirst isMark cs = (cs, none) := by
  induction cs with
  | nil => rfl
  | cons c cs ih =>
      have hc := h c (by simp)
      have hcs := ih fun d hd => h d (by simp [hd])
      simp [splitFirst, hc, hcs]

end Text
end TypedConfig
