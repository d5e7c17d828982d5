import TypedConfig.Proofs.Decimal.Numeral
import TypedConfig.Proofs.Outcome
import TypedConfig.Proofs.Ty.Parts
import TypedConfig.Value.Conversion

/-!
# Where conversion leaves the range

A conversion takes a value apart and stops at the first part that it cannot convert.  Of
all parts only a string that is read as a number may leave the range of 64-bit integers,
and only one whose exponent is the least of them: `hasLeastExponent_of_convert`.
-/

namespace TypedConfig

theorem ConversionError.leavesRange_iff
    {e : ConversionError} :
    e.leavesRange = true ↔ ∃ path text, e = ⟨path, .overflow text⟩ := by
  obtain ⟨path, cause⟩ := e
  cases cause <;> simp [leavesRange]

namespace Value

section Outcomes

variable {α β : Type} {outcome : Except ConversionError α} {e : ConversionError}

/-- Whether the range is left, if at all, at a text whose exponent is the least 64-bit
integer. -/
def OverflowsJustly (outcome : Except ConversionError α) : Prop :=
  ∀ path text, outcome = .error ⟨path, .overflow text⟩ → Decimal.HasLeastExponent text

theorem overflowsJustly_ok
    (a : α) :
    OverflowsJustly (.ok a) :=
  nofun

/-- A failure that is reported is no overflow. -/
theorem overflowsJustly_error
    (h : e.leavesRange = false) :
    OverflowsJustly (.error e : Except ConversionError α) := by
  rintro path text heq
  rw [Except.error.inj heq] at h
  cases h

/-- The failure of a part is that of the whole. -/
theorem OverflowsJustly.failed
    (h : OverflowsJustly outcome) (he : outcome = .error e) :
    OverflowsJustly (.error e : Except ConversionError β) := by
  intro path text heq
  rw [Except.error.inj heq] at he
  exact h path text he

/-- The place of the failure may be seen from the whole. -/
theorem OverflowsJustly.under
    (h : OverflowsJustly outcome) (he : outcome = .error e) (step : PathStep) :
    OverflowsJustly (.error (e.under step) : Except ConversionError β) := by
  obtain ⟨path, cause⟩ := e
  intro place text heq
  obtain ⟨-, rfl⟩ := ConversionError.mk.inj (Except.error.inj heq)
  exact h path text he

theorem OverflowsJustly.map
    (h : OverflowsJustly outcome) (f : α → β) :
    OverflowsJustly (outcome.map f) := by
  cases outcome with
  | ok a => exact overflowsJustly_ok (f a)
  | error e => exact h.failed rfl

end Outcomes

section Parts

variable {f : Value → Except ConversionError Value} (hf : ∀ v, OverflowsJustly (f v))
include hf

theorem overflowsJustly_convertEach
    (i : Nat) (elements : List Value) :
    OverflowsJustly (convertEach f i elements) := by
  induction elements generalizing i with
  | nil => exact overflowsJustly_ok []
  | cons v rest ih =>
      rw [convertEach]
      split
      · rename_i e he
        exact (hf v).under he (.index i)
      · exact (ih (i + 1)).map _

theorem overflowsJustly_convertEntries
    (entries : Fields Value) :
    OverflowsJustly (convertEntries f entries) := by
  induction entries with
  | nil => exact overflowsJustly_ok []
  | cons entry rest ih =>
      rw [convertEntries]
      split
      · rename_i e he
        exact (hf entry.2).under he (.key entry.1)
      · exact ih.map _

end Parts

section Members

theorem overflowsJustly_convertElements
    {types : List Ty} (ht : ∀ t ∈ types, ∀ v, OverflowsJustly (convert t v))
    (i : Nat) (elements : List Value) :
    OverflowsJustly (convertElements i types elements) := by
  induction types generalizing i elements with
  | nil => exact overflowsJustly_ok []
  | cons t types ih =>
      rw [List.forall_mem_cons] at ht
      cases elements with
      | nil => exact overflowsJustly_ok []
      | cons v rest =>
          rw [convertElements]
          split
          · rename_i e he
            exact (ht.1 v).under he (.index i)
          · exact (ih ht.2 (i + 1) rest).map _

theorem overflowsJustly_missingAttribute
    (optional : List String) (name : String) (t : Ty) :
    OverflowsJustly (missingAttribute optional name t) := by
  unfold missingAttribute
  split
  · exact overflowsJustly_ok _
  · exact overflowsJustly_error rfl

theorem overflowsJustly_convertAttributes
    (optional : List String) (entries : Fields Value)
    {wants : List (String × Ty)} (ht : ∀ a ∈ wants, ∀ v, OverflowsJustly (convert a.2 v)) :
    OverflowsJustly (convertAttributes optional entries wants) := by
  induction wants with
  | nil => exact overflowsJustly_ok []
  | cons a rest ih =>
      obtain ⟨name, t⟩ := a
      rw [List.forall_mem_cons] at ht
      rw [convertAttributes]
      split
      · rename_i e he
        split at he
        · rename_i v _
          obtain ⟨_, hv, rfl⟩ := mapError_eq_error_iff.1 he
          exact (ht.1 v).under hv (.attribute name)
        · exact (overflowsJustly_missingAttribute optional name t).failed he
      · exact (ih ht.2).map _

end Members

theorem overflowsJustly_numberOfString
    (s : String) :
    OverflowsJustly (numberOfString s) := by
  unfold numberOfString
  split
  · exact overflowsJustly_ok _
  · exact overflowsJustly_error rfl
  · rename_i quoted hparse
    intro path text heq
    obtain ⟨-, hcause⟩ := ConversionError.mk.inj (Except.error.inj heq)
    rw [← ConversionCause.overflow.inj hcause]
    exact Decimal.hasLeastExponent_of_parse hparse

theorem overflowsJustly_boolOfString
    (s : String) :
    OverflowsJustly (boolOfString s) := by
  unfold boolOfString
  split
  · exact overflowsJustly_ok _
  · exact overflowsJustly_ok _
  · exact overflowsJustly_error rfl

theorem overflowsJustly_convert
    (want : Ty) (v : Value) :
    OverflowsJustly (convert want v) := by
  induction want using Ty.induction generalizing v with
  | dynamic =>
      cases v with
      | noValue => exact overflowsJustly_error rfl
      | _ => exact overflowsJustly_ok _
  | bool =>
      cases v with
      | string s => exact overflowsJustly_boolOfString s
      | null t | unknown t | bool b => exact overflowsJustly_ok _
      | _ => exact overflowsJustly_error rfl
  | number =>
      cases v with
      | string s => exact overflowsJustly_numberOfString s
      | null t | unknown t | number n => exact overflowsJustly_ok _
      | _ => exact overflowsJustly_error rfl
  | string =>
      cases v with
      | null t | unknown t | string s | number n | bool b => exact overflowsJustly_ok _
      | _ => exact overflowsJustly_error rfl
  | list e ih | set e ih =>
      cases v with
      | null t | unknown t => exact overflowsJustly_ok _
      | list _ elements | set _ elements | tuple elements =>
          exact (overflowsJustly_convertEach ih 0 elements).map _
      | _ => exact overflowsJustly_error rfl
  | map e ih =>
      cases v with
      | null t | unknown t => exact overflowsJustly_ok _
      | map _ entries | object entries =>
          exact (overflowsJustly_convertEntries ih entries).map _
      | _ => exact overflowsJustly_error rfl
  | tuple types ih =>
      cases v with
      | null t | unknown t => exact overflowsJustly_ok _
      | list _ elements | tuple elements =>
          rw [convert, tupleOfConverted]
          split
          · exact (overflowsJustly_convertElements ih 0 elements).map _
          · exact overflowsJustly_error rfl
      | _ => exact overflowsJustly_error rfl
  | object wants optional ih =>
      cases v with
      | null t | unknown t => exact overflowsJustly_ok _
      | map _ entries | object entries =>
          rw [convert, objectOfConverted]
          split
          · exact overflowsJustly_error rfl
          · exact (overflowsJustly_convertAttributes optional entries ih).map _
      | _ => exact overflowsJustly_error rfl

/-- Where a conversion leaves the range, it reads a text whose exponent is the least
64-bit integer. -/
theorem hasLeastExponent_of_convert
    {want : Ty} {v : Value} {path : Path} {text : String}
    (h : convert want v = .error ⟨path, .overflow text⟩) :
    Decimal.HasLeastExponent text :=
  overflowsJustly_convert want v path text h

end Value
end TypedConfig
