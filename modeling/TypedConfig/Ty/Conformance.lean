import TypedConfig.Path
import TypedConfig.Ty.Basic

/-!
# Conformance of types

A type conforms to a wanted type if values of the first may stand where the
second is wanted.  Dynamic accepts every type; all other types have to match by
structure, their optional marks aside.

Besides the test there is the list of the places where a type does not conform.
The main statement says that the list is empty exactly when the test succeeds.
-/

namespace TypedConfig
namespace Ty

mutual

/-- Whether a type conforms to a wanted type. -/
def conformsTo : Ty → Ty → Bool
  | _, .dynamic => true
  | .bool, .bool => true
  | .number, .number => true
  | .string, .string => true
  | .list got, .list want => got.conformsTo want
  | .set got, .set want => got.conformsTo want
  | .map got, .map want => got.conformsTo want
  | .tuple got, .tuple want => allConform got want
  | .object got _, .object want _ =>
      (Fields.names want).all (fun name => Fields.contains name got) &&
        attributesConform got want
  | _, _ => false

/-- Whether two sequences are equally long and conform element by element. -/
def allConform : List Ty → List Ty → Bool
  | [], [] => true
  | got :: gots, want :: wants => got.conformsTo want && allConform gots wants
  | _, _ => false

/-- Whether every attribute is wanted and conforms to the wanted type. -/
def attributesConform : List (String × Ty) → Fields Ty → Bool
  | [], _ => true
  | (name, got) :: rest, wants =>
      (match Fields.get? name wants with
        | some want => got.conformsTo want
        | none => false) && attributesConform rest wants

end

/-- Why a type does not conform at some place. -/
inductive MismatchCause where
  | tupleLength (wanted got : Nat)
  | missingAttribute (name : String)
  | unsupportedAttribute (name : String)
  | kind (wanted got : Ty)

/-- A place where a type does not conform to the wanted type. -/
structure Mismatch where
  path : Path
  cause : MismatchCause

/-- The wording of a cause. -/
def MismatchCause.message : MismatchCause → String
  | .tupleLength wanted got =>
      "tuple must have " ++ toString wanted ++ " elements, not " ++ toString got
  | .missingAttribute name => "attribute \"" ++ name ++ "\" is required"
  | .unsupportedAttribute name => "unsupported attribute \"" ++ name ++ "\""
  | .kind wanted got => wanted.text ++ " required, but got " ++ got.text

/-- A message after the place it is about; the root needs no mention. -/
def located (path message : String) : String :=
  if path.isEmpty then message else path ++ ": " ++ message

/-- The text of the place. -/
def Mismatch.pathText (m : Mismatch) : String :=
  Path.text "" m.path

/-- The full text of a mismatch. -/
def Mismatch.text (m : Mismatch) : String :=
  located m.pathText m.cause.message

/-- A mismatch of a part, seen from the whole. -/
def Mismatch.under (step : PathStep) (m : Mismatch) : Mismatch :=
  { m with path := step :: m.path }

/-- A mismatch at the root. -/
def Mismatch.here (cause : MismatchCause) : Mismatch :=
  ⟨[], cause⟩

mutual

/-- The places where a type does not conform to a wanted type, in order. -/
def mismatches : Ty → Ty → List Mismatch
  | _, .dynamic => []
  | .bool, .bool => []
  | .number, .number => []
  | .string, .string => []
  | .list got, .list want => (got.mismatches want).map (·.under .anyElement)
  | .set got, .set want => (got.mismatches want).map (·.under .anyElement)
  | .map got, .map want => (got.mismatches want).map (·.under .anyElement)
  | .tuple got, .tuple want =>
      if got.length = want.length then
        elementMismatches 0 got want
      else
        [.here (.tupleLength want.length got.length)]
  | .object got _, .object want _ =>
      ((Fields.names want).filter fun name => !Fields.contains name got).map
          (fun name => .here (.missingAttribute name)) ++
        attributeMismatches got want
  | got, want => [.here (.kind want got)]

/-- The mismatches of the elements of equally long tuples, counted from a
number on. -/
def elementMismatches (i : Nat) : List Ty → List Ty → List Mismatch
  | got :: gots, want :: wants =>
      (got.mismatches want).map (·.under (.index i)) ++ elementMismatches (i + 1) gots wants
  | _, _ => []

/-- The mismatches of the attributes of an object. -/
def attributeMismatches : List (String × Ty) → Fields Ty → List Mismatch
  | [], _ => []
  | (name, got) :: rest, wants =>
      (match Fields.get? name wants with
        | some want => (got.mismatches want).map (·.under (.attribute name))
        | none => [.here (.unsupportedAttribute name)]) ++ attributeMismatches rest wants

end

theorem allConform_length
    {gots wants : List Ty} (h : allConform gots wants = true) :
    gots.length = wants.length := by
  induction gots generalizing wants with
  | nil => cases wants <;> simp_all [allConform]
  | cons got gots ih =>
      cases wants with
      | nil => simp [allConform] at h
      | cons want wants =>
          simp only [allConform, Bool.and_eq_true] at h
          simp [ih h.2]

mutual

/-- A type conforms exactly when there is no place where it does not. -/
theorem mismatches_eq_nil_iff :
    ∀ got want : Ty, got.mismatches want = [] ↔ got.conformsTo want = true
  | got, .dynamic => by cases got <;> simp [mismatches, conformsTo]
  | .list got, .list want => by
      simp [mismatches, conformsTo, mismatches_eq_nil_iff got want]
  | .set got, .set want => by
      simp [mismatches, conformsTo, mismatches_eq_nil_iff got want]
  | .map got, .map want => by
      simp [mismatches, conformsTo, mismatches_eq_nil_iff got want]
  | .tuple got, .tuple want => by
      simp only [mismatches, conformsTo]
      split
      · rename_i h
        exact elementMismatches_eq_nil_iff 0 got want h
      · rename_i h
        refine ⟨by simp, fun hall => absurd (allConform_length hall) h⟩
  | .object got _, .object want _ => by
      simp [mismatches, conformsTo, attributeMismatches_eq_nil_iff got want]
  | .bool, want => by cases want <;> simp [mismatches, conformsTo]
  | .number, want => by cases want <;> simp [mismatches, conformsTo]
  | .string, want => by cases want <;> simp [mismatches, conformsTo]
  | .dynamic, want => by cases want <;> simp [mismatches, conformsTo]
  | .list _, .bool | .list _, .number | .list _, .string | .list _, .set _ | .list _, .map _
  | .list _, .tuple _ | .list _, .object _ _ => by simp [mismatches, conformsTo]
  | .set _, .bool | .set _, .number | .set _, .string | .set _, .list _ | .set _, .map _
  | .set _, .tuple _ | .set _, .object _ _ => by simp [mismatches, conformsTo]
  | .map _, .bool | .map _, .number | .map _, .string | .map _, .list _ | .map _, .set _
  | .map _, .tuple _ | .map _, .object _ _ => by simp [mismatches, conformsTo]
  | .tuple _, .bool | .tuple _, .number | .tuple _, .string | .tuple _, .list _
  | .tuple _, .set _ | .tuple _, .map _ | .tuple _, .object _ _ => by
      simp [mismatches, conformsTo]
  | .object _ _, .bool | .object _ _, .number | .object _ _, .string | .object _ _, .list _
  | .object _ _, .set _ | .object _ _, .map _ | .object _ _, .tuple _ => by
      simp [mismatches, conformsTo]

theorem elementMismatches_eq_nil_iff (i : Nat) :
    ∀ gots wants : List Ty, gots.length = wants.length →
      (elementMismatches i gots wants = [] ↔ allConform gots wants = true)
  | [], [], _ => by simp [elementMismatches, allConform]
  | got :: gots, want :: wants, h => by
      have hlen : gots.length = wants.length := by simpa using h
      simp [elementMismatches, allConform, mismatches_eq_nil_iff got want,
        elementMismatches_eq_nil_iff (i + 1) gots wants hlen]

theorem attributeMismatches_eq_nil_iff :
    ∀ (gots : List (String × Ty)) (wants : Fields Ty),
      attributeMismatches gots wants = [] ↔ attributesConform gots wants = true
  | [], _ => by simp [attributeMismatches, attributesConform]
  | (name, got) :: rest, wants => by
      simp only [attributeMismatches, attributesConform, List.append_eq_nil_iff,
        Bool.and_eq_true, attributeMismatches_eq_nil_iff rest wants]
      split
      · rename_i want _
        simp [mismatches_eq_nil_iff got want]
      · simp

end

end Ty
end TypedConfig
