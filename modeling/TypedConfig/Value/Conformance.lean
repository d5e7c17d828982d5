import TypedConfig.Ty.Conformance
import TypedConfig.Value.Basic

/-!
# Conformance of values

A value conforms to a type if it can stand where that type is expected.  Beyond
the conformance of its type that takes in the empty tuple in place of a list or
set, and the empty object in place of a map, where the elements have dynamic
types: empty collections of such elements are kept in these forms.
-/

namespace TypedConfig
namespace Value

mutual

/-- Whether a value can stand where a type is wanted. -/
def conformsTo : Value → Ty → Bool
  | _, .dynamic => true
  | .noValue, _ => false
  | .null t, want => t.conformsTo want
  | .unknown t, want => t.conformsTo want
  | .bool _, .bool => true
  | .number _, .number => true
  | .string _, .string => true
  | .tuple [], .list e => e.hasDynamic
  | .tuple [], .set e => e.hasDynamic
  | .object [], .map e => e.hasDynamic
  | .list t elements, .list e => t.conformsTo e && allConform elements e
  | .set t elements, .set e => t.conformsTo e && allConform elements e
  | .map t entries, .map e => t.conformsTo e && entriesConform entries e
  | .tuple elements, .tuple types => elementsConform elements types
  | .object attributes, .object wants _ =>
      attributes.length == wants.length && attributesConform attributes wants
  | _, _ => false

/-- Whether all elements can stand where one type is wanted. -/
def allConform : List Value → Ty → Bool
  | [], _ => true
  | v :: rest, want => v.conformsTo want && allConform rest want

/-- Whether all entries can stand where one type is wanted. -/
def entriesConform : List (String × Value) → Ty → Bool
  | [], _ => true
  | (_, v) :: rest, want => v.conformsTo want && entriesConform rest want

/-- Whether there is one element for each type, which conforms to it. -/
def elementsConform : List Value → List Ty → Bool
  | [], [] => true
  | v :: vs, t :: ts => v.conformsTo t && elementsConform vs ts
  | _, _ => false

/-- Whether every attribute is wanted and conforms to its type. -/
def attributesConform : List (String × Value) → Fields Ty → Bool
  | [], _ => true
  | (name, v) :: rest, wants =>
      (match Fields.get? name wants with
        | some t => v.conformsTo t
        | none => false) && attributesConform rest wants

end

theorem conformsTo_dynamic
    (v : Value) :
    v.conformsTo .dynamic = true := by
  cases v <;> simp [conformsTo]

theorem allConform_eq_all
    (elements : List Value) (want : Ty) :
    allConform elements want = elements.all fun v => v.conformsTo want := by
  induction elements with
  | nil => rfl
  | cons v rest ih => simp [allConform, ih]

theorem entriesConform_eq_all
    (entries : Fields Value) (want : Ty) :
    entriesConform entries want = entries.all fun entry => entry.2.conformsTo want := by
  induction entries with
  | nil => rfl
  | cons entry rest ih => simp [entriesConform, ih]

end Value
end TypedConfig
