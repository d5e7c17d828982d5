import TypedConfig.Fields

/-!
# Types

Types are trees that are compared by structure.  The attributes of an object
type are listed by name; some of the names are marked optional, which says that
input may leave these attributes out.  Stored values have types without marks.

Dynamic stands for a type that is decided by the data.
-/

namespace TypedConfig

/-- The types of values. -/
inductive Ty where
  | bool
  | number
  | string
  | list (element : Ty)
  | set (element : Ty)
  | map (element : Ty)
  | tuple (elements : List Ty)
  | object (attributes : List (String × Ty)) (optional : List String)
  | dynamic
  deriving Inhabited

namespace Ty

/-- The object type with the given attributes, of which the listed names are
marked optional.  Listed names that are not attributes have no effect. -/
def objectWith (attributes : Fields Ty) (optional : List String) : Ty :=
  .object attributes ((Fields.names attributes).filter optional.contains)

/-- The object type with the given attributes, none of them optional. -/
def objectOf (attributes : Fields Ty) : Ty :=
  .object attributes []

/-- The object type without attributes. -/
def emptyObject : Ty := .object [] []

/-- Whether the type is bool, number or string. -/
def isPrimitive : Ty → Bool
  | .bool | .number | .string => true
  | _ => false

/-- Whether the type is the dynamic type itself. -/
def isDynamic : Ty → Bool
  | .dynamic => true
  | _ => false

/-- The element type of a list, set or map. -/
def element? : Ty → Option Ty
  | .list e | .set e | .map e => some e
  | _ => none

/-- The attributes of an object type. -/
def attributes? : Ty → Option (Fields Ty)
  | .object attributes _ => some attributes
  | _ => none

/-- The names of the attributes of an object type that are marked optional. -/
def optional? : Ty → Option (List String)
  | .object _ optional => some optional
  | _ => none

/-- The short name of the kind of a type. -/
def kind : Ty → String
  | .bool => "bool"
  | .number => "number"
  | .string => "string"
  | .list _ => "list"
  | .set _ => "set"
  | .map _ => "map"
  | .tuple _ => "tuple"
  | .object _ _ => "object"
  | .dynamic => "dynamic"

mutual

/-- Whether the dynamic type occurs anywhere in a type. -/
def hasDynamic : Ty → Bool
  | .dynamic => true
  | .bool | .number | .string => false
  | .list e | .set e | .map e => e.hasDynamic
  | .tuple elements => anyDynamic elements
  | .object attributes _ => anyAttributeDynamic attributes

/-- Whether the dynamic type occurs in any of the elements. -/
def anyDynamic : List Ty → Bool
  | [] => false
  | t :: rest => t.hasDynamic || anyDynamic rest

/-- Whether the dynamic type occurs in any of the attributes. -/
def anyAttributeDynamic : List (String × Ty) → Bool
  | [] => false
  | (_, t) :: rest => t.hasDynamic || anyAttributeDynamic rest

end

mutual

/-- The type without optional marks, which is the type of stored values. -/
def storage : Ty → Ty
  | .bool => .bool
  | .number => .number
  | .string => .string
  | .dynamic => .dynamic
  | .list e => .list e.storage
  | .set e => .set e.storage
  | .map e => .map e.storage
  | .tuple elements => .tuple (storageAll elements)
  | .object attributes _ => .object (storageAttributes attributes) []

/-- The storage types of elements. -/
def storageAll : List Ty → List Ty
  | [] => []
  | t :: rest => t.storage :: storageAll rest

/-- The storage types of attributes. -/
def storageAttributes : List (String × Ty) → List (String × Ty)
  | [] => []
  | (name, t) :: rest => (name, t.storage) :: storageAttributes rest

end

mutual

/-- The text of a type, which writes optional attributes as such. -/
def text : Ty → String
  | .list e => "list(" ++ e.text ++ ")"
  | .set e => "set(" ++ e.text ++ ")"
  | .map e => "map(" ++ e.text ++ ")"
  | .tuple elements => "tuple([" ++ elementsText true elements ++ "])"
  | .object attributes optional =>
      "object(\x7b" ++ attributesText true optional attributes ++ "\x7d)"
  | .bool => "bool"
  | .number => "number"
  | .string => "string"
  | .dynamic => "dynamic"

/-- The texts of elements, each but the first after a comma. -/
def elementsText (first : Bool) : List Ty → String
  | [] => ""
  | t :: rest => (if first then "" else ", ") ++ t.text ++ elementsText false rest

/-- The texts of attributes, each but the first after a comma. -/
def attributesText (first : Bool) (optional : List String) : List (String × Ty) → String
  | [] => ""
  | (name, t) :: rest =>
      (if first then "" else ", ") ++ name ++ "=" ++
        (if optional.contains name then "optional(" ++ t.text ++ ")" else t.text) ++
        attributesText false optional rest

end

mutual

/-- Whether at every object the attributes and the optional names are in order
and every optional name is the name of an attribute. -/
def WellFormed : Ty → Prop
  | .bool | .number | .string | .dynamic => True
  | .list e | .set e | .map e => e.WellFormed
  | .tuple elements => AllWellFormed elements
  | .object attributes optional =>
      Fields.Sorted attributes ∧ optional.Pairwise (fun a b => compare a b = .lt) ∧
        (∀ name ∈ optional, name ∈ Fields.names attributes) ∧
        AttributesWellFormed attributes

/-- Whether every element is well formed. -/
def AllWellFormed : List Ty → Prop
  | [] => True
  | t :: rest => t.WellFormed ∧ AllWellFormed rest

/-- Whether the type of every attribute is well formed. -/
def AttributesWellFormed : List (String × Ty) → Prop
  | [] => True
  | (_, t) :: rest => t.WellFormed ∧ AttributesWellFormed rest

end

theorem anyDynamic_eq_any
    (elements : List Ty) :
    anyDynamic elements = elements.any hasDynamic := by
  induction elements with
  | nil => rfl
  | cons t rest ih => simp [anyDynamic, ih]

theorem anyAttributeDynamic_eq_any
    (attributes : Fields Ty) :
    anyAttributeDynamic attributes = attributes.any fun a => a.2.hasDynamic := by
  induction attributes with
  | nil => rfl
  | cons a rest ih => simp [anyAttributeDynamic, ih]

theorem storageAll_eq_map
    (elements : List Ty) :
    storageAll elements = elements.map storage := by
  induction elements with
  | nil => rfl
  | cons t rest ih => simp [storageAll, ih]

theorem storageAttributes_eq_mapValues
    (attributes : Fields Ty) :
    storageAttributes attributes = Fields.mapValues storage attributes := by
  induction attributes with
  | nil => rfl
  | cons a rest ih => simpa [storageAttributes, Fields.mapValues] using ih

mutual

/-- Taking the marks off twice is taking them off. -/
@[simp] theorem storage_storage :
    ∀ t : Ty, t.storage.storage = t.storage
  | .bool | .number | .string | .dynamic => rfl
  | .list e | .set e | .map e => by simp [storage, storage_storage e]
  | .tuple elements => by simp [storage, storageAll_storageAll elements]
  | .object attributes _ => by simp [storage, storageAttributes_storageAttributes attributes]

theorem storageAll_storageAll :
    ∀ elements : List Ty, storageAll (storageAll elements) = storageAll elements
  | [] => rfl
  | t :: rest => by simp [storageAll, storage_storage t, storageAll_storageAll rest]

theorem storageAttributes_storageAttributes :
    ∀ attributes : List (String × Ty),
      storageAttributes (storageAttributes attributes) = storageAttributes attributes
  | [] => rfl
  | (_, t) :: rest => by
      simp [storageAttributes, storage_storage t, storageAttributes_storageAttributes rest]

end

mutual

/-- The marks do not hide or add the dynamic type. -/
@[simp] theorem hasDynamic_storage :
    ∀ t : Ty, t.storage.hasDynamic = t.hasDynamic
  | .bool | .number | .string | .dynamic => rfl
  | .list e | .set e | .map e => by simp [storage, hasDynamic, hasDynamic_storage e]
  | .tuple elements => by simp [storage, hasDynamic, anyDynamic_storageAll elements]
  | .object attributes _ => by
      simp [storage, hasDynamic, anyAttributeDynamic_storageAttributes attributes]

theorem anyDynamic_storageAll :
    ∀ elements : List Ty, anyDynamic (storageAll elements) = anyDynamic elements
  | [] => rfl
  | t :: rest => by
      simp [storageAll, anyDynamic, hasDynamic_storage t, anyDynamic_storageAll rest]

theorem anyAttributeDynamic_storageAttributes :
    ∀ attributes : List (String × Ty),
      anyAttributeDynamic (storageAttributes attributes) = anyAttributeDynamic attributes
  | [] => rfl
  | (_, t) :: rest => by
      simp [storageAttributes, anyAttributeDynamic, hasDynamic_storage t,
        anyAttributeDynamic_storageAttributes rest]

end

end Ty
end TypedConfig
