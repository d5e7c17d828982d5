import TypedConfig.Json.Basic
import TypedConfig.Ty.Basic

/-!
# Type expressions

Types are written in JSON: primitive types and the dynamic type as their names,
all others as an array of a constructor's name and its arguments.  An object
type has a further argument, the list of its optional attributes, where there
are any.

The module holds the writer and the reader.  The reader says of a tree that is
no type expression what is wrong with it.
-/

namespace TypedConfig
namespace Ty

mutual

/-- The expression of a type. -/
def toJson : Ty → Json
  | .bool => .string "bool"
  | .number => .string "number"
  | .string => .string "string"
  | .dynamic => .string "dynamic"
  | .list e => .array [.string "list", e.toJson]
  | .set e => .array [.string "set", e.toJson]
  | .map e => .array [.string "map", e.toJson]
  | .tuple elements => .array [.string "tuple", .array (elementsToJson elements)]
  | .object attributes optional =>
      .array (.string "object" :: .object (attributesToJson attributes) ::
        if optional.isEmpty then [] else [.array (optional.map Json.string)])

/-- The expressions of elements. -/
def elementsToJson : List Ty → List Json
  | [] => []
  | t :: rest => t.toJson :: elementsToJson rest

/-- The expressions of attributes by name. -/
def attributesToJson : List (String × Ty) → List (String × Json)
  | [] => []
  | (name, t) :: rest => (name, t.toJson) :: attributesToJson rest

end

/-- Why a JSON tree is not a type expression. -/
inductive ExpressionError where
  /-- A string that names no primitive type. -/
  | unknownPrimitive (name : String)
  /-- An array that does not start with a string. -/
  | missingConstructor
  /-- A constructor that does not exist or has other arguments. -/
  | invalidConstructor (name : String)
  /-- A tree in place of the name of an optional attribute. -/
  | invalidOptional (entry : Json)
  /-- A tree that is neither a string nor an array. -/
  | invalidExpression (j : Json)

/-- The wording of a refused type expression. -/
def ExpressionError.message : ExpressionError → String
  | .unknownPrimitive name => "invalid primitive type name `" ++ name ++ "`"
  | .missingConstructor => "type constructor must start with its kind"
  | .invalidConstructor name => "invalid `" ++ name ++ "` type constructor"
  | .invalidOptional entry =>
      "invalid optional attribute " ++ entry.text ++ " in object type"
  | .invalidExpression j => "invalid type expression " ++ j.text

/-- The type of a name. -/
def ofName (name : String) : Except ExpressionError Ty :=
  match name with
  | "bool" => .ok .bool
  | "number" => .ok .number
  | "string" => .ok .string
  | "dynamic" => .ok .dynamic
  | _ => .error (.unknownPrimitive name)

/-- Reads the names of optional attributes, each of which has to be the name of
an attribute. -/
def readOptional (attributes : Fields Ty) : List Json → Except ExpressionError (List String)
  | [] => .ok []
  | .string name :: rest =>
      if Fields.contains name attributes then
        (readOptional attributes rest).map (name :: ·)
      else
        .error (.invalidOptional (.string name))
  | entry :: _ => .error (.invalidOptional entry)

mutual

/-- Reads a type expression. -/
def ofJson : Json → Except ExpressionError Ty
  | .string name => ofName name
  | .array [.string "list", e] => (ofJson e).map .list
  | .array [.string "set", e] => (ofJson e).map .set
  | .array [.string "map", e] => (ofJson e).map .map
  | .array [.string "tuple", .array elements] => (elementsOfJson elements).map .tuple
  | .array [.string "object", .object attributes] =>
      (attributesOfJson attributes).map fun read => objectOf (Fields.ofList read)
  | .array [.string "object", .object attributes, .array optional] =>
      match attributesOfJson attributes with
      | .error e => .error e
      | .ok read =>
          (readOptional (Fields.ofList read) optional).map (objectWith (Fields.ofList read))
  | .array (.string name :: _) => .error (.invalidConstructor name)
  | .array _ => .error .missingConstructor
  | j => .error (.invalidExpression j)

/-- Reads the type expressions of elements. -/
def elementsOfJson : List Json → Except ExpressionError (List Ty)
  | [] => .ok []
  | item :: rest =>
      match ofJson item with
      | .error e => .error e
      | .ok t => (elementsOfJson rest).map (t :: ·)

/-- Reads the type expressions of attributes. -/
def attributesOfJson : List (String × Json) → Except ExpressionError (List (String × Ty))
  | [] => .ok []
  | (name, item) :: rest =>
      match ofJson item with
      | .error e => .error e
      | .ok t => (attributesOfJson rest).map ((name, t) :: ·)

end

theorem elementsToJson_eq_map
    (elements : List Ty) :
    elementsToJson elements = elements.map toJson := by
  induction elements with
  | nil => rfl
  | cons t rest ih => simp [elementsToJson, ih]

theorem attributesToJson_eq_mapValues
    (attributes : Fields Ty) :
    attributesToJson attributes = Fields.mapValues toJson attributes := by
  induction attributes with
  | nil => rfl
  | cons a rest ih => simpa [attributesToJson, Fields.mapValues] using ih

/-- A name that is read as a type is the expression of that type. -/
theorem toJson_of_ofName
    {name : String} {t : Ty} (h : ofName name = .ok t) :
    t.toJson = .string name := by
  unfold ofName at h
  split at h
  case h_5 => cases h
  all_goals
    cases h
    rfl

end Ty
end TypedConfig
