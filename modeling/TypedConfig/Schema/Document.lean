import TypedConfig.Json.Document
import TypedConfig.Schema.Basic
import TypedConfig.Ty.Expression

/-!
# Schemas as documents

Schemas are written as JSON objects that leave out flags that are not set,
options that are not given, and what a block has none of.  Reading takes such
objects, and any others that say the same.

Each reader is given the number of levels that it may still enter, by which it
ends.
-/

namespace TypedConfig

/-- The name of a nesting mode. -/
def NestingMode.name : NestingMode → String
  | .single => "single"
  | .group => "group"
  | .list => "list"
  | .set => "set"
  | .map => "map"

/-- The nesting mode of a name. -/
def NestingMode.ofName? : String → Option NestingMode
  | "single" => some .single
  | "group" => some .group
  | "list" => some .list
  | "set" => some .set
  | "map" => some .map
  | _ => none

@[simp] theorem NestingMode.ofName?_name
    (mode : NestingMode) :
    ofName? mode.name = some mode := by
  cases mode <;> rfl

/-- Reads a type inside a document. -/
def Ty.read (levels : Nat) (j : Json.Source) : Except DocumentError Ty :=
  match j.generic levels with
  | .error e => .error e
  | .ok generic =>
      match Ty.ofJson generic with
      | .ok t => .ok t
      | .error _ => .error .mismatch

namespace Schema

open Json

mutual

/-- The document of an attribute. -/
def Attribute.toJson : Attribute → Json
  | ⟨type, nested, required, optional, computed, sensitive, description⟩ =>
      .object (fieldOf? "type" Ty.toJson type ++ nestedToJson nested ++
        fieldIf required "required" (.bool true) ++ fieldIf optional "optional" (.bool true) ++
        fieldIf computed "computed" (.bool true) ++ fieldIf sensitive "sensitive" (.bool true) ++
        fieldOf? "description" Json.string description)

/-- The field of an attribute that holds its nested type. -/
def nestedToJson : Option NestedType → List (String × Json)
  | none => []
  | some n => [("nested_type", n.toJson)]

/-- The document of a nested type. -/
def NestedType.toJson : NestedType → Json
  | ⟨mode, attributes⟩ =>
      .object [("nesting_mode", .string mode.name),
        ("attributes", .object (attributesToJson attributes))]

/-- The documents of attributes by name. -/
def attributesToJson : List (String × Attribute) → List (String × Json)
  | [] => []
  | (name, a) :: rest => (name, a.toJson) :: attributesToJson rest

end

mutual

/-- The document of a block. -/
def Block.toJson : Block → Json
  | ⟨attributes, blockTypes, description⟩ =>
      .object (fieldIf (!attributes.isEmpty) "attributes" (.object (attributesToJson attributes)) ++
        fieldIf (!blockTypes.isEmpty) "block_types" (.object (blockTypesToJson blockTypes)) ++
        fieldOf? "description" Json.string description)

/-- The field of a nested block that holds its block. -/
def blockToJson : Option Block → List (String × Json)
  | none => []
  | some b => [("block", b.toJson)]

/-- The document of a nested block. -/
def NestedBlock.toJson : NestedBlock → Json
  | ⟨mode, block, minItems, maxItems⟩ =>
      .object (("nesting_mode", .string mode.name) :: (blockToJson block ++
        fieldOf? "min_items" Json.ofNat minItems ++ fieldOf? "max_items" Json.ofNat maxItems))

/-- The documents of block types by name. -/
def blockTypesToJson : List (String × NestedBlock) → List (String × Json)
  | [] => []
  | (name, n) :: rest => (name, n.toJson) :: blockTypesToJson rest

end

/-- The names of the fields of an attribute. -/
def attributeFields : List String :=
  ["type", "nested_type", "required", "optional", "computed", "sensitive", "description"]

/-- The names of the fields of a nested type. -/
def nestedTypeFields : List String :=
  ["nesting_mode", "attributes"]

/-- The names of the fields of a block. -/
def blockFields : List String :=
  ["attributes", "block_types", "description"]

/-- The names of the fields of a nested block. -/
def nestedBlockFields : List String :=
  ["nesting_mode", "block", "min_items", "max_items"]

mutual

/-- Reads an attribute. -/
def Attribute.read : Nat → Source → Except DocumentError Attribute
  | 0, j => atLastLevel j (j.isArray || j.isObject)
  | levels + 1, j => do
      let fields ← readRecord attributeFields j
      let type ← optionalField fields "type" (Ty.read levels)
      let nested ← optionalField fields "nested_type" (NestedType.read levels)
      let required ← defaultField fields "required" false readBool
      let optional ← defaultField fields "optional" false readBool
      let computed ← defaultField fields "computed" false readBool
      let sensitive ← defaultField fields "sensitive" false readBool
      let description ← optionalField fields "description" readString
      return ⟨type, nested, required, optional, computed, sensitive, description⟩

/-- Reads a nested type. -/
def NestedType.read : Nat → Source → Except DocumentError NestedType
  | 0, j => atLastLevel j (j.isArray || j.isObject)
  | levels + 1, j => do
      let fields ← readRecord nestedTypeFields j
      let mode ←
        defaultField fields "nesting_mode" .single (readChoice levels NestingMode.ofName?)
      let attributes ← defaultField fields "attributes" [] (readAttributes levels)
      return ⟨mode, attributes⟩

/-- Reads attributes by name. -/
def readAttributes : Nat → Source → Except DocumentError (Fields Attribute)
  | 0, j => atLastLevel j j.isObject
  | levels + 1, j => readMap (Attribute.read levels) j

end

mutual

/-- Reads a block. -/
def Block.read : Nat → Source → Except DocumentError Block
  | 0, j => atLastLevel j (j.isArray || j.isObject)
  | levels + 1, j => do
      let fields ← readRecord blockFields j
      let attributes ← defaultField fields "attributes" [] (readAttributes levels)
      let blockTypes ← defaultField fields "block_types" [] (readBlockTypes levels)
      let description ← optionalField fields "description" readString
      return ⟨attributes, blockTypes, description⟩

/-- Reads block types by name. -/
def readBlockTypes : Nat → Source → Except DocumentError (Fields NestedBlock)
  | 0, j => atLastLevel j j.isObject
  | levels + 1, j => readMap (NestedBlock.read levels) j

/-- Reads a nested block. -/
def NestedBlock.read : Nat → Source → Except DocumentError NestedBlock
  | 0, j => atLastLevel j (j.isArray || j.isObject)
  | levels + 1, j => do
      let fields ← readRecord nestedBlockFields j
      let mode ←
        defaultField fields "nesting_mode" .single (readChoice levels NestingMode.ofName?)
      let block ← optionalField fields "block" (Block.read levels)
      let minItems ← optionalField fields "min_items" readNat64
      let maxItems ← optionalField fields "max_items" readNat64
      return ⟨mode, block, minItems, maxItems⟩

end

/-- Reads a text as a document of a kind. -/
def readText {α : Type} (read : Nat → Source → Except DocumentError α) (text : String) :
    Except DocumentError α :=
  match Json.parse? text with
  | none => .error .malformed
  | some j => read Json.maxLevels j

/-- Reads a block from its text. -/
def Block.ofText (text : String) : Except DocumentError Block :=
  readText Block.read text

theorem attributesToJson_eq_mapValues
    (attributes : Fields Attribute) :
    attributesToJson attributes = Fields.mapValues Attribute.toJson attributes := by
  induction attributes with
  | nil => rfl
  | cons a rest ih => simpa [attributesToJson, Fields.mapValues] using ih

theorem blockTypesToJson_eq_mapValues
    (blockTypes : Fields NestedBlock) :
    blockTypesToJson blockTypes = Fields.mapValues NestedBlock.toJson blockTypes := by
  induction blockTypes with
  | nil => rfl
  | cons n rest ih => simpa [blockTypesToJson, Fields.mapValues] using ih

end Schema
end TypedConfig
