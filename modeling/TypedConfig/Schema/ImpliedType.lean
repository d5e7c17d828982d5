import TypedConfig.Depth
import TypedConfig.Schema.Basic

/-!
# The type that a schema implies

A block implies an object type with one attribute for each of its attributes
and block types; a block type outweighs an attribute of the same name.  Nested
blocks become objects or collections of objects as their mode says.  Where the
instances of a repeated block may differ in type, the dynamic type stands for
the whole.

The type has two forms.  The storage form is the type of stored values.  The
input form is the type that input is checked against: it marks the attributes
that may be left out.  A schema that nests too deep is cut off; the dynamic
type stands for what is cut off.
-/

namespace TypedConfig

/-- The two forms of an implied type. -/
inductive TypeForm where
  | storage
  | input
  deriving DecidableEq

/-- A type that is given outright, in a form. -/
def TypeForm.ofGiven (form : TypeForm) (t : Ty) : Ty :=
  match form with
  | .storage => t.storage
  | .input => t

namespace NestingMode

/-- The type of the occurrences of a nested type with one element type. -/
def collection (mode : NestingMode) (element : Ty) : Ty :=
  match mode with
  | .single | .group => element
  | .list => .list element
  | .set => .set element
  | .map => .map element

/-- The type of the occurrences of a nested block.  Repeated blocks that may
differ in type have the dynamic type together. -/
def blockCollection (mode : NestingMode) (element : Ty) : Ty :=
  match mode with
  | .single | .group => element
  | .list => if element.hasDynamic then .dynamic else .list element
  | .set => if element.hasDynamic then .dynamic else .set element
  | .map => if element.hasDynamic then .dynamic else .map element

end NestingMode

namespace Schema

/-- What stands for a node at a depth: the dynamic type where it is cut off. -/
@[macro_inline]
def typeWithin (depth : Nat) (t : Ty) : Ty :=
  if maxDepth < depth then .dynamic else t

/-- The names that a form marks optional. -/
def markedNames (form : TypeForm) (attributes : Fields Attribute) : List String :=
  match form with
  | .storage => []
  | .input => omittableNames attributes

/-- The object type at a depth of a node with the given attributes, from the
types of its attributes and block types. -/
@[macro_inline]
def objectAt (form : TypeForm) (depth : Nat) (attributes : Fields Attribute) (types : Fields Ty) :
    Ty :=
  typeWithin depth (.objectWith types (markedNames form attributes))

mutual

/-- The type of an attribute at a depth. -/
def Attribute.typeAt (form : TypeForm) (depth : Nat) : Attribute → Ty
  | ⟨_, some ⟨mode, attributes⟩, _, _, _, _, _⟩ =>
      mode.collection
        (objectAt form depth attributes (attributeTypesAt form (depth + 1) attributes))
  | ⟨some t, none, _, _, _, _, _⟩ => form.ofGiven t
  | ⟨none, none, _, _, _, _, _⟩ => .dynamic

/-- The types of attributes at a depth, by name. -/
def attributeTypesAt (form : TypeForm) (depth : Nat) : List (String × Attribute) → Fields Ty
  | [] => []
  | (name, a) :: rest => (name, a.typeAt form depth) :: attributeTypesAt form depth rest

end

/-- The type of one element of a nested type, whatever its mode. -/
def NestedType.elementTypeAt (form : TypeForm) (depth : Nat) (n : NestedType) : Ty :=
  objectAt form depth n.attributes (attributeTypesAt form (depth + 1) n.attributes)

/-- The type of a nested type at a depth. -/
def NestedType.typeAt (form : TypeForm) (depth : Nat) (n : NestedType) : Ty :=
  n.mode.collection (n.elementTypeAt form depth)

mutual

/-- The type of a block at a depth. -/
def Block.typeAt (form : TypeForm) (depth : Nat) : Block → Ty
  | ⟨attributes, blockTypes, _⟩ =>
      objectAt form depth attributes
        (Fields.insertAll (attributeTypesAt form (depth + 1) attributes)
          (blockTypesAt form (depth + 1) blockTypes))

/-- The type of a possibly missing block at a depth; the missing block is the
empty object. -/
def optionalBlockTypeAt (form : TypeForm) (depth : Nat) : Option Block → Ty
  | none => typeWithin depth .emptyObject
  | some b => b.typeAt form depth

/-- The types of block types at a depth, by name. -/
def blockTypesAt (form : TypeForm) (depth : Nat) : List (String × NestedBlock) → Fields Ty
  | [] => []
  | (name, ⟨mode, b, _, _⟩) :: rest =>
      (name, mode.blockCollection (optionalBlockTypeAt form depth b)) ::
        blockTypesAt form depth rest

end

/-- The type of a nested block at a depth, its block being at that depth. -/
def NestedBlock.typeAt (form : TypeForm) (depth : Nat) (n : NestedBlock) : Ty :=
  n.mode.blockCollection (optionalBlockTypeAt form depth n.block)

/-- The type of the values of an attribute. -/
def Attribute.impliedType (a : Attribute) : Ty :=
  a.typeAt .storage 0

/-- The type that the input of an attribute is checked against. -/
def Attribute.inputType (a : Attribute) : Ty :=
  a.typeAt .input 0

/-- The type of the values of a nested type. -/
def NestedType.impliedType (n : NestedType) : Ty :=
  n.typeAt .storage 0

/-- The type that the input of a nested type is checked against. -/
def NestedType.inputType (n : NestedType) : Ty :=
  n.typeAt .input 0

/-- The type of the values of a block. -/
def Block.impliedType (b : Block) : Ty :=
  b.typeAt .storage 0

/-- The type that the input of a block is checked against. -/
def Block.inputType (b : Block) : Ty :=
  b.typeAt .input 0

/-- The type of the values of a nested block. -/
def NestedBlock.impliedType (n : NestedBlock) : Ty :=
  n.typeAt .storage 0

/-- The type that the input of a nested block is checked against. -/
def NestedBlock.inputType (n : NestedBlock) : Ty :=
  n.typeAt .input 0

/-- The type of the values of a possibly missing block. -/
def impliedTypeOfBlock (b : Option Block) : Ty :=
  optionalBlockTypeAt .storage 0 b

/-- The type of the values of a possibly missing nested type. -/
def impliedTypeOfNested (n : Option NestedType) : Ty :=
  match n with
  | none => .emptyObject
  | some n => n.impliedType

theorem attributeTypesAt_eq_mapValues
    (form : TypeForm) (depth : Nat) (attributes : Fields Attribute) :
    attributeTypesAt form depth attributes =
      Fields.mapValues (Attribute.typeAt form depth) attributes := by
  induction attributes with
  | nil => rfl
  | cons a rest ih => simpa [attributeTypesAt, Fields.mapValues] using ih

theorem blockTypesAt_eq_mapValues
    (form : TypeForm) (depth : Nat) (blockTypes : Fields NestedBlock) :
    blockTypesAt form depth blockTypes =
      Fields.mapValues (NestedBlock.typeAt form depth) blockTypes := by
  induction blockTypes with
  | nil => rfl
  | cons n rest ih =>
      obtain ⟨name, mode, b, lo, hi⟩ := n
      simpa [blockTypesAt, Fields.mapValues, NestedBlock.typeAt] using ih

/-- The type of an attribute by what it gives as its type. -/
theorem Attribute.typeAt_eq
    (form : TypeForm) (depth : Nat) (a : Attribute) :
    a.typeAt form depth =
      match a.kind with
      | .typed t => form.ofGiven t
      | .nested n => n.typeAt form depth
      | .malformed => .dynamic := by
  obtain ⟨t, n, _, _, _, _, _⟩ := a
  cases n with
  | some n => cases n; rfl
  | none => cases t <;> rfl

end Schema
end TypedConfig
