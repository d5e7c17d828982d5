import TypedConfig.Ty.Basic

/-!
# Schemas

A schema describes configuration-like data.  A block has attributes and types
of nested blocks; a nested block repeats as its nesting mode says.  The type of
an attribute is given outright, or as a nested type, which is again a
collection of attributes with a nesting mode.

The module holds the types, the reading of an attribute's flags, and the depth
of a schema.
-/

namespace TypedConfig

/-- How often a nested block or nested type occurs, and in which shape. -/
inductive NestingMode where
  /-- Once or not at all; null where it is missing. -/
  | single
  /-- Exactly once, also where it is missing.  Attributes take it as single. -/
  | group
  | list
  | set
  /-- Occurrences by their one label. -/
  | map
  deriving DecidableEq, Inhabited

/-- How an attribute takes part in configuration. -/
inductive Requirement where
  | required
  | optional
  | computed
  | optionalComputed
  deriving DecidableEq, Inhabited

/-- Whether input may leave the attribute out. -/
def Requirement.isOmittable : Requirement → Bool
  | .optional | .optionalComputed => true
  | .required | .computed => false

namespace Schema

mutual

/-- The schema of an attribute. -/
structure Attribute where
  type : Option Ty := none
  nested : Option NestedType := none
  required : Bool := false
  optional : Bool := false
  computed : Bool := false
  sensitive : Bool := false
  description : Option String := none

/-- A type that is given by attributes. -/
structure NestedType where
  mode : NestingMode := .single
  attributes : List (String × Attribute) := []

end

mutual

/-- The schema of a block. -/
structure Block where
  attributes : List (String × Attribute) := []
  blockTypes : List (String × NestedBlock) := []
  description : Option String := none

/-- The schema of the blocks of one type inside another block.  A missing block
is the empty block.  The bounds on the number of items are advice only. -/
structure NestedBlock where
  mode : NestingMode := .single
  block : Option Block := none
  minItems : Option Nat := none
  maxItems : Option Nat := none

end

instance : Inhabited Attribute := ⟨{}⟩
instance : Inhabited NestedType := ⟨{}⟩
instance : Inhabited Block := ⟨{}⟩
instance : Inhabited NestedBlock := ⟨{}⟩

namespace Attribute

/-- The attribute with flags that say a requirement. -/
def withRequirement (a : Attribute) (r : Requirement) : Attribute :=
  { type := a.type
    nested := a.nested
    required := r == .required
    optional := r.isOmittable
    computed := r == .computed || r == .optionalComputed
    sensitive := a.sensitive
    description := a.description }

/-- An attribute of a type. -/
def ofType (t : Ty) (r : Requirement) : Attribute :=
  withRequirement { type := some t } r

/-- An attribute of a nested type. -/
def ofNested (nested : NestedType) (r : Requirement) : Attribute :=
  withRequirement { nested := some nested } r

/-- The requirement that the flags say, if any is set.  The flag for required
outweighs the others. -/
def requirement? (a : Attribute) : Option Requirement :=
  match a.required, a.optional, a.computed with
  | true, _, _ => some .required
  | false, true, true => some .optionalComputed
  | false, true, false => some .optional
  | false, false, true => some .computed
  | false, false, false => none

/-- Whether input may leave the attribute out. -/
def isOmittable (a : Attribute) : Bool :=
  match a.requirement? with
  | some r => r.isOmittable
  | none => false

end Attribute

/-- What the schema of an attribute gives as its type. -/
inductive AttributeKind where
  | typed (t : Ty)
  | nested (n : NestedType)
  /-- Neither a type nor a nested type. -/
  | malformed

/-- What an attribute gives as its type; a nested type outweighs a type. -/
def Attribute.kind (a : Attribute) : AttributeKind :=
  match a.nested, a.type with
  | some n, _ => .nested n
  | none, some t => .typed t
  | none, none => .malformed

/-- The names of the attributes that input may leave out, in order. -/
def omittableNames (attributes : Fields Attribute) : List String :=
  Fields.names (attributes.filter fun a => a.2.isOmittable)

namespace Block

/-- The block with one more attribute, which replaces one of its name. -/
def withAttribute (name : String) (a : Attribute) (b : Block) : Block :=
  { attributes := Fields.insert name a b.attributes
    blockTypes := b.blockTypes
    description := b.description }

/-- The block with one more block type, which replaces one of its name. -/
def withBlockType (name : String) (n : NestedBlock) (b : Block) : Block :=
  { attributes := b.attributes
    blockTypes := Fields.insert name n b.blockTypes
    description := b.description }

end Block

/-- An attribute is omittable if it is optional and not required. -/
theorem Attribute.isOmittable_eq
    (a : Attribute) :
    a.isOmittable = (a.optional && !a.required) := by
  unfold isOmittable requirement?
  cases a.required <;> cases a.optional <;> cases a.computed <;> rfl

/-- The flags of a requirement say that requirement. -/
@[simp] theorem Attribute.requirement?_withRequirement
    (a : Attribute) (r : Requirement) :
    (a.withRequirement r).requirement? = some r := by
  cases r <;> rfl

mutual

/-- How many levels an attribute reaches below itself. -/
def Attribute.depth : Attribute → Nat
  | ⟨_, some ⟨_, attributes⟩, _, _, _, _, _⟩ => attributesDepth attributes
  | ⟨_, none, _, _, _, _, _⟩ => 0

/-- How many levels attributes reach below the node that has them. -/
def attributesDepth : List (String × Attribute) → Nat
  | [] => 0
  | (_, a) :: rest => max (a.depth + 1) (attributesDepth rest)

end

mutual

/-- How many levels a block reaches below itself. -/
def Block.depth : Block → Nat
  | ⟨attributes, blockTypes, _⟩ => max (attributesDepth attributes) (blockTypesDepth blockTypes)

/-- How many levels a possibly missing block reaches below itself. -/
def optionalBlockDepth : Option Block → Nat
  | none => 0
  | some b => b.depth

/-- How many levels block types reach below the block that has them. -/
def blockTypesDepth : List (String × NestedBlock) → Nat
  | [] => 0
  | (_, ⟨_, b, _, _⟩) :: rest => max (optionalBlockDepth b + 1) (blockTypesDepth rest)

end

/-- How many levels a nested type reaches below itself. -/
def NestedType.depth (n : NestedType) : Nat :=
  attributesDepth n.attributes

/-- How many levels a nested block reaches below itself. -/
def NestedBlock.depth (n : NestedBlock) : Nat :=
  optionalBlockDepth n.block

mutual

/-- Whether all members of an attribute are in the order of their names and all
types in it are well formed. -/
def Attribute.WellFormed : Attribute → Prop
  | ⟨t, some ⟨_, attributes⟩, _, _, _, _, _⟩ =>
      (∀ u, t = some u → u.WellFormed) ∧ Fields.Sorted attributes ∧
        AttributesWellFormed attributes
  | ⟨t, none, _, _, _, _, _⟩ => ∀ u, t = some u → u.WellFormed

/-- Whether every one of the attributes is well formed. -/
def AttributesWellFormed : List (String × Attribute) → Prop
  | [] => True
  | (_, a) :: rest => a.WellFormed ∧ AttributesWellFormed rest

end

mutual

/-- Whether all members of a block are in the order of their names and all
types in it are well formed. -/
def Block.WellFormed : Block → Prop
  | ⟨attributes, blockTypes, _⟩ =>
      Fields.Sorted attributes ∧ AttributesWellFormed attributes ∧
        Fields.Sorted blockTypes ∧ BlockTypesWellFormed blockTypes

/-- Whether a possibly missing block is well formed. -/
def OptionalBlockWellFormed : Option Block → Prop
  | none => True
  | some b => b.WellFormed

/-- Whether every one of the block types is well formed. -/
def BlockTypesWellFormed : List (String × NestedBlock) → Prop
  | [] => True
  | (_, ⟨_, b, _, _⟩) :: rest => OptionalBlockWellFormed b ∧ BlockTypesWellFormed rest

end

end Schema
end TypedConfig
