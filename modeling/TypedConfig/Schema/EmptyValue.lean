import TypedConfig.Schema.ImpliedType
import TypedConfig.Value.Basic

/-!
# The value of what is not configured

Where nothing is configured every attribute is null and every nested block is
missing: null if it occurs once, an empty collection if it repeats, and the
block of nothing if it is always present.  Collections whose elements may
differ in type are then the empty tuple or the empty object.

An attribute without any type has no value at all; inside an object a null of
the dynamic type stands for it.
-/

namespace TypedConfig

/-- What stands where nothing of a mode occurs, from the type of one
occurrence. -/
def NestingMode.emptyOf (mode : NestingMode) (element : Ty) : Value :=
  match mode with
  | .single | .group => .null element
  | .list => if element.hasDynamic then .emptyTuple else .list element []
  | .set => if element.hasDynamic then .emptyTuple else .set element []
  | .map => if element.hasDynamic then .emptyObject else .map element []

namespace Schema

/-- What stands for a node at a depth: a null where it is cut off. -/
@[macro_inline]
def valueWithin (depth : Nat) (v : Value) : Value :=
  if maxDepth < depth then .null .dynamic else v

/-- The empty value of an attribute at a depth. -/
def Attribute.emptyAt (depth : Nat) (a : Attribute) : Value :=
  valueWithin depth <|
    match a.kind with
    | .malformed => .noValue
    | .typed t => .null t.storage
    | .nested n => n.mode.emptyOf (n.elementTypeAt .storage 0)

/-- The empty values of attributes at a depth, by name, as parts of an
object. -/
def emptyAttributesAt (depth : Nat) (attributes : Fields Attribute) : Fields Value :=
  Fields.mapValues (fun a => (a.emptyAt depth).orNull) attributes

mutual

/-- The empty value of a block at a depth. -/
def Block.emptyAt (depth : Nat) : Block → Value
  | ⟨attributes, blockTypes, _⟩ =>
      valueWithin depth <|
        .object (Fields.insertAll (emptyAttributesAt (depth + 1) attributes)
          (emptyBlocksAt (depth + 1) blockTypes))

/-- The empty value of a possibly missing block at a depth. -/
def optionalBlockEmptyAt (depth : Nat) : Option Block → Value
  | none => valueWithin depth .emptyObject
  | some b => b.emptyAt depth

/-- The empty values of block types at a depth, by name. -/
def emptyBlocksAt (depth : Nat) : List (String × NestedBlock) → Fields Value
  | [] => []
  | (name, ⟨mode, b, _, _⟩) :: rest =>
      (name, match mode with
        | .group => optionalBlockEmptyAt depth b
        | mode => mode.emptyOf (impliedTypeOfBlock b)) :: emptyBlocksAt depth rest

end

/-- The empty value of a nested block at a depth. -/
def NestedBlock.emptyAt (depth : Nat) (n : NestedBlock) : Value :=
  match n.mode with
  | .group => optionalBlockEmptyAt depth n.block
  | mode => mode.emptyOf (impliedTypeOfBlock n.block)

/-- The empty value of an attribute. -/
def Attribute.emptyValue (a : Attribute) : Value :=
  a.emptyAt 0

/-- The empty value of a block. -/
def Block.emptyValue (b : Block) : Value :=
  b.emptyAt 0

/-- The empty value of a nested block. -/
def NestedBlock.emptyValue (n : NestedBlock) : Value :=
  n.emptyAt 0

/-- The empty value of a possibly missing block. -/
def emptyValueOfBlock (b : Option Block) : Value :=
  optionalBlockEmptyAt 0 b

theorem emptyBlocksAt_eq_mapValues
    (depth : Nat) (blockTypes : Fields NestedBlock) :
    emptyBlocksAt depth blockTypes =
      Fields.mapValues (NestedBlock.emptyAt depth) blockTypes := by
  induction blockTypes with
  | nil => rfl
  | cons n rest ih =>
      obtain ⟨name, mode, b, lo, hi⟩ := n
      cases mode <;> simpa [emptyBlocksAt, Fields.mapValues, NestedBlock.emptyAt] using ih

end Schema
end TypedConfig
