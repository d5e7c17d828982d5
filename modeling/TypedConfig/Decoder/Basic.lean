import TypedConfig.Value.Basic

/-!
# Decoders

A decoder says which attributes and blocks of a configuration body are read and
how they are shaped into a value.  It determines the type of the values that it
yields, and the names that it reads from the body that it is applied to.
-/

namespace TypedConfig

/-- Bounds on the number of blocks.  They are advice only, since a block that
is unknown may stand for any number of blocks. -/
structure ItemBounds where
  min : Option Nat := none
  max : Option Nat := none
  deriving DecidableEq, Inhabited

/-- How a value is made from a body. -/
inductive Decoder where
  /-- An object with one attribute for each part. -/
  | object (parts : List (String × Decoder))
  /-- An attribute, converted to a type, which may mark parts as optional. -/
  | attribute (name : String) (type : Ty) (required : Bool)
  /-- At most one block; null where it is missing. -/
  | block (type : String) (nested : Decoder) (required : Bool)
  | blockList (type : String) (nested : Decoder) (bounds : ItemBounds)
  | blockSet (type : String) (nested : Decoder) (bounds : ItemBounds)
  /-- A sequence of blocks that may differ in type. -/
  | blockTuple (type : String) (nested : Decoder) (bounds : ItemBounds)
  | blockMap (type : String) (labels : List String) (nested : Decoder)
  /-- Blocks by label that may differ in type. -/
  | blockObject (type : String) (labels : List String) (nested : Decoder)
  /-- A decoder, and another one that is used where the first yields null. -/
  | withFallback (primary fallback : Decoder)
  | literal (v : Value)
  deriving Inhabited

namespace Decoder

mutual

/-- The type of the values that a decoder yields. -/
def type : Decoder → Ty
  | .object parts => .object (partTypes parts) []
  | .attribute _ t _ => t.storage
  | .block _ nested _ => nested.type
  | .blockList _ nested _ => .list nested.type
  | .blockSet _ nested _ => .set nested.type
  | .blockMap _ _ nested => .map nested.type
  | .blockTuple _ _ _ => .dynamic
  | .blockObject _ _ _ => .dynamic
  | .withFallback primary _ => primary.type
  | .literal v => v.type

/-- The types of the parts of an object. -/
def partTypes : List (String × Decoder) → List (String × Ty)
  | [] => []
  | (name, part) :: rest => (name, part.type) :: partTypes rest

end

/-- The attribute names and block types that are read from a body; of each
block type the number of labels. -/
structure Reads where
  attributes : List String := []
  blocks : Fields Nat := []

namespace Reads

/-- One more attribute, in the order of names. -/
def addAttribute (name : String) (r : Reads) : Reads :=
  { r with attributes := Fields.insertName name r.attributes }

/-- One more block type, the last number of labels winning. -/
def addBlock (type : String) (labels : Nat) (r : Reads) : Reads :=
  { r with blocks := Fields.insert type labels r.blocks }

end Reads

mutual

/-- Adds what a decoder reads to what is read already. -/
def addReads (r : Reads) : Decoder → Reads
  | .object parts => addPartReads r parts
  | .attribute name _ _ => r.addAttribute name
  | .block type _ _ => r.addBlock type 0
  | .blockList type _ _ => r.addBlock type 0
  | .blockSet type _ _ => r.addBlock type 0
  | .blockTuple type _ _ => r.addBlock type 0
  | .blockMap type labels _ => r.addBlock type labels.length
  | .blockObject type labels _ => r.addBlock type labels.length
  | .withFallback primary fallback => addReads (addReads r primary) fallback
  | .literal _ => r

/-- Adds what the parts of an object read, in order. -/
def addPartReads (r : Reads) : List (String × Decoder) → Reads
  | [] => r
  | (_, part) :: rest => addPartReads (addReads r part) rest

end

/-- What a decoder reads from the body that it is applied to.  What it reads
from nested bodies is not included. -/
def reads (d : Decoder) : Reads :=
  addReads {} d

theorem partTypes_eq_mapValues
    (parts : Fields Decoder) :
    partTypes parts = Fields.mapValues type parts := by
  induction parts with
  | nil => rfl
  | cons part rest ih => simpa [partTypes, Fields.mapValues] using ih

end Decoder
end TypedConfig
