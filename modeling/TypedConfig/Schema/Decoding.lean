import TypedConfig.Decoder.Basic
import TypedConfig.Schema.EmptyValue

/-!
# The decoder of a schema

Every schema has a decoder, which reads a body that the schema describes and
yields a value of the type that the schema implies.  Attributes are converted
to their input type.  Missing collections are decoded to their empty value, and
so are blocks that are always present.  Repeated blocks that may differ in type
are collected in tuples and objects.
-/

namespace TypedConfig
namespace Schema

/-- The name of the one label of blocks that are collected in a map. -/
def mapLabel : String := "key"

/-- The decoder of an attribute at a depth. -/
def Attribute.decoderAt (depth : Nat) (name : String) (a : Attribute) : Decoder :=
  if maxDepth < depth then
    .attribute name .dynamic false
  else
    match a.kind with
    | .malformed => .literal .noValue
    | .typed t => .attribute name t a.required
    | .nested n =>
        let primary := .attribute name n.inputType a.required
        if a.required || a.emptyValue.isNull then
          primary
        else
          .withFallback primary (.literal a.emptyValue)

/-- The decoders of attributes at a depth, by name. -/
def attributeDecodersAt (depth : Nat) (attributes : Fields Attribute) : Fields Decoder :=
  attributes.map fun a => (a.1, a.2.decoderAt depth a.1)

/-- The decoder of the blocks of one type, from the decoder of one of them. -/
def NestedBlock.collect (type : String) (n : NestedBlock) (nested : Decoder) : Decoder :=
  let bounds : ItemBounds := ⟨n.minItems, n.maxItems⟩
  let dynamic := nested.type.hasDynamic
  match n.mode with
  | .single => .block type nested false
  | .group => .withFallback (.block type nested false) (.literal (emptyValueOfBlock n.block))
  | .list => if dynamic then .blockTuple type nested bounds else .blockList type nested bounds
  | .set => if dynamic then .blockTuple type nested bounds else .blockSet type nested bounds
  | .map =>
      if dynamic then .blockObject type [mapLabel] nested else .blockMap type [mapLabel] nested

/-- What decodes a block at a depth: a null where it is cut off. -/
@[macro_inline]
def decoderWithin (depth : Nat) (d : Decoder) : Decoder :=
  if maxDepth < depth then .literal (.null .dynamic) else d

mutual

/-- The decoder of a block at a depth. -/
def Block.decoderAt (depth : Nat) : Block → Decoder
  | ⟨attributes, blockTypes, _⟩ =>
      decoderWithin depth <|
        .object (Fields.insertAll (attributeDecodersAt (depth + 1) attributes)
          (blockDecodersAt (depth + 1) blockTypes))

/-- The decoder of a possibly missing block at a depth. -/
def optionalBlockDecoderAt (depth : Nat) : Option Block → Decoder
  | none => decoderWithin depth (.object [])
  | some b => b.decoderAt depth

/-- The decoders of block types at a depth, by name. -/
def blockDecodersAt (depth : Nat) : List (String × NestedBlock) → Fields Decoder
  | [] => []
  | (name, ⟨mode, b, lo, hi⟩) :: rest =>
      (name, NestedBlock.collect name ⟨mode, b, lo, hi⟩ (optionalBlockDecoderAt depth b)) ::
        blockDecodersAt depth rest

end

/-- The decoder of the blocks of one type at a depth. -/
def NestedBlock.decoderAt (depth : Nat) (type : String) (n : NestedBlock) : Decoder :=
  n.collect type (optionalBlockDecoderAt depth n.block)

/-- The decoder of the attribute of a name. -/
def Attribute.decoder (name : String) (a : Attribute) : Decoder :=
  a.decoderAt 0 name

/-- The decoder of a body that a block describes. -/
def Block.decoder (b : Block) : Decoder :=
  b.decoderAt 0

/-- The decoder of the blocks of a type. -/
def NestedBlock.decoder (type : String) (n : NestedBlock) : Decoder :=
  n.decoderAt 0 type

/-- The decoder of a body that a possibly missing block describes. -/
def decoderOfBlock (b : Option Block) : Decoder :=
  optionalBlockDecoderAt 0 b

theorem blockDecodersAt_eq_map
    (depth : Nat) (blockTypes : Fields NestedBlock) :
    blockDecodersAt depth blockTypes =
      blockTypes.map fun n => (n.1, n.2.decoderAt depth n.1) := by
  induction blockTypes with
  | nil => rfl
  | cons n rest ih =>
      obtain ⟨name, mode, b, lo, hi⟩ := n
      simpa [blockDecodersAt, NestedBlock.decoderAt] using ih

end Schema
end TypedConfig
