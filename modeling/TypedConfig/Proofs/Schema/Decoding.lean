import TypedConfig.Proofs.Schema.ImpliedType
import TypedConfig.Schema.Decoding

/-!
# The type of the decoder of a schema

The type of a schema is computed twice: from the schema itself, and from the
decoder that is built for it.  The decoder takes attributes in their input form,
has fallbacks for what is missing, and chooses tuples and objects of blocks by
its own type.  Where nothing is cut off the two types are equal.
-/

namespace TypedConfig
namespace Schema

section Equations

theorem decoderWithin_of_le
    {depth : Nat} (h : depth ≤ maxDepth) (d : Decoder) :
    decoderWithin depth d = d :=
  if_neg (Nat.not_lt.2 h)

theorem Block.decoderAt_eq
    (depth : Nat) (b : Block) :
    b.decoderAt depth =
      decoderWithin depth
        (.object
          (Fields.insertAll
            (b.attributes.map fun a => (a.1, a.2.decoderAt (depth + 1) a.1))
            (b.blockTypes.map fun n => (n.1, n.2.decoderAt (depth + 1) n.1)))) := by
  obtain ⟨attributes, blockTypes, description⟩ := b
  rw [Block.decoderAt, attributeDecodersAt, blockDecodersAt_eq_map]

theorem Block.decoder_eq
    (b : Block) :
    b.decoder = .object (Fields.insertAll
      (b.attributes.map fun a => (a.1, a.2.decoderAt 1 a.1))
      (b.blockTypes.map fun n => (n.1, n.2.decoderAt 1 n.1))) := by
  rw [Block.decoder, Block.decoderAt_eq, decoderWithin_of_le (Nat.zero_le _)]

/-- The type of the decoder of an attribute, which looks into a nested type
from depth zero. -/
theorem Attribute.type_decoderAt
    {depth : Nat} (h : depth ≤ maxDepth) (name : String) (a : Attribute) :
    (a.decoderAt depth name).type = a.typeAt .storage 0 := by
  rw [Attribute.decoderAt, if_neg (Nat.not_lt.2 h), Attribute.typeAt_eq]
  cases hk : a.kind with
  | malformed => rfl
  | typed t => rfl
  | nested n =>
      simp only
      split <;> exact n.storage_typeAt .input 0

/-- The decoder of the blocks of a type collects them as the type of a nested
block does. -/
theorem NestedBlock.type_collect
    (type : String) (n : NestedBlock) (nested : Decoder) :
    (n.collect type nested).type = n.mode.blockCollection nested.type := by
  unfold NestedBlock.collect NestingMode.blockCollection
  cases n.mode with
  | single | group => rfl
  | list | set | map =>
      simp only
      split <;> rfl

end Equations

section DecoderType

variable {depth : Nat}

theorem type_optionalBlockDecoderAt_of
    {o : Option Block} (hd : depth + optionalBlockDepth o ≤ maxDepth)
    (h : ∀ c, o = some c → (c.decoderAt depth).type = c.typeAt .storage depth) :
    (optionalBlockDecoderAt depth o).type = optionalBlockTypeAt .storage depth o := by
  cases o with
  | none =>
      simp only [optionalBlockDecoderAt, optionalBlockTypeAt]
      rw [decoderWithin_of_le (by omega), typeWithin_of_le (by omega)]
      rfl
  | some c => exact h c rfl

/-- Where nothing of a block is cut off its decoder has the type of the
block. -/
theorem Block.type_decoderAt
    (b : Block) (hd : depth + b.depth ≤ maxDepth) :
    (b.decoderAt depth).type = b.typeAt .storage depth := by
  induction b using Block.induction generalizing depth with
  | step b ih =>
      obtain ⟨hattributes, hblocks⟩ := Block.depth_le_iff.1 (Nat.le_refl b.depth)
      rw [Block.decoderAt_eq, Block.typeAt_eq, decoderWithin_of_le (by omega),
        typeWithin_of_le (by omega), markedNames, Ty.objectWith_nil, Decoder.type,
        Decoder.partTypes_eq_mapValues, Fields.mapValues_insertAll]
      rw [Fields.mapValues_map (Attribute.typeAt .storage (depth + 1)) ?attributes]
      rw [Fields.mapValues_map (NestedBlock.typeAt .storage (depth + 1)) ?blocks]
      case attributes =>
        intro a ha
        have ha' := hattributes a ha
        rw [Attribute.type_decoderAt (by omega)]
        exact a.2.typeAt_eq_of_depth_le .storage (by omega) (by omega)
      case blocks =>
        intro n hn
        have hn' : optionalBlockDepth n.2.block + 1 ≤ b.depth := hblocks n hn
        rw [NestedBlock.decoderAt, NestedBlock.type_collect, NestedBlock.typeAt]
        refine congrArg n.2.mode.blockCollection ?_
        refine type_optionalBlockDecoderAt_of (by omega) ?_
        intro c hc
        have hdc := Block.depth_of_mem hn hc
        exact ih n hn c hc (by omega)

theorem type_optionalBlockDecoderAt
    (o : Option Block) (hd : depth + optionalBlockDepth o ≤ maxDepth) :
    (optionalBlockDecoderAt depth o).type = optionalBlockTypeAt .storage depth o := by
  refine type_optionalBlockDecoderAt_of hd ?_
  rintro c rfl
  exact c.type_decoderAt hd

theorem type_optionalBlockDecoderAt_eq_impliedType
    (o : Option Block) (hd : depth + optionalBlockDepth o ≤ maxDepth) :
    (optionalBlockDecoderAt depth o).type = impliedTypeOfBlock o := by
  rw [type_optionalBlockDecoderAt o hd]
  exact optionalBlockTypeAt_eq_of_depth_le .storage o hd (by omega)

theorem NestedBlock.type_decoderAt
    (n : NestedBlock) (type : String) (hd : depth + n.depth ≤ maxDepth) :
    (n.decoderAt depth type).type = n.typeAt .storage depth := by
  rw [NestedBlock.decoderAt, NestedBlock.type_collect, NestedBlock.typeAt,
    type_optionalBlockDecoderAt n.block hd]

end DecoderType

section Nodes

/-- The decoder of a node; nested blocks and attributes are read by a name. -/
def Node.decoder (name : String) : Node → Decoder
  | .ofBlock b => b.decoder
  | .ofNestedBlock n => n.decoder name
  | .ofAttribute a => a.decoder name

/-- The decoder of a schema has the type that the schema implies, unless nodes
are cut off. -/
theorem decoder_type_eq_impliedType
    (node : Node) (name : String) (hdepth : node.depth ≤ maxDepth) :
    (node.decoder name).type = node.impliedType := by
  cases node with
  | ofBlock b =>
      have hb : 0 + b.depth ≤ maxDepth := by
        rw [Nat.zero_add]
        exact hdepth
      exact b.type_decoderAt hb
  | ofNestedBlock n =>
      have hn : 0 + n.depth ≤ maxDepth := by
        rw [Nat.zero_add]
        exact hdepth
      exact n.type_decoderAt name hn
  | ofAttribute a => exact Attribute.type_decoderAt (Nat.zero_le _) name a

/-- A block with an attribute of both a type and a nested type, one of neither,
and a set of missing blocks in the place of a third. -/
def Block.mixed : Block :=
  { attributes :=
      [("a", { type := some .bool, nested := some { mode := .list, attributes := [("n", {})] } }),
        ("b", {}), ("c", .ofType .string .required)]
    blockTypes := [("c", { mode := .set })] }

theorem decoder_type_eq_impliedType_mixed :
    ((Node.ofBlock .mixed).decoder "").type = (Node.ofBlock .mixed).impliedType ∧
      ((Node.ofNestedBlock { mode := .map, block := some .mixed }).decoder "d").type =
        (Node.ofNestedBlock { mode := .map, block := some .mixed }).impliedType ∧
      ((Node.ofAttribute {}).decoder "b").type = (Node.ofAttribute {}).impliedType := by
  refine ⟨?_, ?_, ?_⟩
  · exact decoder_type_eq_impliedType (.ofBlock .mixed) "" (by decide)
  · exact decoder_type_eq_impliedType (.ofNestedBlock { mode := .map, block := some .mixed }) "d"
      (by decide)
  · exact decoder_type_eq_impliedType (.ofAttribute {}) "b" (by decide)

end Nodes

end Schema
end TypedConfig
