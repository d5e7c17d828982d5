import TypedConfig.Proofs.Decoder.Content
import TypedConfig.Proofs.Value.Conversion

/-!
# Decoders that yield stored values

A decoder whose type leaves nothing to the data yields its stored form if from
every well formed body it decodes a value of the form of its type.  There is
one lemma for each form of decoder.  Where the type leaves something to the
data there is nothing to show: what is collected in tuples and objects of
blocks is of the dynamic type.
-/

namespace TypedConfig
namespace Decoder

/-- Whether every well formed body is decoded to a value of the form of the type
of the decoder, unless this type leaves something to the data. -/
def YieldsForm (d : Decoder) : Prop :=
  d.type.hasDynamic = false →
    ∀ b : Body, b.WellFormed → (d.decodeContent b).result.HasForm d.type

section Forms

-- The equations are derived here once, before the proofs that all unfold them.
attribute [local simp] decodeContent

theorem yieldsForm_of_hasDynamic
    {d : Decoder} (h : d.type.hasDynamic = true) :
    d.YieldsForm := by
  intro hstatic
  rw [h] at hstatic
  cases hstatic

theorem yieldsForm_attribute
    (name : String) {t : Ty} (ht : t.WellFormed) (required : Bool) :
    (Decoder.attribute name t required).YieldsForm := by
  intro hstatic b hb
  rw [type, Ty.hasDynamic_storage] at hstatic
  rw [decodeContent, decodeAttribute, type]
  split
  · exact .null _
  · rename_i a ha
    have hvalue := (Body.wellFormed_iff.1 hb).2.1 (name, a) (Fields.mem_of_get? ha)
    split
    · rename_i v hv
      exact Value.convert_hasForm ht hstatic hvalue hv
    · split
      · exact .null _
      · exact .unknown _

/-- Blocks of which one is unknown are an unknown value of the type that is
due. -/
theorem hasForm_of_decodeKnown
    {α : Type} {blocks : List BodyBlock} {t : Ty} {wrap : α → Value}
    {decode : List BodyBlock → Decoded α} (h : (wrap (decode blocks).result).HasForm t) :
    (decodeKnown blocks t wrap decode).result.HasForm t := by
  rw [decodeKnown]
  split
  · exact .unknown t
  · exact h

section Blocks

variable {nested : Decoder} (hnested : nested.YieldsForm)
include hnested

theorem YieldsForm.blocksOf
    (hstatic : nested.type.hasDynamic = false) {b : Body} (hb : b.WellFormed) (type : String) :
    ∀ block ∈ b.blocksOf type,
      (decodeWhole nested.reads nested.decodeContent block.body).result.HasForm nested.type := by
  intro block hblock
  have hbody := (Body.wellFormed_iff.1 hb).2.2 block (Body.mem_blocks_of_mem_blocksOf hblock)
  exact hnested hstatic block.body hbody

theorem yieldsForm_block
    (name : String) (required : Bool) :
    (block name nested required).YieldsForm := by
  intro hstatic b hb
  have hblocks := hnested.blocksOf hstatic hb name
  rw [decodeContent, decodeSingle, type]
  split
  · exact .null _
  · rename_i first others heq
    rw [heq, List.forall_mem_cons] at hblocks
    rw [Decoded.result_after]
    split
    · exact .unknown _
    · exact hblocks.1

theorem yieldsForm_blockList
    (name : String) (bounds : ItemBounds) :
    (blockList name nested bounds).YieldsForm := by
  intro hstatic b hb
  rw [decodeContent, type]
  refine hasForm_of_decodeKnown ?_
  rw [result_decodeEach]
  exact .list (List.forall_mem_map.2 (hnested.blocksOf hstatic hb name))

theorem yieldsForm_blockSet
    (name : String) (bounds : ItemBounds) :
    (blockSet name nested bounds).YieldsForm := by
  intro hstatic b hb
  rw [decodeContent, type]
  refine hasForm_of_decodeKnown ?_
  rw [result_decodeEach]
  refine .set (Value.ascending_setElements _) ?_
  intro v hv
  obtain ⟨block, hblock, rfl⟩ := List.mem_map.1 ((Value.mem_setElements v _).1 hv)
  exact hnested.blocksOf hstatic hb name block hblock

theorem yieldsForm_blockMap
    (name : String) (labels : List String) :
    (blockMap name labels nested).YieldsForm := by
  intro hstatic b hb
  rw [decodeContent, type]
  refine hasForm_of_decodeKnown (.map (sorted_decodeLabeled name labels _ .nil) ?_)
  exact forall_mem_decodeLabeled (P := fun v => v.HasForm nested.type) name labels
    (hnested.blocksOf hstatic hb name) (List.forall_mem_nil _)

end Blocks

/-- The fallback need not yield its own form, but that of what it stands in
for. -/
theorem yieldsForm_withFallback
    {primary fallback : Decoder} (hprimary : primary.YieldsForm)
    (hfallback : primary.type.hasDynamic = false →
      ∀ b : Body, (fallback.decodeContent b).result.HasForm primary.type) :
    (withFallback primary fallback).YieldsForm := by
  intro hstatic b hb
  simp only [decodeContent, type]
  split
  · exact hfallback hstatic b
  · exact hprimary hstatic b hb

/-- No part of an object is absent where nothing is left to the data. -/
theorem yieldsForm_object
    {parts : Fields Decoder} (hs : Fields.Sorted parts)
    (hparts : ∀ part ∈ parts, part.2.YieldsForm) :
    (object parts).YieldsForm := by
  intro hstatic b hb
  rw [type, partTypes_eq_mapValues] at hstatic ⊢
  have hstatics : ∀ part ∈ parts, part.2.type.hasDynamic = false :=
    List.forall_mem_map.1 (Ty.hasDynamic_of_mem_object hstatic)
  rw [decodeContent, Decoded.result_map, result_decodeParts]
  refine Value.HasForm.object_of_paired (Fields.sorted_mapValues _ hs) (Fields.paired_mapValues ?_)
  intro part hpart
  have hform := hparts part hpart (hstatics part hpart) b hb
  rw [hform.orNull_eq]
  exact hform

end Forms

end Decoder
end TypedConfig
