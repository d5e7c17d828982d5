import TypedConfig.Proofs.Decoder.Diagnostics
import TypedConfig.Proofs.Schema.Decoding

/-!
# What the decoder of a schema reads

The decoder of a block reads the blocks of all its block types, and those of its
attributes that give a type and whose names are not those of block types.  How deep
the block lies does not matter as long as nothing of it is cut off.
-/

namespace TypedConfig
namespace Schema

variable {depth : Nat}

/-- The decoders of an attribute that is not cut off.  Nothing is read of one that gives
no type; another one is read as its input type, and what is missing may have a
fallback. -/
inductive Attribute.DecodedBy (a : Attribute) (name : String) : Decoder → Prop
  | malformed
      (h : a.isTyped = false) :
      DecodedBy a name (.literal .noValue)
  | typed
      (h : a.isTyped = true) :
      DecodedBy a name (.attribute name a.inputType a.required)
  | withFallback
      (h : a.isTyped = true)
      (v : Value) :
      DecodedBy a name (.withFallback (.attribute name a.inputType a.required) (.literal v))

theorem Attribute.decodedBy_decoderAt
    (a : Attribute) (hd : depth ≤ maxDepth) (name : String) :
    a.DecodedBy name (a.decoderAt depth name) := by
  have hinput : a.inputType = a.typeAt .input 0 := rfl
  rw [Attribute.typeAt_eq, Attribute.kind] at hinput
  rw [Attribute.decoderAt, if_neg (Nat.not_lt.2 hd), Attribute.kind]
  cases hn : a.nested with
  | none =>
      cases ht : a.type with
      | none =>
          refine .malformed ?_
          rw [Attribute.isTyped, hn, ht]
          rfl
      | some t =>
          have htyped : a.isTyped = true := by
            rw [Attribute.isTyped, hn, ht]
            rfl
          rw [hn, ht] at hinput
          change a.inputType = t at hinput
          change a.DecodedBy name (.attribute name t a.required)
          rw [← hinput]
          exact .typed htyped
  | some n =>
      have htyped : a.isTyped = true := by
        rw [Attribute.isTyped, hn]
        exact Bool.or_true _
      rw [hn] at hinput
      change a.inputType = n.inputType at hinput
      simp only [← hinput]
      split
      · exact .typed htyped
      · exact .withFallback htyped _

/-- An attribute that is not cut off reads its name if it gives a type. -/
theorem Attribute.reads_decoderAt
    (a : Attribute) (hd : depth ≤ maxDepth) (name : String) :
    (a.decoderAt depth name).reads =
      if a.isTyped then Decoder.Reads.addAttribute name {} else {} := by
  have hform := a.decodedBy_decoderAt hd name
  generalize a.decoderAt depth name = d at hform ⊢
  cases hform with
  | malformed h | typed h | withFallback h v =>
      rw [h]
      rfl

theorem NestedBlock.exists_reads_collect
    (type : String) (n : NestedBlock) (nested : Decoder) :
    ∃ labels, (n.collect type nested).reads = Decoder.Reads.addBlock type labels {} := by
  unfold NestedBlock.collect
  cases n.mode with
  | single | group => exact ⟨0, rfl⟩
  | list | set =>
      refine ⟨0, ?_⟩
      simp only
      split <;> rfl
  | map =>
      refine ⟨1, ?_⟩
      simp only
      split <;> rfl

variable {b : Block} (hb : b.WellFormed) (hd : depth + b.depth ≤ maxDepth)
include hb hd

/-- What the decoder of a block reads is what the decoders of its members read,
but for the attributes that block types cover. -/
theorem Block.reads_decoderAt_iff
    {P : Decoder.Reads → Prop} (hP : Decoder.Reads.Additive P) :
    P (b.decoderAt depth).reads ↔
      (∃ a ∈ b.attributes, a.1 ∉ Fields.names b.blockTypes ∧
          P (a.2.decoderAt (depth + 1) a.1).reads) ∨
        ∃ n ∈ b.blockTypes, P (n.2.decoderAt (depth + 1) n.1).reads := by
  obtain ⟨hsa, -, hsb, -⟩ := Block.wellFormed_iff.1 hb
  have hsa' := Fields.sorted_map (fun name a => a.decoderAt (depth + 1) name) hsa
  have hsb' := Fields.sorted_map (fun name n => n.decoderAt (depth + 1) name) hsb
  have hnames := Fields.names_map (fun name n => n.decoderAt (depth + 1) name) b.blockTypes
  rw [Block.decoderAt_eq, decoderWithin_of_le (by omega), hP.reads_object_iff,
    Fields.exists_mem_insertAll_iff hsa' hsb', hnames]
  simp only [List.mem_map, exists_exists_and_eq_and]

theorem Block.mem_reads_attributes_iff
    {name : String} :
    name ∈ (b.decoderAt depth).reads.attributes ↔
      ∃ a ∈ b.attributes, a.1 ∉ Fields.names b.blockTypes ∧ a.2.isTyped = true ∧ a.1 = name := by
  have hattributes := (Block.depth_le_iff.1 (Nat.le_refl b.depth)).1
  rw [Block.reads_decoderAt_iff hb hd (Decoder.Reads.additive_attributes name)]
  constructor
  · rintro (⟨a, ha, hname, hreads⟩ | ⟨n, -, hreads⟩)
    · have hda := hattributes a ha
      rw [a.2.reads_decoderAt (by omega)] at hreads
      split at hreads
      · rename_i htyped
        exact ⟨a, ha, hname, htyped, (List.mem_singleton.1 hreads).symm⟩
      · cases hreads
    · obtain ⟨labels, hlabels⟩ := n.2.exists_reads_collect n.1
        (optionalBlockDecoderAt (depth + 1) n.2.block)
      rw [NestedBlock.decoderAt, hlabels] at hreads
      cases hreads
  · rintro ⟨a, ha, hname, htyped, rfl⟩
    have hda := hattributes a ha
    refine Or.inl ⟨a, ha, hname, ?_⟩
    rw [a.2.reads_decoderAt (by omega), if_pos htyped]
    exact List.mem_singleton.2 rfl

/-- An attribute is read if it gives a type and no block type has its name. -/
theorem Block.mem_reads_attributes_iff_of_mem
    {a : String × Attribute} (ha : a ∈ b.attributes) :
    a.1 ∈ (b.decoderAt depth).reads.attributes ↔
      a.1 ∉ Fields.names b.blockTypes ∧ a.2.isTyped = true := by
  obtain ⟨hsa, -⟩ := Block.wellFormed_iff.1 hb
  rw [Block.mem_reads_attributes_iff hb hd]
  constructor
  · rintro ⟨other, hother, hname, htyped, heq⟩
    have hget := hsa.get?_eq_some_iff.2 hother
    rw [heq, hsa.get?_eq_some_iff.2 ha] at hget
    rw [heq] at hname
    exact ⟨hname, (Option.some.inj hget).symm ▸ htyped⟩
  · rintro ⟨hname, htyped⟩
    exact ⟨a, ha, hname, htyped, rfl⟩

theorem Block.mem_reads_blocks_iff
    {type : String} :
    type ∈ Fields.names (b.decoderAt depth).reads.blocks ↔ type ∈ Fields.names b.blockTypes := by
  have hattributes := (Block.depth_le_iff.1 (Nat.le_refl b.depth)).1
  have hblocks : ∀ n ∈ b.blockTypes,
      type ∈ Fields.names (n.2.decoderAt (depth + 1) n.1).reads.blocks ↔ n.1 = type := by
    intro n _
    obtain ⟨labels, hlabels⟩ := n.2.exists_reads_collect n.1
      (optionalBlockDecoderAt (depth + 1) n.2.block)
    rw [NestedBlock.decoderAt, hlabels]
    exact List.mem_singleton.trans eq_comm
  rw [Block.reads_decoderAt_iff hb hd (Decoder.Reads.additive_blocks type)]
  constructor
  · rintro (⟨a, ha, -, hreads⟩ | ⟨n, hn, hreads⟩)
    · have hda := hattributes a ha
      rw [a.2.reads_decoderAt (by omega)] at hreads
      split at hreads <;> cases hreads
    · rw [← (hblocks n hn).1 hreads]
      exact Fields.mem_names_of_mem hn
  · intro htype
    obtain ⟨n, hn, rfl⟩ := List.mem_map.1 htype
    exact Or.inr ⟨n, hn, (hblocks n hn).2 rfl⟩

/-- What is read does not depend on the depth. -/
theorem Block.covers_decoderAt_iff
    {body : Body} :
    (b.decoderAt depth).reads.Covers body ↔ b.decoder.reads.Covers body := by
  have hd0 : 0 + b.depth ≤ maxDepth := by omega
  unfold Block.decoder
  simp only [Decoder.Reads.Covers, Block.mem_reads_attributes_iff hb hd,
    Block.mem_reads_attributes_iff hb hd0, Block.mem_reads_blocks_iff hb hd,
    Block.mem_reads_blocks_iff hb hd0]

end Schema
end TypedConfig
