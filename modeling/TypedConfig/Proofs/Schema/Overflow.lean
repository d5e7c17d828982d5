import TypedConfig.Proofs.Decoder.Range
import TypedConfig.Proofs.Schema.Reads

/-!
# Which bodies nothing is returned for

A body overflows for a block if, in it or in a block that decoding looks into, the value
of an attribute that is read is converted out of the range of 64-bit integers.  Exactly
for such a body decoding returns nothing.
-/

namespace TypedConfig

/-- Whether decoding looks into one of the blocks of a type.  Of blocks that may occur
once it looks into the first; the others are looked into together if nothing is unknown
about them, and those of a map if they have one label. -/
def NestingMode.LooksInto (mode : NestingMode) (blocks : List BodyBlock) (block : BodyBlock) :
    Prop :=
  match mode with
  | .single | .group => block ∈ blocks.head? ∧ block.body.unknown = false
  | .list | .set => (∀ other ∈ blocks, other.body.unknown = false) ∧ block ∈ blocks
  | .map =>
      (∀ other ∈ blocks, other.body.unknown = false) ∧ block ∈ blocks ∧ block.labels.length = 1

theorem NestingMode.LooksInto.mem
    {mode : NestingMode} {blocks : List BodyBlock} {block : BodyBlock}
    (h : mode.LooksInto blocks block) :
    block ∈ blocks := by
  cases mode with
  | single | group => exact List.mem_of_mem_head? h.1
  | list | set => exact h.2
  | map => exact h.2.1

namespace Schema

/-- Whether the value of an attribute is in a body and converted out of the range. -/
def Attribute.OverflowsIn (a : Attribute) (name : String) (body : Body) : Prop :=
  ∃ x path text, Fields.get? name body.attributes = some x ∧
    Value.convert a.inputType x.value = .error ⟨path, .overflow text⟩

/-- Whether a body overflows for a block. -/
inductive Block.Overflows : Block → Body → Prop
  | value
      {b : Block} {body : Body} {a : String × Attribute}
      (ha : a ∈ b.attributes)
      (hreads : a.1 ∈ b.decoder.reads.attributes)
      (h : a.2.OverflowsIn a.1 body) :
      Overflows b body
  | inside
      {b c : Block} {body : Body} {n : String × NestedBlock} {block : BodyBlock}
      (hn : n ∈ b.blockTypes)
      (hc : n.2.block = some c)
      (hblock : n.2.mode.LooksInto (body.blocksOf n.1) block)
      (h : c.Overflows block.body) :
      Overflows b body

theorem Block.overflows_iff
    {b : Block} {body : Body} :
    b.Overflows body ↔
      (∃ a ∈ b.attributes, a.1 ∈ b.decoder.reads.attributes ∧ a.2.OverflowsIn a.1 body) ∨
        ∃ n ∈ b.blockTypes, ∃ block, n.2.mode.LooksInto (body.blocksOf n.1) block ∧
          ∃ c, n.2.block = some c ∧ c.Overflows block.body := by
  constructor
  · rintro (⟨ha, hreads, h⟩ | ⟨hn, hc, hblock, h⟩)
    · exact Or.inl ⟨_, ha, hreads, h⟩
    · exact Or.inr ⟨_, hn, _, hblock, _, hc, h⟩
  · rintro (⟨a, ha, hreads, h⟩ | ⟨n, hn, block, hblock, c, hc, h⟩)
    · exact .value ha hreads h
    · exact .inside hn hc hblock h

/-- There is nothing to be converted where there is nothing. -/
theorem Block.not_overflows_of_nil
    {b : Block} {body : Body} (hattributes : body.attributes = []) (hblocks : body.blocks = []) :
    ¬ b.Overflows body := by
  rintro (⟨-, -, x, path, text, hget, -⟩ | ⟨-, -, hblock, -⟩)
  · rw [hattributes] at hget
    cases hget
  · have hmem := Body.mem_blocks_of_mem_blocksOf hblock.mem
    rw [hblocks] at hmem
    cases hmem

section Members

theorem Attribute.leavesRange_decoderAt_iff
    {depth : Nat} (a : Attribute) (hd : depth ≤ maxDepth) (name : String) {body : Body} :
    ((a.decoderAt depth name).decodeContent body).leavesRange = true ↔
      a.isTyped = true ∧ a.OverflowsIn name body := by
  have hform := a.decodedBy_decoderAt hd name
  generalize a.decoderAt depth name = d at hform ⊢
  cases hform with
  | malformed h => simp [Decoder.decodeContent, h]
  | typed h =>
      rw [h, eq_self, true_and]
      exact Decoder.leavesRange_decodeAttribute_iff
  | withFallback h v =>
      rw [h, eq_self, true_and, Decoder.leavesRange_withFallback_literal]
      exact Decoder.leavesRange_decodeAttribute_iff

theorem NestedBlock.leavesRange_collect_iff
    (type : String) (n : NestedBlock) (nested : Decoder) {body : Body} :
    ((n.collect type nested).decodeContent body).leavesRange = true ↔
      ∃ block, n.mode.LooksInto (body.blocksOf type) block ∧
        (nested.decode block.body).leavesRange = true := by
  unfold NestedBlock.collect NestingMode.LooksInto
  cases n.mode with
  | single =>
      simp only [and_assoc]
      exact Decoder.leavesRange_decodeSingle_iff
  | group =>
      simp only [and_assoc]
      rw [Decoder.leavesRange_withFallback_literal]
      exact Decoder.leavesRange_decodeSingle_iff
  | list | set =>
      simp only [and_assoc, exists_and_left]
      split <;>
        rw [Decoder.decodeContent, Decoder.leavesRange_decodeKnown_iff,
          Decoder.leavesRange_decodeEach, List.any_eq_true] <;> rfl
  | map =>
      simp only [and_assoc, exists_and_left]
      split <;>
        simp [Decoder.decodeContent, Decoder.leavesRange_decodeKnown_iff,
          Decoder.leavesRange_decodeLabeled, Decoder.decode]

theorem leavesRange_optionalBlockDecoderAt_iff_of
    {depth : Nat} {o : Option Block} (hd : depth ≤ maxDepth)
    (h : ∀ c, o = some c →
      ∀ body, ((c.decoderAt depth).decode body).leavesRange = true ↔ c.Overflows body)
    (body : Body) :
    ((optionalBlockDecoderAt depth o).decode body).leavesRange = true ↔
      ∃ c, o = some c ∧ c.Overflows body := by
  cases o with
  | none =>
      rw [optionalBlockDecoderAt, decoderWithin_of_le hd]
      simp [Decoder.leavesRange_decode, Decoder.leavesRange_object_iff]
  | some c => simp only [Option.some.injEq, exists_eq_left', ← h c rfl body, optionalBlockDecoderAt]

end Members

section Blocks

theorem Block.leavesRange_attributes_iff
    {depth : Nat} {b : Block} (hb : b.WellFormed) (hd : depth + b.depth ≤ maxDepth)
    {body : Body} :
    (∃ a ∈ b.attributes, a.1 ∉ Fields.names b.blockTypes ∧
        ((a.2.decoderAt (depth + 1) a.1).decodeContent body).leavesRange = true) ↔
      ∃ a ∈ b.attributes, a.1 ∈ b.decoder.reads.attributes ∧ a.2.OverflowsIn a.1 body := by
  have hattributes := (Block.depth_le_iff.1 (Nat.le_refl b.depth)).1
  have hd0 : 0 + b.depth ≤ maxDepth := by omega
  refine exists_congr fun a => and_congr_right fun ha => ?_
  have hda := hattributes a ha
  have hreads := Block.mem_reads_attributes_iff_of_mem hb hd0 ha
  rw [Block.decoder, hreads, a.2.leavesRange_decoderAt_iff (by omega), and_assoc]

/-- Decoding by the decoder of a block of which nothing is cut off leaves the range
exactly if the body overflows. -/
theorem Block.leavesRange_decoderAt_iff
    {depth : Nat} (b : Block) (hb : b.WellFormed) (hd : depth + b.depth ≤ maxDepth) (body : Body) :
    ((b.decoderAt depth).decode body).leavesRange = true ↔ b.Overflows body := by
  induction b using Block.induction generalizing depth body with
  | step b ih =>
      obtain ⟨hsa, -, hsb, -⟩ := Block.wellFormed_iff.1 hb
      have hblocks := (Block.depth_le_iff.1 (Nat.le_refl b.depth)).2
      have hsa' := Fields.sorted_map (fun name a => a.decoderAt (depth + 1) name) hsa
      have hsb' := Fields.sorted_map (fun name n => n.decoderAt (depth + 1) name) hsb
      have hnames := Fields.names_map (fun name n => n.decoderAt (depth + 1) name) b.blockTypes
      rw [Decoder.leavesRange_decode, Block.overflows_iff, Block.decoderAt_eq,
        decoderWithin_of_le (by omega), Decoder.leavesRange_object_iff,
        Fields.exists_mem_insertAll_iff hsa' hsb', hnames]
      simp only [List.mem_map, exists_exists_and_eq_and]
      rw [Block.leavesRange_attributes_iff hb hd]
      refine or_congr_right (exists_congr fun n => and_congr_right fun hn => ?_)
      have hdn : optionalBlockDepth n.2.block + 1 ≤ b.depth := hblocks n hn
      rw [NestedBlock.decoderAt, NestedBlock.leavesRange_collect_iff]
      refine exists_congr fun block => and_congr_right fun _ => ?_
      refine leavesRange_optionalBlockDecoderAt_iff_of (by omega) ?_ block.body
      intro c hc
      have hdc := Block.depth_of_mem hn hc
      exact ih n hn c hc (hb.of_mem hn hc) (by omega)

end Blocks

end Schema
end TypedConfig
