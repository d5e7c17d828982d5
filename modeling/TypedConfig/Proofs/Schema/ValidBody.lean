import TypedConfig.Proofs.Schema.Overflow

/-!
# Which bodies are decoded without findings

A body is valid for a schema if it has no attributes and blocks but those that
are read, if the required attributes are there, if the values of attributes can
be converted, and if the blocks of each type are as the mode of the type says,
each with a valid body.  Where blocks may stand for others that are not known
yet nothing is asked of them.

Decoding reports nothing exactly if the body is valid: there is neither a false
alarm nor a finding that is missed.
-/

namespace TypedConfig

/-- Whether blocks of one type are as a mode says, from what makes the body of
one of them valid. -/
def NestingMode.Admits (mode : NestingMode) (valid : Body → Prop) (blocks : List BodyBlock) :
    Prop :=
  match mode with
  | .single | .group =>
      blocks.length ≤ 1 ∧ ∀ first ∈ blocks.head?, first.body.unknown = true ∨ valid first.body
  | .list | .set =>
      (∃ block ∈ blocks, block.body.unknown = true) ∨ ∀ block ∈ blocks, valid block.body
  | .map =>
      (∃ block ∈ blocks, block.body.unknown = true) ∨
        ∀ block ∈ blocks, block.labels.length = 1 ∧ valid block.body

theorem NestingMode.admits_congr
    {valid valid' : Body → Prop} (mode : NestingMode) {blocks : List BodyBlock}
    (h : ∀ b, valid b ↔ valid' b) :
    mode.Admits valid blocks ↔ mode.Admits valid' blocks := by
  have heq : valid = valid' := funext fun b => propext (h b)
  rw [heq]

namespace Schema

/-- Whether an attribute is in a body as it has to be: there if it is required,
and with a value that can be converted. -/
def Attribute.ValidIn (a : Attribute) (name : String) (body : Body) : Prop :=
  (a.required = true → name ∈ Fields.names body.attributes) ∧
    ∀ x, Fields.get? name body.attributes = some x →
      ∃ v, Value.convert a.inputType x.value = .ok v

/-- Whether the attributes of a block that are read are in a body as they have
to be. -/
def Block.AttributesValid (b : Block) (body : Body) : Prop :=
  ∀ a ∈ b.attributes, a.1 ∈ b.decoder.reads.attributes → a.2.ValidIn a.1 body

mutual

/-- Whether a body is valid for a block. -/
def Block.Valid : Block → Body → Prop
  | ⟨attributes, blockTypes, description⟩, body =>
      (Block.mk attributes blockTypes description).decoder.reads.Covers body ∧
        (Block.mk attributes blockTypes description).AttributesValid body ∧
        BlockTypesValid blockTypes body

/-- Whether a body is valid for a possibly missing block; for a missing block
nothing may be in it. -/
def OptionalBlockValid : Option Block → Body → Prop
  | none, body => body.attributes = [] ∧ body.blocks = []
  | some b, body => b.Valid body

/-- Whether the blocks of a body are valid for the block types of a block. -/
def BlockTypesValid : List (String × NestedBlock) → Body → Prop
  | [], _ => True
  | (name, ⟨mode, b, _, _⟩) :: rest, body =>
      mode.Admits (OptionalBlockValid b) (body.blocksOf name) ∧ BlockTypesValid rest body

end

theorem blockTypesValid_iff
    {blockTypes : Fields NestedBlock} {body : Body} :
    BlockTypesValid blockTypes body ↔
      ∀ n ∈ blockTypes, n.2.mode.Admits (OptionalBlockValid n.2.block) (body.blocksOf n.1) := by
  induction blockTypes with
  | nil => simp [BlockTypesValid]
  | cons n rest ih =>
      obtain ⟨name, mode, b, lo, hi⟩ := n
      rw [BlockTypesValid, List.forall_mem_cons, ih]

theorem Block.valid_iff
    {b : Block} {body : Body} :
    b.Valid body ↔
      b.decoder.reads.Covers body ∧ b.AttributesValid body ∧
        ∀ n ∈ b.blockTypes, n.2.mode.Admits (OptionalBlockValid n.2.block) (body.blocksOf n.1) := by
  obtain ⟨attributes, blockTypes, description⟩ := b
  rw [Block.Valid, blockTypesValid_iff]

section Silence

theorem Attribute.silent_decoderAt_iff
    {depth : Nat} (a : Attribute) (hd : depth ≤ maxDepth) (name : String) {body : Body} :
    ((a.decoderAt depth name).decodeContent body).Silent ↔
      (a.isTyped = true → a.ValidIn name body) := by
  have hform := a.decodedBy_decoderAt hd name
  generalize a.decoderAt depth name = d at hform ⊢
  cases hform with
  | malformed h => simp [Decoder.decodeContent, Decoded.silent_clean, h]
  | typed h =>
      rw [h, eq_self, true_imp_iff]
      exact Decoder.silent_decodeAttribute_iff
  | withFallback h v =>
      rw [h, eq_self, true_imp_iff, Decoder.silent_withFallback_literal_iff]
      exact Decoder.silent_decodeAttribute_iff

theorem NestedBlock.silent_collect_iff
    (type : String) (n : NestedBlock) (nested : Decoder) {body : Body} :
    ((n.collect type nested).decodeContent body).Silent ↔
      n.mode.Admits (fun b => (nested.decode b).Silent) (body.blocksOf type) := by
  unfold NestedBlock.collect
  cases n.mode with
  | single => exact Decoder.silent_decodeSingle_iff
  | group =>
      simp only
      rw [Decoder.silent_withFallback_literal_iff]
      exact Decoder.silent_decodeSingle_iff
  | list | set =>
      simp only
      split <;>
        exact Decoder.silent_decodeKnown_iff.trans (or_congr_right Decoder.silent_decodeEach_iff)
  | map =>
      simp only
      split <;>
        exact Decoder.silent_decodeKnown_iff.trans (or_congr_right Decoder.silent_decodeLabeled_iff)

theorem silent_optionalBlockDecoderAt_iff_of
    {depth : Nat} {o : Option Block} (hd : depth ≤ maxDepth)
    (h : ∀ c, o = some c → ∀ body, ((c.decoderAt depth).decode body).Silent ↔ c.Valid body)
    (body : Body) :
    ((optionalBlockDecoderAt depth o).decode body).Silent ↔ OptionalBlockValid o body := by
  cases o with
  | none =>
      have hreads : (Decoder.object []).reads = {} := rfl
      rw [optionalBlockDecoderAt, decoderWithin_of_le hd, Decoder.silent_decode_iff,
        Decoder.silent_object_iff, hreads, OptionalBlockValid]
      simp [Decoder.Reads.Covers, Fields.names, List.eq_nil_iff_forall_not_mem]
  | some c => exact h c rfl body

/-- The attributes that are read are decoded silently exactly if they are as they have
to be. -/
theorem Block.silent_attributes_iff
    {depth : Nat} {b : Block} (hb : b.WellFormed) (hd : depth + b.depth ≤ maxDepth)
    {body : Body} :
    (∀ a ∈ b.attributes, a.1 ∉ Fields.names b.blockTypes →
        ((a.2.decoderAt (depth + 1) a.1).decodeContent body).Silent) ↔
      b.AttributesValid body := by
  have hattributes := (Block.depth_le_iff.1 (Nat.le_refl b.depth)).1
  have hd0 : 0 + b.depth ≤ maxDepth := by omega
  refine forall₂_congr fun a ha => ?_
  have hda := hattributes a ha
  have hreads := Block.mem_reads_attributes_iff_of_mem hb hd0 ha
  rw [Block.decoder, hreads, a.2.silent_decoderAt_iff (by omega), and_imp]

/-- Decoding by the decoder of a block of which nothing is cut off is silent exactly if
the body is valid. -/
theorem Block.silent_decoderAt_iff
    {depth : Nat} (b : Block) (hb : b.WellFormed) (hd : depth + b.depth ≤ maxDepth) (body : Body) :
    ((b.decoderAt depth).decode body).Silent ↔ b.Valid body := by
  induction b using Block.induction generalizing depth body with
  | step b ih =>
      obtain ⟨hsa, -, hsb, -⟩ := Block.wellFormed_iff.1 hb
      have hblocks := (Block.depth_le_iff.1 (Nat.le_refl b.depth)).2
      have hsa' := Fields.sorted_map (fun name a => a.decoderAt (depth + 1) name) hsa
      have hsb' := Fields.sorted_map (fun name n => n.decoderAt (depth + 1) name) hsb
      have hnames := Fields.names_map (fun name n => n.decoderAt (depth + 1) name) b.blockTypes
      rw [Decoder.silent_decode_iff, Block.covers_decoderAt_iff hb hd, Block.valid_iff,
        Block.decoderAt_eq, decoderWithin_of_le (by omega), Decoder.silent_object_iff,
        Fields.forall_mem_insertAll_iff hsa' hsb', List.forall_mem_map, List.forall_mem_map,
        hnames, Block.silent_attributes_iff hb hd]
      refine and_congr_right fun _ => and_congr_right fun _ => forall₂_congr fun n hn => ?_
      have hdn : optionalBlockDepth n.2.block + 1 ≤ b.depth := hblocks n hn
      rw [NestedBlock.decoderAt, NestedBlock.silent_collect_iff]
      refine n.2.mode.admits_congr (silent_optionalBlockDecoderAt_iff_of (by omega) ?_)
      intro c hc
      have hdc := Block.depth_of_mem hn hc
      exact ih n hn c hc (hb.of_mem hn hc) (by omega)

/-- Decoding returns a value and reports nothing exactly if the body is valid.  It returns
nothing exactly if the body overflows; then the body is not valid, though nothing is
reported.  And where something is returned, there are errors exactly if anything is
reported. -/
theorem decode_silent_iff_valid
    (b : Block) (hb : b.WellFormed) (hdepth : b.depth ≤ maxDepth) (body : Body) :
    ((∃ v, (b.decoder.decode body).returned? = some (v, [])) ↔ b.Valid body) ∧
      ((b.decoder.decode body).returned? = none ↔ b.Overflows body) ∧
      ∀ v ds, (b.decoder.decode body).returned? = some (v, ds) →
        (Diagnostic.hasErrors ds = true ↔ ds ≠ []) := by
  refine ⟨?_, ?_, ?_⟩
  · rw [Decoded.exists_returned?_eq_some_nil_iff]
    exact b.silent_decoderAt_iff hb (by omega) body
  · rw [Decoded.returned?_eq_none_iff]
    exact b.leavesRange_decoderAt_iff hb (by omega) body
  · intro v ds hreturned
    obtain ⟨-, -, rfl⟩ := Decoded.returned?_eq_some_iff.1 hreturned
    exact (Decoder.onlyErrors_decode b.decoder body).hasErrors_iff

/-- A block with blocks of a label, in each of which a number is required. -/
def Block.ports : Block :=
  { attributes := []
    blockTypes :=
      [("port",
        { mode := .map
          block := some { attributes := [("number", .ofType .number .required)] } })] }

/-- A body with one port that has a label and one without content. -/
def portsBody (port : Body) : Body :=
  { blocks :=
      [{ type := "port", labels := ["http"]
         body := { attributes := [("number", { value := .string "80" })] } },
        { type := "port", body := port }] }

theorem Block.wellFormed_ports :
    Block.ports.WellFormed := by
  simp [Block.ports, Attribute.ofType, Attribute.withRequirement, Block.WellFormed,
    Attribute.WellFormed, AttributesWellFormed, BlockTypesWellFormed, OptionalBlockWellFormed,
    Fields.Sorted, Ty.WellFormed]

/-- Where the body of a block is unknown neither its label nor the attribute is
missed. -/
theorem decode_silent_iff_valid_ports :
    Block.ports.Valid (portsBody { unknown := true }) ∧ ¬ Block.ports.Valid (portsBody {}) ∧
      ∃ v ds, (Block.ports.decoder.decode (portsBody {})).returned? = some (v, ds) ∧
        Diagnostic.hasErrors ds = true := by
  have hdepth : Block.ports.depth ≤ maxDepth := by decide
  obtain ⟨hsilent, -, -⟩ :=
    decode_silent_iff_valid Block.ports Block.wellFormed_ports hdepth
      (portsBody { unknown := true })
  obtain ⟨hreported, -, herrors⟩ :=
    decode_silent_iff_valid Block.ports Block.wellFormed_ports hdepth (portsBody {})
  obtain ⟨v, d, ds, hreturned⟩ :
      ∃ v d ds, (Block.ports.decoder.decode (portsBody {})).returned? = some (v, d :: ds) :=
    ⟨_, _, _, rfl⟩
  refine ⟨hsilent.1 ⟨_, rfl⟩, ?_, v, d :: ds, hreturned, ?_⟩
  · intro hvalid
    obtain ⟨w, hw⟩ := hreported.2 hvalid
    rw [hreturned] at hw
    cases hw
  · exact (herrors v (d :: ds) hreturned).2 (List.cons_ne_nil d ds)

/-- A block with a number. -/
def Block.weighted : Block :=
  { attributes := [("weight", .ofType .number .optional)] }

/-- A body with a number whose exponent is the least 64-bit integer. -/
def leastExponentBody : Body :=
  { attributes := [("weight", { value := .string "1e-9223372036854775808" })] }

/-- A value that cannot be converted is not reported where the exponent of its number is
the least 64-bit integer: nothing is returned. -/
theorem decode_leastExponent_not_reported :
    Block.weighted.WellFormed ∧ Block.weighted.depth ≤ maxDepth ∧
      (Block.weighted.decoder.decode leastExponentBody).returned? = none ∧
        ¬ ((Block.weighted.decoder.decode leastExponentBody).diagnostics = [] ↔
          Block.weighted.Valid leastExponentBody) := by
  have hb : Block.weighted.WellFormed := by
    simp [Block.weighted, Attribute.ofType, Attribute.withRequirement, Block.WellFormed,
      Attribute.WellFormed, AttributesWellFormed, BlockTypesWellFormed, Fields.Sorted,
      Ty.WellFormed]
  have hdepth : 0 + Block.weighted.depth ≤ maxDepth := by
    decide
  have hleaves : (Block.weighted.decoder.decode leastExponentBody).leavesRange = true := by
    decide +kernel
  have hnone : (Block.weighted.decoder.decode leastExponentBody).diagnostics.isEmpty = true := by
    decide +kernel
  refine ⟨hb, by decide, Decoded.returned?_eq_none_iff.2 hleaves, ?_⟩
  intro hexact
  have hvalid := hexact.1 (List.isEmpty_iff.1 hnone)
  have hsilent := (Block.weighted.silent_decoderAt_iff hb hdepth leastExponentBody).2 hvalid
  exact Bool.false_ne_true (hsilent.inRange.symm.trans hleaves)

end Silence

end Schema
end TypedConfig
