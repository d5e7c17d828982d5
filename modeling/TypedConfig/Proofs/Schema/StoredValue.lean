import TypedConfig.Proofs.Data.RoundTrip
import TypedConfig.Proofs.Decoder.Stored
import TypedConfig.Proofs.Schema.DecodedValue

/-!
# Decoded values are stored and loaded

What a schema decodes is stored as generic JSON and loaded by the type that the
schema implies.  If the type leaves nothing to the data, every decoded value has
the form of that type: nulls and unknown values are of exactly the types that
are due, and collections record exactly their element types.  So it is loaded
again as itself, unless parts of it are unknown, it nests too deep or it has
numbers with exponents that are not read.
-/

namespace TypedConfig

namespace NestingMode

variable {t : Ty} (mode : NestingMode)

theorem hasDynamic_collection :
    (mode.collection t).hasDynamic = t.hasDynamic := by
  cases mode <;> rfl

/-- Blocks that may not differ in type have the type of a collection. -/
theorem blockCollection_of_static
    (h : (mode.blockCollection t).hasDynamic = false) :
    t.hasDynamic = false ∧ mode.blockCollection t = mode.collection t := by
  cases mode with
  | single | group => exact ⟨h, rfl⟩
  | list | set | map =>
      simp only [blockCollection] at h ⊢
      split at h
      · cases h
      · rename_i hd
        rw [if_neg hd]
        exact ⟨Bool.not_eq_true _ ▸ hd, rfl⟩

theorem emptyOf_hasForm
    (h : t.hasDynamic = false) :
    (mode.emptyOf t).HasForm (mode.collection t) := by
  cases mode with
  | single | group => exact .null t
  | list =>
      rw [emptyOf, h]
      exact .list (List.forall_mem_nil _)
  | set =>
      rw [emptyOf, h]
      exact .set .nil (List.forall_mem_nil _)
  | map =>
      rw [emptyOf, h]
      exact .map .nil (List.forall_mem_nil _)

end NestingMode

namespace Schema

section EmptyValues

/-- The empty value of an attribute of which nothing is cut off has the form of
its type. -/
theorem Attribute.emptyAt_hasForm
    {depth : Nat} (a : Attribute) (hd : depth + a.depth ≤ maxDepth)
    (hstatic : (a.typeAt .storage depth).hasDynamic = false) :
    (a.emptyAt depth).HasForm (a.typeAt .storage depth) := by
  rw [a.typeAt_eq_of_depth_le .storage (e := 0) hd (by omega)] at hstatic ⊢
  rw [Attribute.typeAt_eq] at hstatic ⊢
  rw [Attribute.emptyAt, valueWithin, if_neg (by omega)]
  cases hk : a.kind with
  | malformed =>
      rw [hk] at hstatic
      cases hstatic
  | typed t => exact .null _
  | nested n =>
      rw [hk] at hstatic
      simp only [NestedType.typeAt, NestingMode.hasDynamic_collection] at hstatic
      exact n.mode.emptyOf_hasForm hstatic

theorem NestedBlock.emptyAt_hasForm_of
    {depth : Nat} (n : NestedBlock) (hd : depth + optionalBlockDepth n.block ≤ maxDepth)
    (hstatic : (n.typeAt .storage depth).hasDynamic = false)
    (h : ∀ c, n.block = some c → (c.typeAt .storage depth).hasDynamic = false →
      (c.emptyAt depth).HasForm (c.typeAt .storage depth)) :
    (n.emptyAt depth).HasForm (n.typeAt .storage depth) := by
  obtain ⟨helement, hcollection⟩ := n.mode.blockCollection_of_static hstatic
  rw [NestedBlock.typeAt, hcollection]
  cases hmode : n.mode with
  | group =>
      rw [NestedBlock.emptyAt, hmode]
      cases hblock : n.block with
      | none =>
          simp only [optionalBlockEmptyAt, optionalBlockTypeAt, valueWithin, NestingMode.collection]
          rw [if_neg (by omega), typeWithin_of_le (by omega)]
          exact .object_of_paired .nil .nil
      | some c =>
          rw [hblock] at helement
          exact h c hblock helement
  | _ =>
      have hempty : n.emptyAt depth = n.mode.emptyOf (impliedTypeOfBlock n.block) := by
        rw [NestedBlock.emptyAt, hmode]
      rw [optionalBlockTypeAt_eq_of_depth_le .storage n.block (e := 0) hd (by omega)] at helement ⊢
      rw [hempty, hmode]
      exact NestingMode.emptyOf_hasForm _ helement

/-- The empty value of a block of which nothing is cut off has the form of its
type. -/
theorem Block.emptyAt_hasForm
    {depth : Nat} (b : Block) (hb : b.WellFormed) (hd : depth + b.depth ≤ maxDepth)
    (hstatic : (b.typeAt .storage depth).hasDynamic = false) :
    (b.emptyAt depth).HasForm (b.typeAt .storage depth) := by
  induction b using Block.induction generalizing depth with
  | step b ih =>
      obtain ⟨hsa, -, hsb, -⟩ := Block.wellFormed_iff.1 hb
      obtain ⟨hattributes, hblocks⟩ := Block.depth_le_iff.1 (Nat.le_refl b.depth)
      rw [Block.typeAt_eq, typeWithin_of_le (by omega), markedNames, Ty.objectWith_nil]
        at hstatic ⊢
      rw [Block.emptyAt_eq, valueWithin, if_neg (by omega)]
      have hstatics := (Fields.forall_mem_insertAll_iff (Fields.sorted_mapValues _ hsa)
        (Fields.sorted_mapValues _ hsb)).1 (Ty.hasDynamic_of_mem_object hstatic)
      rw [Fields.names_mapValues] at hstatics
      obtain ⟨hstatica, hstaticb⟩ := hstatics
      refine Value.HasForm.object_of_paired
        (Fields.sorted_insertAll _ (Fields.sorted_mapValues _ hsa)) ?_
      refine (Fields.paired_insertAll_iff hsa hsb).2 ⟨?_, ?_⟩
      · intro a ha hname
        have hda := hattributes a ha
        have hform := a.2.emptyAt_hasForm (show depth + 1 + a.2.depth ≤ maxDepth by omega)
          (hstatica _ (Fields.mem_mapValues.2 ⟨a, ha, rfl⟩) hname)
        rw [hform.orNull_eq]
        exact hform
      · intro n hn
        have hdn : optionalBlockDepth n.2.block + 1 ≤ b.depth := hblocks n hn
        refine n.2.emptyAt_hasForm_of (by omega)
          (hstaticb _ (Fields.mem_mapValues.2 ⟨n, hn, rfl⟩)) ?_
        intro c hc
        have hdc := Block.depth_of_mem hn hc
        exact ih n hn c hc (hb.of_mem hn hc) (by omega)

theorem emptyValueOfBlock_hasForm
    (o : Option Block) (ho : OptionalBlockWellFormed o) (hd : optionalBlockDepth o ≤ maxDepth)
    (hstatic : (impliedTypeOfBlock o).hasDynamic = false) :
    (emptyValueOfBlock o).HasForm (impliedTypeOfBlock o) := by
  cases o with
  | none => exact .object_of_paired .nil .nil
  | some c =>
      rw [optionalBlockDepth] at hd
      exact c.emptyAt_hasForm ho (by omega) hstatic

end EmptyValues

section Decoders

variable {depth : Nat}

theorem Attribute.yieldsForm_decoderAt
    (hd : depth ≤ maxDepth) (name : String) (a : Attribute) (ha : a.WellFormed)
    (hdepth : a.depth ≤ maxDepth) :
    (a.decoderAt depth name).YieldsForm := by
  rw [Attribute.decoderAt, if_neg (Nat.not_lt.2 hd)]
  cases hk : a.kind with
  | malformed => exact Decoder.yieldsForm_of_hasDynamic rfl
  | typed t => exact Decoder.yieldsForm_attribute name (ha.typed (kind_eq_typed_iff.1 hk).2) _
  | nested n =>
      have hn := ha.nested (kind_eq_nested_iff.1 hk)
      have hinput : n.inputType.WellFormed :=
        n.mode.wellFormed_collection (n.wellFormed_elementTypeAt .input 0 hn)
      have hprimary := Decoder.yieldsForm_attribute name hinput a.required
      have htype : n.inputType.storage = a.typeAt .storage 0 := by
        rw [Attribute.typeAt_eq, hk]
        exact n.storage_typeAt .input 0
      simp only
      split
      · exact hprimary
      · refine Decoder.yieldsForm_withFallback hprimary ?_
        intro hstatic _
        rw [Decoder.type, htype] at hstatic ⊢
        exact a.emptyAt_hasForm (by omega) hstatic

/-- The decoder of the blocks of a type yields its stored form if the decoder of
one of them does and the empty block has it in a group. -/
theorem NestedBlock.yieldsForm_collect
    (type : String) (n : NestedBlock) {nested : Decoder} (hnested : nested.YieldsForm)
    (hempty : nested.type.hasDynamic = false →
      (emptyValueOfBlock n.block).HasForm nested.type) :
    (n.collect type nested).YieldsForm := by
  unfold NestedBlock.collect
  cases n.mode with
  | single => exact Decoder.yieldsForm_block hnested type false
  | group =>
      exact Decoder.yieldsForm_withFallback (Decoder.yieldsForm_block hnested type false)
        fun hstatic _ => hempty hstatic
  | list =>
      simp only
      split
      · exact Decoder.yieldsForm_of_hasDynamic rfl
      · exact Decoder.yieldsForm_blockList hnested type _
  | set =>
      simp only
      split
      · exact Decoder.yieldsForm_of_hasDynamic rfl
      · exact Decoder.yieldsForm_blockSet hnested type _
  | map =>
      simp only
      split
      · exact Decoder.yieldsForm_of_hasDynamic rfl
      · exact Decoder.yieldsForm_blockMap hnested type _

theorem yieldsForm_optionalBlockDecoderAt_of
    {o : Option Block} (hd : depth ≤ maxDepth)
    (h : ∀ c, o = some c → (c.decoderAt depth).YieldsForm) :
    (optionalBlockDecoderAt depth o).YieldsForm := by
  cases o with
  | none =>
      rw [optionalBlockDecoderAt, decoderWithin_of_le hd]
      exact Decoder.yieldsForm_object .nil (List.forall_mem_nil _)
  | some c => exact h c rfl

/-- The decoder of a block of which nothing is cut off yields its stored
form. -/
theorem Block.yieldsForm_decoderAt
    (b : Block) (hb : b.WellFormed) (hd : depth + b.depth ≤ maxDepth) :
    (b.decoderAt depth).YieldsForm := by
  induction b using Block.induction generalizing depth with
  | step b ih =>
      obtain ⟨hsa, hwa, hsb, hwb⟩ := Block.wellFormed_iff.1 hb
      obtain ⟨hattributes, hblocks⟩ := Block.depth_le_iff.1 (Nat.le_refl b.depth)
      rw [Block.decoderAt_eq, decoderWithin_of_le (by omega)]
      refine Decoder.yieldsForm_object (Fields.sorted_insertAll _ (Fields.sorted_map _ hsa)) ?_
      intro part hpart
      rcases Fields.mem_of_mem_insertAll hpart with hpart | hpart
      · obtain ⟨a, ha, rfl⟩ := List.mem_map.1 hpart
        have hda := hattributes a ha
        exact a.2.yieldsForm_decoderAt (by omega) a.1 (hwa a ha) (by omega)
      · obtain ⟨n, hn, rfl⟩ := List.mem_map.1 hpart
        have hdn : optionalBlockDepth n.2.block + 1 ≤ b.depth := hblocks n hn
        have hwn : OptionalBlockWellFormed n.2.block := hwb n hn
        refine n.2.yieldsForm_collect n.1 (yieldsForm_optionalBlockDecoderAt_of (by omega) ?_) ?_
        · intro c hc
          have hdc := Block.depth_of_mem hn hc
          exact ih n hn c hc (hb.of_mem hn hc) (by omega)
        · rw [type_optionalBlockDecoderAt_eq_impliedType n.2.block (by omega)]
          exact emptyValueOfBlock_hasForm n.2.block hwn (by omega)

end Decoders

section Storage

/-- Where the implied type leaves nothing to the data, every decoded value is
stored, and it is loaded again as itself exactly if it is wholly known and
within the limits of data. -/
theorem decode_stored_loaded_iff
    (b : Block) (hb : b.WellFormed) (hdepth : b.depth ≤ maxDepth)
    (hstatic : b.impliedType.hasDynamic = false) (body : Body) (hbody : body.WellFormed) :
    ∃ j, (b.decoder.decode body).result.toJson = .ok j ∧
      (Value.ofData b.impliedType (.ofJson j) = .ok (b.decoder.decode body).result ↔
        (b.decoder.decode body).result.isWhollyKnown = true ∧
          (b.decoder.decode body).result.depth ≤ maxDepth ∧
          ∀ n : Decimal, (Value.number n).PartOf (b.decoder.decode body).result →
            n.ExponentWithinLimit) := by
  have htype : b.decoder.type = b.impliedType := b.type_decoderAt (by omega)
  have hyields : b.decoder.YieldsForm := b.yieldsForm_decoderAt hb (by omega)
  have hform : (b.decoder.decode body).result.HasForm b.impliedType := by
    rw [← htype] at hstatic ⊢
    exact hyields hstatic body hbody
  have hwell : b.impliedType.WellFormed := b.wellFormed_typeAt .storage 0 hb
  generalize (b.decoder.decode body).result = v at hform ⊢
  obtain ⟨j, hj⟩ := Value.exists_toJson hform.present
  refine ⟨j, hj, ?_⟩
  constructor
  · intro hload
    have hknown := (Value.readAs_closedUnderReading.holdsOfRead _ 0 _ v hwell hload).isWhollyKnown
    obtain ⟨hlimits, -⟩ := (hform.rereads hknown j hj 0 v).1 hload
    have hlevels := hlimits.depth_le
    exact ⟨hknown, by omega, hlimits.exponents⟩
  · rintro ⟨hknown, hlevels, hexponents⟩
    exact (hform.rereads hknown j hj 0 v).2 ⟨⟨by omega, hexponents⟩, rfl⟩

/-- A block with a number and a set of blocks with names. -/
def Block.rules : Block :=
  { attributes := [("count", .ofType .number .required)]
    blockTypes := [("rule", { mode := .set, block := some .named })] }

/-- A body that writes the number as a string and the blocks out of order. -/
def rulesBody : Body :=
  { attributes := [("count", { value := .string "2" })]
    blocks :=
      [{ type := "rule", body := { attributes := [("name", { value := .string "b" })] } },
        { type := "rule", body := { attributes := [("name", { value := .string "a" })] } }] }

theorem Block.wellFormed_rules :
    Block.rules.WellFormed := by
  rw [Block.wellFormed_iff, Block.rules]
  refine ⟨List.pairwise_singleton _ _, ?_, List.pairwise_singleton _ _, ?_⟩
  · rw [List.forall_mem_singleton]
    exact Attribute.wellFormed_ofType (t := .number) trivial .optional
  · rw [List.forall_mem_singleton]
    exact Block.wellFormed_named

theorem wellFormed_rulesBody :
    rulesBody.WellFormed := by
  simp [rulesBody, Body.WellFormed, BlocksWellFormed, Fields.Sorted, Value.WellFormed]

theorem decode_stored_loaded_rules :
    ∃ j, (Block.rules.decoder.decode rulesBody).result.toJson = .ok j ∧
      Value.ofData Block.rules.impliedType (.ofJson j) =
        .ok (Block.rules.decoder.decode rulesBody).result := by
  have hresult : (Block.rules.decoder.decode rulesBody).result =
      .object [("count", .number (Decimal.ofInt 2)),
        ("rule", .set Block.named.impliedType
          [.object [("name", .string "a")], .object [("name", .string "b")]])] := by
    rfl
  have hrule : ∀ s, (Value.object [("name", .string s)]).WithinLimits 2 := by
    intro s
    refine Value.withinLimits_iff.2 ⟨by decide, nofun, List.forall_mem_singleton.2 ?_⟩
    exact Value.withinLimits_iff.2 ⟨by decide, nofun, List.forall_mem_nil _⟩
  have hlimits : (Block.rules.decoder.decode rulesBody).result.WithinLimits 0 := by
    rw [hresult]
    refine Value.withinLimits_iff.2 ⟨by decide, nofun, ?_⟩
    refine List.forall_mem_cons.2 ⟨?_, List.forall_mem_singleton.2 ?_⟩
    · refine Value.withinLimits_iff.2 ⟨by decide, ?_, List.forall_mem_nil _⟩
      rintro n ⟨⟩
      decide
    · refine Value.withinLimits_iff.2 ⟨by decide, nofun, ?_⟩
      exact List.forall_mem_cons.2 ⟨hrule "a", List.forall_mem_singleton.2 (hrule "b")⟩
  have hlevels := hlimits.depth_le
  obtain ⟨j, hj, hload⟩ := decode_stored_loaded_iff Block.rules Block.wellFormed_rules (by decide)
    (by decide) rulesBody wellFormed_rulesBody
  exact ⟨j, hj, hload.2 ⟨by rfl, by omega, hlimits.exponents⟩⟩

end Storage

end Schema
end TypedConfig
