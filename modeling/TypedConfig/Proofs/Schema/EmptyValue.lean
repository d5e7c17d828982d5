import TypedConfig.Proofs.Schema.ImpliedType
import TypedConfig.Proofs.Value.Conformance

/-!
# Where the empty value conforms

The empty value of a schema is meant to conform to the type that the schema
implies.  The two are computed apart: below a nested block or nested type the
empty value starts the type again at depth zero, while the implied type goes on
counting.

Down to the limit they agree, and so they do below every block that may be
missing.  Only groups carry the depth on in both.  The attributes just below
the limit are cut off in the empty value, which has a null of the dynamic type
for them, but not in the implied type, which still has the type that such an
attribute gives.  So the empty value of a block conforms exactly if nothing but
the dynamic type is given there.
-/

namespace TypedConfig

section EmptyCollections

variable {t u : Ty} (mode : NestingMode)
  (hup : t.hasDynamic = true → u.hasDynamic = true) (hfit : (Value.null t).Fits u)
include hup hfit

/-- Nothing of a nested type fits the type of its collections, seen from any
element type above its own. -/
theorem NestingMode.emptyOf_fits_collection :
    (mode.emptyOf t).Fits (mode.collection u) := by
  by_cases htd : t.hasDynamic = true
  · have hud := hup htd
    cases mode with
    | single | group => exact hfit
    | list | set | map =>
        simp only [emptyOf, collection, if_pos htd]
        refine Value.Fits.of_hasDynamic hud ?_
        simpa [Value.emptyTuple, Value.emptyObject, Value.conformsTo] using hud
  · cases mode with
    | single | group => exact hfit
    | list =>
        rw [emptyOf, if_neg htd]
        exact Value.Fits.list hfit (List.forall_mem_nil _)
    | set =>
        rw [emptyOf, if_neg htd]
        exact Value.Fits.set hfit (List.forall_mem_nil _)
    | map =>
        rw [emptyOf, if_neg htd]
        exact Value.Fits.map hfit (List.forall_mem_nil _)

/-- Nothing of a nested block fits the type of its collections, seen from any
element type above its own. -/
theorem NestingMode.emptyOf_fits_blockCollection :
    (mode.emptyOf t).Fits (mode.blockCollection u) := by
  by_cases hud : u.hasDynamic = true
  · cases mode with
    | single | group => exact hfit
    | list | set | map =>
        simp only [blockCollection, if_pos hud]
        exact Value.Fits.dynamic _
  · have hcollection : mode.blockCollection u = mode.collection u := by
      cases mode <;> simp [blockCollection, collection, hud]
    rw [hcollection]
    exact mode.emptyOf_fits_collection hup hfit

end EmptyCollections

namespace Schema

section Lesser

/-- Types computed at depth zero are below those computed deeper down. -/
theorem NestedType.emptyOf_fits
    (depth : Nat) (n : NestedType) (hn : n.WellFormed) :
    (n.mode.emptyOf (n.elementTypeAt .storage 0)).Fits (n.typeAt .storage depth) := by
  have h0 := n.wellFormed_elementTypeAt .storage 0 hn
  have hd := n.wellFormed_elementTypeAt .storage depth hn
  have hconf := n.elementTypeAt_conformsTo .storage (Nat.zero_le depth) hn
  refine n.mode.emptyOf_fits_collection (Ty.hasDynamic_of_conformsTo h0 hd hconf) ?_
  exact Value.Fits.null h0 hd (n.storage_elementTypeAt .storage 0)
    (n.storage_elementTypeAt .storage depth) hconf

theorem NestedBlock.emptyOf_fits
    (depth : Nat) (n : NestedBlock) (hn : n.WellFormed) :
    (n.mode.emptyOf (impliedTypeOfBlock n.block)).Fits (n.typeAt .storage depth) := by
  have h0 := wellFormed_optionalBlockTypeAt .storage 0 n.block hn
  have hd := wellFormed_optionalBlockTypeAt .storage depth n.block hn
  have hconf := optionalBlockTypeAt_conformsTo .storage (Nat.zero_le depth) n.block hn
  refine n.mode.emptyOf_fits_blockCollection (Ty.hasDynamic_of_conformsTo h0 hd hconf) ?_
  exact Value.Fits.null h0 hd (storage_optionalBlockTypeAt .storage 0 n.block)
    (storage_optionalBlockTypeAt .storage depth n.block) hconf

end Lesser

section Attributes

/-- The empty value of an attribute that is not cut off fits its type. -/
theorem Attribute.emptyAt_fits
    {depth : Nat} (hd : depth ≤ maxDepth) (a : Attribute) (ha : a.WellFormed) :
    (a.emptyAt depth).Fits (a.typeAt .storage depth) := by
  rw [Attribute.emptyAt, valueWithin, if_neg (Nat.not_lt.2 hd), Attribute.typeAt_eq]
  cases hk : a.kind with
  | malformed => exact Value.Fits.dynamic _
  | typed t =>
      have ht := ha.typed (kind_eq_typed_iff.1 hk).2
      exact Value.Fits.null_self (Ty.wellFormed_storage t ht)
  | nested n => exact n.emptyOf_fits depth (ha.nested (kind_eq_nested_iff.1 hk))

/-- Whether the type of an attribute is dynamic where the attribute is cut off:
there it has no type, is given the dynamic type, or is given by one nested
object. -/
def Attribute.DynamicWhenCut (a : Attribute) : Prop :=
  match a.kind with
  | .malformed => True
  | .typed t => t = .dynamic
  | .nested n => n.mode = .single ∨ n.mode = .group

theorem Attribute.typeAt_eq_dynamic_iff
    {depth : Nat} (hd : maxDepth < depth) (a : Attribute) :
    a.typeAt .storage depth = .dynamic ↔ a.DynamicWhenCut := by
  rw [Attribute.typeAt_eq, Attribute.DynamicWhenCut]
  cases a.kind with
  | malformed => simp
  | typed t => cases t <;> simp [TypeForm.ofGiven, Ty.storage]
  | nested n =>
      simp only [NestedType.typeAt, NestedType.elementTypeAt_eq, typeWithin_of_lt hd]
      cases n.mode <;> simp [NestingMode.collection]

/-- What is cut off is dynamic in the empty value; it conforms to nothing but
the dynamic type. -/
theorem Attribute.emptyAt_conformsTo_iff_of_lt
    {depth : Nat} (hd : maxDepth < depth) (a : Attribute) :
    (a.emptyAt depth).orNull.conformsTo (a.typeAt .storage depth) = true ↔ a.DynamicWhenCut := by
  rw [Attribute.emptyAt, valueWithin, if_pos hd, ← a.typeAt_eq_dynamic_iff hd,
    ← Ty.dynamic_conformsTo_iff]
  simp [Value.orNull]

end Attributes

section Groups

/-- The blocks that are reached from a block through a number of groups. -/
inductive Block.GroupBelow : Nat → Block → Block → Prop where
  | here (b : Block) : GroupBelow 0 b b
  | inside {k : Nat} {b c inner : Block} {n : String × NestedBlock}
      (hmem : n ∈ b.blockTypes) (hgroup : n.2.mode = .group) (hblock : n.2.block = some c)
      (hinner : GroupBelow k c inner) : GroupBelow (k + 1) b inner

/-- Whether all types are dynamic that attributes give to the blocks reached
through so many groups.  An attribute does not count where a block type has its
name. -/
def Block.CutsOffCleanly (k : Nat) (b : Block) : Prop :=
  ∀ inner, b.GroupBelow k inner →
    ∀ a ∈ inner.attributes, a.1 ∉ Fields.names inner.blockTypes → a.2.DynamicWhenCut

theorem Block.cutsOffCleanly_zero_iff
    {b : Block} :
    b.CutsOffCleanly 0 ↔
      ∀ a ∈ b.attributes, a.1 ∉ Fields.names b.blockTypes → a.2.DynamicWhenCut := by
  constructor
  · intro h
    exact h b (.here b)
  · rintro h inner ⟨⟩
    exact h

theorem Block.cutsOffCleanly_succ_iff
    {k : Nat} {b : Block} :
    b.CutsOffCleanly (k + 1) ↔
      ∀ n ∈ b.blockTypes, n.2.mode = .group → ∀ c, n.2.block = some c → c.CutsOffCleanly k := by
  constructor
  · intro h n hmem hgroup c hblock inner hinner
    exact h inner (.inside hmem hgroup hblock hinner)
  · intro h inner hinner
    cases hinner with
    | inside hmem hgroup hblock hinner => exact h _ hmem hgroup _ hblock inner hinner

/-- A block that is reached through as many groups, each the only member of the
one around it. -/
def Block.inGroups (type : String) : Nat → Block → Block
  | 0, b => b
  | k + 1, b => { blockTypes := [(type, { mode := .group, block := some (b.inGroups type k) })] }

theorem Block.wellFormed_inGroups
    (type : String) (k : Nat) {b : Block} (h : b.WellFormed) :
    (b.inGroups type k).WellFormed := by
  induction k with
  | zero => exact h
  | succ k ih =>
      rw [Block.inGroups, Block.wellFormed_iff]
      refine ⟨.nil, List.forall_mem_nil _, List.pairwise_singleton _ _, ?_⟩
      rw [List.forall_mem_singleton]
      exact ih

/-- A block with a single optional string. -/
def Block.named : Block :=
  { attributes := [("name", .ofType .string .optional)] }

theorem Block.wellFormed_named :
    Block.named.WellFormed := by
  rw [Block.wellFormed_iff]
  refine ⟨List.pairwise_singleton _ _, ?_, .nil, List.forall_mem_nil _⟩
  rw [Block.named, List.forall_mem_singleton]
  exact Attribute.wellFormed_ofType (t := .string) trivial .optional

end Groups

section Blocks

/-- A nested block's empty value fits its type, unless the nested block is a
group and the empty value of its block does not. -/
theorem NestedBlock.emptyAt_fits_of
    (depth : Nat) (n : NestedBlock) (hn : n.WellFormed)
    (h : n.mode = .group → ∀ c, n.block = some c →
      (c.emptyAt depth).Fits (c.typeAt .storage depth)) :
    (n.emptyAt depth).Fits (n.typeAt .storage depth) := by
  cases hmode : n.mode with
  | group =>
      rw [NestedBlock.emptyAt, NestedBlock.typeAt, hmode]
      cases hblock : n.block with
      | none =>
          simp only [optionalBlockEmptyAt, optionalBlockTypeAt, valueWithin, typeWithin]
          split
          · exact Value.Fits.dynamic _
          · exact Value.Fits.object .nil .nil
      | some c => exact h hmode c hblock
  | _ =>
      have hempty : n.emptyAt depth = n.mode.emptyOf (impliedTypeOfBlock n.block) := by
        rw [NestedBlock.emptyAt, hmode]
      rw [hempty]
      exact n.emptyOf_fits depth hn

/-- The empty value of a block that is not cut off fits its type if those of
its members do. -/
theorem Block.emptyAt_fits_of_members
    {depth : Nat} (hd : depth ≤ maxDepth) {b : Block} (hb : b.WellFormed)
    (ha : ∀ a ∈ b.attributes, a.1 ∉ Fields.names b.blockTypes →
      (a.2.emptyAt (depth + 1)).orNull.Fits (a.2.typeAt .storage (depth + 1)))
    (hn : ∀ n ∈ b.blockTypes,
      (n.2.emptyAt (depth + 1)).Fits (n.2.typeAt .storage (depth + 1))) :
    (b.emptyAt depth).Fits (b.typeAt .storage depth) := by
  obtain ⟨hsa, -, hsb, -⟩ := Block.wellFormed_iff.1 hb
  rw [Block.emptyAt_eq, valueWithin, if_neg (Nat.not_lt.2 hd), Block.typeAt_eq,
    typeWithin_of_le hd, markedNames, Ty.objectWith_nil]
  refine Value.Fits.object (Fields.sorted_insertAll _ (Fields.sorted_mapValues _ hsa)) ?_
  exact (Fields.paired_insertAll_iff hsa hsb).2 ⟨ha, hn⟩

/-- The empty value of a block that is not cut off conforms only if those of
its members do. -/
theorem Block.members_conformTo
    {depth : Nat} (hd : depth ≤ maxDepth) {b : Block} (hb : b.WellFormed)
    (h : (b.emptyAt depth).conformsTo (b.typeAt .storage depth) = true) :
    (∀ a ∈ b.attributes, a.1 ∉ Fields.names b.blockTypes →
      (a.2.emptyAt (depth + 1)).orNull.conformsTo (a.2.typeAt .storage (depth + 1)) = true) ∧
    ∀ n ∈ b.blockTypes,
      (n.2.emptyAt (depth + 1)).conformsTo (n.2.typeAt .storage (depth + 1)) = true := by
  obtain ⟨hsa, -, hsb, -⟩ := Block.wellFormed_iff.1 hb
  rw [Block.emptyAt_eq, valueWithin, if_neg (Nat.not_lt.2 hd), Block.typeAt_eq,
    typeWithin_of_le hd, markedNames, Ty.objectWith_nil, Value.object_conformsTo_iff
      (Fields.sorted_insertAll _ (Fields.sorted_mapValues _ hsa))
      (Fields.sorted_insertAll _ (Fields.sorted_mapValues _ hsa))] at h
  exact (Fields.paired_insertAll_iff hsa hsb).1 h

theorem Block.emptyAt_fits_of_lt
    {depth : Nat} (hd : maxDepth < depth) (b : Block) :
    (b.emptyAt depth).Fits (b.typeAt .storage depth) := by
  rw [Block.typeAt_eq, typeWithin_of_lt hd]
  exact Value.Fits.dynamic _

/-- If nothing but the dynamic type is given just below the limit, the empty
value of a block fits its type. -/
theorem Block.emptyAt_fits
    {depth k : Nat} (hk : depth + k = maxDepth) (b : Block) (hb : b.WellFormed)
    (hclean : b.CutsOffCleanly k) :
    (b.emptyAt depth).Fits (b.typeAt .storage depth) := by
  induction k generalizing depth b with
  | zero =>
      obtain ⟨-, -, -, hwb⟩ := Block.wellFormed_iff.1 hb
      have hcut : maxDepth < depth + 1 := by omega
      rw [Block.cutsOffCleanly_zero_iff] at hclean
      refine Block.emptyAt_fits_of_members (by omega) hb ?_ ?_
      · intro a ha hname
        rw [(a.2.typeAt_eq_dynamic_iff hcut).2 (hclean a ha hname)]
        exact Value.Fits.dynamic _
      · intro n hn
        exact n.2.emptyAt_fits_of _ (hwb n hn) fun _ c _ => c.emptyAt_fits_of_lt hcut
  | succ k ih =>
      obtain ⟨-, hwa, -, hwb⟩ := Block.wellFormed_iff.1 hb
      rw [Block.cutsOffCleanly_succ_iff] at hclean
      refine Block.emptyAt_fits_of_members (by omega) hb ?_ ?_
      · intro a ha _
        exact (a.2.emptyAt_fits (by omega) (hwa a ha)).orNull
      · intro n hn
        refine n.2.emptyAt_fits_of _ (hwb n hn) ?_
        intro hgroup c hblock
        have hwc := hwb n hn
        rw [NestedBlock.WellFormed, hblock] at hwc
        exact ih (by omega) c hwc (hclean n hn hgroup c hblock)

/-- The empty value of a block conforms to its type only if nothing but the
dynamic type is given just below the limit. -/
theorem Block.cutsOffCleanly_of_conformsTo
    {depth k : Nat} (hk : depth + k = maxDepth) (b : Block) (hb : b.WellFormed)
    (h : (b.emptyAt depth).conformsTo (b.typeAt .storage depth) = true) :
    b.CutsOffCleanly k := by
  induction k generalizing depth b with
  | zero =>
      obtain ⟨hattributes, -⟩ := Block.members_conformTo (by omega) hb h
      rw [Block.cutsOffCleanly_zero_iff]
      intro a ha hname
      exact (a.2.emptyAt_conformsTo_iff_of_lt (by omega)).1 (hattributes a ha hname)
  | succ k ih =>
      obtain ⟨-, -, -, hwb⟩ := Block.wellFormed_iff.1 hb
      obtain ⟨-, hblocks⟩ := Block.members_conformTo (by omega) hb h
      rw [Block.cutsOffCleanly_succ_iff]
      intro n hn hgroup c hblock
      have hwc := hwb n hn
      rw [NestedBlock.WellFormed, hblock] at hwc
      have hconf := hblocks n hn
      rw [NestedBlock.emptyAt, NestedBlock.typeAt, hgroup, hblock] at hconf
      exact ih (by omega) c hwc hconf

theorem Block.GroupBelow.depth_le
    {k : Nat} {b inner : Block} (h : b.GroupBelow k inner) :
    inner.depth + k ≤ b.depth := by
  induction h with
  | here b => exact Nat.le_refl _
  | @inside k b c inner n hmem hgroup hblock hinner ih =>
      have hn := (Block.depth_le_iff.1 (Nat.le_refl b.depth)).2 n hmem
      rw [NestedBlock.depth, hblock, optionalBlockDepth] at hn
      omega

/-- A block that reaches no further than the limit has no attributes below
it. -/
theorem Block.cutsOffCleanly_of_depth_le
    {k : Nat} {b : Block} (h : b.depth ≤ k) :
    b.CutsOffCleanly k := by
  intro inner hinner a ha _
  have hdepth := hinner.depth_le
  have hattribute := (Block.depth_le_iff.1 (Nat.le_refl inner.depth)).1 a ha
  omega

end Blocks

section Conformance

/-- Whether all types are dynamic that are given just below the limit: for a
block and for the block of a group, to what is reached through as many groups as
the limit allows. -/
def Node.CutsOffCleanly : Node → Prop
  | .ofBlock b => b.CutsOffCleanly maxDepth
  | .ofNestedBlock n => n.mode = .group → ∀ c, n.block = some c → c.CutsOffCleanly maxDepth
  | .ofAttribute _ => True

/-- The empty value of a schema conforms to the implied type exactly if nothing
but the dynamic type is given just below the limit. -/
theorem emptyValue_conformsTo_impliedType_iff
    (node : Node) (hw : node.WellFormed) :
    node.emptyValue.conformsTo node.impliedType = true ↔ node.CutsOffCleanly := by
  have hlimit : 0 + maxDepth = maxDepth := Nat.zero_add _
  cases node with
  | ofBlock b =>
      constructor
      · exact b.cutsOffCleanly_of_conformsTo hlimit hw
      · intro hclean
        exact (b.emptyAt_fits hlimit hw hclean).conforms
  | ofNestedBlock n =>
      have hblock : ∀ c, n.block = some c → c.WellFormed := by
        intro c hc
        rw [Node.WellFormed, NestedBlock.WellFormed, hc] at hw
        exact hw
      constructor
      · intro h hgroup c hc
        rw [Node.emptyValue, NestedBlock.emptyValue, NestedBlock.emptyAt, Node.impliedType,
          NestedBlock.impliedType, NestedBlock.typeAt, hgroup, hc] at h
        exact c.cutsOffCleanly_of_conformsTo hlimit (hblock c hc) h
      · intro hclean
        refine (n.emptyAt_fits_of 0 hw ?_).conforms
        intro hgroup c hc
        exact c.emptyAt_fits hlimit (hblock c hc) (hclean hgroup c hc)
  | ofAttribute a =>
      constructor
      · exact fun _ => trivial
      · exact fun _ => (a.emptyAt_fits (Nat.zero_le _) hw).conforms

/-- Through one group less than the limit, and below a list, a string still
conforms. -/
theorem emptyValue_conformsTo_impliedType_named :
    (Node.ofBlock (Block.named.inGroups "group" 63)).emptyValue.conformsTo
        (Node.ofBlock (Block.named.inGroups "group" 63)).impliedType = true ∧
      (Node.ofNestedBlock { mode := .list, block := some .named }).emptyValue.conformsTo
        (Node.ofNestedBlock { mode := .list, block := some .named }).impliedType = true := by
  constructor
  · refine (emptyValue_conformsTo_impliedType_iff (.ofBlock _) ?_).2 ?_
    · exact Block.wellFormed_inGroups _ _ Block.wellFormed_named
    · exact Block.cutsOffCleanly_of_depth_le (by decide +kernel)
  · refine (emptyValue_conformsTo_impliedType_iff (.ofNestedBlock _) ?_).2 ?_
    · exact Block.wellFormed_named
    · rintro ⟨⟩

/-- Through as many groups as the limit allows it does not. -/
theorem emptyValue_not_conformsTo_impliedType_named :
    (Node.ofBlock (Block.named.inGroups "group" 64)).WellFormed ∧
      ¬ (Node.ofBlock (Block.named.inGroups "group" 64)).emptyValue.conformsTo
          (Node.ofBlock (Block.named.inGroups "group" 64)).impliedType = true :=
  ⟨Block.wellFormed_inGroups _ _ Block.wellFormed_named, by decide +kernel⟩

end Conformance

end Schema
end TypedConfig
