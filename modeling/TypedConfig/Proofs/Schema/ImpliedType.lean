import TypedConfig.Proofs.Schema.Parts
import TypedConfig.Proofs.Ty.Conformance

/-!
# How the implied type depends on depth and form

The type of a schema is computed at a depth, and what lies deeper than the
limit is cut off.  The same node may be met at several depths, since parts of
the other operations on schemas begin again at depth zero.

* `Attribute.wellFormed_typeAt`, `Block.wellFormed_typeAt`: types of well formed
  schemas are well formed.
* `Attribute.storage_typeAt`, `Block.storage_typeAt`: without its marks the input
  form is the storage form.
* `Attribute.typeAt_conformsTo`, `Block.typeAt_conformsTo`: a type computed at a
  lesser depth conforms to the one computed deeper down.
* `Attribute.typeAt_eq_of_depth_le`, `Block.typeAt_eq_of_depth_le`: where nothing
  is cut off, the depth does not matter.
-/

namespace TypedConfig

namespace NestingMode

variable {t u : Ty} (mode : NestingMode)

theorem wellFormed_collection
    (h : t.WellFormed) :
    (mode.collection t).WellFormed := by
  cases mode <;> exact h

theorem wellFormed_blockCollection
    (h : t.WellFormed) :
    (mode.blockCollection t).WellFormed := by
  cases mode with
  | single | group => exact h
  | list | set | map =>
      simp only [blockCollection]
      split
      · trivial
      · exact h

theorem storage_collection :
    (mode.collection t).storage = mode.collection t.storage := by
  cases mode <;> rfl

theorem storage_blockCollection :
    (mode.blockCollection t).storage = mode.blockCollection t.storage := by
  cases mode with
  | single | group => rfl
  | list | set | map =>
      simp only [blockCollection, Ty.hasDynamic_storage]
      split <;> rfl

theorem collection_conformsTo
    (h : t.conformsTo u = true) :
    (mode.collection t).conformsTo (mode.collection u) = true := by
  cases mode with
  | single | group => exact h
  | list | set | map =>
      simp only [collection, Ty.conformsTo]
      exact h

/-- Blocks that may differ in type below may do so above. -/
theorem blockCollection_conformsTo
    (ht : t.WellFormed) (hu : u.WellFormed) (h : t.conformsTo u = true) :
    (mode.blockCollection t).conformsTo (mode.blockCollection u) = true := by
  have hup := Ty.hasDynamic_of_conformsTo ht hu h
  cases mode with
  | single | group => exact h
  | list | set | map =>
      simp only [blockCollection]
      by_cases hud : u.hasDynamic = true
      · rw [if_pos hud]
        exact Ty.conformsTo_dynamic _
      · rw [if_neg hud, if_neg (fun htd => hud (hup htd))]
        simp only [Ty.conformsTo]
        exact h

end NestingMode

theorem TypeForm.storage_ofGiven
    (form : TypeForm) (t : Ty) :
    (form.ofGiven t).storage = t.storage := by
  cases form with
  | storage => exact Ty.storage_storage t
  | input => rfl

theorem TypeForm.wellFormed_ofGiven
    (form : TypeForm) {t : Ty} (h : t.WellFormed) :
    (form.ofGiven t).WellFormed := by
  cases form with
  | storage => exact Ty.wellFormed_storage t h
  | input => exact h

namespace Schema

section WellFormed

variable (form : TypeForm)

theorem wellFormed_typeWithin
    (depth : Nat) {t : Ty} (h : t.WellFormed) :
    (typeWithin depth t).WellFormed := by
  unfold typeWithin
  split
  · trivial
  · exact h

/-- The element type is well formed if the types of the attributes are. -/
theorem NestedType.wellFormed_elementTypeAt_of
    (depth : Nat) {n : NestedType} (h : n.WellFormed)
    (hattributes : ∀ a ∈ n.attributes, (a.2.typeAt form (depth + 1)).WellFormed) :
    (n.elementTypeAt form depth).WellFormed := by
  rw [NestedType.elementTypeAt_eq]
  refine wellFormed_typeWithin depth (Ty.wellFormed_objectWith _ (Fields.sorted_mapValues _ h.1) ?_)
  intro t ht
  obtain ⟨a, ha, rfl⟩ := Fields.mem_mapValues.1 ht
  exact hattributes a ha

theorem Attribute.wellFormed_typeAt
    (depth : Nat) (a : Attribute) (h : a.WellFormed) :
    (a.typeAt form depth).WellFormed := by
  induction a using Attribute.induction generalizing depth with
  | step a ih =>
      rw [Attribute.typeAt_eq]
      cases hk : a.kind with
      | malformed => trivial
      | typed t =>
          exact form.wellFormed_ofGiven (h.typed (kind_eq_typed_iff.1 hk).2)
      | nested n =>
          have hn := kind_eq_nested_iff.1 hk
          have hnw := h.nested hn
          exact n.mode.wellFormed_collection <|
            NestedType.wellFormed_elementTypeAt_of form depth hnw
              fun x hx => ih n hn x hx (depth + 1) (hnw.2 x hx)

theorem NestedType.wellFormed_elementTypeAt
    (depth : Nat) (n : NestedType) (h : n.WellFormed) :
    (n.elementTypeAt form depth).WellFormed :=
  n.wellFormed_elementTypeAt_of form depth h
    fun x hx => x.2.wellFormed_typeAt form (depth + 1) (h.2 x hx)

theorem wellFormed_optionalBlockTypeAt_of
    (depth : Nat) {o : Option Block}
    (h : ∀ c, o = some c → (c.typeAt form depth).WellFormed) :
    (optionalBlockTypeAt form depth o).WellFormed := by
  cases o with
  | none => exact wellFormed_typeWithin depth (Ty.wellFormed_object .nil (by simp))
  | some c => exact h c rfl

theorem Block.wellFormed_typeAt
    (depth : Nat) (b : Block) (h : b.WellFormed) :
    (b.typeAt form depth).WellFormed := by
  induction b using Block.induction generalizing depth with
  | step b ih =>
      obtain ⟨hsa, hwa, hsb, hwb⟩ := Block.wellFormed_iff.1 h
      rw [Block.typeAt_eq]
      refine wellFormed_typeWithin depth (Ty.wellFormed_objectWith _
        (Fields.sorted_insertAll _ (Fields.sorted_mapValues _ hsa)) ?_)
      intro t ht
      rcases Fields.mem_of_mem_insertAll ht with ht | ht
      · obtain ⟨a, ha, rfl⟩ := Fields.mem_mapValues.1 ht
        exact a.2.wellFormed_typeAt form (depth + 1) (hwa a ha)
      · obtain ⟨n, hn, rfl⟩ := Fields.mem_mapValues.1 ht
        refine n.2.mode.wellFormed_blockCollection (wellFormed_optionalBlockTypeAt_of form _ ?_)
        intro c hc
        have hwc := hwb n hn
        rw [NestedBlock.WellFormed, hc] at hwc
        exact ih n hn c hc (depth + 1) hwc

theorem wellFormed_optionalBlockTypeAt
    (depth : Nat) (o : Option Block) (h : OptionalBlockWellFormed o) :
    (optionalBlockTypeAt form depth o).WellFormed := by
  refine wellFormed_optionalBlockTypeAt_of form depth ?_
  rintro c rfl
  exact c.wellFormed_typeAt form depth h

end WellFormed

section Storage

variable (form : TypeForm)

theorem storage_typeWithin
    (depth : Nat) (t : Ty) :
    (typeWithin depth t).storage = typeWithin depth t.storage := by
  unfold typeWithin
  split <;> rfl

theorem NestedType.storage_elementTypeAt_of
    (depth : Nat) {n : NestedType}
    (h : ∀ a ∈ n.attributes,
      (a.2.typeAt form (depth + 1)).storage = a.2.typeAt .storage (depth + 1)) :
    (n.elementTypeAt form depth).storage = n.elementTypeAt .storage depth := by
  rw [NestedType.elementTypeAt_eq, NestedType.elementTypeAt_eq, storage_typeWithin,
    Ty.storage_objectWith, markedNames, Ty.objectWith_nil, Fields.mapValues_mapValues]
  rw [Fields.mapValues_congr h]

/-- Without its marks the input form is the storage form. -/
theorem Attribute.storage_typeAt
    (depth : Nat) (a : Attribute) :
    (a.typeAt form depth).storage = a.typeAt .storage depth := by
  induction a using Attribute.induction generalizing depth with
  | step a ih =>
      rw [Attribute.typeAt_eq, Attribute.typeAt_eq]
      cases hk : a.kind with
      | malformed => rfl
      | typed t => exact form.storage_ofGiven t
      | nested n =>
          simp only [NestedType.typeAt, NestingMode.storage_collection]
          rw [NestedType.storage_elementTypeAt_of form depth
            fun x hx => ih n (kind_eq_nested_iff.1 hk) x hx (depth + 1)]

theorem NestedType.storage_elementTypeAt
    (depth : Nat) (n : NestedType) :
    (n.elementTypeAt form depth).storage = n.elementTypeAt .storage depth :=
  n.storage_elementTypeAt_of form depth fun x _ => x.2.storage_typeAt form (depth + 1)

theorem NestedType.storage_typeAt
    (depth : Nat) (n : NestedType) :
    (n.typeAt form depth).storage = n.typeAt .storage depth := by
  rw [NestedType.typeAt, NestingMode.storage_collection, n.storage_elementTypeAt form depth]
  rfl

theorem storage_optionalBlockTypeAt_of
    (depth : Nat) {o : Option Block}
    (h : ∀ c, o = some c → (c.typeAt form depth).storage = c.typeAt .storage depth) :
    (optionalBlockTypeAt form depth o).storage = optionalBlockTypeAt .storage depth o := by
  cases o with
  | none => exact storage_typeWithin depth .emptyObject
  | some c => exact h c rfl

/-- Without its marks the input form is the storage form. -/
theorem Block.storage_typeAt
    (depth : Nat) (b : Block) :
    (b.typeAt form depth).storage = b.typeAt .storage depth := by
  induction b using Block.induction generalizing depth with
  | step b ih =>
      rw [Block.typeAt_eq, Block.typeAt_eq, storage_typeWithin, Ty.storage_objectWith, markedNames,
        Ty.objectWith_nil, Fields.mapValues_insertAll, Fields.mapValues_mapValues,
        Fields.mapValues_mapValues]
      rw [Fields.mapValues_congr fun a _ => a.2.storage_typeAt form (depth + 1)]
      rw [Fields.mapValues_congr (g := NestedBlock.typeAt .storage (depth + 1)) ?_]
      intro n hn
      rw [NestedBlock.typeAt, NestingMode.storage_blockCollection,
        storage_optionalBlockTypeAt_of form _ fun c hc => ih n hn c hc (depth + 1)]
      rfl

theorem storage_optionalBlockTypeAt
    (depth : Nat) (o : Option Block) :
    (optionalBlockTypeAt form depth o).storage = optionalBlockTypeAt .storage depth o :=
  storage_optionalBlockTypeAt_of form depth fun c _ => c.storage_typeAt form depth

end Storage

section Deeper

variable (form : TypeForm) {d e : Nat} (hde : d ≤ e)
include hde

/-- Cutting off at the lesser depth implies cutting off at the greater. -/
theorem typeWithin_conformsTo
    {t u : Ty} (h : e ≤ maxDepth → t.conformsTo u = true) :
    (typeWithin d t).conformsTo (typeWithin e u) = true := by
  rcases Nat.lt_or_ge maxDepth e with he | he
  · rw [typeWithin_of_lt he]
    exact Ty.conformsTo_dynamic _
  · rw [typeWithin_of_le he, typeWithin_of_le (Nat.le_trans hde he)]
    exact h he

theorem NestedType.elementTypeAt_conformsTo_of
    {n : NestedType} (hn : n.WellFormed)
    (h : ∀ a ∈ n.attributes,
      (a.2.typeAt form (d + 1)).conformsTo (a.2.typeAt form (e + 1)) = true) :
    (n.elementTypeAt form d).conformsTo (n.elementTypeAt form e) = true := by
  rw [NestedType.elementTypeAt_eq, NestedType.elementTypeAt_eq]
  refine typeWithin_conformsTo hde fun _ => ?_
  rw [Ty.objectWith, Ty.objectWith,
    Ty.conformsTo_object_iff (Fields.sorted_mapValues _ hn.1) (Fields.sorted_mapValues _ hn.1)]
  exact Fields.paired_mapValues h

/-- A type computed at a lesser depth conforms to the one computed deeper
down. -/
theorem Attribute.typeAt_conformsTo
    (a : Attribute) (ha : a.WellFormed) :
    (a.typeAt form d).conformsTo (a.typeAt form e) = true := by
  induction a using Attribute.induction generalizing d e with
  | step a ih =>
      rw [Attribute.typeAt_eq, Attribute.typeAt_eq]
      cases hk : a.kind with
      | malformed => rfl
      | typed t =>
          have ht := ha.typed (kind_eq_typed_iff.1 hk).2
          exact Ty.conformsTo_self (form.wellFormed_ofGiven ht)
      | nested n =>
          have hn := kind_eq_nested_iff.1 hk
          have hnw := ha.nested hn
          exact n.mode.collection_conformsTo <|
            NestedType.elementTypeAt_conformsTo_of form hde hnw
              fun x hx => ih n hn x hx (Nat.succ_le_succ hde) (hnw.2 x hx)

theorem NestedType.elementTypeAt_conformsTo
    (n : NestedType) (hn : n.WellFormed) :
    (n.elementTypeAt form d).conformsTo (n.elementTypeAt form e) = true :=
  n.elementTypeAt_conformsTo_of form hde hn
    fun x hx => x.2.typeAt_conformsTo form (Nat.succ_le_succ hde) (hn.2 x hx)

theorem NestedType.typeAt_conformsTo
    (n : NestedType) (hn : n.WellFormed) :
    (n.typeAt form d).conformsTo (n.typeAt form e) = true :=
  n.mode.collection_conformsTo (n.elementTypeAt_conformsTo form hde hn)

theorem optionalBlockTypeAt_conformsTo_of
    {o : Option Block}
    (h : ∀ c, o = some c → (c.typeAt form d).conformsTo (c.typeAt form e) = true) :
    (optionalBlockTypeAt form d o).conformsTo (optionalBlockTypeAt form e o) = true := by
  cases o with
  | none => exact typeWithin_conformsTo hde fun _ => rfl
  | some c => exact h c rfl

theorem NestedBlock.typeAt_conformsTo_of
    {n : NestedBlock} (hn : n.WellFormed)
    (h : ∀ c, n.block = some c → (c.typeAt form d).conformsTo (c.typeAt form e) = true) :
    (n.typeAt form d).conformsTo (n.typeAt form e) = true :=
  n.mode.blockCollection_conformsTo (wellFormed_optionalBlockTypeAt form d n.block hn)
    (wellFormed_optionalBlockTypeAt form e n.block hn)
    (optionalBlockTypeAt_conformsTo_of form hde h)

/-- A type computed at a lesser depth conforms to the one computed deeper
down. -/
theorem Block.typeAt_conformsTo
    (b : Block) (hb : b.WellFormed) :
    (b.typeAt form d).conformsTo (b.typeAt form e) = true := by
  induction b using Block.induction generalizing d e with
  | step b ih =>
      obtain ⟨hsa, hwa, hsb, hwb⟩ := Block.wellFormed_iff.1 hb
      have hde' : d + 1 ≤ e + 1 := Nat.succ_le_succ hde
      rw [Block.typeAt_eq, Block.typeAt_eq]
      refine typeWithin_conformsTo hde fun _ => ?_
      rw [Ty.objectWith, Ty.objectWith, Ty.conformsTo_object_iff
        (Fields.sorted_insertAll _ (Fields.sorted_mapValues _ hsa))
        (Fields.sorted_insertAll _ (Fields.sorted_mapValues _ hsa)),
        Fields.paired_insertAll_iff hsa hsb]
      refine ⟨fun a ha _ => a.2.typeAt_conformsTo form hde' (hwa a ha), ?_⟩
      intro n hn
      refine NestedBlock.typeAt_conformsTo_of form hde' (hwb n hn) ?_
      intro c hc
      have hwn : OptionalBlockWellFormed n.2.block := hwb n hn
      rw [hc] at hwn
      exact ih n hn c hc hde' hwn

theorem optionalBlockTypeAt_conformsTo
    (o : Option Block) (ho : OptionalBlockWellFormed o) :
    (optionalBlockTypeAt form d o).conformsTo (optionalBlockTypeAt form e o) = true := by
  refine optionalBlockTypeAt_conformsTo_of form hde ?_
  rintro c rfl
  exact c.typeAt_conformsTo form hde ho

theorem NestedBlock.typeAt_conformsTo
    (n : NestedBlock) (hn : n.WellFormed) :
    (n.typeAt form d).conformsTo (n.typeAt form e) = true := by
  refine NestedBlock.typeAt_conformsTo_of form hde hn ?_
  intro c hc
  rw [NestedBlock.WellFormed, hc] at hn
  exact c.typeAt_conformsTo form hde hn

end Deeper

section Uncut

variable (form : TypeForm) {d e : Nat}

theorem NestedType.elementTypeAt_eq_of_depth_le_of
    {n : NestedType} (hd : d + n.depth ≤ maxDepth) (he : e + n.depth ≤ maxDepth)
    (h : ∀ a ∈ n.attributes, a.2.typeAt form (d + 1) = a.2.typeAt form (e + 1)) :
    n.elementTypeAt form d = n.elementTypeAt form e := by
  rw [NestedType.elementTypeAt_eq, NestedType.elementTypeAt_eq, typeWithin_of_le (by omega),
    typeWithin_of_le (by omega), Fields.mapValues_congr h]

/-- Where nothing of an attribute is cut off its type does not depend on the
depth. -/
theorem Attribute.typeAt_eq_of_depth_le
    (a : Attribute) (hd : d + a.depth ≤ maxDepth) (he : e + a.depth ≤ maxDepth) :
    a.typeAt form d = a.typeAt form e := by
  induction a using Attribute.induction generalizing d e with
  | step a ih =>
      rw [Attribute.typeAt_eq, Attribute.typeAt_eq]
      cases hk : a.kind with
      | malformed => rfl
      | typed t => rfl
      | nested n =>
          have hn := kind_eq_nested_iff.1 hk
          rw [Attribute.depth_of_nested hn] at hd he
          refine congrArg n.mode.collection ?_
          refine NestedType.elementTypeAt_eq_of_depth_le_of form hd he ?_
          intro x hx
          have hx' : x.2.depth + 1 ≤ n.depth := attributesDepth_le_iff.1 (Nat.le_refl _) x hx
          exact ih n hn x hx (by omega) (by omega)

theorem optionalBlockTypeAt_eq_of_depth_le_of
    {o : Option Block} (hd : d + optionalBlockDepth o ≤ maxDepth)
    (he : e + optionalBlockDepth o ≤ maxDepth)
    (h : ∀ c, o = some c → c.typeAt form d = c.typeAt form e) :
    optionalBlockTypeAt form d o = optionalBlockTypeAt form e o := by
  cases o with
  | none =>
      simp only [optionalBlockTypeAt]
      rw [typeWithin_of_le (by omega), typeWithin_of_le (by omega)]
  | some c => exact h c rfl

/-- Where nothing of a block is cut off its type does not depend on the
depth. -/
theorem Block.typeAt_eq_of_depth_le
    (b : Block) (hd : d + b.depth ≤ maxDepth) (he : e + b.depth ≤ maxDepth) :
    b.typeAt form d = b.typeAt form e := by
  induction b using Block.induction generalizing d e with
  | step b ih =>
      obtain ⟨hattributes, hblocks⟩ := Block.depth_le_iff.1 (Nat.le_refl b.depth)
      rw [Block.typeAt_eq, Block.typeAt_eq, typeWithin_of_le (by omega),
        typeWithin_of_le (by omega)]
      rw [Fields.mapValues_congr (f := Attribute.typeAt form (d + 1))
        (g := Attribute.typeAt form (e + 1)) ?attributes]
      rw [Fields.mapValues_congr (f := NestedBlock.typeAt form (d + 1))
        (g := NestedBlock.typeAt form (e + 1)) ?blocks]
      case attributes =>
        intro a ha
        have := hattributes a ha
        exact a.2.typeAt_eq_of_depth_le form (by omega) (by omega)
      case blocks =>
        intro n hn
        have hn' : optionalBlockDepth n.2.block + 1 ≤ b.depth := hblocks n hn
        refine congrArg n.2.mode.blockCollection ?_
        refine optionalBlockTypeAt_eq_of_depth_le_of form (by omega) (by omega) ?_
        intro c hc
        have hdc := Block.depth_of_mem hn hc
        exact ih n hn c hc (by omega) (by omega)

theorem optionalBlockTypeAt_eq_of_depth_le
    (o : Option Block) (hd : d + optionalBlockDepth o ≤ maxDepth)
    (he : e + optionalBlockDepth o ≤ maxDepth) :
    optionalBlockTypeAt form d o = optionalBlockTypeAt form e o := by
  refine optionalBlockTypeAt_eq_of_depth_le_of form hd he ?_
  rintro c rfl
  exact c.typeAt_eq_of_depth_le form hd he

end Uncut

end Schema
end TypedConfig
