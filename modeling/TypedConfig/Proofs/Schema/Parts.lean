import TypedConfig.Proofs.Fields.Paired
import TypedConfig.Schema.EmptyValue

/-!
# Schemas and their parts

Attributes hold attributes below a nested type, and blocks hold blocks below
their block types.  There is an induction principle for either.  What a schema
is said to be by recursion on its lists of members is restated for the members
themselves: its depth, being well formed, its type and its empty value.

Blocks, nested blocks and attributes together are the nodes of schemas.
-/

namespace TypedConfig
namespace Schema

section Induction

/-- Induction over attributes: the property may be assumed of the attributes of
the nested type. -/
@[elab_as_elim]
theorem Attribute.induction
    {motive : Attribute → Prop}
    (step :
      ∀ a : Attribute,
        (∀ n, a.nested = some n → ∀ x ∈ n.attributes, motive x.2) → motive a) :
    ∀ a : Attribute, motive a := by
  refine @Attribute.rec motive
    (fun n => ∀ x ∈ n.attributes, motive x.2)
    (fun o => ∀ n, o = some n → ∀ x ∈ n.attributes, motive x.2)
    (fun l => ∀ x ∈ l, motive x.2)
    (fun x => motive x.2) ?_ ?_ ?_ ?_ ?_ ?_ ?_
  · intro type nested required optional computed sensitive description ih
    exact step _ ih
  · exact fun mode attributes ih => ih
  · exact fun n h => by cases h
  · intro n ih m h
    cases h
    exact ih
  · exact List.forall_mem_nil _
  · exact fun x rest hx hrest => List.forall_mem_cons.2 ⟨hx, hrest⟩
  · exact fun name a ih => ih

/-- Induction over blocks: the property may be assumed of the blocks of the
block types. -/
@[elab_as_elim]
theorem Block.induction
    {motive : Block → Prop}
    (step :
      ∀ b : Block,
        (∀ n ∈ b.blockTypes, ∀ c, n.2.block = some c → motive c) → motive b) :
    ∀ b : Block, motive b := by
  refine @Block.rec motive
    (fun n => ∀ c, n.block = some c → motive c)
    (fun l => ∀ n ∈ l, ∀ c, n.2.block = some c → motive c)
    (fun o => ∀ c, o = some c → motive c)
    (fun n => ∀ c, n.2.block = some c → motive c) ?_ ?_ ?_ ?_ ?_ ?_ ?_
  · intro attributes blockTypes description ih
    exact step _ ih
  · exact fun mode block lo hi ih => ih
  · exact List.forall_mem_nil _
  · exact fun n rest hn hrest => List.forall_mem_cons.2 ⟨hn, hrest⟩
  · exact fun c h => by cases h
  · intro b ih c h
    cases h
    exact ih
  · exact fun name n ih => ih

end Induction

section Kind

theorem Attribute.kind_eq_nested_iff
    {a : Attribute} {n : NestedType} :
    a.kind = .nested n ↔ a.nested = some n := by
  unfold Attribute.kind
  cases a.nested <;> cases a.type <;> simp

theorem Attribute.kind_eq_typed_iff
    {a : Attribute} {t : Ty} :
    a.kind = .typed t ↔ a.nested = none ∧ a.type = some t := by
  unfold Attribute.kind
  cases a.nested <;> cases a.type <;> simp

/-- Whether an attribute gives a type or a nested type. -/
def Attribute.isTyped (a : Attribute) : Bool :=
  a.type.isSome || a.nested.isSome

end Kind

section Depth

theorem attributesDepth_le_iff
    {attributes : Fields Attribute} {k : Nat} :
    attributesDepth attributes ≤ k ↔ ∀ a ∈ attributes, a.2.depth + 1 ≤ k := by
  induction attributes with
  | nil => simp [attributesDepth]
  | cons a rest ih =>
      rw [attributesDepth, List.forall_mem_cons, Nat.max_le, ih]

theorem blockTypesDepth_le_iff
    {blockTypes : Fields NestedBlock} {k : Nat} :
    blockTypesDepth blockTypes ≤ k ↔ ∀ n ∈ blockTypes, n.2.depth + 1 ≤ k := by
  induction blockTypes with
  | nil => simp [blockTypesDepth]
  | cons n rest ih =>
      obtain ⟨name, mode, b, lo, hi⟩ := n
      rw [blockTypesDepth, List.forall_mem_cons, Nat.max_le, ih]
      rfl

theorem Attribute.depth_of_nested
    {a : Attribute} {n : NestedType} (h : a.nested = some n) :
    a.depth = n.depth := by
  obtain ⟨type, nested, required, optional, computed, sensitive, description⟩ := a
  obtain ⟨mode, attributes⟩ := n
  cases h
  rfl

theorem Block.depth_le_iff
    {b : Block} {k : Nat} :
    b.depth ≤ k ↔
      (∀ a ∈ b.attributes, a.2.depth + 1 ≤ k) ∧ ∀ n ∈ b.blockTypes, n.2.depth + 1 ≤ k := by
  obtain ⟨attributes, blockTypes, description⟩ := b
  rw [Block.depth, Nat.max_le, attributesDepth_le_iff, blockTypesDepth_le_iff]

/-- A block lies a level above the blocks of its block types. -/
theorem Block.depth_of_mem
    {b c : Block} {n : String × NestedBlock} (hn : n ∈ b.blockTypes) (hc : n.2.block = some c) :
    c.depth + 1 ≤ b.depth := by
  have hdepth : optionalBlockDepth n.2.block + 1 ≤ b.depth :=
    (Block.depth_le_iff.1 (Nat.le_refl b.depth)).2 n hn
  rw [hc] at hdepth
  exact hdepth

end Depth

section WellFormed

/-- Whether a nested type has its attributes in the order of their names and
all types in it are well formed. -/
def NestedType.WellFormed (n : NestedType) : Prop :=
  Fields.Sorted n.attributes ∧ ∀ a ∈ n.attributes, a.2.WellFormed

/-- Whether the block of a nested block is well formed, if there is one. -/
def NestedBlock.WellFormed (n : NestedBlock) : Prop :=
  OptionalBlockWellFormed n.block

theorem attributesWellFormed_iff
    {attributes : Fields Attribute} :
    AttributesWellFormed attributes ↔ ∀ a ∈ attributes, a.2.WellFormed := by
  induction attributes with
  | nil => simp [AttributesWellFormed]
  | cons a rest ih => simp [AttributesWellFormed, ih]

theorem blockTypesWellFormed_iff
    {blockTypes : Fields NestedBlock} :
    BlockTypesWellFormed blockTypes ↔ ∀ n ∈ blockTypes, n.2.WellFormed := by
  induction blockTypes with
  | nil => simp [BlockTypesWellFormed]
  | cons n rest ih =>
      obtain ⟨name, mode, b, lo, hi⟩ := n
      rw [BlockTypesWellFormed, List.forall_mem_cons, ih]
      rfl

theorem Attribute.WellFormed.nested
    {a : Attribute} (h : a.WellFormed) {n : NestedType} (hn : a.nested = some n) :
    n.WellFormed := by
  obtain ⟨type, nested, required, optional, computed, sensitive, description⟩ := a
  cases hn
  obtain ⟨mode, attributes⟩ := n
  exact ⟨h.2.1, attributesWellFormed_iff.1 h.2.2⟩

theorem Attribute.WellFormed.typed
    {a : Attribute} (h : a.WellFormed) {t : Ty} (ht : a.type = some t) :
    t.WellFormed := by
  obtain ⟨type, nested, required, optional, computed, sensitive, description⟩ := a
  cases nested with
  | none => exact h t ht
  | some n =>
      obtain ⟨mode, attributes⟩ := n
      exact h.1 t ht

theorem Attribute.wellFormed_ofType
    {t : Ty} (ht : t.WellFormed) (r : Requirement) :
    (Attribute.ofType t r).WellFormed := by
  rintro u ⟨⟩
  exact ht

theorem Attribute.wellFormed_ofNested
    {n : NestedType} (hn : n.WellFormed) (r : Requirement) :
    (Attribute.ofNested n r).WellFormed := by
  obtain ⟨mode, attributes⟩ := n
  refine ⟨?_, hn.1, attributesWellFormed_iff.2 hn.2⟩
  rintro u ⟨⟩

theorem Block.wellFormed_iff
    {b : Block} :
    b.WellFormed ↔
      Fields.Sorted b.attributes ∧ (∀ a ∈ b.attributes, a.2.WellFormed) ∧
        Fields.Sorted b.blockTypes ∧ ∀ n ∈ b.blockTypes, n.2.WellFormed := by
  obtain ⟨attributes, blockTypes, description⟩ := b
  rw [Block.WellFormed, attributesWellFormed_iff, blockTypesWellFormed_iff]

theorem Block.WellFormed.of_mem
    {b c : Block} (hb : b.WellFormed) {n : String × NestedBlock} (hn : n ∈ b.blockTypes)
    (hc : n.2.block = some c) :
    c.WellFormed := by
  obtain ⟨-, -, -, hwell⟩ := Block.wellFormed_iff.1 hb
  have hblock : OptionalBlockWellFormed n.2.block := hwell n hn
  rw [hc] at hblock
  exact hblock

end WellFormed

section Equations

variable (form : TypeForm) (depth : Nat)

theorem NestedType.elementTypeAt_eq
    (n : NestedType) :
    n.elementTypeAt form depth =
      typeWithin depth
        (.objectWith (Fields.mapValues (Attribute.typeAt form (depth + 1)) n.attributes)
          (markedNames form n.attributes)) := by
  rw [elementTypeAt, objectAt, attributeTypesAt_eq_mapValues]

theorem Block.typeAt_eq
    (b : Block) :
    b.typeAt form depth =
      typeWithin depth
        (.objectWith
          (Fields.insertAll
            (Fields.mapValues (Attribute.typeAt form (depth + 1)) b.attributes)
            (Fields.mapValues (NestedBlock.typeAt form (depth + 1)) b.blockTypes))
          (markedNames form b.attributes)) := by
  obtain ⟨attributes, blockTypes, description⟩ := b
  rw [Block.typeAt, objectAt, attributeTypesAt_eq_mapValues, blockTypesAt_eq_mapValues]

theorem Block.emptyAt_eq
    (b : Block) :
    b.emptyAt depth =
      valueWithin depth
        (.object
          (Fields.insertAll
            (Fields.mapValues (fun a => (a.emptyAt (depth + 1)).orNull) b.attributes)
            (Fields.mapValues (NestedBlock.emptyAt (depth + 1)) b.blockTypes))) := by
  obtain ⟨attributes, blockTypes, description⟩ := b
  rw [Block.emptyAt, emptyAttributesAt, emptyBlocksAt_eq_mapValues]

theorem typeWithin_of_le
    {depth : Nat} (h : depth ≤ maxDepth) (t : Ty) :
    typeWithin depth t = t :=
  if_neg (Nat.not_lt.2 h)

theorem typeWithin_of_lt
    {depth : Nat} (h : maxDepth < depth) (t : Ty) :
    typeWithin depth t = .dynamic :=
  if_pos h

end Equations

/-- A node of a schema. -/
inductive Node where
  | ofBlock (b : Block)
  | ofNestedBlock (n : NestedBlock)
  | ofAttribute (a : Attribute)

namespace Node

/-- How many levels a node reaches below itself. -/
def depth : Node → Nat
  | .ofBlock b => b.depth
  | .ofNestedBlock n => n.depth
  | .ofAttribute a => a.depth

/-- Whether a node is well formed. -/
def WellFormed : Node → Prop
  | .ofBlock b => b.WellFormed
  | .ofNestedBlock n => n.WellFormed
  | .ofAttribute a => a.WellFormed

/-- The type of the values of a node. -/
def impliedType : Node → Ty
  | .ofBlock b => b.impliedType
  | .ofNestedBlock n => n.impliedType
  | .ofAttribute a => a.impliedType

/-- The empty value of a node. -/
def emptyValue : Node → Value
  | .ofBlock b => b.emptyValue
  | .ofNestedBlock n => n.emptyValue
  | .ofAttribute a => a.emptyValue

end Node

end Schema
end TypedConfig
