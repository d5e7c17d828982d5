import TypedConfig.Proofs.Schema.Parts
import TypedConfig.Proofs.Ty.Document

/-!
# Schemas read back from their documents

Blocks, nested blocks, attributes and nested types are each written as a
document that leaves out what has its default.  Each of the four is read back if
the parts are that its document holds: one lemma for each says so.

A document holds others, and all documents inside it decide whether it is read
back.  An attribute's type has the reserved name first in no object of its
expression, as that object would be taken for a number, and the bounds of nested
blocks are 64-bit numbers.

* `Document.readBack_iff_legible`: on that condition the schema comes back, and
  without it nothing is read.
* `Document.not_readBack_reserved`: an attribute whose own document is refused.
-/

namespace TypedConfig
namespace Schema

open Json

attribute [ext] Attribute NestedType Block NestedBlock

section Records

/-- The fields of an attribute. -/
def Attribute.fields (a : Attribute) : Fields Json :=
  fieldOf? "type" Ty.toJson a.type ++ fieldOf? "nested_type" NestedType.toJson a.nested ++
    fieldIf a.required "required" (.bool true) ++ fieldIf a.optional "optional" (.bool true) ++
    fieldIf a.computed "computed" (.bool true) ++ fieldIf a.sensitive "sensitive" (.bool true) ++
    fieldOf? "description" Json.string a.description

/-- The fields of a nested type. -/
def NestedType.fields (n : NestedType) : Fields Json :=
  [("nesting_mode", .string n.mode.name), ("attributes", .object (attributesToJson n.attributes))]

/-- The fields of a block. -/
def Block.fields (b : Block) : Fields Json :=
  fieldIf (!b.attributes.isEmpty) "attributes" (.object (attributesToJson b.attributes)) ++
    fieldIf (!b.blockTypes.isEmpty) "block_types" (.object (blockTypesToJson b.blockTypes)) ++
    fieldOf? "description" Json.string b.description

/-- The fields of a nested block. -/
def NestedBlock.fields (n : NestedBlock) : Fields Json :=
  ("nesting_mode", .string n.mode.name) :: (fieldOf? "block" Block.toJson n.block ++
    fieldOf? "min_items" Json.ofNat n.minItems ++ fieldOf? "max_items" Json.ofNat n.maxItems)

theorem Attribute.toJson_eq
    (a : Attribute) :
    a.toJson = .object a.fields := by
  obtain ⟨type, nested, required, optional, computed, sensitive, description⟩ := a
  cases nested <;> rfl

theorem NestedType.toJson_eq
    (n : NestedType) :
    n.toJson = .object n.fields := by
  obtain ⟨mode, attributes⟩ := n
  rfl

theorem Block.toJson_eq
    (b : Block) :
    b.toJson = .object b.fields := by
  obtain ⟨attributes, blockTypes, description⟩ := b
  rfl

theorem NestedBlock.toJson_eq
    (n : NestedBlock) :
    n.toJson = .object n.fields := by
  obtain ⟨mode, block, minItems, maxItems⟩ := n
  cases block <;> rfl

theorem NestedType.toJson_ne_null
    (n : NestedType) :
    n.toJson ≠ .null := by
  rw [n.toJson_eq]
  exact Json.noConfusion

theorem Block.toJson_ne_null
    (b : Block) :
    b.toJson ≠ .null := by
  rw [b.toJson_eq]
  exact Json.noConfusion

theorem NestedType.get?_attributes
    (n : NestedType) :
    Fields.get? "attributes" n.fields =
      if false then none else some (.object (Fields.mapValues Attribute.toJson n.attributes)) := by
  rw [← attributesToJson_eq_mapValues]
  rfl

theorem Block.get?_attributes
    (b : Block) :
    Fields.get? "attributes" b.fields =
      if b.attributes.isEmpty then none
      else some (.object (Fields.mapValues Attribute.toJson b.attributes)) := by
  rw [← attributesToJson_eq_mapValues]
  cases h : b.attributes.isEmpty <;> simp [Block.fields, Fields.get?_append, h]

theorem Block.get?_blockTypes
    (b : Block) :
    Fields.get? "block_types" b.fields =
      if b.blockTypes.isEmpty then none
      else some (.object (Fields.mapValues NestedBlock.toJson b.blockTypes)) := by
  rw [← blockTypesToJson_eq_mapValues]
  cases h : b.blockTypes.isEmpty <;> simp [Block.fields, Fields.get?_append, h]

theorem Attribute.names_fields_sublist
    (a : Attribute) :
    (Fields.names a.fields).Sublist attributeFields := by
  simp only [Attribute.fields, Fields.names, List.map_append]
  exact ((((((names_fieldOf?_sublist _ _).append (names_fieldOf?_sublist _ _)).append
    (names_fieldIf_sublist _ _)).append (names_fieldIf_sublist _ _)).append
    (names_fieldIf_sublist _ _)).append (names_fieldIf_sublist _ _)).append
    (names_fieldOf?_sublist _ _)

theorem NestedType.names_fields_sublist
    (n : NestedType) :
    (Fields.names n.fields).Sublist nestedTypeFields :=
  List.Sublist.refl _

theorem Block.names_fields_sublist
    (b : Block) :
    (Fields.names b.fields).Sublist blockFields := by
  simp only [Block.fields, Fields.names, List.map_append]
  exact ((names_fieldIf_sublist _ _).append (names_fieldIf_sublist _ _)).append
    (names_fieldOf?_sublist _ _)

theorem NestedBlock.names_fields_sublist
    (n : NestedBlock) :
    (Fields.names n.fields).Sublist nestedBlockFields := by
  simp only [NestedBlock.fields, Fields.names, List.map_cons, List.map_append]
  exact (((names_fieldOf?_sublist _ _).append (names_fieldOf?_sublist _ _)).append
    (names_fieldOf?_sublist _ _)).cons_cons _

end Records

section Readers

variable {levels : Nat} {j : Source}

theorem Attribute.read_eq_ok_iff
    {a : Attribute} :
    Attribute.read (levels + 1) j = .ok a ↔
      ∃ fields, readRecord attributeFields j = .ok fields ∧
        optionalField fields "type" (Ty.read levels) = .ok a.type ∧
        optionalField fields "nested_type" (NestedType.read levels) = .ok a.nested ∧
        defaultField fields "required" false readBool = .ok a.required ∧
        defaultField fields "optional" false readBool = .ok a.optional ∧
        defaultField fields "computed" false readBool = .ok a.computed ∧
        defaultField fields "sensitive" false readBool = .ok a.sensitive ∧
        optionalField fields "description" readString = .ok a.description := by
  obtain ⟨type, nested, required, optional, computed, sensitive, description⟩ := a
  simp only [Attribute.read, bind_eq_ok_iff, pure, Except.pure, Except.ok.injEq,
    Attribute.mk.injEq]
  constructor
  · rintro ⟨fields, hfields, _, htype, _, hnested, _, hrequired, _, hoptional, _, hcomputed, _,
      hsensitive, _, hdescription, rfl, rfl, rfl, rfl, rfl, rfl, rfl⟩
    exact ⟨fields, hfields, htype, hnested, hrequired, hoptional, hcomputed, hsensitive,
      hdescription⟩
  · rintro ⟨fields, hfields, htype, hnested, hrequired, hoptional, hcomputed, hsensitive,
      hdescription⟩
    exact ⟨fields, hfields, _, htype, _, hnested, _, hrequired, _, hoptional, _, hcomputed, _,
      hsensitive, _, hdescription, rfl, rfl, rfl, rfl, rfl, rfl, rfl⟩

theorem NestedType.read_eq_ok_iff
    {n : NestedType} :
    NestedType.read (levels + 1) j = .ok n ↔
      ∃ fields, readRecord nestedTypeFields j = .ok fields ∧
        defaultField fields "nesting_mode" .single (readChoice levels NestingMode.ofName?) =
          .ok n.mode ∧
        defaultField fields "attributes" [] (readAttributes levels) = .ok n.attributes := by
  obtain ⟨mode, attributes⟩ := n
  simp only [NestedType.read, bind_eq_ok_iff, pure, Except.pure, Except.ok.injEq,
    NestedType.mk.injEq]
  constructor
  · rintro ⟨fields, hfields, _, hmode, _, hattributes, rfl, rfl⟩
    exact ⟨fields, hfields, hmode, hattributes⟩
  · rintro ⟨fields, hfields, hmode, hattributes⟩
    exact ⟨fields, hfields, _, hmode, _, hattributes, rfl, rfl⟩

theorem Block.read_eq_ok_iff
    {b : Block} :
    Block.read (levels + 1) j = .ok b ↔
      ∃ fields, readRecord blockFields j = .ok fields ∧
        defaultField fields "attributes" [] (readAttributes levels) = .ok b.attributes ∧
        defaultField fields "block_types" [] (readBlockTypes levels) = .ok b.blockTypes ∧
        optionalField fields "description" readString = .ok b.description := by
  obtain ⟨attributes, blockTypes, description⟩ := b
  simp only [Block.read, bind_eq_ok_iff, pure, Except.pure, Except.ok.injEq, Block.mk.injEq]
  constructor
  · rintro ⟨fields, hfields, _, hattributes, _, hblockTypes, _, hdescription, rfl, rfl, rfl⟩
    exact ⟨fields, hfields, hattributes, hblockTypes, hdescription⟩
  · rintro ⟨fields, hfields, hattributes, hblockTypes, hdescription⟩
    exact ⟨fields, hfields, _, hattributes, _, hblockTypes, _, hdescription, rfl, rfl, rfl⟩

theorem NestedBlock.read_eq_ok_iff
    {n : NestedBlock} :
    NestedBlock.read (levels + 1) j = .ok n ↔
      ∃ fields, readRecord nestedBlockFields j = .ok fields ∧
        defaultField fields "nesting_mode" .single (readChoice levels NestingMode.ofName?) =
          .ok n.mode ∧
        optionalField fields "block" (Block.read levels) = .ok n.block ∧
        optionalField fields "min_items" readNat64 = .ok n.minItems ∧
        optionalField fields "max_items" readNat64 = .ok n.maxItems := by
  obtain ⟨mode, block, minItems, maxItems⟩ := n
  simp only [NestedBlock.read, bind_eq_ok_iff, pure, Except.pure, Except.ok.injEq,
    NestedBlock.mk.injEq]
  constructor
  · rintro ⟨fields, hfields, _, hmode, _, hblock, _, hmin, _, hmax, rfl, rfl, rfl, rfl⟩
    exact ⟨fields, hfields, hmode, hblock, hmin, hmax⟩
  · rintro ⟨fields, hfields, hmode, hblock, hmin, hmax⟩
    exact ⟨fields, hfields, _, hmode, _, hblock, _, hmin, _, hmax, rfl, rfl, rfl, rfl⟩

end Readers

section Steps

variable (o : Arrangement) {levels : Nat}

theorem readAttributes_succ
    (levels : Nat) :
    readAttributes (levels + 1) = readMap (Attribute.read levels) := by
  funext j
  rw [readAttributes]

theorem readBlockTypes_succ
    (levels : Nat) :
    readBlockTypes (levels + 1) = readMap (NestedBlock.read levels) := by
  funext j
  rw [readBlockTypes]

/-- An attribute is read back if its type and its nested type are. -/
theorem Attribute.readsBack
    {a : Attribute} (hw : a.WellFormed) {P : NestedType → Prop}
    (hnested : ∀ n, a.nested = some n → o.ReadsBack NestedType.read n.toJson n (P n)) :
    o.ReadsBack Attribute.read a.toJson a
      ((∀ t, a.type = some t → t.toJson.Unreserved) ∧ ∀ n, a.nested = some n → P n) := by
  intro levels hd b
  rw [a.toJson_eq] at hd ⊢
  cases levels with
  | zero => cases hd
  | succ levels =>
      obtain ⟨fields, hfields, hget⟩ := o.exists_readRecord a.names_fields_sublist (by decide)
      -- Each field of the record says of its own content when it is read back.
      have htype : ∀ b, optionalField fields "type" (Ty.read levels) = .ok b ↔
          b = a.type ∧ ∀ t, a.type = some t → t.toJson.Unreserved := fun b =>
        o.optionalField_eq_ok_iff hget hd (fun t ht => Ty.readsBack o (hw.typed ht))
          Ty.toJson_ne_null (by simp [Attribute.fields, Fields.get?_append])
      have hnested : ∀ b, optionalField fields "nested_type" (NestedType.read levels) = .ok b ↔
          b = a.nested ∧ ∀ n, a.nested = some n → P n := fun b =>
        o.optionalField_eq_ok_iff hget hd hnested NestedType.toJson_ne_null
          (by simp [Attribute.fields, Fields.get?_append])
      have hrequired : ∀ b, defaultField fields "required" false readBool = .ok b ↔
          b = a.required := fun b =>
        o.defaultField_flag hget (by simp [Attribute.fields, Fields.get?_append])
      have hoptional : ∀ b, defaultField fields "optional" false readBool = .ok b ↔
          b = a.optional := fun b =>
        o.defaultField_flag hget (by simp [Attribute.fields, Fields.get?_append])
      have hcomputed : ∀ b, defaultField fields "computed" false readBool = .ok b ↔
          b = a.computed := fun b =>
        o.defaultField_flag hget (by simp [Attribute.fields, Fields.get?_append])
      have hsensitive : ∀ b, defaultField fields "sensitive" false readBool = .ok b ↔
          b = a.sensitive := fun b =>
        o.defaultField_flag hget (by simp [Attribute.fields, Fields.get?_append])
      have hdescription : ∀ b, optionalField fields "description" readString = .ok b ↔
          b = a.description := fun b =>
        o.optionalField_string hget hd (by simp [Attribute.fields, Fields.get?_append])
      rw [Attribute.read_eq_ok_iff]
      simp only [hfields, Except.ok.injEq, exists_eq_left', htype, hnested, hrequired,
        hoptional, hcomputed, hsensitive, hdescription]
      rw [Attribute.ext_iff]
      tauto

/-- A nested type is read back if its attributes are. -/
theorem NestedType.readsBack
    {n : NestedType} (hw : n.WellFormed) {P : Attribute → Prop}
    (hattributes : ∀ x ∈ n.attributes, o.ReadsBack Attribute.read x.2.toJson x.2 (P x.2)) :
    o.ReadsBack NestedType.read n.toJson n (∀ x ∈ n.attributes, P x.2) := by
  intro levels hd m
  rw [n.toJson_eq] at hd ⊢
  cases levels with
  | zero => cases hd
  | succ levels =>
      obtain ⟨fields, hfields, hget⟩ := o.exists_readRecord n.names_fields_sublist (by decide)
      have hmode : ∀ mode, defaultField fields "nesting_mode" .single
          (readChoice levels NestingMode.ofName?) = .ok mode ↔ mode = n.mode := fun mode =>
        o.defaultField_choice hget n.mode.ofName?_name rfl
      have hattributes : ∀ b, defaultField fields "attributes" [] (readAttributes levels) = .ok b ↔
          b = n.attributes ∧ ∀ x ∈ n.attributes, P x.2 := fun b =>
        o.defaultField_map_eq_ok_iff hget hd readAttributes_succ hw.1 hattributes
          n.get?_attributes (fun h => Bool.noConfusion h)
      rw [NestedType.read_eq_ok_iff]
      simp only [hfields, Except.ok.injEq, exists_eq_left', hmode, hattributes]
      rw [NestedType.ext_iff, and_assoc]

/-- A block is read back if its attributes and its block types are. -/
theorem Block.readsBack
    {b : Block} (hw : b.WellFormed) {P : Attribute → Prop} {Q : NestedBlock → Prop}
    (hattributes : ∀ x ∈ b.attributes, o.ReadsBack Attribute.read x.2.toJson x.2 (P x.2))
    (hblockTypes : ∀ x ∈ b.blockTypes, o.ReadsBack NestedBlock.read x.2.toJson x.2 (Q x.2)) :
    o.ReadsBack Block.read b.toJson b
      ((∀ x ∈ b.attributes, P x.2) ∧ ∀ x ∈ b.blockTypes, Q x.2) := by
  intro levels hd c
  obtain ⟨hsa, -, hsb, -⟩ := Block.wellFormed_iff.1 hw
  rw [b.toJson_eq] at hd ⊢
  cases levels with
  | zero => cases hd
  | succ levels =>
      obtain ⟨fields, hfields, hget⟩ := o.exists_readRecord b.names_fields_sublist (by decide)
      have hattributes : ∀ c, defaultField fields "attributes" [] (readAttributes levels) = .ok c ↔
          c = b.attributes ∧ ∀ x ∈ b.attributes, P x.2 := fun c =>
        o.defaultField_map_eq_ok_iff hget hd readAttributes_succ hsa hattributes
          b.get?_attributes List.isEmpty_iff.1
      have hblockTypes : ∀ c, defaultField fields "block_types" [] (readBlockTypes levels) = .ok c ↔
          c = b.blockTypes ∧ ∀ x ∈ b.blockTypes, Q x.2 := fun c =>
        o.defaultField_map_eq_ok_iff hget hd readBlockTypes_succ hsb hblockTypes
          b.get?_blockTypes List.isEmpty_iff.1
      have hdescription : ∀ c, optionalField fields "description" readString = .ok c ↔
          c = b.description := fun c =>
        o.optionalField_string hget hd (by simp [Block.fields, Fields.get?_append])
      rw [Block.read_eq_ok_iff]
      simp only [hfields, Except.ok.injEq, exists_eq_left', hattributes, hblockTypes,
        hdescription]
      rw [Block.ext_iff]
      tauto

/-- Whether a bound on the number of items is one of 64 bits, if there is one. -/
def Bounded (bound : Option Nat) : Prop :=
  ∀ k, bound = some k → k < Decimal.twoPow 64

/-- A nested block is read back if its bounds and its block are. -/
theorem NestedBlock.readsBack
    {n : NestedBlock} {P : Block → Prop}
    (hblock : ∀ b, n.block = some b → o.ReadsBack Block.read b.toJson b (P b)) :
    o.ReadsBack NestedBlock.read n.toJson n
      ((Bounded n.minItems ∧ Bounded n.maxItems) ∧ ∀ b, n.block = some b → P b) := by
  intro levels hd m
  rw [n.toJson_eq] at hd ⊢
  cases levels with
  | zero => cases hd
  | succ levels =>
      obtain ⟨fields, hfields, hget⟩ := o.exists_readRecord n.names_fields_sublist (by decide)
      have hmode : ∀ mode, defaultField fields "nesting_mode" .single
          (readChoice levels NestingMode.ofName?) = .ok mode ↔ mode = n.mode := fun mode =>
        o.defaultField_choice hget n.mode.ofName?_name rfl
      have hblock : ∀ c, optionalField fields "block" (Block.read levels) = .ok c ↔
          c = n.block ∧ ∀ b, n.block = some b → P b := fun c =>
        o.optionalField_eq_ok_iff hget hd hblock Block.toJson_ne_null
          (by simp [NestedBlock.fields, Fields.get?, Fields.get?_append])
      have hmin : ∀ c, optionalField fields "min_items" readNat64 = .ok c ↔
          c = n.minItems ∧ Bounded n.minItems := fun c =>
        o.optionalField_eq_ok_iff hget hd (fun k _ => o.readsBack_nat64 k)
          (fun _ => Json.noConfusion)
          (by simp [NestedBlock.fields, Fields.get?, Fields.get?_append])
      have hmax : ∀ c, optionalField fields "max_items" readNat64 = .ok c ↔
          c = n.maxItems ∧ Bounded n.maxItems := fun c =>
        o.optionalField_eq_ok_iff hget hd (fun k _ => o.readsBack_nat64 k)
          (fun _ => Json.noConfusion)
          (by simp [NestedBlock.fields, Fields.get?, Fields.get?_append])
      rw [NestedBlock.read_eq_ok_iff]
      simp only [hfields, Except.ok.injEq, exists_eq_left', hmode, hblock, hmin, hmax]
      rw [NestedBlock.ext_iff]
      tauto

end Steps

/-- A schema of any kind, each of which is written as a document of its own. -/
inductive Document where
  | ofBlock (b : Block)
  | ofNestedBlock (n : NestedBlock)
  | ofAttribute (a : Attribute)
  | ofNestedType (n : NestedType)

namespace Document

/-- The kinds of documents. -/
inductive Kind where
  | block
  | nestedBlock
  | attribute
  | nestedType

/-- The kind of a document. -/
def kind : Document → Kind
  | .ofBlock _ => .block
  | .ofNestedBlock _ => .nestedBlock
  | .ofAttribute _ => .attribute
  | .ofNestedType _ => .nestedType

/-- A document as it is written. -/
def toJson : Document → Json
  | .ofBlock b => b.toJson
  | .ofNestedBlock n => n.toJson
  | .ofAttribute a => a.toJson
  | .ofNestedType n => n.toJson

/-- Reads a document of a kind. -/
def Kind.read (kind : Kind) (levels : Nat) (j : Source) : Except DocumentError Document :=
  match kind with
  | .block => (Block.read levels j).map .ofBlock
  | .nestedBlock => (NestedBlock.read levels j).map .ofNestedBlock
  | .attribute => (Attribute.read levels j).map .ofAttribute
  | .nestedType => (NestedType.read levels j).map .ofNestedType

/-- Whether a document is well formed. -/
def WellFormed : Document → Prop
  | .ofBlock b => b.WellFormed
  | .ofNestedBlock n => n.WellFormed
  | .ofAttribute a => a.WellFormed
  | .ofNestedType n => n.WellFormed

/-- The documents that a document directly holds.  A type is no document of its
own. -/
def components : Document → List Document
  | .ofBlock b =>
      b.attributes.map (fun x => .ofAttribute x.2) ++ b.blockTypes.map (fun x => .ofNestedBlock x.2)
  | .ofNestedBlock n => n.block.toList.map .ofBlock
  | .ofAttribute a => a.nested.toList.map .ofNestedType
  | .ofNestedType n => n.attributes.map fun x => .ofAttribute x.2

/-- The documents inside a document, the document itself among them. -/
inductive PartOf : Document → Document → Prop where
  | self (d : Document) : PartOf d d
  | inside {part c d : Document} (hmem : c ∈ d.components) (hpart : PartOf part c) : PartOf part d

/-- Whether all documents inside a document have a property. -/
def Throughout (P : Document → Prop) (d : Document) : Prop :=
  ∀ part, part.PartOf d → P part

theorem throughout_iff
    {P : Document → Prop} {d : Document} :
    d.Throughout P ↔ P d ∧ ∀ c ∈ d.components, c.Throughout P := by
  constructor
  · intro h
    exact ⟨h d (.self d), fun c hc part hpart => h part (.inside hc hpart)⟩
  · rintro ⟨hself, hcomponents⟩ part hpart
    cases hpart with
    | self => exact hself
    | inside hmem hpart => exact hcomponents _ hmem part hpart

/-- Whether what a document holds itself is read as it was written: its type has
the reserved name first in no object, its bounds are 64-bit numbers. -/
def Legible : Document → Prop
  | .ofAttribute a => ∀ t, a.type = some t → t.toJson.Unreserved
  | .ofNestedBlock n => Bounded n.minItems ∧ Bounded n.maxItems
  | .ofBlock _ | .ofNestedType _ => True

section Throughout

variable {P : Document → Prop}

theorem throughout_ofAttribute_iff
    {a : Attribute} :
    (ofAttribute a).Throughout P ↔
      P (ofAttribute a) ∧ ∀ n, a.nested = some n → (ofNestedType n).Throughout P := by
  rw [throughout_iff, components, List.forall_mem_map]
  simp only [Option.mem_toList]

theorem throughout_ofNestedType_iff
    {n : NestedType} :
    (ofNestedType n).Throughout P ↔
      P (ofNestedType n) ∧ ∀ x ∈ n.attributes, (ofAttribute x.2).Throughout P := by
  rw [throughout_iff, components, List.forall_mem_map]

theorem throughout_ofBlock_iff
    {b : Block} :
    (ofBlock b).Throughout P ↔
      P (ofBlock b) ∧ (∀ x ∈ b.attributes, (ofAttribute x.2).Throughout P) ∧
        ∀ x ∈ b.blockTypes, (ofNestedBlock x.2).Throughout P := by
  rw [throughout_iff, components, List.forall_mem_append, List.forall_mem_map,
    List.forall_mem_map]

theorem throughout_ofNestedBlock_iff
    {n : NestedBlock} :
    (ofNestedBlock n).Throughout P ↔
      P (ofNestedBlock n) ∧ ∀ b, n.block = some b → (ofBlock b).Throughout P := by
  rw [throughout_iff, components, List.forall_mem_map]
  simp only [Option.mem_toList]

end Throughout

section ReadsBack

variable (o : Arrangement)

theorem nestedType_readsBack_of
    {n : NestedType} (hw : n.WellFormed)
    (h : ∀ x ∈ n.attributes,
      o.ReadsBack Attribute.read x.2.toJson x.2 ((ofAttribute x.2).Throughout Legible)) :
    o.ReadsBack NestedType.read n.toJson n ((ofNestedType n).Throughout Legible) := by
  rw [throughout_ofNestedType_iff, Legible, true_and]
  exact NestedType.readsBack o hw (P := fun a => (ofAttribute a).Throughout Legible) h

theorem attribute_readsBack
    (a : Attribute) (hw : a.WellFormed) :
    o.ReadsBack Attribute.read a.toJson a ((ofAttribute a).Throughout Legible) := by
  induction a using Attribute.induction with
  | step a ih =>
      rw [throughout_ofAttribute_iff]
      refine Attribute.readsBack o hw ?_
      intro n hn
      have hwell := hw.nested hn
      exact nestedType_readsBack_of o hwell fun x hx => ih n hn x hx (hwell.2 x hx)

theorem nestedType_readsBack
    (n : NestedType) (hw : n.WellFormed) :
    o.ReadsBack NestedType.read n.toJson n ((ofNestedType n).Throughout Legible) :=
  nestedType_readsBack_of o hw fun x hx => attribute_readsBack o x.2 (hw.2 x hx)

theorem nestedBlock_readsBack_of
    {n : NestedBlock}
    (h : ∀ b, n.block = some b →
      o.ReadsBack Block.read b.toJson b ((ofBlock b).Throughout Legible)) :
    o.ReadsBack NestedBlock.read n.toJson n ((ofNestedBlock n).Throughout Legible) := by
  rw [throughout_ofNestedBlock_iff]
  exact NestedBlock.readsBack o h

theorem block_readsBack
    (b : Block) (hw : b.WellFormed) :
    o.ReadsBack Block.read b.toJson b ((ofBlock b).Throughout Legible) := by
  induction b using Block.induction with
  | step b ih =>
      rw [throughout_ofBlock_iff, Legible, true_and]
      refine Block.readsBack o hw (P := fun a => (ofAttribute a).Throughout Legible)
        (Q := fun n => (ofNestedBlock n).Throughout Legible) ?_ ?_
      · obtain ⟨-, hattributes, -, -⟩ := Block.wellFormed_iff.1 hw
        exact fun x hx => attribute_readsBack o x.2 (hattributes x hx)
      · intro x hx
        exact nestedBlock_readsBack_of o fun c hc => ih x hx c hc (hw.of_mem hx hc)

theorem nestedBlock_readsBack
    (n : NestedBlock) (hw : n.WellFormed) :
    o.ReadsBack NestedBlock.read n.toJson n ((ofNestedBlock n).Throughout Legible) := by
  refine nestedBlock_readsBack_of o ?_
  intro b hb
  have hblock : OptionalBlockWellFormed n.block := hw
  rw [hb] at hblock
  exact block_readsBack o b hblock

/-- A well formed schema of any kind is read back exactly if all that it holds
is legible; otherwise its document is refused.  The levels of the reader have to
be those of the document, and its members may be put down in either order. -/
theorem readBack_iff_legible
    (d : Document) (hw : d.WellFormed) {levels : Nat} (hd : d.toJson.depth ≤ levels)
    (read : Document) :
    d.kind.read levels (o.arrange d.toJson) = .ok read ↔
      read = d ∧ d.Throughout Legible := by
  cases d with
  | ofBlock b => exact (block_readsBack o b hw).map ofBlock levels hd read
  | ofNestedBlock n => exact (nestedBlock_readsBack o n hw).map ofNestedBlock levels hd read
  | ofAttribute a => exact (attribute_readsBack o a hw).map ofAttribute levels hd read
  | ofNestedType n => exact (nestedType_readsBack o n hw).map ofNestedType levels hd read

end ReadsBack

/-- A block that leaves much to defaults: a block type without a block, one with
the empty block and a bound of zero, an attribute without a type.  The reserved
name comes second in an object type. -/
def sparseBlock : Block :=
  { attributes :=
      [("a", { type := some (.object [("#", .bool), (numberName, .string)] ["#"]) }),
        ("b", { nested := some { mode := .map, attributes := [("n", {})] }, sensitive := true })]
    blockTypes :=
      [("c", { mode := .group }), ("d", { block := some {}, minItems := some 0 })] }

theorem wellFormed_sparseBlock :
    sparseBlock.WellFormed := by
  have hattributes : Fields.Sorted sparseBlock.attributes := by
    unfold Fields.Sorted
    decide
  have hblockTypes : Fields.Sorted sparseBlock.blockTypes := by
    unfold Fields.Sorted
    decide
  have htype : Fields.Sorted [("#", Ty.bool), (numberName, Ty.string)] := by
    unfold Fields.Sorted
    decide
  refine Block.wellFormed_iff.2 ⟨hattributes, ?_, hblockTypes, ?_⟩
  · simpa [sparseBlock, Attribute.WellFormed, AttributesWellFormed, Ty.WellFormed,
      Ty.AttributesWellFormed, Fields.names, Fields.Sorted] using htype
  · simp [sparseBlock, NestedBlock.WellFormed, OptionalBlockWellFormed, Block.WellFormed,
      AttributesWellFormed, BlockTypesWellFormed, Fields.Sorted]

theorem readBack_iff_legible_sparse :
    Kind.block.read maxLevels (Arrangement.asWritten.arrange sparseBlock.toJson) =
        .ok (.ofBlock sparseBlock) ∧
      (ofBlock sparseBlock).Throughout Legible ∧
      Kind.block.read maxLevels (Arrangement.byName.arrange sparseBlock.toJson) =
        .ok (.ofBlock sparseBlock) := by
  have hd : (ofBlock sparseBlock).toJson.depth ≤ maxLevels := by decide
  have hread : Kind.block.read maxLevels (Arrangement.asWritten.arrange sparseBlock.toJson) =
      .ok (.ofBlock sparseBlock) := by rfl
  obtain ⟨-, hlegible⟩ :=
    (readBack_iff_legible .asWritten (.ofBlock sparseBlock) wellFormed_sparseBlock hd _).1 hread
  refine ⟨hread, hlegible, ?_⟩
  exact (readBack_iff_legible .byName (.ofBlock sparseBlock) wellFormed_sparseBlock hd _).2
    ⟨rfl, hlegible⟩

/-- An attribute whose type is an object type with the reserved name as its only
attribute. -/
def reservedAttribute : Attribute :=
  { type := some (.object [(numberName, .string)] []) }

/-- The document of that attribute is refused, though the expression of its type
is read as the type. -/
theorem not_readBack_reserved :
    reservedAttribute.WellFormed ∧
      Kind.attribute.read maxLevels (Arrangement.asWritten.arrange reservedAttribute.toJson) =
        .error .mismatch ∧
      Kind.attribute.read maxLevels (Arrangement.byName.arrange reservedAttribute.toJson) =
        .error .mismatch ∧
      Ty.ofJson (Ty.object [(numberName, .string)] []).toJson =
        .ok (.object [(numberName, .string)] []) := by
  refine ⟨?_, by rfl, by rfl, by rfl⟩
  simp [reservedAttribute, Attribute.WellFormed, Ty.WellFormed, Ty.AttributesWellFormed,
    Fields.Sorted]

end Document

end Schema
end TypedConfig
