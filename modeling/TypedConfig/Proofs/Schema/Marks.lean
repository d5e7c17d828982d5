import TypedConfig.Proofs.Schema.ImpliedType
import TypedConfig.Proofs.Ty.Expression

/-!
# The marks of input types

The input type of a schema is its implied type with marks.  Whatever is nested in
whatever, and whatever is cut off, the two collapse to the dynamic type at the same
places, and types that are given outright bring marks of their own.

The parts of a schema are its blocks and nested types.  They stand at places that
are given by names, and an object type is made of each of them.

* `Part.at?_typeAt`: at the place of a part there stands the type that the part has
  at its depth, or the dynamic type.
* `Part.typeAt_input`: the object type of a part marks the attributes that may be
  left out.
-/

namespace TypedConfig

namespace Ty

/-- The type of one occurrence where there may be many: that of the elements of a
list, set or map, and any other type itself. -/
def occurrence (t : Ty) : Ty :=
  t.element?.getD t

/-- The type of one occurrence of what a type has at a name.  Where the data decide
they decide that as well. -/
def member? (name : String) : Ty → Option Ty
  | .dynamic => some .dynamic
  | .object types _ => (Fields.get? name types).map occurrence
  | _ => none

/-- The type at a place, which is given by the names on the way. -/
def at? : List String → Ty → Option Ty
  | [], t => some t
  | name :: path, t => (t.member? name).bind (at? path)

@[simp] theorem at?_dynamic
    (path : List String) :
    at? path .dynamic = some .dynamic := by
  induction path with
  | nil => rfl
  | cons name path ih => exact ih

@[simp] theorem hasDynamic_occurrence
    (t : Ty) :
    t.occurrence.hasDynamic = t.hasDynamic := by
  cases t <;> rfl

theorem hasDynamic_of_member?
    {t u : Ty} {name : String} (h : t.member? name = some u) (hu : u.hasDynamic = true) :
    t.hasDynamic = true := by
  cases t with
  | dynamic => rfl
  | object types optional =>
      obtain ⟨v, hv, rfl⟩ := Option.map_eq_some_iff.1 h
      rw [hasDynamic_occurrence] at hu
      exact hasDynamic_object_iff.2 ⟨(name, v), Fields.mem_of_get? hv, hu⟩
  | _ => simp [member?] at h

/-- A type has the dynamic type in it if that stands at one of its places. -/
theorem hasDynamic_of_at?
    {t u : Ty} {path : List String} (h : t.at? path = some u) (hu : u.hasDynamic = true) :
    t.hasDynamic = true := by
  induction path generalizing t with
  | nil =>
      cases h
      exact hu
  | cons name path ih =>
      obtain ⟨v, hv, hrest⟩ := Option.bind_eq_some_iff.1 h
      exact hasDynamic_of_member? hv (ih hrest)

end Ty

namespace NestingMode

variable {t : Ty} (mode : NestingMode) (ht : t.occurrence = t)
include ht

theorem occurrence_collection :
    (mode.collection t).occurrence = t := by
  cases mode with
  | single | group => exact ht
  | list | set | map => rfl

/-- Collections of blocks are of one type, or else they are dynamic. -/
theorem occurrence_blockCollection :
    (mode.blockCollection t).occurrence = t ∨ (mode.blockCollection t).occurrence = .dynamic := by
  cases mode with
  | single | group => exact Or.inl ht
  | list | set | map =>
      simp only [blockCollection]
      split
      · exact Or.inr rfl
      · exact Or.inl rfl

end NestingMode

namespace Schema

section Omittable

variable {attributes : Fields Attribute} (hs : Fields.Sorted attributes)
include hs

theorem pairwise_omittableNames :
    (omittableNames attributes).Pairwise fun a b => compare a b = .lt :=
  Fields.sorted_iff_names.1 hs.filter

/-- An attribute may be left out if it is optional and not required. -/
theorem mem_omittableNames_iff
    {name : String} :
    name ∈ omittableNames attributes ↔
      ∃ a, Fields.get? name attributes = some a ∧ a.optional = true ∧ a.required = false := by
  rw [omittableNames, ← Fields.get?_isSome_iff, Fields.get?_filter name hs]
  cases Fields.get? name attributes with
  | none => simp
  | some a => simp [Option.filter, Attribute.isOmittable_eq]

end Omittable

/-- What an object type is made of: a block, or a nested type. -/
inductive Part where
  | ofBlock (b : Block)
  | ofNestedType (n : NestedType)

/-- The nested type of an attribute. -/
def Attribute.part? (a : Attribute) : Option Part :=
  a.nested.map .ofNestedType

/-- The block of a nested block; a missing block is the empty block. -/
def NestedBlock.part (n : NestedBlock) : Part :=
  .ofBlock (n.block.getD {})

namespace Part

/-- The attributes of a part. -/
def attributes : Part → Fields Attribute
  | .ofBlock b => b.attributes
  | .ofNestedType n => n.attributes

/-- Whether a part is well formed. -/
def WellFormed : Part → Prop
  | .ofBlock b => b.WellFormed
  | .ofNestedType n => n.WellFormed

/-- The part at a name.  A block type outweighs an attribute of its name. -/
def member? (name : String) : Part → Option Part
  | .ofBlock b =>
      match Fields.get? name b.blockTypes with
      | some n => some n.part
      | none => (Fields.get? name b.attributes).bind Attribute.part?
  | .ofNestedType n => (Fields.get? name n.attributes).bind Attribute.part?

/-- The part at a place, which is given by the names on the way. -/
def at? : List String → Part → Option Part
  | [], p => some p
  | name :: path, p => (p.member? name).bind (at? path)

/-- The type of a part at a depth. -/
def typeAt (form : TypeForm) (depth : Nat) : Part → Ty
  | .ofBlock b => b.typeAt form depth
  | .ofNestedType n => n.elementTypeAt form depth

/-- The types of the members of a part at a depth. -/
def memberTypesAt (form : TypeForm) (depth : Nat) : Part → Fields Ty
  | .ofBlock b =>
      Fields.insertAll (Fields.mapValues (Attribute.typeAt form depth) b.attributes)
        (Fields.mapValues (NestedBlock.typeAt form depth) b.blockTypes)
  | .ofNestedType n => Fields.mapValues (Attribute.typeAt form depth) n.attributes

/-- The part of a block at a name belongs to a block type, or else to an attribute. -/
theorem member?_ofBlock_cases
    {b : Block} {c : Part} {name : String} (h : (ofBlock b).member? name = some c) :
    (∃ n, Fields.get? name b.blockTypes = some n ∧ n.part = c) ∨
      Fields.get? name b.blockTypes = none ∧
        ∃ a, Fields.get? name b.attributes = some a ∧ a.part? = some c := by
  rw [member?] at h
  cases hn : Fields.get? name b.blockTypes with
  | some n =>
      rw [hn] at h
      exact Or.inl ⟨n, rfl, Option.some.inj h⟩
  | none =>
      rw [hn] at h
      exact Or.inr ⟨rfl, Option.bind_eq_some_iff.1 h⟩

end Part

section Members

variable (form : TypeForm) (depth : Nat)

theorem Part.typeAt_eq
    (p : Part) :
    p.typeAt form depth =
      typeWithin depth
        (.objectWith (p.memberTypesAt form (depth + 1)) (markedNames form p.attributes)) := by
  cases p with
  | ofBlock b => exact b.typeAt_eq form depth
  | ofNestedType n => exact n.elementTypeAt_eq form depth

theorem Part.storage_typeAt
    (p : Part) :
    (p.typeAt form depth).storage = p.typeAt .storage depth := by
  cases p with
  | ofBlock b => exact b.storage_typeAt form depth
  | ofNestedType n => exact n.storage_elementTypeAt form depth

/-- A part has no collection for its type. -/
theorem Part.occurrence_typeAt
    (p : Part) :
    (p.typeAt form depth).occurrence = p.typeAt form depth := by
  rw [Part.typeAt_eq, typeWithin]
  split <;> rfl

theorem optionalBlockTypeAt_eq_getD
    (o : Option Block) :
    optionalBlockTypeAt form depth o = (o.getD {}).typeAt form depth := by
  cases o with
  | none => rw [Block.typeAt_eq]; rfl
  | some b => rfl

theorem Attribute.occurrence_typeAt
    {a : Attribute} {p : Part} (h : a.part? = some p) :
    (a.typeAt form depth).occurrence = p.typeAt form depth := by
  obtain ⟨n, hn, rfl⟩ := Option.map_eq_some_iff.1 h
  rw [Attribute.typeAt_eq, kind_eq_nested_iff.2 hn]
  exact n.mode.occurrence_collection (Part.occurrence_typeAt form depth (.ofNestedType n))

theorem NestedBlock.occurrence_typeAt
    (n : NestedBlock) :
    (n.typeAt form depth).occurrence = n.part.typeAt form depth ∨
      (n.typeAt form depth).occurrence = .dynamic := by
  rw [NestedBlock.typeAt, optionalBlockTypeAt_eq_getD]
  exact n.mode.occurrence_blockCollection (Part.occurrence_typeAt form depth n.part)

/-- Where a part has another one at a name, the other's type stands among those of
its members, unless it is collapsed. -/
theorem Part.exists_occurrence_of_member?
    {p c : Part} (hp : p.WellFormed) {name : String} (h : p.member? name = some c) :
    ∃ t, Fields.get? name (p.memberTypesAt form depth) = some t ∧
      (t.occurrence = c.typeAt form depth ∨ t.occurrence = .dynamic) := by
  cases p with
  | ofBlock b =>
      obtain ⟨-, -, hsb, -⟩ := Block.wellFormed_iff.1 hp
      simp only [Part.memberTypesAt]
      rw [Fields.get?_insertAll name _ (Fields.sorted_mapValues _ hsb), Fields.get?_mapValues,
        Fields.get?_mapValues]
      rcases Part.member?_ofBlock_cases h with ⟨n, hn, rfl⟩ | ⟨hn, a, ha, hpart⟩
      · rw [hn]
        exact ⟨n.typeAt form depth, rfl, n.occurrence_typeAt form depth⟩
      · rw [hn, ha]
        exact ⟨a.typeAt form depth, rfl, Or.inl (Attribute.occurrence_typeAt form depth hpart)⟩
  | ofNestedType n =>
      obtain ⟨a, ha, hpart⟩ := Option.bind_eq_some_iff.1 h
      simp only [Part.memberTypesAt]
      rw [Fields.get?_mapValues, ha]
      exact ⟨a.typeAt form depth, rfl, Or.inl (Attribute.occurrence_typeAt form depth hpart)⟩

end Members

section Places

theorem Attribute.WellFormed.part?
    {a : Attribute} (ha : a.WellFormed) {p : Part} (h : a.part? = some p) :
    p.WellFormed := by
  obtain ⟨n, hn, rfl⟩ := Option.map_eq_some_iff.1 h
  exact ha.nested hn

theorem NestedBlock.WellFormed.part
    {n : NestedBlock} (hn : n.WellFormed) :
    n.part.WellFormed := by
  rw [NestedBlock.WellFormed] at hn
  rw [NestedBlock.part]
  cases hblock : n.block with
  | none => exact Block.wellFormed_iff.2 ⟨.nil, List.forall_mem_nil _, .nil, List.forall_mem_nil _⟩
  | some b =>
      rw [hblock] at hn
      exact hn

theorem Part.WellFormed.member?
    {p c : Part} (hp : p.WellFormed) {name : String} (h : p.member? name = some c) :
    c.WellFormed := by
  cases p with
  | ofBlock b =>
      obtain ⟨-, hwa, -, hwb⟩ := Block.wellFormed_iff.1 hp
      rcases Part.member?_ofBlock_cases h with ⟨n, hn, rfl⟩ | ⟨-, a, ha, hpart⟩
      · exact NestedBlock.WellFormed.part (hwb (name, n) (Fields.mem_of_get? hn))
      · exact (hwa (name, a) (Fields.mem_of_get? ha)).part? hpart
  | ofNestedType n =>
      obtain ⟨a, ha, hpart⟩ := Option.bind_eq_some_iff.1 h
      exact (hp.2 (name, a) (Fields.mem_of_get? ha)).part? hpart

theorem Part.WellFormed.at?
    {p below : Part} (hp : p.WellFormed) {path : List String} (h : p.at? path = some below) :
    below.WellFormed := by
  induction path generalizing p with
  | nil =>
      cases h
      exact hp
  | cons name path ih =>
      obtain ⟨c, hc, hrest⟩ := Option.bind_eq_some_iff.1 h
      exact ih (hp.member? hc) hrest

/-- At the place of a part there stands the type that the part has as many levels
further down, or the dynamic type. -/
theorem Part.at?_typeAt
    (form : TypeForm) (depth : Nat) {p below : Part} (hp : p.WellFormed) {path : List String}
    (h : p.at? path = some below) :
    (p.typeAt form depth).at? path = some (below.typeAt form (depth + path.length)) ∨
      (p.typeAt form depth).at? path = some .dynamic := by
  induction path generalizing p depth with
  | nil =>
      cases h
      exact Or.inl rfl
  | cons name path ih =>
      obtain ⟨c, hc, hrest⟩ := Option.bind_eq_some_iff.1 h
      rw [Part.typeAt_eq]
      rcases Nat.lt_or_ge maxDepth depth with hd | hd
      · rw [typeWithin_of_lt hd]
        exact Or.inr (Ty.at?_dynamic _)
      · rw [typeWithin_of_le hd]
        obtain ⟨t, ht, hoccurrence⟩ :=
          Part.exists_occurrence_of_member? form (depth + 1) hp hc
        simp only [Ty.objectWith, Ty.at?, Ty.member?, ht, Option.map_some, Option.bind_some]
        rcases hoccurrence with hoccurrence | hoccurrence
        · rw [hoccurrence, List.length_cons, Nat.add_comm path.length, ← Nat.add_assoc]
          exact ih (depth + 1) (hp.member? hc) hrest
        · rw [hoccurrence]
          exact Or.inr (Ty.at?_dynamic _)

end Places

section Marks

variable {p : Part} {depth : Nat}

/-- Whether marked names are those of the attributes of a part that are optional and
not required. -/
def Part.Marks (p : Part) (optional : List String) : Prop :=
  ∀ name, name ∈ optional ↔
    ∃ a, Fields.get? name p.attributes = some a ∧ a.optional = true ∧ a.required = false

theorem Part.WellFormed.sorted_attributes
    (hp : p.WellFormed) :
    Fields.Sorted p.attributes := by
  cases p with
  | ofBlock b => exact (Block.wellFormed_iff.1 hp).1
  | ofNestedType n => exact hp.1

theorem Part.WellFormed.sorted_memberTypesAt
    (form : TypeForm) (hp : p.WellFormed) :
    Fields.Sorted (p.memberTypesAt form depth) := by
  have hs := Fields.sorted_mapValues (Attribute.typeAt form depth) hp.sorted_attributes
  cases p with
  | ofBlock b => exact Fields.sorted_insertAll _ hs
  | ofNestedType n => exact hs

/-- The name of an attribute stays where a block type takes its place. -/
theorem Part.mem_names_memberTypesAt
    (form : TypeForm) {name : String} (h : name ∈ Fields.names p.attributes) :
    name ∈ Fields.names (p.memberTypesAt form depth) := by
  cases p with
  | ofBlock b =>
      rw [Part.memberTypesAt, Fields.mem_names_insertAll, Fields.names_mapValues,
        Fields.names_mapValues]
      exact Or.inr h
  | ofNestedType n =>
      rw [Part.memberTypesAt, Fields.names_mapValues]
      exact h

/-- The object type of a part that is not cut off marks the attributes that may be
left out. -/
theorem Part.typeAt_input
    (hp : p.WellFormed) (hd : depth ≤ maxDepth) :
    p.typeAt .input depth =
      .object (p.memberTypesAt .input (depth + 1)) (omittableNames p.attributes) := by
  rw [Part.typeAt_eq, typeWithin_of_le hd, markedNames, Ty.objectWith]
  refine congrArg _ (Fields.filter_names_eq (hp.sorted_memberTypesAt .input)
    (pairwise_omittableNames hp.sorted_attributes) ?_)
  intro name hname
  obtain ⟨a, ha, rfl⟩ := List.mem_map.1 hname
  exact Part.mem_names_memberTypesAt .input (Fields.mem_names_of_mem (List.mem_filter.1 ha).1)

theorem Part.WellFormed.marks_omittableNames
    (hp : p.WellFormed) :
    p.Marks (omittableNames p.attributes) :=
  fun _ => mem_omittableNames_iff hp.sorted_attributes

end Marks

section Nodes

namespace Node

/-- The type that the input of a node is checked against. -/
def inputType : Node → Ty
  | .ofBlock b => b.inputType
  | .ofNestedBlock n => n.inputType
  | .ofAttribute a => a.inputType

/-- What the object types of a node are made of. -/
def part? : Node → Option Part
  | .ofBlock b => some (.ofBlock b)
  | .ofNestedBlock n => some n.part
  | .ofAttribute a => a.part?

/-- The part of a node at a place. -/
def partAt? (path : List String) (node : Node) : Option Part :=
  node.part?.bind (Part.at? path)

theorem storage_inputType
    (node : Node) :
    node.inputType.storage = node.impliedType := by
  cases node with
  | ofBlock b => exact b.storage_typeAt .input 0
  | ofNestedBlock n =>
      rw [inputType, NestedBlock.inputType, NestedBlock.typeAt,
        NestingMode.storage_blockCollection, storage_optionalBlockTypeAt]
      rfl
  | ofAttribute a => exact a.storage_typeAt .input 0

theorem WellFormed.part?
    {node : Node} (hw : node.WellFormed) {p : Part} (h : node.part? = some p) :
    p.WellFormed := by
  cases node with
  | ofBlock b =>
      cases h
      exact hw
  | ofNestedBlock n =>
      cases h
      exact NestedBlock.WellFormed.part hw
  | ofAttribute a => exact Attribute.WellFormed.part? hw h

theorem occurrence_inputType
    {node : Node} {p : Part} (h : node.part? = some p) :
    node.inputType.occurrence = p.typeAt .input 0 ∨ node.inputType.occurrence = .dynamic := by
  cases node with
  | ofBlock b =>
      cases h
      exact Or.inl (Part.occurrence_typeAt .input 0 (.ofBlock b))
  | ofNestedBlock n =>
      cases h
      exact n.occurrence_typeAt .input 0
  | ofAttribute a => exact Or.inl (Attribute.occurrence_typeAt .input 0 h)

/-- At the place of a part the input type has the object type of the part, with its
marks, or else the dynamic type. -/
theorem at?_inputType
    {node : Node} (hw : node.WellFormed) {path : List String} {p : Part}
    (h : node.partAt? path = some p) :
    (∃ types, node.inputType.occurrence.at? path =
        some (.object types (omittableNames p.attributes))) ∨
      node.inputType.occurrence.at? path = some .dynamic := by
  obtain ⟨root, hroot, hpath⟩ := Option.bind_eq_some_iff.1 h
  have hwroot := hw.part? hroot
  rcases occurrence_inputType hroot with hoccurrence | hoccurrence
  · rw [hoccurrence]
    rcases Part.at?_typeAt .input 0 hwroot hpath with htype | hdynamic
    · rw [htype]
      rcases Nat.lt_or_ge maxDepth (0 + path.length) with hd | hd
      · rw [Part.typeAt_eq, typeWithin_of_lt hd]
        exact Or.inr rfl
      · rw [Part.typeAt_input (hwroot.at? hpath) hd]
        exact Or.inl ⟨_, rfl⟩
    · exact Or.inr hdynamic
  · rw [hoccurrence]
    exact Or.inr (Ty.at?_dynamic path)

end Node

/-- The input type of a schema without its marks is the implied type.  Its marks, in
the object type of each block and nested type, are the attributes that are optional
and not required.  That object type stands at the place of its part unless the dynamic
type stands for it. -/
theorem inputType_differsInMarks :
    (∀ node : Node, node.inputType.storage = node.impliedType) ∧
      (∀ n : NestedType, n.inputType.storage = n.impliedType) ∧
      (∀ (p : Part) (depth : Nat),
        (p.typeAt .input depth).storage = p.typeAt .storage depth ∧
          (p.WellFormed → depth ≤ maxDepth →
            ∃ types optional, p.typeAt .input depth = .object types optional ∧ p.Marks optional)) ∧
      (∀ (node : Node) (path : List String) (p : Part), node.WellFormed →
        node.partAt? path = some p →
          (∃ types optional, node.inputType.occurrence.at? path = some (.object types optional) ∧
            p.Marks optional) ∨
          node.inputType.occurrence.at? path = some .dynamic ∧
            node.impliedType.hasDynamic = true) ∧
      ∀ b : Block, b.WellFormed → b.inputType.optional? = some (omittableNames b.attributes) := by
  refine ⟨Node.storage_inputType, ?_, ?_, ?_, ?_⟩
  · exact fun n => n.storage_typeAt .input 0
  · intro p depth
    refine ⟨p.storage_typeAt .input depth, fun hp hd => ?_⟩
    exact ⟨_, _, Part.typeAt_input hp hd, hp.marks_omittableNames⟩
  · intro node path p hw h
    rcases Node.at?_inputType hw h with ⟨types, htype⟩ | hdynamic
    · obtain ⟨root, hroot, hpath⟩ := Option.bind_eq_some_iff.1 h
      exact Or.inl ⟨types, _, htype, ((hw.part? hroot).at? hpath).marks_omittableNames⟩
    · refine Or.inr ⟨hdynamic, ?_⟩
      rw [← node.storage_inputType, Ty.hasDynamic_storage, ← Ty.hasDynamic_occurrence]
      exact Ty.hasDynamic_of_at? hdynamic rfl
  · intro b hb
    have htype : b.inputType = _ := Part.typeAt_input (p := .ofBlock b) hb (Nat.zero_le _)
    rw [htype]
    rfl

/-- A nested type for lists of endpoints, whose weight may be left out. -/
def NestedType.endpoints : NestedType :=
  { mode := .list
    attributes := [("url", .ofType .string .required), ("weight", .ofType .number .optional)] }

/-- A block with one list of endpoints, and with blocks that have endpoints each. -/
def Block.cluster : Block :=
  { attributes := [("entry", .ofNested .endpoints .optional)]
    blockTypes :=
      [("zone",
        { mode := .list
          block := some { attributes := [("nodes", .ofNested .endpoints .required)] } })] }

theorem NestedType.wellFormed_endpoints :
    NestedType.endpoints.WellFormed := by
  refine ⟨by unfold Fields.Sorted; decide, ?_⟩
  simp only [NestedType.endpoints, List.forall_mem_cons]
  exact ⟨Attribute.wellFormed_ofType (t := .string) trivial .required,
    Attribute.wellFormed_ofType (t := .number) trivial .optional, List.forall_mem_nil _⟩

theorem Block.wellFormed_cluster :
    Block.cluster.WellFormed := by
  rw [Block.wellFormed_iff]
  refine ⟨List.pairwise_singleton _ _, ?_, List.pairwise_singleton _ _, ?_⟩
  · simp only [Block.cluster, List.forall_mem_singleton]
    exact Attribute.wellFormed_ofNested NestedType.wellFormed_endpoints .optional
  · simp only [Block.cluster, List.forall_mem_singleton]
    refine Block.wellFormed_iff.2 ⟨List.pairwise_singleton _ _, ?_, .nil, List.forall_mem_nil _⟩
    rw [List.forall_mem_singleton]
    exact Attribute.wellFormed_ofNested NestedType.wellFormed_endpoints .required

/-- The endpoints in a zone are two levels down, and their object type stands there.
At the limit they have it as well. -/
theorem inputType_differsInMarks_cluster :
    Block.cluster.inputType.storage = Block.cluster.impliedType ∧
      (∃ types optional,
        (Part.ofNestedType .endpoints).typeAt .input maxDepth = .object types optional ∧
          (Part.ofNestedType .endpoints).Marks optional) ∧
      (∃ types optional,
        Block.cluster.inputType.at? ["zone", "nodes"] = some (.object types optional) ∧
          (Part.ofNestedType .endpoints).Marks optional) ∧
      Block.cluster.inputType.optional? = some ["entry"] := by
  obtain ⟨hstorage, -, hparts, hplaces, hnames⟩ := inputType_differsInMarks
  have hlimit := (hparts (.ofNestedType .endpoints) maxDepth).2 NestedType.wellFormed_endpoints
    (Nat.le_refl maxDepth)
  refine ⟨hstorage (.ofBlock .cluster), hlimit, ?_, hnames .cluster Block.wellFormed_cluster⟩
  rcases hplaces (.ofBlock .cluster) ["zone", "nodes"] (.ofNestedType .endpoints)
    Block.wellFormed_cluster rfl with hmarks | ⟨-, hdynamic⟩
  · exact hmarks
  · have hsettled : (Node.ofBlock Block.cluster).impliedType.hasDynamic = false := by decide
    rw [hsettled] at hdynamic
    cases hdynamic

end Nodes

end Schema
end TypedConfig
