import TypedConfig.Proofs.Decoder.Equivalence
import TypedConfig.Proofs.Schema.Decoding

/-!
# What schemas say in vain

Some of what a schema may say is advice to its readers: descriptions, bounds on the
number of blocks, and whether an attribute is computed or sensitive.  Some is
outweighed by something else that it says: that a required attribute is optional,
and a type beside a nested type.  Schemas that differ only in that, at whatever
levels, describe the same data: they have the same types and the same empty value,
and every body is decoded alike.

* `Block.EqUpToAdvice.induction`: induction along two blocks that differ so.
* `Block.EqUpToAdvice.actsAlike_decoderAt`: their decoders act alike.
-/

namespace TypedConfig
namespace Schema

/-- Whether two attributes say the same of how they take part in configuration.
Whether a required one is optional as well does not count. -/
structure Attribute.SameFlags (a b : Attribute) : Prop where
  required : a.required = b.required
  optional : a.required = false → a.optional = b.optional

mutual

/-- Whether two attributes differ at most in advice and in what is outweighed. -/
inductive Attribute.EqUpToAdvice : Attribute → Attribute → Prop where
  | typed {a b : Attribute} (hflags : a.SameFlags b)
      (hnested : a.nested = none) (hnested' : b.nested = none) (htype : a.type = b.type) :
      Attribute.EqUpToAdvice a b
  /-- The types beside the nested types do not count. -/
  | nested {a b : Attribute} {n m : NestedType} (hflags : a.SameFlags b)
      (hnested : a.nested = some n) (hnested' : b.nested = some m)
      (h : NestedType.EqUpToAdvice n m) :
      Attribute.EqUpToAdvice a b

/-- Whether two nested types differ at most in advice and in what is outweighed. -/
inductive NestedType.EqUpToAdvice : NestedType → NestedType → Prop where
  | intro {n m : NestedType} (hmode : n.mode = m.mode)
      (hnames : Fields.names n.attributes = Fields.names m.attributes)
      (hattributes : List.Forall₂ Attribute.EqUpToAdvice (n.attributes.map Prod.snd)
        (m.attributes.map Prod.snd)) :
      NestedType.EqUpToAdvice n m

end

mutual

/-- Whether two blocks differ at most in advice and in what is outweighed. -/
inductive Block.EqUpToAdvice : Block → Block → Prop where
  | intro {b c : Block}
      (hattributes : Fields.Paired Attribute.EqUpToAdvice b.attributes c.attributes)
      (hnames : Fields.names b.blockTypes = Fields.names c.blockTypes)
      (hblocks : List.Forall₂ NestedBlock.EqUpToAdvice (b.blockTypes.map Prod.snd)
        (c.blockTypes.map Prod.snd)) :
      Block.EqUpToAdvice b c

/-- Whether two nested blocks differ at most in advice and in what is outweighed. -/
inductive NestedBlock.EqUpToAdvice : NestedBlock → NestedBlock → Prop where
  | missing {n m : NestedBlock} (hmode : n.mode = m.mode)
      (hblock : n.block = none) (hblock' : m.block = none) :
      NestedBlock.EqUpToAdvice n m
  | present {n m : NestedBlock} {b c : Block} (hmode : n.mode = m.mode)
      (hblock : n.block = some b) (hblock' : m.block = some c) (h : Block.EqUpToAdvice b c) :
      NestedBlock.EqUpToAdvice n m

end

section Attributes

variable {a b : Attribute} {n m : NestedType}

theorem Attribute.SameFlags.isOmittable_eq
    (h : a.SameFlags b) :
    a.isOmittable = b.isOmittable := by
  rw [Attribute.isOmittable_eq, Attribute.isOmittable_eq, ← h.required]
  cases hrequired : a.required with
  | true => simp
  | false => rw [h.optional hrequired]

theorem Attribute.EqUpToAdvice.sameFlags
    (h : a.EqUpToAdvice b) :
    a.SameFlags b := by
  cases h with
  | typed hflags | nested hflags => exact hflags

theorem NestedType.EqUpToAdvice.mode_eq
    (h : n.EqUpToAdvice m) :
    n.mode = m.mode := by
  cases h with
  | intro hmode => exact hmode

theorem NestedType.EqUpToAdvice.paired
    (h : n.EqUpToAdvice m) :
    Fields.Paired Attribute.EqUpToAdvice n.attributes m.attributes := by
  cases h with
  | intro _ hnames hattributes => exact Fields.paired_of_names_eq hnames hattributes

/-- What attributes give as their types is the same, or two nested types that differ
at most in advice. -/
theorem Attribute.EqUpToAdvice.kind_cases
    (h : a.EqUpToAdvice b) :
    a.kind = b.kind ∨
      ∃ n m, a.kind = .nested n ∧ b.kind = .nested m ∧ n.EqUpToAdvice m := by
  cases h with
  | typed _ hnested hnested' htype =>
      left
      rw [Attribute.kind, Attribute.kind, hnested, hnested', htype]
  | @nested _ _ n m _ hnested hnested' h =>
      exact Or.inr ⟨n, m, kind_eq_nested_iff.2 hnested, kind_eq_nested_iff.2 hnested', h⟩

theorem markedNames_eq_of_paired
    (form : TypeForm) {attributes others : Fields Attribute}
    (h : Fields.Paired Attribute.EqUpToAdvice attributes others) :
    markedNames form attributes = markedNames form others := by
  cases form with
  | storage => rfl
  | input => exact h.names_filter_eq fun _ _ hab => hab.sameFlags.isOmittable_eq

variable (form : TypeForm) (depth : Nat)

theorem NestedType.EqUpToAdvice.elementTypeAt_eq_of
    (h : n.EqUpToAdvice m)
    (hattributes : ∀ x ∈ n.attributes, ∀ y, x.2.EqUpToAdvice y →
      x.2.typeAt form (depth + 1) = y.typeAt form (depth + 1)) :
    n.elementTypeAt form depth = m.elementTypeAt form depth := by
  rw [NestedType.elementTypeAt_eq, NestedType.elementTypeAt_eq,
    h.paired.mapValues_eq hattributes, markedNames_eq_of_paired form h.paired]

theorem Attribute.EqUpToAdvice.typeAt_eq
    (h : a.EqUpToAdvice b) :
    a.typeAt form depth = b.typeAt form depth := by
  induction a using Attribute.induction generalizing b depth with
  | step a ih =>
      rw [Attribute.typeAt_eq, Attribute.typeAt_eq]
      rcases h.kind_cases with hkind | ⟨n, m, hn, hm, hnested⟩
      · rw [hkind]
      · rw [hn, hm]
        simp only [NestedType.typeAt, hnested.mode_eq]
        refine congrArg m.mode.collection (hnested.elementTypeAt_eq_of form depth ?_)
        exact fun x hx y hxy => ih n (kind_eq_nested_iff.1 hn) x hx (depth + 1) hxy

theorem NestedType.EqUpToAdvice.elementTypeAt_eq
    (h : n.EqUpToAdvice m) :
    n.elementTypeAt form depth = m.elementTypeAt form depth :=
  h.elementTypeAt_eq_of form depth fun _ _ _ hxy => hxy.typeAt_eq form (depth + 1)

theorem NestedType.EqUpToAdvice.typeAt_eq
    (h : n.EqUpToAdvice m) :
    n.typeAt form depth = m.typeAt form depth := by
  rw [NestedType.typeAt, NestedType.typeAt, h.mode_eq, h.elementTypeAt_eq form depth]

theorem Attribute.EqUpToAdvice.emptyAt_eq
    (h : a.EqUpToAdvice b) :
    a.emptyAt depth = b.emptyAt depth := by
  rw [Attribute.emptyAt, Attribute.emptyAt]
  rcases h.kind_cases with hkind | ⟨n, m, hn, hm, hnested⟩
  · rw [hkind]
  · rw [hn, hm]
    simp only
    rw [hnested.mode_eq, hnested.elementTypeAt_eq .storage 0]

theorem Attribute.EqUpToAdvice.decoderAt_eq
    (h : a.EqUpToAdvice b) (name : String) :
    a.decoderAt depth name = b.decoderAt depth name := by
  have hrequired := h.sameFlags.required
  have hempty : a.emptyValue = b.emptyValue := h.emptyAt_eq 0
  rw [Attribute.decoderAt, Attribute.decoderAt, hrequired, hempty]
  rcases h.kind_cases with hkind | ⟨n, m, hn, hm, hnested⟩
  · rw [hkind]
  · have hinput : n.inputType = m.inputType := hnested.typeAt_eq .input 0
    simp only [hn, hm, hinput]

end Attributes

section Blocks

variable {b c : Block} {n m : NestedBlock}

theorem Block.EqUpToAdvice.paired_attributes
    (h : b.EqUpToAdvice c) :
    Fields.Paired Attribute.EqUpToAdvice b.attributes c.attributes := by
  cases h with
  | intro hattributes => exact hattributes

theorem Block.EqUpToAdvice.paired_blockTypes
    (h : b.EqUpToAdvice c) :
    Fields.Paired NestedBlock.EqUpToAdvice b.blockTypes c.blockTypes := by
  cases h with
  | intro _ hnames hblocks => exact Fields.paired_of_names_eq hnames hblocks

theorem NestedBlock.EqUpToAdvice.mode_eq
    (h : n.EqUpToAdvice m) :
    n.mode = m.mode := by
  cases h with
  | missing hmode | present hmode => exact hmode

/-- Induction along two blocks that differ at most in advice.  A property may be
assumed of the blocks of their block types. -/
theorem Block.EqUpToAdvice.induction
    {motive : Block → Block → Prop}
    (step :
      ∀ b c, Fields.Paired Attribute.EqUpToAdvice b.attributes c.attributes →
        Fields.Paired (fun n m => n.EqUpToAdvice m ∧ Option.Rel motive n.block m.block)
          b.blockTypes c.blockTypes →
        motive b c)
    (h : b.EqUpToAdvice c) :
    motive b c := by
  induction b using Block.induction generalizing c with
  | step b ih =>
      refine step b c h.paired_attributes (forall₂_imp_of_mem h.paired_blockTypes ?_)
      rintro n hn m - ⟨hname, hnm⟩
      refine ⟨hname, hnm, ?_⟩
      cases hnm with
      | missing _ hblock hblock' =>
          rw [hblock, hblock']
          exact .none
      | present _ hblock hblock' h =>
          rw [hblock, hblock']
          exact .some (ih n hn _ hblock h)

theorem optionalBlockTypeAt_eq_of_rel
    {form : TypeForm} {o p : Option Block}
    (h : Option.Rel (fun b c => ∀ depth, b.typeAt form depth = c.typeAt form depth) o p)
    (depth : Nat) :
    optionalBlockTypeAt form depth o = optionalBlockTypeAt form depth p := by
  cases h with
  | none => rfl
  | some h => exact h depth

theorem Block.EqUpToAdvice.typeAt_eq
    (form : TypeForm) (depth : Nat) (h : b.EqUpToAdvice c) :
    b.typeAt form depth = c.typeAt form depth := by
  refine Block.EqUpToAdvice.induction
    (motive := fun b c => ∀ depth, b.typeAt form depth = c.typeAt form depth) ?_ h depth
  intro b c hattributes hblocks depth
  rw [Block.typeAt_eq, Block.typeAt_eq, markedNames_eq_of_paired form hattributes,
    hattributes.mapValues_eq fun _ _ _ hab => hab.typeAt_eq form (depth + 1),
    hblocks.mapValues_eq (g := NestedBlock.typeAt form (depth + 1)) ?_]
  rintro ⟨name, n⟩ - m ⟨hnm, hblock⟩
  rw [NestedBlock.typeAt, NestedBlock.typeAt, hnm.mode_eq]
  exact congrArg m.mode.blockCollection (optionalBlockTypeAt_eq_of_rel hblock (depth + 1))

theorem NestedBlock.EqUpToAdvice.impliedTypeOfBlock_eq
    (h : n.EqUpToAdvice m) :
    impliedTypeOfBlock n.block = impliedTypeOfBlock m.block := by
  cases h with
  | missing _ hblock hblock' => rw [hblock, hblock']
  | present _ hblock hblock' h =>
      rw [hblock, hblock']
      exact h.typeAt_eq .storage 0

theorem optionalBlockEmptyAt_eq_of_rel
    {o p : Option Block}
    (h : Option.Rel (fun b c => ∀ depth, b.emptyAt depth = c.emptyAt depth) o p)
    (depth : Nat) :
    optionalBlockEmptyAt depth o = optionalBlockEmptyAt depth p := by
  cases h with
  | none => rfl
  | some h => exact h depth

theorem Block.EqUpToAdvice.emptyAt_eq
    (depth : Nat) (h : b.EqUpToAdvice c) :
    b.emptyAt depth = c.emptyAt depth := by
  refine Block.EqUpToAdvice.induction
    (motive := fun b c => ∀ depth, b.emptyAt depth = c.emptyAt depth) ?_ h depth
  intro b c hattributes hblocks depth
  rw [Block.emptyAt_eq, Block.emptyAt_eq,
    hattributes.mapValues_eq fun _ _ _ hab => congrArg Value.orNull (hab.emptyAt_eq (depth + 1)),
    hblocks.mapValues_eq (g := NestedBlock.emptyAt (depth + 1)) ?_]
  rintro ⟨name, n⟩ - m ⟨hnm, hblock⟩
  rw [NestedBlock.emptyAt, NestedBlock.emptyAt, hnm.mode_eq, hnm.impliedTypeOfBlock_eq,
    optionalBlockEmptyAt_eq_of_rel hblock]

theorem NestedBlock.EqUpToAdvice.emptyValueOfBlock_eq
    (h : n.EqUpToAdvice m) :
    emptyValueOfBlock n.block = emptyValueOfBlock m.block := by
  cases h with
  | missing _ hblock hblock' => rw [hblock, hblock']
  | present _ hblock hblock' h =>
      rw [hblock, hblock']
      exact h.emptyAt_eq 0

/-- Blocks are collected alike if one of them is decoded alike, whatever the bounds
on their number. -/
theorem NestedBlock.EqUpToAdvice.actsAlike_collect
    (h : n.EqUpToAdvice m) (type : String) {nested other : Decoder}
    (hnested : nested.ActsAlike other) :
    (n.collect type nested).ActsAlike (m.collect type other) where
  type := by
    rw [NestedBlock.type_collect, NestedBlock.type_collect, h.mode_eq, hnested.type]
  addReads := by
    intro r
    rw [NestedBlock.collect, NestedBlock.collect, h.mode_eq, hnested.type]
    cases m.mode with
    | single | group => rfl
    | list | set | map =>
        simp only
        split <;> rfl
  decodeContent := by
    intro b
    rw [NestedBlock.collect, NestedBlock.collect, h.mode_eq, h.emptyValueOfBlock_eq, hnested.type]
    cases m.mode with
    | single => exact (hnested.block type false).decodeContent b
    | group => exact ((hnested.block type false).withFallback (.refl _)).decodeContent b
    | list | set | map =>
        simp only
        split <;> simp only [Decoder.decodeContent, hnested.type, hnested.decodeWhole_eq]

theorem actsAlike_optionalBlockDecoderAt_of_rel
    {o p : Option Block}
    (h : Option.Rel (fun b c => ∀ depth, (b.decoderAt depth).ActsAlike (c.decoderAt depth)) o p)
    (depth : Nat) :
    (optionalBlockDecoderAt depth o).ActsAlike (optionalBlockDecoderAt depth p) := by
  cases h with
  | none => exact .refl _
  | some h => exact h depth

/-- The decoders of blocks that differ at most in advice act alike. -/
theorem Block.EqUpToAdvice.actsAlike_decoderAt
    (depth : Nat) (h : b.EqUpToAdvice c) :
    (b.decoderAt depth).ActsAlike (c.decoderAt depth) := by
  refine Block.EqUpToAdvice.induction
    (motive := fun b c => ∀ depth, (b.decoderAt depth).ActsAlike (c.decoderAt depth)) ?_ h depth
  intro b c hattributes hblocks depth
  rw [Block.decoderAt_eq, Block.decoderAt_eq, decoderWithin, decoderWithin]
  split
  · exact .refl _
  · refine .object (Fields.Paired.insertAll ?_ ?_)
    · refine hattributes.map fun name a a' haa' => ?_
      rw [haa'.decoderAt_eq]
      exact .refl _
    · refine hblocks.map fun name n m hnm => ?_
      exact hnm.1.actsAlike_collect name (actsAlike_optionalBlockDecoderAt_of_rel hnm.2 (depth + 1))

end Blocks

section Influence

/-- Blocks that differ at most in advice and in what is outweighed have the same
types and the same empty value, and every body is decoded alike. -/
theorem advice_hasNoInfluence
    (b c : Block) (h : b.EqUpToAdvice c) :
    b.impliedType = c.impliedType ∧ b.inputType = c.inputType ∧ b.emptyValue = c.emptyValue ∧
      ∀ body, b.decoder.decode body = c.decoder.decode body := by
  refine ⟨?_, ?_, ?_, ?_⟩
  · exact h.typeAt_eq .storage 0
  · exact h.typeAt_eq .input 0
  · exact h.emptyAt_eq 0
  · exact (h.actsAlike_decoderAt 0).decode_eq

/-- A block with a required string, a list of nested objects and a list of blocks,
and with all that may be said about them in vain. -/
def Block.annotated : Block :=
  let port : Attribute := { type := some .number, optional := true, description := some "a port" }
  let create : Attribute := { type := some .string, sensitive := true }
  { attributes :=
      [("id",
        { type := some .string, required := true, optional := true, computed := true }),
        ("rules",
          { type := some .bool, nested := some { mode := .list, attributes := [("port", port)] },
            optional := true })]
    blockTypes :=
      [("timeout",
        { mode := .list, block := some { attributes := [("create", create)] },
          minItems := some 1, maxItems := some 2 })]
    description := some "a service" }

/-- The same block without all that. -/
def Block.bare : Block :=
  let port : Attribute := { type := some .number, optional := true }
  { attributes :=
      [("id", { type := some .string, required := true }),
        ("rules",
          { nested := some { mode := .list, attributes := [("port", port)] }, optional := true })]
    blockTypes :=
      [("timeout",
        { mode := .list
          block := some { attributes := [("create", { type := some .string })] } })] }

theorem Block.eqUpToAdvice_annotated :
    Block.annotated.EqUpToAdvice .bare := by
  refine .intro (.cons ⟨rfl, ?id⟩ (.cons ⟨rfl, ?rules⟩ .nil)) rfl (.cons ?timeout .nil)
  case id =>
    refine .typed ⟨rfl, ?_⟩ rfl rfl rfl
    rintro ⟨⟩
  case rules =>
    refine .nested ⟨rfl, fun _ => rfl⟩ rfl rfl (.intro rfl rfl (.cons ?_ .nil))
    exact .typed ⟨rfl, fun _ => rfl⟩ rfl rfl rfl
  case timeout =>
    refine .present rfl rfl rfl (.intro (.cons ⟨rfl, ?_⟩ .nil) rfl .nil)
    exact .typed ⟨rfl, fun _ => rfl⟩ rfl rfl rfl

theorem advice_hasNoInfluence_annotated :
    Block.annotated.EqUpToAdvice .bare ∧
      Block.annotated.impliedType = Block.bare.impliedType ∧
      Block.annotated.inputType = Block.bare.inputType ∧
      Block.annotated.emptyValue = Block.bare.emptyValue ∧
      Block.annotated.decoder.decode {} = Block.bare.decoder.decode {} := by
  obtain ⟨himplied, hinput, hempty, hdecode⟩ :=
    advice_hasNoInfluence .annotated .bare Block.eqUpToAdvice_annotated
  exact ⟨Block.eqUpToAdvice_annotated, himplied, hinput, hempty, hdecode {}⟩

end Influence

end Schema
end TypedConfig
