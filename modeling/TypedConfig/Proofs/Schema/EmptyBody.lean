import TypedConfig.Proofs.Schema.Overflow

/-!
# Decoding a body without content

A body without attributes and blocks is decoded to the empty value, which is
computed apart from the decoder.  There is one exception: where a collection of
nested attributes is required, the decoder has no fallback and yields a null in
the place of the empty collection.

What is reported are the required attributes that are missing, and nothing else.
Groups are not looked into, since there is no block: what is required in them is
not missed.
-/

namespace TypedConfig

section Lists

variable {α β : Type} {g : α → List β}

theorem flatMap_filter
    {p : α → Bool} {l : List α} (h : ∀ a ∈ l, p a = false → g a = []) :
    (l.filter p).flatMap g = l.flatMap g := by
  induction l with
  | nil => rfl
  | cons a l ih =>
      rw [List.forall_mem_cons] at h
      cases hp : p a with
      | true => rw [List.filter_cons_of_pos hp, List.flatMap_cons, List.flatMap_cons, ih h.2]
      | false =>
          rw [List.filter_cons_of_neg (by rw [hp]; exact Bool.false_ne_true), List.flatMap_cons,
            h.1 hp, List.nil_append, ih h.2]

theorem flatMap_eq_map_filter
    {p : α → Bool} {f : α → β} {l : List α} (h : ∀ a ∈ l, g a = if p a then [f a] else []) :
    l.flatMap g = (l.filter p).map f := by
  induction l with
  | nil => rfl
  | cons a l ih =>
      rw [List.forall_mem_cons] at h
      rw [List.flatMap_cons, h.1, ih h.2]
      cases hp : p a with
      | true =>
          rw [List.filter_cons_of_pos hp]
          rfl
      | false =>
          rw [List.filter_cons_of_neg (by rw [hp]; exact Bool.false_ne_true)]
          rfl

end Lists

/-- An object with attributes put in the place of those of their names. -/
def Value.withAttributes (attributes : Fields Value) : Value → Value
  | .object old => .object (Fields.insertAll old attributes)
  | v => v

/-- Whether a nested type of a mode is a collection. -/
def NestingMode.isCollection : NestingMode → Bool
  | .single | .group => false
  | .list | .set | .map => true

theorem NestingMode.emptyOf_eq_null
    {mode : NestingMode} (h : mode.isCollection = false) (t : Ty) :
    mode.emptyOf t = .null (mode.collection t) := by
  cases mode <;> first | rfl | cases h

theorem NestingMode.isNull_emptyOf
    (mode : NestingMode) (t : Ty) :
    (mode.emptyOf t).isNull = !mode.isCollection := by
  cases mode with
  | single | group => rfl
  | list | set | map =>
      rw [emptyOf]
      split <;> rfl

theorem NestingMode.orNull_emptyOf
    (mode : NestingMode) (t : Ty) :
    (mode.emptyOf t).orNull = mode.emptyOf t := by
  cases mode with
  | single | group => rfl
  | list | set | map =>
      rw [emptyOf]
      split <;> rfl

namespace Schema

/-- Whether an attribute is a collection of nested attributes. -/
def Attribute.isCollection (a : Attribute) : Bool :=
  match a.nested with
  | some n => n.mode.isCollection
  | none => false

/-- The required attributes of a block that give a type, unless a block type has
their name. -/
def Block.requiredAttributes (b : Block) : Fields Attribute :=
  b.attributes.filter fun a => a.2.required && a.2.isTyped && !Fields.contains a.1 b.blockTypes

/-- The required attributes of a block that are collections, unless a block type
has their name. -/
def Block.requiredCollections (b : Block) : Fields Attribute :=
  b.attributes.filter fun a =>
    a.2.required && a.2.isCollection && !Fields.contains a.1 b.blockTypes

section EmptyValues

variable {d e : Nat}

/-- The empty value of an attribute does not depend on the depth down to the
limit. -/
theorem Attribute.emptyAt_eq
    (a : Attribute) (hd : d ≤ maxDepth) :
    a.emptyAt d = a.emptyValue := by
  rw [Attribute.emptyValue, Attribute.emptyAt, Attribute.emptyAt, valueWithin, valueWithin,
    if_neg (by omega), if_neg (by omega)]

theorem optionalBlockEmptyAt_eq_of_depth_le_of
    {o : Option Block} (hd : d + optionalBlockDepth o ≤ maxDepth)
    (he : e + optionalBlockDepth o ≤ maxDepth)
    (h : ∀ c, o = some c → c.emptyAt d = c.emptyAt e) :
    optionalBlockEmptyAt d o = optionalBlockEmptyAt e o := by
  cases o with
  | none =>
      simp only [optionalBlockEmptyAt, valueWithin]
      rw [if_neg (by omega), if_neg (by omega)]
  | some c => exact h c rfl

/-- Where nothing of a block is cut off its empty value does not depend on the
depth. -/
theorem Block.emptyAt_eq_of_depth_le
    (b : Block) (hd : d + b.depth ≤ maxDepth) (he : e + b.depth ≤ maxDepth) :
    b.emptyAt d = b.emptyAt e := by
  induction b using Block.induction generalizing d e with
  | step b ih =>
      obtain ⟨hattributes, hblocks⟩ := Block.depth_le_iff.1 (Nat.le_refl b.depth)
      rw [Block.emptyAt_eq, Block.emptyAt_eq, valueWithin, valueWithin, if_neg (by omega),
        if_neg (by omega)]
      rw [Fields.mapValues_congr (f := fun a => (Attribute.emptyAt (d + 1) a).orNull)
        (g := fun a => (Attribute.emptyAt (e + 1) a).orNull) ?attributes]
      rw [Fields.mapValues_congr (f := NestedBlock.emptyAt (d + 1))
        (g := NestedBlock.emptyAt (e + 1)) ?blocks]
      case attributes =>
        intro a ha
        have hda := hattributes a ha
        rw [a.2.emptyAt_eq (d := d + 1) (by omega), a.2.emptyAt_eq (d := e + 1) (by omega)]
      case blocks =>
        intro n hn
        have hdn : optionalBlockDepth n.2.block + 1 ≤ b.depth := hblocks n hn
        unfold NestedBlock.emptyAt
        cases n.2.mode with
        | group =>
            refine optionalBlockEmptyAt_eq_of_depth_le_of (by omega) (by omega) ?_
            intro c hc
            have hdc := Block.depth_of_mem hn hc
            exact ih n hn c hc (by omega) (by omega)
        | _ => rfl

/-- The empty value of a nested block of which nothing is cut off. -/
theorem NestedBlock.emptyAt_eq
    (n : NestedBlock) (hd : d + optionalBlockDepth n.block ≤ maxDepth) :
    n.emptyAt d = n.emptyValue := by
  unfold NestedBlock.emptyValue NestedBlock.emptyAt
  cases n.mode with
  | group =>
      refine optionalBlockEmptyAt_eq_of_depth_le_of hd (by omega) ?_
      intro c hc
      rw [hc, optionalBlockDepth] at hd
      exact c.emptyAt_eq_of_depth_le hd (by omega)
  | _ => rfl

end EmptyValues

section Parts

-- The equations are derived here once, before the proofs that all unfold them.
attribute [local simp] Decoder.decodeContent

variable {depth : Nat} {body : Body}

theorem decodeAttribute_missing
    (name : String) (t : Ty) (required : Bool) (hbody : body.attributes = []) :
    Decoder.decodeAttribute name t required body =
      .reporting (if required then [.missingArgument name] else []) (.null t.storage) := by
  rw [Decoder.decodeAttribute, hbody, Fields.get?_nil]

/-- What the decoder of a nested type yields where the attribute is missing: a
null if the attribute is required or no collection, and the empty collection
otherwise. -/
theorem NestedType.decodeContent_missing
    (name : String) (n : NestedType) (a : Attribute) (hn : a.nested = some n)
    (hd : depth ≤ maxDepth) (hbody : body.attributes = []) :
    (a.decoderAt depth name).decodeContent body =
      .reporting (if a.required then [.missingArgument name] else [])
        (if a.required && n.mode.isCollection then .null a.impliedType else a.emptyValue) := by
  have hkind := Attribute.kind_eq_nested_iff.2 hn
  have himplied : a.impliedType = n.typeAt .storage 0 := by
    rw [Attribute.impliedType, Attribute.typeAt_eq, hkind]
  have hempty : a.emptyValue = n.mode.emptyOf (n.elementTypeAt .storage 0) := by
    rw [Attribute.emptyValue, Attribute.emptyAt, hkind]
    rfl
  have hnull : a.emptyValue.isNull = !n.mode.isCollection := by
    rw [hempty, NestingMode.isNull_emptyOf]
  have hprimary := decodeAttribute_missing name n.inputType a.required hbody
  rw [NestedType.inputType, n.storage_typeAt .input 0, ← himplied] at hprimary
  rw [Attribute.decoderAt, if_neg (Nat.not_lt.2 hd), hkind]
  simp only [hnull, NestedType.inputType]
  cases hmode : n.mode.isCollection with
  | false =>
      have hnone : a.emptyValue = .null a.impliedType := by
        rw [hempty, himplied, NestingMode.emptyOf_eq_null hmode]
        rfl
      simp [hprimary, hnone]
  | true =>
      cases hrequired : a.required with
      | true =>
          rw [hrequired] at hprimary
          simp [hprimary]
      | false =>
          rw [hrequired] at hprimary
          simp [hprimary, Value.isNull, Decoded.clean, Decoded.reporting, Decoded.following]

/-- What the decoder of an attribute yields where the attribute is missing. -/
theorem Attribute.decodeContent_missing
    (name : String) (a : Attribute) (hd : depth ≤ maxDepth) (hbody : body.attributes = []) :
    ((a.decoderAt depth name).decodeContent body).result.orNull =
        (if a.required && a.isCollection then .null a.impliedType else a.emptyValue.orNull) ∧
      ((a.decoderAt depth name).decodeContent body).diagnostics =
        if a.required && a.isTyped then [.missingArgument name] else [] := by
  cases hn : a.nested with
  | some n =>
      rw [n.decodeContent_missing name a hn hd hbody, Decoded.result_reporting,
        Decoded.diagnostics_reporting, isCollection, isTyped, hn]
      simp only [Option.isSome_some, Bool.or_true, Bool.and_true, and_true]
      split <;> rfl
  | none =>
      rw [Attribute.decoderAt, if_neg (Nat.not_lt.2 hd), isCollection, isTyped, emptyValue,
        emptyAt, kind, hn]
      cases a.type with
      | none => simp [valueWithin]
      | some t => simp [decodeAttribute_missing name t a.required hbody, valueWithin, Value.orNull]

theorem NestedBlock.decodeContent_missing
    (name : String) (n : NestedBlock) {nested : Decoder}
    (htype : nested.type = impliedTypeOfBlock n.block) (hbody : body.blocks = []) :
    ((n.collect name nested).decodeContent body).result = n.emptyValue ∧
      ((n.collect name nested).decodeContent body).diagnostics = [] := by
  have hblocks : body.blocksOf name = [] := by
    rw [Body.blocksOf, hbody, List.filter_nil]
  unfold NestedBlock.collect NestedBlock.emptyValue NestedBlock.emptyAt
  cases n.mode with
  | single => simp [Decoder.decodeSingle, hblocks, htype, NestingMode.emptyOf]
  | group =>
      simp [Decoder.decodeSingle, hblocks, Value.isNull, emptyValueOfBlock]
  | list =>
      simp only [htype, NestingMode.emptyOf]
      split <;> simp [Decoder.decodeKnown, hblocks, Decoder.decodeEach, htype, Value.emptyTuple]
  | set =>
      simp only [htype, NestingMode.emptyOf]
      split <;>
        simp [Decoder.decodeKnown, hblocks, Decoder.decodeEach, htype, Value.emptyTuple,
          Value.setOf, Value.setElements]
  | map =>
      simp only [htype, NestingMode.emptyOf]
      split <;> simp [Decoder.decodeKnown, hblocks, Decoder.decodeLabeled, htype, Value.emptyObject]

end Parts

section Decoding

theorem NestedBlock.orNull_emptyValue
    (n : NestedBlock) :
    n.emptyValue.orNull = n.emptyValue := by
  unfold NestedBlock.emptyValue NestedBlock.emptyAt
  cases n.mode with
  | group =>
      cases n.block with
      | none => rfl
      | some c =>
          simp only [optionalBlockEmptyAt]
          rw [Block.emptyAt_eq, valueWithin, if_neg (by omega)]
          rfl
  | _ => exact NestingMode.orNull_emptyOf _ _

theorem Block.emptyValue_eq
    {b : Block} (hdepth : b.depth ≤ maxDepth) :
    b.emptyValue = .object (Fields.insertAll
      (Fields.mapValues (fun a => a.emptyValue.orNull) b.attributes)
      (Fields.mapValues NestedBlock.emptyValue b.blockTypes)) := by
  obtain ⟨hattributes, hblocks⟩ := Block.depth_le_iff.1 hdepth
  rw [Block.emptyValue, Block.emptyAt_eq, valueWithin, if_neg (by omega)]
  rw [Fields.mapValues_congr (g := fun a => a.emptyValue.orNull) ?attributes]
  rw [Fields.mapValues_congr (g := NestedBlock.emptyValue) ?blocks]
  case attributes =>
    intro a ha
    have hda := hattributes a ha
    rw [a.2.emptyAt_eq (by omega)]
  case blocks =>
    intro n hn
    have hdn : optionalBlockDepth n.2.block + 1 ≤ maxDepth := hblocks n hn
    exact n.2.emptyAt_eq (by omega)

theorem NestedBlock.decodeContent_decoderAt_missing
    {b : Block} (hdepth : b.depth ≤ maxDepth) {body : Body} (hblocks : body.blocks = [])
    {n : String × NestedBlock} (hn : n ∈ b.blockTypes) :
    ((n.2.decoderAt 1 n.1).decodeContent body).result = n.2.emptyValue ∧
      ((n.2.decoderAt 1 n.1).decodeContent body).diagnostics = [] := by
  have hdn : optionalBlockDepth n.2.block + 1 ≤ maxDepth := (Block.depth_le_iff.1 hdepth).2 n hn
  refine n.2.decodeContent_missing n.1 ?_ hblocks
  exact type_optionalBlockDecoderAt_eq_impliedType n.2.block (by omega)

variable (b : Block) (hb : b.WellFormed) (hdepth : b.depth ≤ maxDepth) (body : Body)
  (hattributes : body.attributes = []) (hblocks : body.blocks = [])
include hdepth hattributes hblocks

/-- The attributes and nested blocks that are decoded from a body without
content. -/
theorem result_decodeParts_missing :
    Fields.mapValues (fun part => (part.decodeContent body).result.orNull)
        (Fields.insertAll (b.attributes.map fun a => (a.1, a.2.decoderAt 1 a.1))
          (b.blockTypes.map fun n => (n.1, n.2.decoderAt 1 n.1))) =
      Fields.insertAll
        (Fields.mapValues (fun a =>
          if a.required && a.isCollection then .null a.impliedType else a.emptyValue.orNull)
          b.attributes)
        (Fields.mapValues NestedBlock.emptyValue b.blockTypes) := by
  rw [Fields.mapValues_insertAll]
  rw [Fields.mapValues_map (fun a : Attribute =>
    if a.required && a.isCollection then Value.null a.impliedType else a.emptyValue.orNull) ?_]
  rw [Fields.mapValues_map NestedBlock.emptyValue ?_]
  · intro n hn
    rw [(NestedBlock.decodeContent_decoderAt_missing hdepth hblocks hn).1,
      n.2.orNull_emptyValue]
  · intro a _
    exact (a.2.decodeContent_missing a.1 (by decide) hattributes).1

include hb

theorem diagnostics_decodeParts_missing :
    (Fields.insertAll (b.attributes.map fun a => (a.1, a.2.decoderAt 1 a.1))
        (b.blockTypes.map fun n => (n.1, n.2.decoderAt 1 n.1))).flatMap
          (fun part => (part.2.decodeContent body).diagnostics) =
      b.requiredAttributes.map fun a => .missingArgument a.1 := by
  obtain ⟨hsa, -, hsb, -⟩ := Block.wellFormed_iff.1 hb
  have hsa' := Fields.sorted_map (fun name a => a.decoderAt 1 name) hsa
  have hsb' := Fields.sorted_map (fun name n => n.decoderAt 1 name) hsb
  have hnames := Fields.names_map (fun name n => n.decoderAt 1 name) b.blockTypes
  have hcontains : ∀ name, Fields.contains name
      (b.blockTypes.map fun n => (n.1, n.2.decoderAt 1 n.1)) =
        Fields.contains name b.blockTypes := by
    intro name
    rw [Bool.eq_iff_iff, Fields.contains, Fields.contains, Fields.get?_isSome_iff,
      Fields.get?_isSome_iff, hnames]
  -- Blocks that are missing are not reported.
  rw [← flatMap_filter (p := fun part => !Fields.contains part.1 b.blockTypes) ?covered]
  case covered =>
    intro part hpart hcovered
    rcases (Fields.mem_insertAll_iff hsa' hsb').1 hpart with ⟨-, hname⟩ | hpart
    · rw [← Fields.get?_isSome_iff] at hname
      rw [← hcontains] at hcovered
      exact absurd (by simpa [Fields.contains] using hcovered) hname
    · obtain ⟨n, hn, rfl⟩ := List.mem_map.1 hpart
      exact (NestedBlock.decodeContent_decoderAt_missing hdepth hblocks hn).2
  simp only [← hcontains]
  rw [Fields.filter_insertAll hsa' hsb', List.filter_map, List.flatMap_map]
  rw [flatMap_eq_map_filter (p := fun a => a.2.required && a.2.isTyped)
    (f := fun a => .missingArgument a.1) ?reported]
  case reported =>
    intro a _
    exact (a.2.decodeContent_missing a.1 (show 1 ≤ maxDepth by decide) hattributes).2
  rw [List.filter_filter, Block.requiredAttributes]
  simp only [Function.comp_def, hcontains]

/-- A body without content is decoded to the empty value, but for the required
collections, which are null; and all that is reported is that required
attributes are missing.  The range is not left. -/
theorem decode_empty_body :
    (b.decoder.decode body).result =
        b.emptyValue.withAttributes
          (Fields.mapValues (fun a => .null a.impliedType) b.requiredCollections) ∧
      (b.decoder.decode body).diagnostics =
        b.requiredAttributes.map (fun a => .missingArgument a.1) ∧
      (b.decoder.decode body).leavesRange = false := by
  have hrange : (b.decoder.decode body).leavesRange = false := by
    rw [← Bool.not_eq_true, Block.decoder, b.leavesRange_decoderAt_iff hb (by omega)]
    exact Block.not_overflows_of_nil hattributes hblocks
  obtain ⟨hsa, -, hsb, -⟩ := Block.wellFormed_iff.1 hb
  have hextraneous : Decoder.extraneous b.decoder.reads body = [] := by
    rw [Decoder.extraneous, hattributes, hblocks]
    rfl
  rw [hrange, Decoder.decode, Decoder.decodeWhole, hextraneous, Decoded.result_after,
    Decoded.diagnostics_after, List.nil_append, b.decoder_eq, Decoder.decodeContent,
    Decoded.result_map, Decoded.diagnostics_map, Decoder.result_decodeParts,
    Decoder.diagnostics_decodeParts, result_decodeParts_missing b hdepth body hattributes hblocks,
    diagnostics_decodeParts_missing b hb hdepth body hattributes hblocks,
    Block.emptyValue_eq hdepth, Value.withAttributes]
  refine ⟨congrArg Value.object ?_, rfl, rfl⟩
  have hsn : Fields.Sorted (Fields.mapValues NestedBlock.emptyValue b.blockTypes) :=
    Fields.sorted_mapValues _ hsb
  have hsc : Fields.Sorted
      (Fields.mapValues (fun a => Value.null a.impliedType) b.requiredCollections) :=
    Fields.sorted_mapValues _ hsa.filter
  refine Fields.Sorted.ext_get? (Fields.sorted_insertAll _ (Fields.sorted_mapValues _ hsa))
    (Fields.sorted_insertAll _ (Fields.sorted_insertAll _ (Fields.sorted_mapValues _ hsa))) ?_
  intro name
  rw [Fields.get?_insertAll _ _ hsn, Fields.get?_insertAll _ _ hsc, Fields.get?_insertAll _ _ hsn,
    Fields.get?_mapValues, Fields.get?_mapValues, Fields.get?_mapValues, Fields.get?_mapValues,
    Block.requiredCollections, Fields.get?_filter _ hsa]
  simp only [Fields.contains]
  cases Fields.get? name b.blockTypes with
  | some n => cases Fields.get? name b.attributes <;> simp
  | none =>
      cases Fields.get? name b.attributes with
      | none => simp
      | some a =>
          cases hr : a.required <;> cases hc : a.isCollection <;> simp [Option.filter, hr, hc]

omit hb hdepth hattributes hblocks

/-- A block with a required list of nested attributes, another one that a group
covers, and a malformed attribute.  What the group requires is not missed. -/
def Block.demanding : Block :=
  { attributes :=
      [("a", .ofNested { mode := .list, attributes := [("n", .ofType .bool .optional)] } .required),
        ("b", .ofNested { mode := .set } .required), ("c", { required := true })]
    blockTypes :=
      [("b",
        { mode := .group, block := some { attributes := [("m", .ofType .number .required)] } })] }

theorem Block.wellFormed_demanding :
    Block.demanding.WellFormed := by
  have hsorted : Fields.Sorted Block.demanding.attributes := by
    unfold Fields.Sorted
    decide
  rw [Block.wellFormed_iff]
  refine ⟨hsorted, ?_, List.pairwise_singleton _ _, ?_⟩
  · simp [Block.demanding, Attribute.ofNested, Attribute.ofType, Attribute.withRequirement,
      Attribute.WellFormed, AttributesWellFormed, Fields.Sorted, Ty.WellFormed]
  · simp [Block.demanding, Attribute.ofType, Attribute.withRequirement, NestedBlock.WellFormed,
      OptionalBlockWellFormed, Block.WellFormed, Attribute.WellFormed, AttributesWellFormed,
      BlockTypesWellFormed, Fields.Sorted, Ty.WellFormed]

theorem decode_empty_body_demanding :
    (Block.demanding.decoder.decode {}).result =
        .object
          [("a", .null (.list (.object [("n", .bool)] []))),
            ("b", .object [("m", .null .number)]), ("c", .null .dynamic)] ∧
      (Block.demanding.decoder.decode {}).diagnostics = [.missingArgument "a"] := by
  obtain ⟨hresult, hdiagnostics, -⟩ :=
    decode_empty_body Block.demanding Block.wellFormed_demanding (by decide) {} rfl rfl
  exact ⟨hresult.trans rfl, hdiagnostics.trans rfl⟩

end Decoding

end Schema
end TypedConfig
