import TypedConfig.Proofs.Decoder.Known
import TypedConfig.Proofs.Schema.Decoding

/-!
# Nothing becomes unknown in silence

Nulls and empty collections stand for what is missing in a body, and these are
known.  So a body of which all is known is decoded to a wholly known value, unless
something in it is reported.
-/

namespace TypedConfig

theorem NestingMode.isWhollyKnown_emptyOf
    (mode : NestingMode) (t : Ty) :
    (mode.emptyOf t).isWhollyKnown = true := by
  cases mode with
  | single | group => rfl
  | list | set | map =>
      simp only [NestingMode.emptyOf]
      split <;> rfl

namespace Schema

section EmptyValues

variable {depth : Nat}

theorem isWhollyKnown_valueWithin
    {v : Value} (h : v.isWhollyKnown = true) :
    (valueWithin depth v).isWhollyKnown = true := by
  rw [valueWithin]
  split
  · rfl
  · exact h

theorem Attribute.isWhollyKnown_emptyAt
    (a : Attribute) :
    (a.emptyAt depth).isWhollyKnown = true := by
  refine isWhollyKnown_valueWithin ?_
  cases a.kind with
  | malformed | typed t => rfl
  | nested n => exact n.mode.isWhollyKnown_emptyOf _

theorem isWhollyKnown_optionalBlockEmptyAt_of
    {o : Option Block} (h : ∀ c, o = some c → (c.emptyAt depth).isWhollyKnown = true) :
    (optionalBlockEmptyAt depth o).isWhollyKnown = true := by
  cases o with
  | none => exact isWhollyKnown_valueWithin rfl
  | some c => exact h c rfl

theorem Block.isWhollyKnown_emptyAt
    (b : Block) :
    (b.emptyAt depth).isWhollyKnown = true := by
  induction b using Block.induction generalizing depth with
  | step b ih =>
      rw [Block.emptyAt_eq]
      refine isWhollyKnown_valueWithin (Value.isWhollyKnown_iff.2 ⟨rfl, ?_⟩)
      refine List.forall_mem_map.2 fun member hmember => ?_
      rcases Fields.mem_of_mem_insertAll hmember with hmember | hmember
      · obtain ⟨a, -, rfl⟩ := Fields.mem_mapValues.1 hmember
        rw [Value.isWhollyKnown_orNull]
        exact a.2.isWhollyKnown_emptyAt
      · obtain ⟨n, hn, rfl⟩ := Fields.mem_mapValues.1 hmember
        simp only [NestedBlock.emptyAt]
        split
        · exact isWhollyKnown_optionalBlockEmptyAt_of fun c hc => ih n hn c hc
        · exact n.2.mode.isWhollyKnown_emptyOf _

theorem isWhollyKnown_emptyValueOfBlock
    (o : Option Block) :
    (emptyValueOfBlock o).isWhollyKnown = true :=
  isWhollyKnown_optionalBlockEmptyAt_of fun c _ => c.isWhollyKnown_emptyAt

end EmptyValues

section Decoders

variable {depth : Nat}

theorem Attribute.keepsKnown_decoderAt
    (name : String) (a : Attribute) (ha : a.WellFormed) :
    (a.decoderAt depth name).KeepsKnown := by
  rw [Attribute.decoderAt]
  split
  · have hdynamic : Ty.dynamic.WellFormed := trivial
    exact Decoder.keepsKnown_attribute name hdynamic false
  · cases hk : a.kind with
    | malformed => exact Decoder.keepsKnown_literal rfl
    | typed t => exact Decoder.keepsKnown_attribute name (ha.typed (kind_eq_typed_iff.1 hk).2) _
    | nested n =>
        have hn := ha.nested (kind_eq_nested_iff.1 hk)
        have hinput : n.inputType.WellFormed :=
          n.mode.wellFormed_collection (n.wellFormed_elementTypeAt .input 0 hn)
        have hprimary := Decoder.keepsKnown_attribute name hinput a.required
        simp only
        split
        · exact hprimary
        · exact Decoder.keepsKnown_withFallback hprimary
            (Decoder.keepsKnown_literal a.isWhollyKnown_emptyAt)

theorem NestedBlock.keepsKnown_collect
    (type : String) (n : NestedBlock) {nested : Decoder} (hnested : nested.KeepsKnown) :
    (n.collect type nested).KeepsKnown := by
  unfold NestedBlock.collect
  cases n.mode with
  | single => exact Decoder.keepsKnown_block hnested type false
  | group =>
      exact Decoder.keepsKnown_withFallback (Decoder.keepsKnown_block hnested type false)
        (Decoder.keepsKnown_literal (isWhollyKnown_emptyValueOfBlock n.block))
  | list =>
      simp only
      split
      · exact Decoder.keepsKnown_blockTuple hnested type _
      · exact Decoder.keepsKnown_blockList hnested type _
  | set =>
      simp only
      split
      · exact Decoder.keepsKnown_blockTuple hnested type _
      · exact Decoder.keepsKnown_blockSet hnested type _
  | map =>
      simp only
      split
      · exact Decoder.keepsKnown_blockObject hnested type _
      · exact Decoder.keepsKnown_blockMap hnested type _

/-- What is cut off is a null, which is known. -/
theorem keepsKnown_decoderWithin
    {d : Decoder} (h : d.KeepsKnown) :
    (decoderWithin depth d).KeepsKnown := by
  rw [decoderWithin]
  split
  · exact Decoder.keepsKnown_literal rfl
  · exact h

theorem keepsKnown_optionalBlockDecoderAt_of
    {o : Option Block} (h : ∀ c, o = some c → (c.decoderAt depth).KeepsKnown) :
    (optionalBlockDecoderAt depth o).KeepsKnown := by
  cases o with
  | none => exact keepsKnown_decoderWithin (Decoder.keepsKnown_object (List.forall_mem_nil _))
  | some c => exact h c rfl

theorem Block.keepsKnown_decoderAt
    (b : Block) (hb : b.WellFormed) :
    (b.decoderAt depth).KeepsKnown := by
  induction b using Block.induction generalizing depth with
  | step b ih =>
      obtain ⟨-, hwa, -, -⟩ := Block.wellFormed_iff.1 hb
      rw [Block.decoderAt_eq]
      refine keepsKnown_decoderWithin (Decoder.keepsKnown_object fun part hpart => ?_)
      rcases Fields.mem_of_mem_insertAll hpart with hpart | hpart
      · obtain ⟨a, ha, rfl⟩ := List.mem_map.1 hpart
        exact a.2.keepsKnown_decoderAt a.1 (hwa a ha)
      · obtain ⟨n, hn, rfl⟩ := List.mem_map.1 hpart
        refine n.2.keepsKnown_collect n.1 (keepsKnown_optionalBlockDecoderAt_of fun c hc => ?_)
        exact ih n hn c hc (hb.of_mem hn hc)

end Decoders

section Known

/-- Conversion neither makes nor loses what is unknown, and decoding makes nothing
unknown without a report about it. -/
theorem unknown_not_invented :
    (∀ (want : Ty) (v result : Value), want.WellFormed → v.WellFormed →
      Value.convert want v = .ok result →
      (result.isWhollyKnown = true ↔ v.isWhollyKnown = true)) ∧
    ∀ (b : Block) (body : Body), b.WellFormed → body.WhollyKnown →
      (b.decoder.decode body).diagnostics = [] →
      (b.decoder.decode body).result.isWhollyKnown = true := by
  constructor
  · intro want v result hw hv h
    exact Value.convert_isWhollyKnown_iff hw hv h
  · intro b body hb hbody hsilent
    exact b.keepsKnown_decoderAt hb body hbody (List.append_eq_nil_iff.1 hsilent).2

/-- A block with a set of ports and with users by label. -/
def Block.listener : Block :=
  { attributes := [("ports", .ofType (.set .number) .required)]
    blockTypes :=
      [("user",
        { mode := .map, block := some { attributes := [("name", .ofType .string .optional)] } })] }

/-- A body with one port in two spellings, and with a user without a name. -/
def listenerBody : Body :=
  { attributes := [("ports", { value := .tuple [.ofInt 80, .string "80"] })]
    blocks := [{ type := "user", labels := ["root"], body := {} }] }

theorem Block.wellFormed_listener :
    Block.listener.WellFormed := by
  simp [Block.listener, Attribute.ofType, Attribute.withRequirement, Block.WellFormed,
    Attribute.WellFormed, AttributesWellFormed, BlockTypesWellFormed, OptionalBlockWellFormed,
    Fields.Sorted, Ty.WellFormed]

theorem unknown_not_invented_listener :
    (Value.convert (.list .string) (.tuple [.ofInt 1, .unknown .dynamic]) =
        .ok (.list .string [.string "1", .unknown .string]) ∧
      ((Value.list .string [.string "1", .unknown .string]).isWhollyKnown = true ↔
        (Value.tuple [.ofInt 1, .unknown .dynamic]).isWhollyKnown = true)) ∧
      (Block.listener.decoder.decode listenerBody).result.isWhollyKnown = true := by
  obtain ⟨hconversion, hdecoding⟩ := unknown_not_invented
  have hconvert : Value.convert (.list .string) (.tuple [.ofInt 1, .unknown .dynamic]) =
      .ok (.list .string [.string "1", .unknown .string]) := by rfl
  refine ⟨⟨hconvert, ?_⟩, ?_⟩
  · exact hconversion (.list .string) _ _ trivial ⟨trivial, trivial, trivial⟩ hconvert
  · refine hdecoding Block.listener listenerBody Block.wellFormed_listener ?_ (by rfl)
    simp [listenerBody, Body.WhollyKnown, BlocksWhollyKnown, Value.isWhollyKnown,
      Value.allWhollyKnown, Value.ofInt]

end Known

end Schema
end TypedConfig
