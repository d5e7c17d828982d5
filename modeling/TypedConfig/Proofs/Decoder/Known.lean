import TypedConfig.Proofs.Decoder.Diagnostics
import TypedConfig.Proofs.Value.Known

/-!
# Decoders that make nothing unknown

In a body of which all is known there is nothing unknown to begin with.  What
decoding makes unknown are attributes whose values cannot be converted, and these
it reports.  So a decoder that finds nothing in such a body should yield a wholly
known value.  There is one lemma for each form of decoder, which says that it does
if its parts do.
-/

namespace TypedConfig

section Bodies

mutual

/-- Whether at every level the values of attributes are wholly known and no body
of a block is unknown. -/
def Body.WhollyKnown : Body → Prop
  | ⟨attributes, blocks, _⟩ =>
      (∀ a ∈ attributes, a.2.value.isWhollyKnown = true) ∧ BlocksWhollyKnown blocks

/-- Whether the bodies of all blocks are known, at every level. -/
def BlocksWhollyKnown : List BodyBlock → Prop
  | [] => True
  | ⟨_, _, body, _⟩ :: rest =>
      (body.unknown = false ∧ body.WhollyKnown) ∧ BlocksWhollyKnown rest

end

theorem blocksWhollyKnown_iff
    {blocks : List BodyBlock} :
    BlocksWhollyKnown blocks ↔
      ∀ block ∈ blocks, block.body.unknown = false ∧ block.body.WhollyKnown := by
  induction blocks with
  | nil => simp [BlocksWhollyKnown]
  | cons block rest ih =>
      obtain ⟨type, labels, body, range⟩ := block
      rw [BlocksWhollyKnown, List.forall_mem_cons, ih]

theorem Body.whollyKnown_iff
    {b : Body} :
    b.WhollyKnown ↔
      (∀ a ∈ b.attributes, a.2.value.isWhollyKnown = true) ∧
        ∀ block ∈ b.blocks, block.body.unknown = false ∧ block.body.WhollyKnown := by
  obtain ⟨attributes, blocks, unknown⟩ := b
  rw [Body.WhollyKnown, blocksWhollyKnown_iff]

end Bodies

namespace Decoder

/-- Whether every body of which all is known is decoded to a wholly known value,
unless something is found. -/
def KeepsKnown (d : Decoder) : Prop :=
  ∀ b : Body, b.WhollyKnown → (d.decodeContent b).diagnostics = [] →
    (d.decodeContent b).result.isWhollyKnown = true

section Forms

-- The equations are derived here once, before the proofs that all unfold them.
attribute [local simp] decodeContent

theorem keepsKnown_literal
    {v : Value} (h : v.isWhollyKnown = true) :
    (literal v).KeepsKnown :=
  fun _ _ _ => h

/-- An attribute becomes unknown only if its value cannot be converted, which is
reported.  Where the range is left instead, nothing is returned that could be unknown. -/
theorem keepsKnown_attribute
    (name : String) {t : Ty} (ht : t.WellFormed) (required : Bool) :
    (Decoder.attribute name t required).KeepsKnown := by
  intro b hb hsilent
  rw [decodeContent, decodeAttribute] at hsilent ⊢
  cases hget : Fields.get? name b.attributes with
  | none => rfl
  | some a =>
      simp only [hget] at hsilent ⊢
      cases hconvert : Value.convert t a.value with
      | ok v =>
          have hvalue := (Body.whollyKnown_iff.1 hb).1 (name, a) (Fields.mem_of_get? hget)
          exact (Value.knownAlike_closedUnderConversion.holds ht hconvert).known hvalue
      | error e =>
          simp only [hconvert] at hsilent ⊢
          split at hsilent
          · rename_i hrange
            rw [if_pos hrange]
            rfl
          · cases hsilent

section Blocks

/-- The blocks of a type are known with the body. -/
theorem whollyKnown_of_mem_blocksOf
    {b : Body} (hb : b.WhollyKnown) {type : String} {block : BodyBlock}
    (hblock : block ∈ b.blocksOf type) :
    block.body.unknown = false ∧ block.body.WhollyKnown :=
  (Body.whollyKnown_iff.1 hb).2 block (Body.mem_blocks_of_mem_blocksOf hblock)

/-- Blocks that are known are decoded. -/
theorem decodeKnown_blocksOf
    {b : Body} (hb : b.WhollyKnown) (type : String) {α : Type} {t : Ty} {wrap : α → Value}
    {decode : List BodyBlock → Decoded α} :
    decodeKnown (b.blocksOf type) t wrap decode = (decode (b.blocksOf type)).map wrap := by
  refine if_neg fun hunknown => ?_
  obtain ⟨block, hblock, hunknown⟩ := List.any_eq_true.1 hunknown
  rw [(whollyKnown_of_mem_blocksOf hb hblock).1] at hunknown
  cases hunknown

variable {nested : Decoder} (hnested : nested.KeepsKnown)
include hnested

theorem KeepsKnown.blocksOf
    {b : Body} (hb : b.WhollyKnown) {type : String}
    (hsilent : ∀ block ∈ b.blocksOf type,
      (decodeWhole nested.reads nested.decodeContent block.body).diagnostics = []) :
    ∀ block ∈ b.blocksOf type,
      (decodeWhole nested.reads nested.decodeContent block.body).result.isWhollyKnown = true := by
  intro block hblock
  have hbody := (whollyKnown_of_mem_blocksOf hb hblock).2
  exact hnested block.body hbody (List.append_eq_nil_iff.1 (hsilent block hblock)).2

theorem KeepsKnown.decodeEach
    {b : Body} (hb : b.WhollyKnown) {type : String}
    (hsilent : (decodeEach (decodeWhole nested.reads nested.decodeContent)
      (b.blocksOf type)).diagnostics = []) :
    ∀ v ∈ (decodeEach (decodeWhole nested.reads nested.decodeContent) (b.blocksOf type)).result,
      v.isWhollyKnown = true := by
  rw [diagnostics_decodeEach, List.flatMap_eq_nil_iff] at hsilent
  rw [result_decodeEach]
  exact List.forall_mem_map.2 (hnested.blocksOf hb hsilent)

/-- No block with other labels than it needs is passed over in silence. -/
theorem KeepsKnown.decodeLabeled
    {b : Body} (hb : b.WhollyKnown) {type : String} {labels : List String}
    (hsilent : (decodeLabeled type labels (decodeWhole nested.reads nested.decodeContent) []
      (b.blocksOf type)).diagnostics = []) :
    ∀ entry ∈ (decodeLabeled type labels (decodeWhole nested.reads nested.decodeContent) []
      (b.blocksOf type)).result, entry.2.isWhollyKnown = true := by
  rw [diagnostics_decodeLabeled, List.flatMap_eq_nil_iff] at hsilent
  refine forall_mem_decodeLabeled (P := fun v => v.isWhollyKnown = true) type labels
    (hnested.blocksOf hb fun block hblock => ?_) (List.forall_mem_nil _)
  have hblock := hsilent block hblock
  split at hblock
  · exact hblock
  · cases hblock

theorem keepsKnown_block
    (name : String) (required : Bool) :
    (block name nested required).KeepsKnown := by
  intro b hb hsilent
  rw [decodeContent, decodeSingle] at hsilent ⊢
  cases hof : b.blocksOf name with
  | nil => rfl
  | cons first others =>
      have hfirst : first ∈ b.blocksOf name := by
        rw [hof]
        exact List.mem_cons_self
      obtain ⟨hunknown, hbody⟩ := whollyKnown_of_mem_blocksOf hb hfirst
      rw [hof] at hsilent
      simp only [hunknown, Bool.false_eq_true, if_false, Decoded.diagnostics_after,
        List.append_eq_nil_iff, Decoded.result_after] at hsilent ⊢
      exact hnested first.body hbody (List.append_eq_nil_iff.1 hsilent.2).2

theorem keepsKnown_blockList
    (name : String) (bounds : ItemBounds) :
    (blockList name nested bounds).KeepsKnown := by
  intro b hb hsilent
  rw [decodeContent, decodeKnown_blocksOf hb] at hsilent ⊢
  exact Value.isWhollyKnown_iff.2 ⟨rfl, hnested.decodeEach hb hsilent⟩

theorem keepsKnown_blockSet
    (name : String) (bounds : ItemBounds) :
    (blockSet name nested bounds).KeepsKnown := by
  intro b hb hsilent
  rw [decodeContent, decodeKnown_blocksOf hb] at hsilent ⊢
  refine Value.isWhollyKnown_iff.2 ⟨rfl, fun v hv => ?_⟩
  exact hnested.decodeEach hb hsilent v ((Value.mem_setElements v _).1 hv)

theorem keepsKnown_blockTuple
    (name : String) (bounds : ItemBounds) :
    (blockTuple name nested bounds).KeepsKnown := by
  intro b hb hsilent
  rw [decodeContent, decodeKnown_blocksOf hb] at hsilent ⊢
  exact Value.isWhollyKnown_iff.2 ⟨rfl, hnested.decodeEach hb hsilent⟩

theorem keepsKnown_blockMap
    (name : String) (labels : List String) :
    (blockMap name labels nested).KeepsKnown := by
  intro b hb hsilent
  rw [decodeContent, decodeKnown_blocksOf hb] at hsilent ⊢
  exact Value.isWhollyKnown_iff.2 ⟨rfl, List.forall_mem_map.2 (hnested.decodeLabeled hb hsilent)⟩

theorem keepsKnown_blockObject
    (name : String) (labels : List String) :
    (blockObject name labels nested).KeepsKnown := by
  intro b hb hsilent
  rw [decodeContent, decodeKnown_blocksOf hb] at hsilent ⊢
  exact Value.isWhollyKnown_iff.2 ⟨rfl, List.forall_mem_map.2 (hnested.decodeLabeled hb hsilent)⟩

end Blocks

theorem keepsKnown_withFallback
    {primary fallback : Decoder} (hprimary : primary.KeepsKnown)
    (hfallback : fallback.KeepsKnown) :
    (withFallback primary fallback).KeepsKnown := by
  intro b hb hsilent
  simp only [decodeContent] at hsilent ⊢
  split at hsilent
  · rename_i hnull
    rw [if_pos hnull]
    exact hfallback b hb (List.append_eq_nil_iff.1 hsilent).2
  · rename_i hnull
    rw [if_neg hnull]
    exact hprimary b hb hsilent

theorem keepsKnown_object
    {parts : Fields Decoder} (hparts : ∀ part ∈ parts, part.2.KeepsKnown) :
    (object parts).KeepsKnown := by
  intro b hb hsilent
  rw [decodeContent, Decoded.diagnostics_map, diagnostics_decodeParts,
    List.flatMap_eq_nil_iff] at hsilent
  rw [decodeContent, Decoded.result_map, result_decodeParts]
  refine Value.isWhollyKnown_iff.2 ⟨rfl, ?_⟩
  refine List.forall_mem_map.2 (List.forall_mem_map.2 fun part hpart => ?_)
  rw [Value.isWhollyKnown_orNull]
  exact hparts part hpart b hb (hsilent part hpart)

end Forms

end Decoder
end TypedConfig
