import TypedConfig.Proofs.Decoder.Content
import TypedConfig.Proofs.Value.Range

/-!
# Where decoding leaves the range

Decoding leaves the range of 64-bit integers where it converts a value whose reading
does, and then nothing is returned.  There is one lemma for each form of decoder, which
says of its input when that is so.  Blocks that are not looked into have no part in it.
-/

namespace TypedConfig

namespace Decoder

variable {decode : Body → Decoded Value} {t : Ty} {b : Body}

theorem leavesRange_decodeAttribute_iff
    {name : String} {required : Bool} :
    (decodeAttribute name t required b).leavesRange = true ↔
      ∃ a path text, Fields.get? name b.attributes = some a ∧
        Value.convert t a.value = .error ⟨path, .overflow text⟩ := by
  unfold decodeAttribute
  cases Fields.get? name b.attributes with
  | none => simp
  | some a =>
      cases hconvert : Value.convert t a.value with
      | ok v => simp [hconvert]
      | error e =>
          have hrange : (∃ path text, e = ⟨path, .overflow text⟩) ↔ e.leavesRange = true :=
            ConversionError.leavesRange_iff.symm
          simp only [Option.some.injEq, exists_and_left, exists_eq_left', hconvert,
            Except.error.injEq, hrange]
          split
          · rename_i hleaves
            simp [hleaves]
          · rename_i hstays
            simp [hstays]

theorem leavesRange_decodeKnown_iff
    {α : Type} {blocks : List BodyBlock} {wrap : α → Value}
    {decode : List BodyBlock → Decoded α} :
    (decodeKnown blocks t wrap decode).leavesRange = true ↔
      (∀ block ∈ blocks, block.body.unknown = false) ∧ (decode blocks).leavesRange = true := by
  simp only [decodeKnown, ← Bool.not_eq_true, ← List.any_eq_false]
  split
  · rename_i hunknown
    simp [hunknown]
  · rename_i hknown
    simp [hknown]

theorem leavesRange_decodeSingle_iff
    {type : String} {required : Bool} :
    (decodeSingle type t required decode b).leavesRange = true ↔
      ∃ first ∈ (b.blocksOf type).head?,
        first.body.unknown = false ∧ (decode first.body).leavesRange = true := by
  unfold decodeSingle
  cases b.blocksOf type with
  | nil => simp
  | cons first others =>
      cases hunknown : first.body.unknown <;> simp [hunknown]

theorem leavesRange_withFallback_literal
    (primary : Decoder) (v : Value) :
    ((withFallback primary (.literal v)).decodeContent b).leavesRange =
      (primary.decodeContent b).leavesRange := by
  simp only [decodeContent]
  split <;> simp

theorem leavesRange_object_iff
    {parts : Fields Decoder} :
    ((object parts).decodeContent b).leavesRange = true ↔
      ∃ part ∈ parts, (part.2.decodeContent b).leavesRange = true := by
  rw [decodeContent, Decoded.leavesRange_map, leavesRange_decodeParts, List.any_eq_true]

/-- What is not read is reported, but not converted. -/
theorem leavesRange_decode
    (d : Decoder) (b : Body) :
    (d.decode b).leavesRange = (d.decodeContent b).leavesRange :=
  rfl

end Decoder
end TypedConfig
