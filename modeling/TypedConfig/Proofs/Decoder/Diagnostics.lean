import TypedConfig.Proofs.Decoder.Content

/-!
# When decoding is silent

Decoding is silent if it returns a value and reports nothing.  It is exactly if the
body has no attributes and blocks that are not read and no part of the decoder finds
anything or leaves the range.  There is one lemma for each form of decoder, which says
of its input when that is so.  All findings are errors.
-/

namespace TypedConfig

namespace Decoded

variable {α β : Type}

/-- Whether a result is returned and nothing was found. -/
structure Silent (d : Decoded α) : Prop where
  inRange : d.leavesRange = false
  diagnostics : d.diagnostics = []

theorem silent_iff
    {d : Decoded α} :
    d.Silent ↔ d.leavesRange = false ∧ d.diagnostics = [] :=
  ⟨fun h => ⟨h.inRange, h.diagnostics⟩, fun ⟨hrange, hnone⟩ => ⟨hrange, hnone⟩⟩

theorem returned?_eq_some_iff
    {d : Decoded α} {a : α} {ds : List Diagnostic} :
    d.returned? = some (a, ds) ↔ d.leavesRange = false ∧ d.result = a ∧ d.diagnostics = ds := by
  rw [returned?]
  cases d.leavesRange <;> simp

theorem returned?_eq_none_iff
    {d : Decoded α} :
    d.returned? = none ↔ d.leavesRange = true := by
  rw [returned?]
  cases d.leavesRange <;> simp

theorem exists_returned?_eq_some_nil_iff
    {d : Decoded α} :
    (∃ a, d.returned? = some (a, [])) ↔ d.Silent := by
  simp only [returned?_eq_some_iff, exists_and_left, silent_iff, exists_eq_left']

theorem silent_clean
    (a : α) :
    (clean a).Silent :=
  ⟨rfl, rfl⟩

theorem silent_reporting_iff
    {found : List Diagnostic} {a : α} :
    (reporting found a).Silent ↔ found = [] := by
  simp [silent_iff]

theorem not_silent_stopped
    (a : α) :
    ¬ (stopped a).Silent := by
  simp [silent_iff]

theorem silent_map_iff
    {f : α → β} {d : Decoded α} :
    (d.map f).Silent ↔ d.Silent := by
  simp [silent_iff]

theorem silent_after_iff
    {found : List Diagnostic} {d : Decoded α} :
    (d.after found).Silent ↔ found = [] ∧ d.Silent := by
  simp [silent_iff, and_left_comm]

theorem silent_following_iff
    {d : Decoded α} {first : Decoded β} :
    (d.following first).Silent ↔ first.Silent ∧ d.Silent := by
  simp [silent_iff, and_and_and_comm]

end Decoded

namespace Decoder

section Reading

/-- Whether a property holds of what is read as soon as it holds of one of the
names that are read. -/
structure Reads.Additive (P : Reads → Prop) : Prop where
  nothing : ¬ P {}
  addAttribute : ∀ name r, P (Reads.addAttribute name r) ↔ P r ∨ P (Reads.addAttribute name {})
  addBlock : ∀ type labels r,
    P (Reads.addBlock type labels r) ↔ P r ∨ P (Reads.addBlock type labels {})

/-- To read an attribute of a name is such a property. -/
theorem Reads.additive_attributes
    (name : String) :
    Reads.Additive fun r => name ∈ r.attributes where
  nothing := List.not_mem_nil
  addAttribute := by
    intro other r
    simp only [Reads.addAttribute, Fields.mem_insertName, List.not_mem_nil, or_false]
    exact or_comm
  addBlock := by
    intro type labels r
    simp only [Reads.addBlock, List.not_mem_nil, or_false]

/-- So is to read the blocks of a type. -/
theorem Reads.additive_blocks
    (type : String) :
    Reads.Additive fun r => type ∈ Fields.names r.blocks where
  nothing := List.not_mem_nil
  addAttribute := by
    intro name r
    simp only [Reads.addAttribute, Fields.names, List.map_nil, List.not_mem_nil, or_false]
  addBlock := by
    intro other labels r
    have hnone : type ∉ Fields.names ([] : Fields Nat) := List.not_mem_nil
    simp only [Reads.addBlock, Fields.mem_names_insert, hnone, or_false]
    exact or_comm

namespace Reads.Additive

variable {P : Reads → Prop}

theorem addPartReads_iff
    {parts : Fields Decoder}
    (h : ∀ part ∈ parts, ∀ r, P (addReads r part.2) ↔ P r ∨ P part.2.reads) (r : Reads) :
    P (addPartReads r parts) ↔ P r ∨ ∃ part ∈ parts, P part.2.reads := by
  induction parts generalizing r with
  | nil => simp [addPartReads]
  | cons part rest ih =>
      rw [List.forall_mem_cons] at h
      rw [addPartReads, ih h.2, h.1, List.exists_mem_cons_iff, or_assoc]

variable (hP : Reads.Additive P)
include hP

/-- What a decoder reads is added to what is read already. -/
theorem addReads_iff
    (d : Decoder) (r : Reads) :
    P (addReads r d) ↔ P r ∨ P d.reads := by
  unfold reads
  induction d using Decoder.induction generalizing r with
  | object parts ih =>
      rw [addReads, addReads, addPartReads_iff ih r, addPartReads_iff ih {}]
      simp only [hP.nothing, false_or]
  | attr name t required => exact hP.addAttribute name r
  | block type nested required ih => exact hP.addBlock type 0 r
  | blockList type nested bounds ih => exact hP.addBlock type 0 r
  | blockSet type nested bounds ih => exact hP.addBlock type 0 r
  | blockTuple type nested bounds ih => exact hP.addBlock type 0 r
  | blockMap type labels nested ih => exact hP.addBlock type labels.length r
  | blockObject type labels nested ih => exact hP.addBlock type labels.length r
  | withFallback primary fallback ihp ihf =>
      rw [addReads, addReads, ihf, ihp, ihf (addReads {} primary), or_assoc]
  | literal v =>
      rw [addReads, addReads]
      simp only [hP.nothing, or_false]

theorem reads_object_iff
    (parts : Fields Decoder) :
    P (object parts).reads ↔ ∃ part ∈ parts, P part.2.reads := by
  rw [reads, addReads, addPartReads_iff fun part _ => hP.addReads_iff part.2]
  simp only [hP.nothing, false_or]

end Reads.Additive

/-- Whether all attributes and blocks of a body are read. -/
def Reads.Covers (r : Reads) (b : Body) : Prop :=
  (∀ a ∈ b.attributes, a.1 ∈ r.attributes) ∧
    ∀ block ∈ b.blocks, block.type ∈ Fields.names r.blocks

theorem extraneous_eq_nil_iff
    {r : Reads} {b : Body} :
    extraneous r b = [] ↔ r.Covers b := by
  simp only [extraneous, List.append_eq_nil_iff, List.map_eq_nil_iff, List.filter_eq_nil_iff,
    Reads.Covers, Fields.contains, Bool.not_eq_true', Bool.not_eq_false, List.contains_iff_mem,
    Fields.get?_isSome_iff]

end Reading

section Silence

open Decoded

variable {decode : Body → Decoded Value} {t : Ty}

theorem silent_decodeAttribute_iff
    {name : String} {required : Bool} {b : Body} :
    (decodeAttribute name t required b).Silent ↔
      (required = true → name ∈ Fields.names b.attributes) ∧
        ∀ a, Fields.get? name b.attributes = some a → ∃ v, Value.convert t a.value = .ok v := by
  unfold decodeAttribute
  cases hget : Fields.get? name b.attributes with
  | none =>
      have hname := Fields.get?_eq_none_iff.1 hget
      cases required <;> simp [silent_reporting_iff, hname]
  | some a =>
      have hname := Fields.mem_names_of_mem (Fields.mem_of_get? hget)
      cases hconvert : Value.convert t a.value with
      | ok v => simp [silent_clean, hname, hconvert]
      | error e =>
          cases hrange : e.leavesRange <;>
            simp [silent_reporting_iff, not_silent_stopped, hconvert, hrange]

/-- Blocks of which one is unknown are not looked into. -/
theorem silent_decodeKnown_iff
    {α : Type} {blocks : List BodyBlock} {wrap : α → Value}
    {decode : List BodyBlock → Decoded α} :
    (decodeKnown blocks t wrap decode).Silent ↔
      (∃ block ∈ blocks, block.body.unknown = true) ∨ (decode blocks).Silent := by
  rw [decodeKnown, ← List.any_eq_true]
  split
  · rename_i hunknown
    simp [silent_clean, hunknown]
  · rename_i hunknown
    simp [silent_map_iff, hunknown]

theorem silent_decodeEach_iff
    {blocks : List BodyBlock} :
    (decodeEach decode blocks).Silent ↔ ∀ block ∈ blocks, (decode block.body).Silent := by
  simp only [silent_iff, leavesRange_decodeEach, diagnostics_decodeEach, List.any_eq_false,
    Bool.not_eq_true, List.flatMap_eq_nil_iff, forall_and]

theorem silent_decodeLabeled_iff
    {type label : String} {blocks : List BodyBlock} {entries : Fields Value} :
    (decodeLabeled type [label] decode entries blocks).Silent ↔
      ∀ block ∈ blocks, block.labels.length = 1 ∧ (decode block.body).Silent := by
  rw [silent_iff, leavesRange_decodeLabeled, diagnostics_decodeLabeled, List.any_eq_false,
    List.flatMap_eq_nil_iff, ← forall₂_and]
  refine forall₂_congr fun block _ => ?_
  by_cases hone : block.labels.length = 1 <;> simp [silent_iff, hone]

/-- Further blocks are reported though they are not decoded. -/
theorem silent_decodeSingle_iff
    {type : String} {b : Body} :
    (decodeSingle type t false decode b).Silent ↔
      (b.blocksOf type).length ≤ 1 ∧
        ∀ first ∈ (b.blocksOf type).head?,
          first.body.unknown = true ∨ (decode first.body).Silent := by
  unfold decodeSingle
  cases b.blocksOf type with
  | nil => simp [silent_reporting_iff]
  | cons first others =>
      cases hunknown : first.body.unknown <;>
        simp [silent_after_iff, silent_clean, hunknown]

theorem silent_withFallback_literal_iff
    {primary : Decoder} {v : Value} {b : Body} :
    ((withFallback primary (.literal v)).decodeContent b).Silent ↔
      (primary.decodeContent b).Silent := by
  simp only [decodeContent]
  split
  · simp [silent_following_iff, silent_clean]
  · rfl

theorem silent_object_iff
    {parts : Fields Decoder} {b : Body} :
    ((object parts).decodeContent b).Silent ↔
      ∀ part ∈ parts, (part.2.decodeContent b).Silent := by
  rw [decodeContent, silent_map_iff]
  simp only [silent_iff, leavesRange_decodeParts, diagnostics_decodeParts, List.any_eq_false,
    Bool.not_eq_true, List.flatMap_eq_nil_iff, forall_and]

theorem silent_decode_iff
    {d : Decoder} {b : Body} :
    (d.decode b).Silent ↔ d.reads.Covers b ∧ (d.decodeContent b).Silent := by
  rw [decode, decodeWhole, silent_after_iff, extraneous_eq_nil_iff]

end Silence

section Severity

/-- Whether all findings are errors. -/
def OnlyErrors (ds : List Diagnostic) : Prop :=
  ∀ d ∈ ds, d.severity = .error

theorem OnlyErrors.hasErrors_iff
    {ds : List Diagnostic} (h : OnlyErrors ds) :
    Diagnostic.hasErrors ds = true ↔ ds ≠ [] := by
  rw [Diagnostic.hasErrors, List.any_eq_true]
  constructor
  · rintro ⟨d, hd, -⟩
    exact List.ne_nil_of_mem hd
  · intro hne
    obtain ⟨d, hd⟩ := List.exists_mem_of_ne_nil ds hne
    exact ⟨d, hd, beq_iff_eq.2 (h d hd)⟩

theorem OnlyErrors.append
    {ds es : List Diagnostic} (hd : OnlyErrors ds) (he : OnlyErrors es) :
    OnlyErrors (ds ++ es) :=
  List.forall_mem_append.2 ⟨hd, he⟩

theorem OnlyErrors.flatMap
    {α : Type} {l : List α} {g : α → List Diagnostic} (h : ∀ a ∈ l, OnlyErrors (g a)) :
    OnlyErrors (l.flatMap g) := by
  intro d hd
  obtain ⟨a, ha, hmem⟩ := List.mem_flatMap.1 hd
  exact h a ha d hmem

theorem onlyErrors_extraneous
    (r : Reads) (b : Body) :
    OnlyErrors (extraneous r b) :=
  OnlyErrors.append (List.forall_mem_map.2 fun _ _ => rfl) (List.forall_mem_map.2 fun _ _ => rfl)

theorem onlyErrors_decodeAttribute
    (name : String) (t : Ty) (required : Bool) (b : Body) :
    OnlyErrors (decodeAttribute name t required b).diagnostics := by
  unfold decodeAttribute
  split
  · cases required
    · exact List.forall_mem_nil _
    · exact List.forall_mem_singleton.2 rfl
  · split
    · exact List.forall_mem_nil _
    · split
      · exact List.forall_mem_nil _
      · exact List.forall_mem_singleton.2 rfl

section Blocks

variable {decode : Body → Decoded Value} (h : ∀ b, OnlyErrors (decode b).diagnostics)
include h

theorem onlyErrors_decodeSingle
    (type : String) (t : Ty) (required : Bool) (b : Body) :
    OnlyErrors (decodeSingle type t required decode b).diagnostics := by
  unfold decodeSingle
  split
  · cases required
    · exact List.forall_mem_nil _
    · exact List.forall_mem_singleton.2 rfl
  · refine OnlyErrors.append (List.forall_mem_map.2 fun _ _ => rfl) ?_
    split
    · exact List.forall_mem_nil _
    · exact h _

theorem onlyErrors_decodeEach
    (blocks : List BodyBlock) :
    OnlyErrors (decodeEach decode blocks).diagnostics := by
  rw [diagnostics_decodeEach]
  exact OnlyErrors.flatMap fun block _ => h block.body

theorem onlyErrors_decodeLabeled
    (type : String) (labels : List String) (entries : Fields Value) (blocks : List BodyBlock) :
    OnlyErrors (decodeLabeled type labels decode entries blocks).diagnostics := by
  rw [diagnostics_decodeLabeled]
  refine OnlyErrors.flatMap fun block _ => ?_
  split
  · exact h block.body
  · exact List.forall_mem_singleton.2 rfl

omit h

theorem onlyErrors_decodeKnown
    {α : Type} {blocks : List BodyBlock} {t : Ty} {wrap : α → Value}
    {decode : List BodyBlock → Decoded α} (h : OnlyErrors (decode blocks).diagnostics) :
    OnlyErrors (decodeKnown blocks t wrap decode).diagnostics := by
  unfold decodeKnown
  split
  · exact List.forall_mem_nil _
  · exact h

end Blocks

theorem onlyErrors_decodeWhole
    {r : Reads} {content : Body → Decoded Value} (h : ∀ b, OnlyErrors (content b).diagnostics)
    (b : Body) :
    OnlyErrors (decodeWhole r content b).diagnostics :=
  (onlyErrors_extraneous r b).append (h b)

theorem onlyErrors_decodeContent
    (d : Decoder) (b : Body) :
    OnlyErrors (d.decodeContent b).diagnostics := by
  induction d using Decoder.induction generalizing b with
  | object parts ih =>
      rw [decodeContent, Decoded.diagnostics_map, diagnostics_decodeParts]
      exact OnlyErrors.flatMap fun part hpart => ih part hpart b
  | attr name t required => exact onlyErrors_decodeAttribute name t required b
  | block type nested required ih =>
      exact onlyErrors_decodeSingle (onlyErrors_decodeWhole ih) type _ required b
  | blockList type nested bounds ih =>
      exact onlyErrors_decodeKnown (onlyErrors_decodeEach (onlyErrors_decodeWhole ih) _)
  | blockSet type nested bounds ih =>
      exact onlyErrors_decodeKnown (onlyErrors_decodeEach (onlyErrors_decodeWhole ih) _)
  | blockTuple type nested bounds ih =>
      exact onlyErrors_decodeKnown (onlyErrors_decodeEach (onlyErrors_decodeWhole ih) _)
  | blockMap type labels nested ih =>
      exact onlyErrors_decodeKnown (onlyErrors_decodeLabeled (onlyErrors_decodeWhole ih) _ _ _ _)
  | blockObject type labels nested ih =>
      exact onlyErrors_decodeKnown (onlyErrors_decodeLabeled (onlyErrors_decodeWhole ih) _ _ _ _)
  | withFallback primary fallback ihp ihf =>
      simp only [decodeContent]
      split
      · exact (ihp b).append (ihf b)
      · exact ihp b
  | literal v => exact List.forall_mem_nil _

theorem onlyErrors_decode
    (d : Decoder) (b : Body) :
    OnlyErrors (d.decode b).diagnostics :=
  onlyErrors_decodeWhole (onlyErrors_decodeContent d) b

end Severity

end Decoder
end TypedConfig
