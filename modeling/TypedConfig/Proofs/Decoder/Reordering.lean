import TypedConfig.Proofs.Decoder.Dependence
import TypedConfig.Proofs.Value.Order

/-!
# Decoding blocks in another order

Blocks are decoded one by one, so that the order in which they stand is seen
only by what puts their values together.  A set does not see it; a map sees it
among the blocks of one label, of which the last one counts.  Whether blocks
have an unknown one among them, what is found in them, and whether they leave the
range does not depend on their order at all.
-/

namespace TypedConfig

/-- Whether two outcomes have the same result and the same findings, in any
order, and leave the range both or neither. -/
structure Decoded.Alike {α : Type} (d e : Decoded α) : Prop where
  result : d.result = e.result
  diagnostics : d.diagnostics.Perm e.diagnostics
  leavesRange : d.leavesRange = e.leavesRange

namespace Decoded.Alike

variable {α β : Type} {d e : Decoded α}

theorem of_eq
    (h : d = e) :
    d.Alike e := by
  rw [h]
  exact ⟨rfl, .refl _, rfl⟩

theorem map
    (h : d.Alike e) (f : α → β) :
    (d.map f).Alike (e.map f) :=
  ⟨congrArg f h.result, h.diagnostics, h.leavesRange⟩

theorem after
    (h : d.Alike e) {found others : List Diagnostic} (hfound : found.Perm others) :
    (d.after found).Alike (e.after others) :=
  ⟨h.result, hfound.append h.diagnostics, h.leavesRange⟩

theorem following
    (h : d.Alike e) {first other : Decoded β} (hfirst : first.Alike other) :
    (d.following first).Alike (e.following other) where
  result := h.result
  diagnostics := hfirst.diagnostics.append h.diagnostics
  leavesRange := by
    rw [leavesRange_following, leavesRange_following, hfirst.leavesRange, h.leavesRange]

end Decoded.Alike

namespace Decoder

section Blocks

variable {decode : Body → Decoded Value} {blocks others : List BodyBlock}

/-- Which of the blocks is unknown does not matter. -/
theorem alike_decodeKnown
    (hperm : blocks.Perm others) {α : Type} {t : Ty} {wrap : α → Value}
    {decode : List BodyBlock → Decoded α}
    (h : ((decode blocks).map wrap).Alike ((decode others).map wrap)) :
    (decodeKnown blocks t wrap decode).Alike (decodeKnown others t wrap decode) := by
  rw [decodeKnown, decodeKnown, hperm.any_eq]
  split
  · exact .of_eq rfl
  · exact h

theorem perm_diagnostics_decodeEach
    (hperm : blocks.Perm others) :
    (decodeEach decode blocks).diagnostics.Perm (decodeEach decode others).diagnostics := by
  rw [diagnostics_decodeEach, diagnostics_decodeEach]
  exact hperm.flatMap_right _

/-- The set of the values of blocks does not depend on their order. -/
theorem alike_setOf_decodeEach
    (hperm : blocks.Perm others) (t : Ty) :
    ((decodeEach decode blocks).map (Value.setOf t)).Alike
      ((decodeEach decode others).map (Value.setOf t)) where
  result := by
    rw [Decoded.result_map, Decoded.result_map, result_decodeEach, result_decodeEach,
      Value.setOf_eq_iff]
    exact fun v => (hperm.map _).mem_iff
  diagnostics := perm_diagnostics_decodeEach hperm
  leavesRange := by
    rw [Decoded.leavesRange_map, Decoded.leavesRange_map, leavesRange_decodeEach,
      leavesRange_decodeEach, hperm.any_eq]

/-- The entry of a map that a block makes, if it has the one label that is
needed. -/
def labeledMember? (labels : List String) (decode : Body → Decoded Value) (block : BodyBlock) :
    Option (String × Value) :=
  match block.labels, labels with
  | [key], [_] => some (key, (decode block.body).result)
  | _, _ => none

theorem labeledMember?_eq_some
    {block : BodyBlock} {key : String} (hkey : block.labels = [key]) (label : String) :
    labeledMember? [label] decode block = some (key, (decode block.body).result) := by
  unfold labeledMember?
  rw [hkey]

theorem labeledMember?_eq_none
    {labels : List String} {block : BodyBlock}
    (hone : ¬ (block.labels.length = 1 ∧ labels.length = 1)) :
    labeledMember? labels decode block = none := by
  unfold labeledMember?
  split
  · rename_i hkey
    exact absurd ⟨congrArg List.length hkey, rfl⟩ hone
  · rfl

theorem result_decodeLabeled
    (type : String) (labels : List String) (blocks : List BodyBlock) (entries : Fields Value) :
    (decodeLabeled type labels decode entries blocks).result =
      Fields.insertAll entries (blocks.filterMap (labeledMember? labels decode)) := by
  induction blocks generalizing entries with
  | nil => rfl
  | cons item rest ih =>
      by_cases hone : item.labels.length = 1 ∧ labels.length = 1
      · obtain ⟨key, hkey⟩ := List.length_eq_one_iff.1 hone.1
        obtain ⟨label, rfl⟩ := List.length_eq_one_iff.1 hone.2
        rw [List.filterMap_cons_some (labeledMember?_eq_some hkey label), decodeLabeled,
          Decoded.result_following, ih]
        · rfl
        · exact hkey
      · rw [List.filterMap_cons_none (labeledMember?_eq_none hone), decodeLabeled,
          Decoded.result_after, ih]
        intro key label hkey hlabel
        exact hone ⟨congrArg List.length hkey, congrArg List.length hlabel⟩

/-- The entries of a name are those of the blocks with that label. -/
theorem filter_filterMap_labeledMember?
    (labels : List String) (blocks : List BodyBlock) (name : String) :
    ((blocks.filterMap (labeledMember? labels decode)).filter fun entry => entry.1 == name) =
      (blocks.filter fun block => block.labels == [name]).filterMap
        (labeledMember? labels decode) := by
  rw [List.filter_filterMap, List.filterMap_filter]
  refine List.filterMap_congr fun block _ => ?_
  by_cases hone : block.labels.length = 1 ∧ labels.length = 1
  · obtain ⟨key, hkey⟩ := List.length_eq_one_iff.1 hone.1
    obtain ⟨label, rfl⟩ := List.length_eq_one_iff.1 hone.2
    rw [labeledMember?_eq_some hkey label, hkey]
    simp [Option.filter]
  · rw [labeledMember?_eq_none hone]
    exact (ite_self none).symm

/-- The map of the values of blocks depends on the order of the blocks of each
label only. -/
theorem alike_decodeLabeled
    (hperm : blocks.Perm others)
    (hlabels : ∀ given, (blocks.filter fun block => block.labels == given) =
      others.filter fun block => block.labels == given)
    (type : String) (labels : List String) :
    (decodeLabeled type labels decode [] blocks).Alike
      (decodeLabeled type labels decode [] others) where
  result := by
    rw [result_decodeLabeled, result_decodeLabeled]
    refine Fields.ofList_eq_of_filter_eq fun name => ?_
    rw [filter_filterMap_labeledMember?, filter_filterMap_labeledMember?, hlabels [name]]
  diagnostics := by
    rw [diagnostics_decodeLabeled, diagnostics_decodeLabeled]
    exact hperm.flatMap_right _
  leavesRange := by
    rw [leavesRange_decodeLabeled, leavesRange_decodeLabeled, hperm.any_eq]

end Blocks

section Parts

variable {b other : Body}

theorem alike_decodeParts
    {parts : Fields Decoder}
    (h : ∀ part ∈ parts, (part.2.decodeContent b).Alike (part.2.decodeContent other)) :
    (decodeParts parts b).Alike (decodeParts parts other) := by
  induction parts with
  | nil => exact .of_eq rfl
  | cons part rest ih =>
      rw [List.forall_mem_cons] at h
      rw [decodeParts, decodeParts, h.1.result]
      exact ((ih h.2).map _).following h.1

theorem perm_extraneous
    (r : Reads) (hattributes : b.attributes = other.attributes)
    (hperm : b.blocks.Perm other.blocks) :
    (extraneous r b).Perm (extraneous r other) := by
  rw [extraneous, extraneous, hattributes]
  exact (List.Perm.refl _).append ((hperm.filter _).map _)

end Parts

end Decoder
end TypedConfig
