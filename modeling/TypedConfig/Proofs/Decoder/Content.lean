import TypedConfig.Decoder.Decode
import TypedConfig.Proofs.Fields.Paired

/-!
# Decoding part by part

The parts of an object are decoded from the same body one after the other, and
so are the blocks of one type, each from its own.  The results are the results
of the parts, and the diagnostics are those of the parts, in order.  The range is
left where one of the parts leaves it.
-/

namespace TypedConfig
namespace Decoded

variable {α β : Type}

section Results

@[simp] theorem result_reporting
    (found : List Diagnostic) (a : α) :
    (reporting found a).result = a :=
  rfl

@[simp] theorem result_clean
    (a : α) :
    (clean a).result = a :=
  rfl

@[simp] theorem result_stopped
    (a : α) :
    (stopped a).result = a :=
  rfl

@[simp] theorem result_map
    (f : α → β) (d : Decoded α) :
    (d.map f).result = f d.result :=
  rfl

@[simp] theorem result_after
    (found : List Diagnostic) (d : Decoded α) :
    (d.after found).result = d.result :=
  rfl

@[simp] theorem result_following
    (d : Decoded α) (first : Decoded β) :
    (d.following first).result = d.result :=
  rfl

end Results

section Findings

@[simp] theorem diagnostics_reporting
    (found : List Diagnostic) (a : α) :
    (reporting found a).diagnostics = found :=
  rfl

@[simp] theorem diagnostics_clean
    (a : α) :
    (clean a).diagnostics = [] :=
  rfl

@[simp] theorem diagnostics_stopped
    (a : α) :
    (stopped a).diagnostics = [] :=
  rfl

@[simp] theorem diagnostics_map
    (f : α → β) (d : Decoded α) :
    (d.map f).diagnostics = d.diagnostics :=
  rfl

@[simp] theorem diagnostics_after
    (found : List Diagnostic) (d : Decoded α) :
    (d.after found).diagnostics = found ++ d.diagnostics :=
  rfl

@[simp] theorem diagnostics_following
    (d : Decoded α) (first : Decoded β) :
    (d.following first).diagnostics = first.diagnostics ++ d.diagnostics :=
  rfl

end Findings

section Range

@[simp] theorem leavesRange_reporting
    (found : List Diagnostic) (a : α) :
    (reporting found a).leavesRange = false :=
  rfl

@[simp] theorem leavesRange_clean
    (a : α) :
    (clean a).leavesRange = false :=
  rfl

@[simp] theorem leavesRange_stopped
    (a : α) :
    (stopped a).leavesRange = true :=
  rfl

@[simp] theorem leavesRange_map
    (f : α → β) (d : Decoded α) :
    (d.map f).leavesRange = d.leavesRange :=
  rfl

@[simp] theorem leavesRange_after
    (found : List Diagnostic) (d : Decoded α) :
    (d.after found).leavesRange = d.leavesRange :=
  rfl

@[simp] theorem leavesRange_following
    (d : Decoded α) (first : Decoded β) :
    (d.following first).leavesRange = (first.leavesRange || d.leavesRange) :=
  rfl

end Range

end Decoded

section Bodies

theorem blocksWellFormed_iff
    {blocks : List BodyBlock} :
    BlocksWellFormed blocks ↔ ∀ block ∈ blocks, block.body.WellFormed := by
  induction blocks with
  | nil => simp [BlocksWellFormed]
  | cons block rest ih =>
      obtain ⟨type, labels, body, range⟩ := block
      rw [BlocksWellFormed, List.forall_mem_cons, ih]

theorem Body.wellFormed_iff
    {b : Body} :
    b.WellFormed ↔
      Fields.Sorted b.attributes ∧ (∀ a ∈ b.attributes, a.2.value.WellFormed) ∧
        ∀ block ∈ b.blocks, block.body.WellFormed := by
  obtain ⟨attributes, blocks, unknown⟩ := b
  rw [Body.WellFormed, blocksWellFormed_iff]

theorem Body.mem_blocks_of_mem_blocksOf
    {b : Body} {type : String} {block : BodyBlock} (h : block ∈ b.blocksOf type) :
    block ∈ b.blocks :=
  (List.mem_filter.1 h).1

end Bodies

namespace Decoder

section Induction

/-- Induction over decoders: an object may assume the property of all its
parts. -/
@[elab_as_elim]
theorem induction
    {motive : Decoder → Prop}
    (object : ∀ parts, (∀ part ∈ parts, motive part.2) → motive (.object parts))
    (attr : ∀ name type required, motive (.attribute name type required))
    (block : ∀ type nested required, motive nested → motive (.block type nested required))
    (blockList : ∀ type nested bounds, motive nested → motive (.blockList type nested bounds))
    (blockSet : ∀ type nested bounds, motive nested → motive (.blockSet type nested bounds))
    (blockTuple : ∀ type nested bounds, motive nested → motive (.blockTuple type nested bounds))
    (blockMap : ∀ type labels nested, motive nested → motive (.blockMap type labels nested))
    (blockObject : ∀ type labels nested, motive nested → motive (.blockObject type labels nested))
    (withFallback : ∀ primary fallback, motive primary → motive fallback →
      motive (.withFallback primary fallback))
    (literal : ∀ v, motive (.literal v)) :
    ∀ d : Decoder, motive d :=
  Decoder.rec (fun parts => object parts) attr block blockList blockSet blockTuple blockMap
    blockObject withFallback literal
    (List.forall_mem_nil _)
    (fun _ _ hpart hrest => List.forall_mem_cons.2 ⟨hpart, hrest⟩)
    (fun _ _ hpart => hpart)

end Induction

section Items

variable {decode : Body → Decoded Value}

theorem result_decodeEach
    (blocks : List BodyBlock) :
    (decodeEach decode blocks).result = blocks.map fun block => (decode block.body).result := by
  induction blocks with
  | nil => rfl
  | cons item rest ih => simp [decodeEach, ih]

theorem diagnostics_decodeEach
    (blocks : List BodyBlock) :
    (decodeEach decode blocks).diagnostics =
      blocks.flatMap fun block => (decode block.body).diagnostics := by
  induction blocks with
  | nil => rfl
  | cons item rest ih => simp [decodeEach, ih]

theorem leavesRange_decodeEach
    (blocks : List BodyBlock) :
    (decodeEach decode blocks).leavesRange =
      blocks.any fun block => (decode block.body).leavesRange := by
  induction blocks with
  | nil => rfl
  | cons item rest ih => simp [decodeEach, ih]

variable (type : String) (labels : List String)

/-- Entries are kept, replaced or added, but only by decoded ones. -/
theorem forall_mem_decodeLabeled
    {P : Value → Prop} {blocks : List BodyBlock}
    (h : ∀ block ∈ blocks, P (decode block.body).result)
    {entries : Fields Value} (hentries : ∀ entry ∈ entries, P entry.2) :
    ∀ entry ∈ (decodeLabeled type labels decode entries blocks).result, P entry.2 := by
  induction blocks generalizing entries with
  | nil => exact hentries
  | cons item rest ih =>
      rw [List.forall_mem_cons] at h
      unfold decodeLabeled
      split
      · refine ih h.2 ?_
        intro entry hentry
        rcases Fields.mem_of_mem_insert hentry with rfl | hentry
        · exact h.1
        · exact hentries entry hentry
      · exact ih h.2 hentries

theorem sorted_decodeLabeled
    (blocks : List BodyBlock) {entries : Fields Value} (hs : Fields.Sorted entries) :
    Fields.Sorted (decodeLabeled type labels decode entries blocks).result := by
  induction blocks generalizing entries with
  | nil => exact hs
  | cons item rest ih =>
      unfold decodeLabeled
      split
      · exact ih (Fields.sorted_insert _ _ hs)
      · exact ih hs

/-- A block is reported for its labels, or else for what is in it. -/
theorem diagnostics_decodeLabeled
    (blocks : List BodyBlock) (entries : Fields Value) :
    (decodeLabeled type labels decode entries blocks).diagnostics =
      blocks.flatMap fun block =>
        if block.labels.length = 1 ∧ labels.length = 1 then
          (decode block.body).diagnostics
        else
          [.wrongLabels type labels block.labels.length block.range] := by
  induction blocks generalizing entries with
  | nil => rfl
  | cons item rest ih =>
      rw [List.flatMap_cons]
      by_cases hone : item.labels.length = 1 ∧ labels.length = 1
      · obtain ⟨key, hkey⟩ := List.length_eq_one_iff.1 hone.1
        obtain ⟨label, rfl⟩ := List.length_eq_one_iff.1 hone.2
        rw [if_pos hone, decodeLabeled, Decoded.diagnostics_following, ih]
        exacts [key, hkey]
      · rw [if_neg hone, decodeLabeled, Decoded.diagnostics_after, ih]
        intro key label hkey hlabel
        exact hone ⟨by rw [hkey]; rfl, by rw [hlabel]; rfl⟩

/-- Blocks that are reported for their labels are not looked into. -/
theorem leavesRange_decodeLabeled
    (blocks : List BodyBlock) (entries : Fields Value) :
    (decodeLabeled type labels decode entries blocks).leavesRange =
      blocks.any fun block =>
        decide (block.labels.length = 1 ∧ labels.length = 1) &&
          (decode block.body).leavesRange := by
  induction blocks generalizing entries with
  | nil => rfl
  | cons item rest ih =>
      rw [List.any_cons]
      by_cases hone : item.labels.length = 1 ∧ labels.length = 1
      · obtain ⟨key, hkey⟩ := List.length_eq_one_iff.1 hone.1
        obtain ⟨label, rfl⟩ := List.length_eq_one_iff.1 hone.2
        rw [decide_eq_true hone, Bool.true_and, decodeLabeled, Decoded.leavesRange_following, ih]
        exacts [key, hkey]
      · rw [decide_eq_false hone, Bool.false_and, Bool.false_or, decodeLabeled,
          Decoded.leavesRange_after, ih]
        intro key label hkey hlabel
        exact hone ⟨by rw [hkey]; rfl, by rw [hlabel]; rfl⟩

end Items

section Parts

variable (parts : Fields Decoder) (b : Body)

theorem result_decodeParts :
    (decodeParts parts b).result =
      Fields.mapValues (fun part => (part.decodeContent b).result.orNull) parts := by
  induction parts with
  | nil => rfl
  | cons part rest ih =>
      simp only [decodeParts, Decoded.result_following, Decoded.result_map, ih]
      rfl

theorem diagnostics_decodeParts :
    (decodeParts parts b).diagnostics =
      parts.flatMap fun part => (part.2.decodeContent b).diagnostics := by
  induction parts with
  | nil => rfl
  | cons part rest ih =>
      simp only [decodeParts, Decoded.diagnostics_following, Decoded.diagnostics_map, ih]
      rfl

theorem leavesRange_decodeParts :
    (decodeParts parts b).leavesRange =
      parts.any fun part => (part.2.decodeContent b).leavesRange := by
  induction parts with
  | nil => rfl
  | cons part rest ih =>
      simp only [decodeParts, Decoded.leavesRange_following, Decoded.leavesRange_map, ih]
      rfl

end Parts

end Decoder
end TypedConfig
