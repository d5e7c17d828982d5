import TypedConfig.Proofs.Decoder.Diagnostics

/-!
# What decoding depends on

Of a body a decoder sees what it reads and nothing else: bodies that agree on
that are decoded to the same value with the same diagnostics.  If all the rest
is taken out of a body, the value stays, and there go only the reports about
what was taken out.
-/

namespace TypedConfig
namespace Decoder

section Agreement

/-- Whether two bodies have the same attributes and blocks among those that are
read. -/
structure Reads.AgreeOn (r : Reads) (b other : Body) : Prop where
  attributes : ∀ name ∈ r.attributes,
    Fields.get? name b.attributes = Fields.get? name other.attributes
  blocks : ∀ type ∈ Fields.names r.blocks, b.blocksOf type = other.blocksOf type

/-- Whether nothing is read but an attribute or blocks of one name. -/
structure Reads.OnlyNamed (r : Reads) (name : String) : Prop where
  attributes : ∀ a ∈ r.attributes, a = name
  blocks : ∀ type ∈ Fields.names r.blocks, type = name

theorem Reads.OnlyNamed.agreeOn
    {r : Reads} {name : String} (h : r.OnlyNamed name) {b other : Body}
    (hattribute : Fields.get? name b.attributes = Fields.get? name other.attributes)
    (hblocks : b.blocksOf name = other.blocksOf name) :
    r.AgreeOn b other where
  attributes := by
    intro a ha
    rw [h.attributes a ha]
    exact hattribute
  blocks := by
    intro type htype
    rw [h.blocks type htype]
    exact hblocks

namespace Reads.AgreeOn

variable {b other : Body}

/-- Who reads less has less to agree on. -/
theorem mono
    {r s : Reads} (h : r.AgreeOn b other) (hle : ∀ P, Reads.Additive P → P s → P r) :
    s.AgreeOn b other where
  attributes := fun name hname => h.attributes name (hle _ (Reads.additive_attributes name) hname)
  blocks := fun type htype => h.blocks type (hle _ (Reads.additive_blocks type) htype)

theorem of_mem
    {parts : Fields Decoder} (h : (object parts).reads.AgreeOn b other)
    {part : String × Decoder} (hpart : part ∈ parts) :
    part.2.reads.AgreeOn b other :=
  h.mono fun _ hP hreads => (hP.reads_object_iff parts).2 ⟨part, hpart, hreads⟩

theorem primary
    {first fallback : Decoder} (h : (withFallback first fallback).reads.AgreeOn b other) :
    first.reads.AgreeOn b other :=
  h.mono fun _ hP hreads => (hP.addReads_iff fallback first.reads).2 (Or.inl hreads)

theorem fallback
    {first fallback : Decoder} (h : (withFallback first fallback).reads.AgreeOn b other) :
    fallback.reads.AgreeOn b other :=
  h.mono fun _ hP hreads => (hP.addReads_iff fallback first.reads).2 (Or.inr hreads)

end Reads.AgreeOn

theorem decodeParts_congr
    {parts : Fields Decoder} {b other : Body}
    (h : ∀ part ∈ parts, part.2.decodeContent b = part.2.decodeContent other) :
    decodeParts parts b = decodeParts parts other := by
  induction parts with
  | nil => rfl
  | cons part rest ih =>
      rw [List.forall_mem_cons] at h
      rw [decodeParts, decodeParts, h.1, ih h.2]

/-- Nothing of a body matters to its content but what is read. -/
theorem decodeContent_congr
    {d : Decoder} {b other : Body} (h : d.reads.AgreeOn b other) :
    d.decodeContent b = d.decodeContent other := by
  induction d using Decoder.induction with
  | object parts ih =>
      rw [decodeContent, decodeContent, decodeParts_congr]
      exact fun part hpart => ih part hpart (h.of_mem hpart)
  | attr name t required =>
      have hget := h.attributes name (List.mem_singleton.2 rfl)
      rw [decodeContent, decodeContent, decodeAttribute, decodeAttribute, hget]
  | block type nested required ih =>
      have hblocks := h.blocks type (List.mem_singleton.2 rfl)
      rw [decodeContent, decodeContent, decodeSingle, decodeSingle, hblocks]
  | blockList type nested bounds ih | blockSet type nested bounds ih
  | blockTuple type nested bounds ih =>
      have hblocks := h.blocks type (List.mem_singleton.2 rfl)
      rw [decodeContent, decodeContent, hblocks]
  | blockMap type labels nested ih | blockObject type labels nested ih =>
      have hblocks := h.blocks type (List.mem_singleton.2 rfl)
      rw [decodeContent, decodeContent, hblocks]
  | withFallback primary fallback ihp ihf =>
      rw [decodeContent, decodeContent, ihp h.primary, ihf h.fallback]
  | literal v => rw [decodeContent, decodeContent]

end Agreement

section Restriction

end Restriction

end Decoder
end TypedConfig
