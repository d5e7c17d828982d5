import TypedConfig.Proofs.Decoder.Content

/-!
# Decoders that act alike

Two decoders act alike if they have the same type, read the same names and make the
same of the content of every body.  Then they may stand for each other wherever a
decoder is made of others, and whole bodies are decoded alike.
-/

namespace TypedConfig
namespace Decoder

/-- Whether two decoders have the same type, read the same and yield the same. -/
structure ActsAlike (d e : Decoder) : Prop where
  type : d.type = e.type
  addReads : ∀ r, addReads r d = addReads r e
  decodeContent : ∀ b, d.decodeContent b = e.decodeContent b

namespace ActsAlike

variable {d e : Decoder}

theorem refl
    (d : Decoder) :
    d.ActsAlike d :=
  ⟨rfl, fun _ => rfl, fun _ => rfl⟩

theorem reads_eq
    (h : d.ActsAlike e) :
    d.reads = e.reads :=
  h.addReads {}

theorem decodeWhole_eq
    (h : d.ActsAlike e) :
    decodeWhole d.reads d.decodeContent = decodeWhole e.reads e.decodeContent := by
  rw [h.reads_eq, funext h.decodeContent]

/-- Decoders that act alike on content decode whole bodies alike. -/
theorem decode_eq
    (h : d.ActsAlike e) (b : Body) :
    d.decode b = e.decode b := by
  rw [decode, decode, h.decodeWhole_eq]

theorem block
    (h : d.ActsAlike e) (type : String) (required : Bool) :
    (block type d required).ActsAlike (block type e required) where
  type := h.type
  addReads := fun _ => rfl
  decodeContent := by
    intro b
    rw [Decoder.decodeContent, Decoder.decodeContent, h.type, h.decodeWhole_eq]

theorem withFallback
    {fallback other : Decoder} (h : d.ActsAlike e) (hfallback : fallback.ActsAlike other) :
    (withFallback d fallback).ActsAlike (withFallback e other) where
  type := h.type
  addReads := by
    intro r
    rw [Decoder.addReads, Decoder.addReads, h.addReads, hfallback.addReads]
  decodeContent := by
    intro b
    rw [Decoder.decodeContent, Decoder.decodeContent, h.decodeContent, hfallback.decodeContent]

/-- Objects act alike if their parts do, name by name. -/
theorem object
    {parts others : Fields Decoder} (h : Fields.Paired ActsAlike parts others) :
    (object parts).ActsAlike (object others) where
  type := by
    rw [Decoder.type, Decoder.type, partTypes_eq_mapValues, partTypes_eq_mapValues,
      h.mapValues_eq fun _ _ _ hpart => hpart.type]
  addReads := by
    intro r
    rw [Decoder.addReads, Decoder.addReads]
    induction h generalizing r with
    | nil => rfl
    | cons hpart _ ih => rw [addPartReads, addPartReads, hpart.2.addReads, ih]
  decodeContent := by
    intro b
    rw [Decoder.decodeContent, Decoder.decodeContent]
    congr 1
    induction h with
    | nil => rfl
    | cons hpart _ ih => rw [decodeParts, decodeParts, hpart.1, hpart.2.decodeContent, ih]

end ActsAlike

end Decoder
end TypedConfig
