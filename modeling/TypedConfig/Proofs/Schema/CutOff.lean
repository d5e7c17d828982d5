import TypedConfig.Proofs.Schema.Decoding
import TypedConfig.Proofs.Schema.EmptyValue

/-!
# Cutting off widens the type

How much of a schema is cut off depends on the depth at which it stands.  What is
cut off has the dynamic type, which may make the blocks around it dynamic as well,
while collections of nested types keep their shape.  The main statement says that
all of this only widens a type: computed at a lesser depth it conforms to what is
computed at a greater one.

So a type may be computed as if its node stood at the root.  The empty values of
attributes and of blocks that may be missing rest on that, and so do the decoders
of attributes.
-/

namespace TypedConfig
namespace Schema

section Restart

variable {depth : Nat}

/-- Nothing of blocks that may be missing conforms to their type, wherever they
stand. -/
theorem NestedBlock.emptyAt_conformsTo
    (n : NestedBlock) (hn : n.WellFormed) (hmode : n.mode ≠ .group) :
    (n.emptyAt depth).conformsTo (n.typeAt .storage depth) = true :=
  (n.emptyAt_fits_of depth hn fun hgroup => absurd hgroup hmode).conforms

/-- An attribute is decoded to a type that conforms to its own where it stands. -/
theorem Attribute.type_decoderAt_conformsTo
    (hd : depth ≤ maxDepth) (name : String) (a : Attribute) (ha : a.WellFormed) :
    (a.decoderAt depth name).type.conformsTo (a.typeAt .storage depth) = true := by
  rw [Attribute.type_decoderAt hd]
  exact a.typeAt_conformsTo .storage (Nat.zero_le depth) ha

end Restart

section Widening

/-- In either form the type of a node conforms to the type that it has deeper down.
So what is computed from depth zero fits where the node stands. -/
theorem cutOff_widens :
    (∀ (form : TypeForm) (d e : Nat), d ≤ e →
      (∀ o : Option Block, OptionalBlockWellFormed o →
        (optionalBlockTypeAt form d o).conformsTo (optionalBlockTypeAt form e o) = true) ∧
      (∀ n : NestedBlock, n.WellFormed →
        (n.typeAt form d).conformsTo (n.typeAt form e) = true) ∧
      (∀ a : Attribute, a.WellFormed →
        (a.typeAt form d).conformsTo (a.typeAt form e) = true) ∧
      ∀ n : NestedType, n.WellFormed →
        (n.typeAt form d).conformsTo (n.typeAt form e) = true ∧
          (n.elementTypeAt form d).conformsTo (n.elementTypeAt form e) = true) ∧
    (∀ (depth : Nat) (n : NestedBlock), n.WellFormed → n.mode ≠ .group →
      (n.emptyAt depth).conformsTo (n.typeAt .storage depth) = true) ∧
    ∀ (depth : Nat) (a : Attribute) (name : String), a.WellFormed → depth ≤ maxDepth →
      (a.emptyAt depth).conformsTo (a.typeAt .storage depth) = true ∧
        (a.decoderAt depth name).type.conformsTo (a.typeAt .storage depth) = true := by
  refine ⟨?_, ?_, ?_⟩
  · intro form d e hde
    refine ⟨?_, ?_, ?_, ?_⟩
    · exact fun o ho => optionalBlockTypeAt_conformsTo form hde o ho
    · exact fun n hn => n.typeAt_conformsTo form hde hn
    · exact fun a ha => a.typeAt_conformsTo form hde ha
    · intro n hn
      exact ⟨n.typeAt_conformsTo form hde hn, n.elementTypeAt_conformsTo form hde hn⟩
  · exact fun depth n hn hmode => n.emptyAt_conformsTo hn hmode
  · intro depth a name ha hd
    exact ⟨(a.emptyAt_fits hd ha).conforms, a.type_decoderAt_conformsTo hd name ha⟩

/-- A list of nested objects with an optional string. -/
def Attribute.contacts : Attribute :=
  .ofNested { mode := .list, attributes := Block.named.attributes } .optional

theorem Attribute.wellFormed_contacts :
    Attribute.contacts.WellFormed := by
  obtain ⟨hsorted, hattributes, -, -⟩ := Block.wellFormed_iff.1 Block.wellFormed_named
  exact Attribute.wellFormed_ofNested ⟨hsorted, hattributes⟩ .optional

/-- Just below the limit a list of blocks is dynamic, and a list of nested objects
is a list of what is dynamic. -/
theorem cutOff_widens_contacts :
    (NestedBlock.typeAt .input 65 { mode := .list, block := some .named } = .dynamic ∧
      (NestedBlock.typeAt .input 0 { mode := .list, block := some .named }).conformsTo
        (NestedBlock.typeAt .input 65 { mode := .list, block := some .named }) = true) ∧
    (Attribute.contacts.typeAt .input 65 = .list .dynamic ∧
      (Attribute.contacts.typeAt .input 0).conformsTo
        (Attribute.contacts.typeAt .input 65) = true) ∧
    (NestedBlock.emptyAt 65 { mode := .list, block := some .named }).conformsTo
        (NestedBlock.typeAt .storage 65 { mode := .list, block := some .named }) = true ∧
    (Attribute.contacts.emptyAt 64).conformsTo (Attribute.contacts.typeAt .storage 64) = true := by
  obtain ⟨hwiden, hblocks, hattributes⟩ := cutOff_widens
  obtain ⟨-, hnested, hattribute, -⟩ := hwiden .input 0 65 (by decide)
  refine ⟨⟨rfl, ?_⟩, ⟨rfl, ?_⟩, ?_, ?_⟩
  · exact hnested { mode := .list, block := some .named } Block.wellFormed_named
  · exact hattribute .contacts Attribute.wellFormed_contacts
  · exact hblocks 65 { mode := .list, block := some .named } Block.wellFormed_named
      (by decide)
  · exact (hattributes 64 .contacts "contacts" Attribute.wellFormed_contacts (by decide)).1

end Widening

end Schema
end TypedConfig
