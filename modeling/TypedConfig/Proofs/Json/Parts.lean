import Mathlib.Logic.Basic
import TypedConfig.Json.Generic

/-!
# JSON trees and their parts

Trees hold other trees as the items of arrays and as the members of objects.
The induction principle here assumes a property of all of these at once.  What
is said of trees by recursion on their lists is restated for the members of
those lists.

A canonical tree is its own canonical form.
-/

namespace TypedConfig
namespace Json

/-- Induction over trees: arrays and objects may assume the property of every
item and of the content of every member. -/
@[elab_as_elim]
theorem induction
    {motive : Json → Prop}
    (null : motive .null)
    (bool : ∀ b, motive (.bool b))
    (number : ∀ literal, motive (.number literal))
    (string : ∀ s, motive (.string s))
    (array : ∀ items, (∀ item ∈ items, motive item) → motive (.array items))
    (object :
      ∀ members, (∀ member ∈ members, motive member.2) → motive (.object members)) :
    ∀ j : Json, motive j :=
  Json.rec null bool number string
    (fun items => array items)
    (fun members => object members)
    (List.forall_mem_nil _)
    (fun _ _ hitem hrest => List.forall_mem_cons.2 ⟨hitem, hrest⟩)
    (List.forall_mem_nil _)
    (fun _ _ hmember hrest => List.forall_mem_cons.2 ⟨hmember, hrest⟩)
    (fun _ _ hitem => hitem)

section Canonical

theorem itemsCanonical_iff
    {items : List Json} :
    ItemsCanonical items ↔ ∀ item ∈ items, item.Canonical := by
  induction items with
  | nil => simp [ItemsCanonical]
  | cons item rest ih => simp [ItemsCanonical, ih]

theorem canonical_object
    (members : Fields Json) :
    (Json.object members).canonical =
      .object (Fields.ofList (Fields.mapValues canonical members)) := by
  rw [canonical, canonicalMembers_eq_map]
  rfl

/-- Where all members are in order already, nothing is rearranged. -/
theorem canonical_eq_self
    (j : Json) (h : j.Canonical) :
    j.canonical = j := by
  induction j using Json.induction with
  | null | bool _ | number _ | string _ => rfl
  | array items ih =>
      simp only [Canonical, itemsCanonical_iff] at h
      have hitems : canonicalItems items = items := by
        rw [canonicalItems_eq_map, List.map_congr_left (g := id), List.map_id]
        exact fun item hitem => ih item hitem (h item hitem)
      rw [canonical, hitems]
  | object members ih =>
      simp only [Canonical, membersCanonical_iff] at h
      have hmembers : canonicalMembers members = members := by
        rw [canonicalMembers_eq_map, List.map_congr_left (g := id), List.map_id]
        intro member hmember
        rw [ih member hmember (h.2 member hmember)]
        rfl
      rw [canonical, hmembers, Fields.ofList_eq_self h.1]

end Canonical

section Unreserved

theorem itemsUnreserved_iff
    {items : List Json} :
    ItemsUnreserved items ↔ ∀ item ∈ items, item.Unreserved := by
  induction items with
  | nil => simp [ItemsUnreserved]
  | cons item rest ih => simp [ItemsUnreserved, ih]

theorem membersUnreserved_iff
    {members : List (String × Json)} :
    MembersUnreserved members ↔ ∀ member ∈ members, member.2.Unreserved := by
  induction members with
  | nil => simp [MembersUnreserved]
  | cons member rest ih => simp [MembersUnreserved, ih]

end Unreserved

end Json
end TypedConfig
