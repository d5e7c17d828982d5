import TypedConfig.Proofs.Json.Document
import TypedConfig.Proofs.Ty.Expression
import TypedConfig.Schema.Document

/-!
# Types in documents

Inside a document the expression of a type is read as generic data first.  There
an object whose first member has the reserved name stands for a number.  No
expression of a type is the literal of one, and so a type is read back exactly
if no object in its expression has the reserved name first.
-/

namespace TypedConfig

namespace Ty

theorem toJson_ne_null
    (t : Ty) :
    t.toJson ≠ .null := by
  cases t <;> simp [toJson]

theorem wholeLiteral?_of_source_toJson
    {t : Ty} {text : String} (h : t.toJson.source = .string (some text)) :
    Json.wholeLiteral? text = none := by
  cases t <;> simp [toJson, Json.source] at h
  all_goals
    subst h
    decide

/-- No expression of a type is the literal of a number. -/
theorem exists_readReserved_toJson
    (t : Ty) (alone : Bool) :
    ∃ e, Json.Source.readReserved t.toJson.source alone = .error e := by
  unfold Json.Source.readReserved
  split
  · rename_i text htext
    rw [wholeLiteral?_of_source_toJson htext]
    exact ⟨_, rfl⟩
  · exact ⟨_, rfl⟩

/-- Attributes that are read as generic data are no number, as the content of the
first would have to be a literal. -/
theorem attributes_of_generic
    {attributes : Fields Ty} {levels : Nat} {j : Json}
    (h : (Json.object (attributesToJson attributes)).source.generic levels = .ok j) :
    (∀ a ∈ attributes.head?, a.1 ≠ Json.numberName) ∧
      ∀ a ∈ attributes, ∃ l i, a.2.toJson.source.generic l = .ok i := by
  rw [Json.source_object, attributesToJson_eq_mapValues, Fields.mapValues_mapValues] at h
  rcases Json.Source.exists_generic_of_ofFields h with ⟨item, rest, hfields, hread⟩ | ⟨hhead, hall⟩
  · cases attributes with
    | nil => cases hfields
    | cons a attributes =>
        obtain ⟨hfirst, -⟩ := List.cons.inj hfields
        obtain ⟨-, rfl⟩ := Prod.mk.inj hfirst
        obtain ⟨e, he⟩ := exists_readReserved_toJson a.2 rest.isEmpty
        rw [he] at hread
        cases hread
  · refine ⟨?_, fun a ha => hall _ (Fields.mem_mapValues.2 ⟨a, ha, rfl⟩)⟩
    cases attributes with
    | nil => simp
    | cons a attributes => simpa [Fields.mapValues] using hhead

/-- If the expression of a type is read as generic data at all, no object in it
is taken for a number. -/
theorem unreserved_of_generic
    (t : Ty) {levels : Nat} {j : Json} (h : t.toJson.source.generic levels = .ok j) :
    t.toJson.Unreserved := by
  induction t using Ty.induction generalizing levels j with
  | bool | number | string | dynamic => trivial
  | list e ih | set e ih | map e ih =>
      obtain ⟨l, i, hi⟩ := Json.Source.exists_generic_of_mem h e.toJson.source
        (by simp [Json.itemSources])
      exact ⟨trivial, ih hi, trivial⟩
  | tuple elements ih =>
      obtain ⟨l, i, hi⟩ := Json.Source.exists_generic_of_mem h
        (Json.array (elementsToJson elements)).source (by simp [Json.itemSources])
      refine ⟨trivial, Json.itemsUnreserved_iff.2 ?_, trivial⟩
      rw [elementsToJson_eq_map] at hi ⊢
      rw [Json.source, Json.itemSources_eq_map, List.map_map] at hi
      rw [List.forall_mem_map]
      intro t ht
      obtain ⟨l, i, hi⟩ := Json.Source.exists_generic_of_mem hi t.toJson.source
        (List.mem_map.2 ⟨t, ht, rfl⟩)
      exact ih t ht hi
  | object attributes optional ih =>
      obtain ⟨l, i, hi⟩ := Json.Source.exists_generic_of_mem h
        (Json.object (attributesToJson attributes)).source (by simp [Json.itemSources])
      -- The first attribute is no number, so the object was entered member by member.
      obtain ⟨hhead, hall⟩ := attributes_of_generic hi
      rw [toJson, attributesToJson_eq_mapValues]
      refine ⟨trivial, ⟨?_, Json.membersUnreserved_iff.2 ?_⟩, Json.itemsUnreserved_iff.2 ?_⟩
      · cases attributes with
        | nil => simp [Fields.mapValues]
        | cons a attributes => simpa [Fields.mapValues] using hhead
      · rw [Fields.mapValues, List.forall_mem_map]
        intro a ha
        obtain ⟨l, i, hi⟩ := hall a ha
        exact ih a ha hi
      · split
        · exact List.forall_mem_nil _
        · rw [List.forall_mem_singleton]
          refine Json.itemsUnreserved_iff.2 ?_
          rw [List.forall_mem_map]
          exact fun name _ => trivial

/-- A type is read back unless the reserved name comes first in an object of its
expression. -/
theorem readsBack
    (o : Json.Arrangement) {t : Ty} (hw : t.WellFormed) :
    o.ReadsBack Ty.read t.toJson t t.toJson.Unreserved := by
  intro levels hd u
  have hcanonical := canonical_toJson t hw
  have hread : t.toJson.Unreserved → Ty.read levels t.toJson.source = .ok t := by
    intro h
    rw [Ty.read, Json.Source.generic_source levels _ hcanonical h hd]
    simp only [ofJson_toJson t hw]
  rw [o.arrange_of_canonical hcanonical]
  constructor
  · intro h
    have hunreserved : t.toJson.Unreserved := by
      unfold Ty.read at h
      split at h
      · cases h
      · rename_i generic hgeneric
        exact unreserved_of_generic t hgeneric
    rw [hread hunreserved] at h
    exact ⟨(Except.ok.inj h).symm, hunreserved⟩
  · rintro ⟨rfl, h⟩
    exact hread h

end Ty
end TypedConfig
