import TypedConfig.Proofs.Fields.Paired
import TypedConfig.Ty.Basic

/-!
# Types and their parts

Types hold other types in lists, as elements and as attributes.  The induction
principle here assumes a property of all of these parts at once.  What a type
is said to be by recursion on those lists is restated for their members: being
well formed, holding the dynamic type, and the storage form.
-/

namespace TypedConfig
namespace Ty

section Induction

/-- Induction over types: tuples and objects may assume the property of every
element and of the type of every attribute. -/
@[elab_as_elim]
theorem induction
    {motive : Ty → Prop}
    (bool : motive .bool)
    (number : motive .number)
    (string : motive .string)
    (dynamic : motive .dynamic)
    (list : ∀ e, motive e → motive (.list e))
    (set : ∀ e, motive e → motive (.set e))
    (map : ∀ e, motive e → motive (.map e))
    (tuple : ∀ elements, (∀ t ∈ elements, motive t) → motive (.tuple elements))
    (object :
      ∀ attributes optional,
        (∀ a ∈ attributes, motive a.2) → motive (.object attributes optional)) :
    ∀ t : Ty, motive t :=
  -- The recursor of a nested type speaks of the lists of parts as well.
  Ty.rec bool number string
    (fun e => list e)
    (fun e => set e)
    (fun e => map e)
    (fun elements => tuple elements)
    (fun attributes optional => object attributes optional)
    dynamic
    (List.forall_mem_nil _)
    (fun _ _ ht hrest => List.forall_mem_cons.2 ⟨ht, hrest⟩)
    (List.forall_mem_nil _)
    (fun _ _ ha hrest => List.forall_mem_cons.2 ⟨ha, hrest⟩)
    (fun _ _ ht => ht)

end Induction

section WellFormed

theorem allWellFormed_iff
    {elements : List Ty} :
    AllWellFormed elements ↔ ∀ t ∈ elements, t.WellFormed := by
  induction elements with
  | nil => simp [AllWellFormed]
  | cons t rest ih => simp [AllWellFormed, ih]

theorem attributesWellFormed_iff
    {attributes : Fields Ty} :
    AttributesWellFormed attributes ↔ ∀ a ∈ attributes, a.2.WellFormed := by
  induction attributes with
  | nil => simp [AttributesWellFormed]
  | cons a rest ih => simp [AttributesWellFormed, ih]

/-- An object type without marks is well formed if its attributes are. -/
theorem wellFormed_object
    {attributes : Fields Ty}
    (hs : Fields.Sorted attributes)
    (ht : ∀ a ∈ attributes, a.2.WellFormed) :
    (Ty.object attributes []).WellFormed := by
  simp only [WellFormed]
  exact ⟨hs, .nil, by simp, attributesWellFormed_iff.2 ht⟩

/-- Marks that are taken from the names of the attributes are in order. -/
theorem wellFormed_objectWith
    {attributes : Fields Ty} (optional : List String)
    (hs : Fields.Sorted attributes)
    (ht : ∀ a ∈ attributes, a.2.WellFormed) :
    (Ty.objectWith attributes optional).WellFormed := by
  have hnames := Fields.sorted_iff_names.1 hs
  simp only [objectWith, WellFormed]
  refine ⟨hs, hnames.filter _, ?_, attributesWellFormed_iff.2 ht⟩
  intro name hname
  exact (List.mem_filter.1 hname).1

theorem storage_object
    (attributes : Fields Ty) (optional : List String) :
    (Ty.object attributes optional).storage =
      .object (Fields.mapValues storage attributes) [] := by
  rw [storage, storageAttributes_eq_mapValues]

theorem storage_tuple
    (elements : List Ty) :
    (Ty.tuple elements).storage = .tuple (elements.map storage) := by
  rw [storage, storageAll_eq_map]

@[simp] theorem storage_objectWith
    (attributes : Fields Ty) (optional : List String) :
    (Ty.objectWith attributes optional).storage =
      .object (Fields.mapValues storage attributes) [] :=
  storage_object attributes _

theorem objectWith_nil
    (attributes : Fields Ty) :
    Ty.objectWith attributes [] = .object attributes [] := by
  simp [objectWith]

theorem wellFormed_storage
    (t : Ty) (h : t.WellFormed) :
    t.storage.WellFormed := by
  induction t using Ty.induction with
  | bool | number | string | dynamic => trivial
  | list e ih | set e ih | map e ih => exact ih h
  | tuple elements ih =>
      rw [storage_tuple]
      simp only [WellFormed, allWellFormed_iff] at h ⊢
      intro u hu
      obtain ⟨t, ht, rfl⟩ := List.mem_map.1 hu
      exact ih t ht (h t ht)
  | object attributes optional ih =>
      rw [storage_object]
      simp only [WellFormed, attributesWellFormed_iff] at h
      obtain ⟨hs, -, -, ht⟩ := h
      refine wellFormed_object (Fields.sorted_mapValues _ hs) ?_
      intro b hb
      obtain ⟨a, ha, rfl⟩ := Fields.mem_mapValues.1 hb
      exact ih a ha (ht a ha)

end WellFormed

section Dynamic

theorem hasDynamic_tuple_iff
    {elements : List Ty} :
    (Ty.tuple elements).hasDynamic = true ↔ ∃ t ∈ elements, t.hasDynamic = true := by
  rw [hasDynamic, anyDynamic_eq_any, List.any_eq_true]

theorem hasDynamic_object_iff
    {attributes : Fields Ty} {optional : List String} :
    (Ty.object attributes optional).hasDynamic = true ↔
      ∃ a ∈ attributes, a.2.hasDynamic = true := by
  rw [hasDynamic, anyAttributeDynamic_eq_any, List.any_eq_true]

theorem hasDynamic_of_mem_tuple
    {elements : List Ty} (h : (Ty.tuple elements).hasDynamic = false) :
    ∀ t ∈ elements, t.hasDynamic = false := by
  intro t ht
  by_contra hd
  rw [Bool.not_eq_false] at hd
  have htuple := hasDynamic_tuple_iff.2 ⟨t, ht, hd⟩
  rw [h] at htuple
  cases htuple

theorem hasDynamic_of_mem_object
    {attributes : Fields Ty} {optional : List String}
    (h : (Ty.object attributes optional).hasDynamic = false) :
    ∀ a ∈ attributes, a.2.hasDynamic = false := by
  intro a ha
  by_contra hd
  rw [Bool.not_eq_false] at hd
  have hobject : (Ty.object attributes optional).hasDynamic = true :=
    hasDynamic_object_iff.2 ⟨a, ha, hd⟩
  rw [h] at hobject
  cases hobject

end Dynamic

end Ty
end TypedConfig
