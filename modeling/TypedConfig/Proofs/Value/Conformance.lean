import Mathlib.Data.List.Perm.Subperm
import TypedConfig.Proofs.Ty.Conformance
import TypedConfig.Value.Conformance

/-!
# The shapes of conforming values

Conformance of values walks a value and a type at once.  Here it is taken apart
by the shape of the value.  A value fits a type if it conforms to it and, unless
the type leaves something to the data, has exactly that type; every form of value
fits the type of its form if its parts fit.

* `conformsTo_object_iff`: an object with ordered attributes conforms exactly when
  it has the names of the type and each attribute conforms.
* `Fits.list`, `Fits.set`, `Fits.map`, `Fits.tuple`, `Fits.object`: fitting parts
  make fitting values.
-/

namespace TypedConfig
namespace Value

section Shapes

-- The equations are derived here once, before the proofs that all unfold them.
attribute [local simp] conformsTo

@[simp] theorem null_conformsTo
    (t want : Ty) :
    (Value.null t).conformsTo want = t.conformsTo want := by
  cases want <;> simp

@[simp] theorem unknown_conformsTo
    (t want : Ty) :
    (Value.unknown t).conformsTo want = t.conformsTo want := by
  cases want <;> simp

/-- The absence of a value stands for nothing but the dynamic type. -/
theorem noValue_conformsTo_iff
    {want : Ty} :
    Value.noValue.conformsTo want = true ↔ want = .dynamic := by
  cases want <;> simp

theorem list_conformsTo_iff
    {t e : Ty} {elements : List Value} :
    (Value.list t elements).conformsTo (.list e) = true ↔
      t.conformsTo e = true ∧ ∀ v ∈ elements, v.conformsTo e = true := by
  simp [allConform_eq_all]

theorem set_conformsTo_iff
    {t e : Ty} {elements : List Value} :
    (Value.set t elements).conformsTo (.set e) = true ↔
      t.conformsTo e = true ∧ ∀ v ∈ elements, v.conformsTo e = true := by
  simp [allConform_eq_all]

theorem map_conformsTo_iff
    {t e : Ty} {entries : Fields Value} :
    (Value.map t entries).conformsTo (.map e) = true ↔
      t.conformsTo e = true ∧ ∀ entry ∈ entries, entry.2.conformsTo e = true := by
  simp [entriesConform_eq_all]

theorem tuple_conformsTo_iff
    {elements : List Value} {types : List Ty} :
    (Value.tuple elements).conformsTo (.tuple types) = true ↔
      List.Forall₂ (fun v t => v.conformsTo t = true) elements types := by
  simp only [conformsTo]
  induction elements generalizing types with
  | nil => cases types <;> simp [elementsConform]
  | cons v rest ih => cases types <;> simp [elementsConform, ih]

theorem attributesConform_iff
    {attributes : Fields Value} {wants : Fields Ty} :
    attributesConform attributes wants = true ↔
      ∀ a ∈ attributes,
        ∃ want, Fields.get? a.1 wants = some want ∧ a.2.conformsTo want = true := by
  induction attributes with
  | nil => simp [attributesConform]
  | cons a rest ih =>
      obtain ⟨name, v⟩ := a
      simp only [attributesConform, Bool.and_eq_true, ih, List.forall_mem_cons]
      cases Fields.get? name wants <;> simp

/-- As many names as are wanted, all of them wanted, are all that are wanted. -/
theorem names_of_length_eq
    {attributes : Fields Value} {wants : Fields Ty}
    (hs : Fields.Sorted attributes)
    (hlength : attributes.length = wants.length)
    (hsub : ∀ name ∈ Fields.names attributes, name ∈ Fields.names wants) :
    ∀ name, name ∈ Fields.names attributes ↔ name ∈ Fields.names wants := by
  have hnodup : (Fields.names attributes).Nodup :=
    (Fields.sorted_iff_names.1 hs).imp Fields.ne_of_compare_eq_lt
  have hperm : (Fields.names attributes).Perm (Fields.names wants) := by
    refine (List.subperm_of_subset hnodup hsub).perm_of_length_le ?_
    simp [Fields.names, hlength]
  exact fun name => hperm.mem_iff

theorem object_conformsTo_iff
    {attributes : Fields Value} {wants : Fields Ty} {o : List String}
    (hs : Fields.Sorted attributes) (hw : Fields.Sorted wants) :
    (Value.object attributes).conformsTo (.object wants o) = true ↔
      Fields.Paired (fun v t => v.conformsTo t = true) attributes wants := by
  simp only [conformsTo, Bool.and_eq_true, beq_iff_eq, attributesConform_iff]
  constructor
  · rintro ⟨hlength, hattributes⟩
    refine Fields.paired_of_get? hs hw (names_of_length_eq hs hlength ?_) ?_
    · intro name hname
      obtain ⟨a, ha, rfl⟩ := List.mem_map.1 hname
      obtain ⟨want, hwant, -⟩ := hattributes a ha
      exact Fields.mem_names_of_mem (Fields.mem_of_get? hwant)
    · intro name v t hv ht
      obtain ⟨want, hwant, hconf⟩ := hattributes (name, v) (Fields.mem_of_get? hv)
      rw [ht] at hwant
      cases hwant
      exact hconf
  · intro h
    refine ⟨List.Forall₂.length_eq h, ?_⟩
    intro a ha
    exact h.exists_get? (hs.get?_eq_some_iff.2 ha)

variable {v : Value} {e : Ty}

/-- Whether a value says no more than a type, which conforms to what is wanted. -/
def StandsFor (v : Value) (want : Ty) : Prop :=
  ∃ t : Ty, t.conformsTo want = true ∧ (v = .null t ∨ v = .unknown t)

theorem conformsTo_bool
    (h : v.conformsTo .bool = true) :
    v.StandsFor .bool ∨ ∃ b, v = .bool b := by
  cases v with
  | null t => exact Or.inl ⟨t, by simpa using h, Or.inl rfl⟩
  | unknown t => exact Or.inl ⟨t, by simpa using h, Or.inr rfl⟩
  | bool b => exact Or.inr ⟨b, rfl⟩
  | _ => simp at h

theorem conformsTo_number
    (h : v.conformsTo .number = true) :
    v.StandsFor .number ∨ ∃ n, v = .number n := by
  cases v with
  | null t => exact Or.inl ⟨t, by simpa using h, Or.inl rfl⟩
  | unknown t => exact Or.inl ⟨t, by simpa using h, Or.inr rfl⟩
  | number n => exact Or.inr ⟨n, rfl⟩
  | _ => simp at h

theorem conformsTo_string
    (h : v.conformsTo .string = true) :
    v.StandsFor .string ∨ ∃ s, v = .string s := by
  cases v with
  | null t => exact Or.inl ⟨t, by simpa using h, Or.inl rfl⟩
  | unknown t => exact Or.inl ⟨t, by simpa using h, Or.inr rfl⟩
  | string s => exact Or.inr ⟨s, rfl⟩
  | _ => simp at h

theorem conformsTo_list
    (h : v.conformsTo (.list e) = true) :
    v.StandsFor (.list e) ∨ (v = emptyTuple ∧ e.hasDynamic = true) ∨
      ∃ t elements, v = .list t elements ∧ t.conformsTo e = true ∧
        ∀ c ∈ elements, c.conformsTo e = true := by
  cases v with
  | null t => exact Or.inl ⟨t, by simpa using h, Or.inl rfl⟩
  | unknown t => exact Or.inl ⟨t, by simpa using h, Or.inr rfl⟩
  | list t elements => exact Or.inr (Or.inr ⟨t, elements, rfl, list_conformsTo_iff.1 h⟩)
  | tuple elements =>
      cases elements with
      | nil => exact Or.inr (Or.inl ⟨rfl, by simpa using h⟩)
      | cons c rest => simp at h
  | _ => simp at h

theorem conformsTo_set
    (h : v.conformsTo (.set e) = true) :
    v.StandsFor (.set e) ∨ (v = emptyTuple ∧ e.hasDynamic = true) ∨
      ∃ t elements, v = .set t elements ∧ t.conformsTo e = true ∧
        ∀ c ∈ elements, c.conformsTo e = true := by
  cases v with
  | null t => exact Or.inl ⟨t, by simpa using h, Or.inl rfl⟩
  | unknown t => exact Or.inl ⟨t, by simpa using h, Or.inr rfl⟩
  | set t elements => exact Or.inr (Or.inr ⟨t, elements, rfl, set_conformsTo_iff.1 h⟩)
  | tuple elements =>
      cases elements with
      | nil => exact Or.inr (Or.inl ⟨rfl, by simpa using h⟩)
      | cons c rest => simp at h
  | _ => simp at h

theorem conformsTo_map
    (h : v.conformsTo (.map e) = true) :
    v.StandsFor (.map e) ∨ (v = emptyObject ∧ e.hasDynamic = true) ∨
      ∃ t entries, v = .map t entries ∧ t.conformsTo e = true ∧
        ∀ entry ∈ entries, entry.2.conformsTo e = true := by
  cases v with
  | null t => exact Or.inl ⟨t, by simpa using h, Or.inl rfl⟩
  | unknown t => exact Or.inl ⟨t, by simpa using h, Or.inr rfl⟩
  | map t entries => exact Or.inr (Or.inr ⟨t, entries, rfl, map_conformsTo_iff.1 h⟩)
  | object attributes =>
      cases attributes with
      | nil => exact Or.inr (Or.inl ⟨rfl, by simpa using h⟩)
      | cons a rest => simp at h
  | _ => simp at h

theorem conformsTo_tuple
    {types : List Ty} (h : v.conformsTo (.tuple types) = true) :
    v.StandsFor (.tuple types) ∨
      ∃ elements, v = .tuple elements ∧
        List.Forall₂ (fun c t => c.conformsTo t = true) elements types := by
  cases v with
  | null t => exact Or.inl ⟨t, by simpa using h, Or.inl rfl⟩
  | unknown t => exact Or.inl ⟨t, by simpa using h, Or.inr rfl⟩
  | tuple elements => exact Or.inr ⟨elements, rfl, tuple_conformsTo_iff.1 h⟩
  | _ => simp at h

theorem conformsTo_object
    {wants : Fields Ty} {o : List String} (h : v.conformsTo (.object wants o) = true) :
    v.StandsFor (.object wants o) ∨ ∃ attributes, v = .object attributes := by
  cases v with
  | null t => exact Or.inl ⟨t, by simpa using h, Or.inl rfl⟩
  | unknown t => exact Or.inl ⟨t, by simpa using h, Or.inr rfl⟩
  | object attributes => exact Or.inr ⟨attributes, rfl⟩
  | _ => simp at h

end Shapes

/-- A value conforms to a type and, unless the type leaves something to the
data, has exactly that type. -/
structure Fits (v : Value) (t : Ty) : Prop where
  conforms : v.conformsTo t = true
  exact_type : t.hasDynamic = false → v.type = t

namespace Fits

theorem dynamic
    (v : Value) :
    v.Fits .dynamic :=
  ⟨conformsTo_dynamic v, fun h => by cases h⟩

/-- A null of a storage type fits every storage type above it. -/
theorem null
    {t u : Ty} (ht : t.WellFormed) (hu : u.WellFormed)
    (hts : t.storage = t) (hus : u.storage = u) (h : t.conformsTo u = true) :
    (Value.null t).Fits u := by
  constructor
  · rwa [null_conformsTo]
  · intro hd
    have hstorage := Ty.storage_eq_of_conformsTo ht hu h hd
    rwa [hts, hus] at hstorage

/-- Where a type leaves something to the data, to fit it is to conform to it. -/
theorem of_hasDynamic
    {v : Value} {t : Ty} (hd : t.hasDynamic = true) (h : v.conformsTo t = true) :
    v.Fits t := by
  constructor
  · exact h
  · intro hs
    rw [hd] at hs
    cases hs

theorem null_iff
    {t u : Ty} :
    (Value.null t).Fits u ↔ t.conformsTo u = true ∧ (u.hasDynamic = false → t = u) := by
  constructor
  · intro h
    exact ⟨by simpa using h.conforms, h.exact_type⟩
  · rintro ⟨hconf, hexact⟩
    exact ⟨by simpa using hconf, hexact⟩

theorem null_self
    {t : Ty} (ht : t.WellFormed) :
    (Value.null t).Fits t :=
  ⟨by rw [null_conformsTo, Ty.conformsTo_self ht], fun _ => rfl⟩

theorem unknown_self
    {t : Ty} (ht : t.WellFormed) :
    (Value.unknown t).Fits t :=
  ⟨by rw [unknown_conformsTo, Ty.conformsTo_self ht], fun _ => rfl⟩

/-- The null in the place of an absent value fits where that did. -/
theorem orNull
    {v : Value} {t : Ty} (h : v.Fits t) :
    v.orNull.Fits t := by
  cases v with
  | noValue =>
      rw [noValue_conformsTo_iff.1 h.conforms]
      exact dynamic _
  | _ => exact h

/-- The elements of a list fit its element type, and so does a null of the type
that the list records. -/
theorem list
    {t e : Ty} {elements : List Value} (ht : (Value.null t).Fits e)
    (h : ∀ v ∈ elements, v.Fits e) :
    (Value.list t elements).Fits (.list e) := by
  rw [null_iff] at ht
  exact ⟨list_conformsTo_iff.2 ⟨ht.1, fun v hv => (h v hv).conforms⟩,
    fun hd => congrArg Ty.list (ht.2 hd)⟩

theorem set
    {t e : Ty} {elements : List Value} (ht : (Value.null t).Fits e)
    (h : ∀ v ∈ elements, v.Fits e) :
    (Value.set t elements).Fits (.set e) := by
  rw [null_iff] at ht
  exact ⟨set_conformsTo_iff.2 ⟨ht.1, fun v hv => (h v hv).conforms⟩,
    fun hd => congrArg Ty.set (ht.2 hd)⟩

theorem map
    {t e : Ty} {entries : Fields Value} (ht : (Value.null t).Fits e)
    (h : ∀ entry ∈ entries, entry.2.Fits e) :
    (Value.map t entries).Fits (.map e) := by
  rw [null_iff] at ht
  exact ⟨map_conformsTo_iff.2 ⟨ht.1, fun x hx => (h x hx).conforms⟩,
    fun hd => congrArg Ty.map (ht.2 hd)⟩

/-- Elements that fit static types have these types. -/
theorem map_type_eq
    {elements : List Value} {types : List Ty} (h : List.Forall₂ Fits elements types)
    (hstatic : ∀ t ∈ types, t.hasDynamic = false) :
    elements.map type = types := by
  induction h with
  | nil => rfl
  | cons hv _ ih =>
      rw [List.forall_mem_cons] at hstatic
      rw [List.map_cons, hv.exact_type hstatic.1, ih hstatic.2]

theorem mapValues_type_eq
    {attributes : Fields Value} {wants : Fields Ty} (h : Fields.Paired Fits attributes wants)
    (hstatic : ∀ a ∈ wants, a.2.hasDynamic = false) :
    Fields.mapValues type attributes = wants := by
  induction h with
  | nil => rfl
  | cons hv _ ih =>
      rw [List.forall_mem_cons] at hstatic
      have hrest := ih hstatic.2
      simp only [Fields.mapValues, List.map_cons] at hrest ⊢
      rw [hv.1, hv.2.exact_type hstatic.1, hrest]

theorem tuple
    {elements : List Value} {types : List Ty} (h : List.Forall₂ Fits elements types) :
    (Value.tuple elements).Fits (.tuple types) := by
  constructor
  · exact tuple_conformsTo_iff.2 (h.imp fun _ _ hv => hv.conforms)
  · intro hd
    rw [Value.type, types_eq_map, map_type_eq h (Ty.hasDynamic_of_mem_tuple hd)]

theorem object
    {attributes : Fields Value} {wants : Fields Ty} (hw : Fields.Sorted wants)
    (h : Fields.Paired Fits attributes wants) :
    (Value.object attributes).Fits (.object wants []) := by
  constructor
  · rw [object_conformsTo_iff (h.sorted_iff.2 hw) hw]
    exact List.Forall₂.imp (fun _ _ hv => ⟨hv.1, hv.2.conforms⟩) h
  · intro hd
    rw [Value.type, attributeTypes_eq_mapValues,
      mapValues_type_eq h (Ty.hasDynamic_of_mem_object hd)]

end Fits

end Value
end TypedConfig
