import TypedConfig.Proofs.Ty.Parts
import TypedConfig.Ty.Conformance

/-!
# The order of conformance

Conformance of types walks two types at once.  Here it is taken apart by the
shape of the wanted type: tuples conform element by element, and object types
with ordered attributes conform attribute by attribute, having the same names.

* `conformsTo_self`: a well formed type conforms to itself.
* `conformsTo_induction`: induction along two types of which one conforms to
  the other.
* `hasDynamic_of_conformsTo`: what has the dynamic type in it conforms only to
  types that have it too.
* `storage_eq_of_conformsTo`: a type without the dynamic type in it has only
  itself below it, optional marks aside.
-/

namespace TypedConfig
namespace Ty

section Shapes

@[simp] theorem conformsTo_dynamic
    (t : Ty) :
    t.conformsTo .dynamic = true := by
  cases t <;> simp [conformsTo]

/-- Nothing but itself is above the dynamic type. -/
theorem dynamic_conformsTo_iff
    {t : Ty} :
    Ty.dynamic.conformsTo t = true ↔ t = .dynamic := by
  cases t <;> simp [conformsTo]

theorem conformsTo_tuple_iff
    {gots wants : List Ty} :
    (Ty.tuple gots).conformsTo (.tuple wants) = true ↔
      List.Forall₂ (fun got want => got.conformsTo want = true) gots wants := by
  simp only [conformsTo]
  induction gots generalizing wants with
  | nil => cases wants <;> simp [allConform]
  | cons got gots ih => cases wants <;> simp [allConform, ih]

theorem attributesConform_iff
    {gots wants : Fields Ty} :
    attributesConform gots wants = true ↔
      ∀ a ∈ gots, ∃ want, Fields.get? a.1 wants = some want ∧ a.2.conformsTo want = true := by
  induction gots with
  | nil => simp [attributesConform]
  | cons a rest ih =>
      obtain ⟨name, got⟩ := a
      simp only [attributesConform, Bool.and_eq_true, ih, List.forall_mem_cons]
      cases Fields.get? name wants <;> simp

/-- Of ordered object types one conforms to the other exactly when they have
the same names and each attribute conforms. -/
theorem conformsTo_object_iff
    {gots wants : Fields Ty} {o o' : List String}
    (hg : Fields.Sorted gots) (hw : Fields.Sorted wants) :
    (Ty.object gots o).conformsTo (.object wants o') = true ↔
      Fields.Paired (fun got want => got.conformsTo want = true) gots wants := by
  simp only [conformsTo, Bool.and_eq_true, attributesConform_iff, List.all_eq_true,
    Fields.contains, Fields.get?_isSome_iff]
  rw [Fields.paired_iff_get? hg hw]
  constructor
  · rintro ⟨hwants, hgots⟩
    constructor
    · intro name
      constructor
      · intro hname
        obtain ⟨a, ha, rfl⟩ := List.mem_map.1 hname
        obtain ⟨want, hwant, -⟩ := hgots a ha
        rw [← Fields.get?_isSome_iff, hwant]
        rfl
      · exact hwants name
    · intro name got want hgot hwant
      obtain ⟨want', hwant', hconf⟩ := hgots (name, got) (Fields.mem_of_get? hgot)
      rw [hwant] at hwant'
      cases hwant'
      exact hconf
  · rintro ⟨hnames, hconf⟩
    constructor
    · exact fun name hname => (hnames name).2 hname
    · intro a ha
      have hsome : (Fields.get? a.1 wants).isSome = true := by
        rw [Fields.get?_isSome_iff]
        exact (hnames a.1).1 (Fields.mem_names_of_mem ha)
      obtain ⟨want, hwant⟩ := Option.isSome_iff_exists.1 hsome
      exact ⟨want, hwant, hconf a.1 a.2 want (hg.get?_eq_some_iff.2 ha) hwant⟩

/-- A well formed type conforms to itself. -/
theorem conformsTo_self
    {t : Ty} (h : t.WellFormed) :
    t.conformsTo t = true := by
  induction t using Ty.induction with
  | bool | number | string | dynamic => rfl
  | list e ih | set e ih | map e ih =>
      simp only [conformsTo]
      exact ih h
  | tuple elements ih =>
      rw [conformsTo_tuple_iff, List.forall₂_same]
      simp only [WellFormed, allWellFormed_iff] at h
      exact fun t ht => ih t ht (h t ht)
  | object attributes optional ih =>
      simp only [WellFormed, attributesWellFormed_iff] at h
      obtain ⟨hs, -, -, ht⟩ := h
      rw [conformsTo_object_iff hs hs, Fields.Paired, List.forall₂_same]
      exact fun a ha => ⟨rfl, ih a ha (ht a ha)⟩

end Shapes

section Induction

/-- Induction along conformance.  A property of pairs of well formed types
holds where the first conforms to the second if it holds of dynamic over
anything, of equal scalars, and of equal shapes with the property in all
parts. -/
theorem conformsTo_induction
    {motive : Ty → Ty → Prop}
    (dynamic : ∀ t, motive t .dynamic)
    (bool : motive .bool .bool)
    (number : motive .number .number)
    (string : motive .string .string)
    (list : ∀ got want, motive got want → motive (.list got) (.list want))
    (set : ∀ got want, motive got want → motive (.set got) (.set want))
    (map : ∀ got want, motive got want → motive (.map got) (.map want))
    (tuple :
      ∀ gots wants, List.Forall₂ motive gots wants → motive (.tuple gots) (.tuple wants))
    (object :
      ∀ gots wants o o', Fields.Paired motive gots wants →
        motive (.object gots o) (.object wants o'))
    {got want : Ty}
    (hg : got.WellFormed) (hw : want.WellFormed) (h : got.conformsTo want = true) :
    motive got want := by
  induction got using Ty.induction generalizing want with
  | bool | number | string | dynamic =>
      cases want <;> first | exact dynamic _ | assumption | simp [conformsTo] at h
  | list e ih =>
      cases want with
      | list w => exact list e w (ih hg hw (by simpa [conformsTo] using h))
      | dynamic => exact dynamic _
      | _ => simp [conformsTo] at h
  | set e ih =>
      cases want with
      | set w => exact set e w (ih hg hw (by simpa [conformsTo] using h))
      | dynamic => exact dynamic _
      | _ => simp [conformsTo] at h
  | map e ih =>
      cases want with
      | map w => exact map e w (ih hg hw (by simpa [conformsTo] using h))
      | dynamic => exact dynamic _
      | _ => simp [conformsTo] at h
  | tuple gots ih =>
      cases want with
      | tuple wants =>
          rw [conformsTo_tuple_iff] at h
          simp only [WellFormed, allWellFormed_iff] at hg hw
          refine tuple gots wants (forall₂_imp_of_mem h ?_)
          exact fun g hgmem w hwmem => ih g hgmem (hg g hgmem) (hw w hwmem)
      | dynamic => exact dynamic _
      | _ => simp [conformsTo] at h
  | object gots optional ih =>
      cases want with
      | object wants o =>
          simp only [WellFormed, attributesWellFormed_iff] at hg hw
          obtain ⟨hgs, -, -, hgt⟩ := hg
          obtain ⟨hws, -, -, hwt⟩ := hw
          rw [conformsTo_object_iff hgs hws] at h
          refine object gots wants optional o (forall₂_imp_of_mem h ?_)
          rintro g hgmem w hwmem ⟨hname, hgw⟩
          exact ⟨hname, ih g hgmem (hgt g hgmem) (hwt w hwmem) hgw⟩
      | dynamic => exact dynamic _
      | _ => simp [conformsTo] at h

end Induction

section Dynamic

variable {got want : Ty} (hg : got.WellFormed) (hw : want.WellFormed)
include hg hw

/-- The dynamic type does not get lost upwards. -/
theorem hasDynamic_of_conformsTo
    (h : got.conformsTo want = true) :
    got.hasDynamic = true → want.hasDynamic = true := by
  refine conformsTo_induction (motive := fun g w => g.hasDynamic = true → w.hasDynamic = true)
    ?dynamic id id id ?element ?element ?element ?tuple ?object hg hw h
  case dynamic => exact fun t _ => rfl
  case element => exact fun g w ih => ih
  case tuple =>
    intro gots wants ih
    rw [hasDynamic_tuple_iff, hasDynamic_tuple_iff]
    induction ih with
    | nil => exact id
    | cons hgw _ ih =>
        simp only [List.exists_mem_cons_iff]
        exact Or.imp hgw ih
  case object =>
    intro gots wants o o' ih
    rw [hasDynamic_object_iff, hasDynamic_object_iff]
    induction ih with
    | nil => exact id
    | cons hgw _ ih =>
        simp only [List.exists_mem_cons_iff]
        exact Or.imp hgw.2 ih

/-- Below a type without the dynamic type in it there is only that type, in
its own storage form. -/
theorem storage_eq_of_conformsTo
    (h : got.conformsTo want = true) :
    want.hasDynamic = false → got.storage = want.storage := by
  refine conformsTo_induction (motive := fun g w => w.hasDynamic = false → g.storage = w.storage)
    ?dynamic (fun _ => rfl) (fun _ => rfl) (fun _ => rfl) ?list ?set ?map ?tuple ?object hg hw h
  case dynamic => exact fun t hd => by cases hd
  case list => exact fun g w ih hd => congrArg Ty.list (ih hd)
  case set => exact fun g w ih hd => congrArg Ty.set (ih hd)
  case map => exact fun g w ih hd => congrArg Ty.map (ih hd)
  case tuple =>
    intro gots wants ih hd
    have hdw := hasDynamic_of_mem_tuple hd
    rw [storage_tuple, storage_tuple]
    refine congrArg Ty.tuple ?_
    clear hd
    induction ih with
    | nil => rfl
    | cons hgw _ ih =>
        rw [List.forall_mem_cons] at hdw
        rw [List.map_cons, List.map_cons, hgw hdw.1, ih hdw.2]
  case object =>
    intro gots wants o o' ih hd
    have hdw := hasDynamic_of_mem_object hd
    rw [storage_object, storage_object]
    refine congrArg (Ty.object · []) ?_
    clear hd
    induction ih with
    | nil => rfl
    | cons hgw _ ih =>
        rw [List.forall_mem_cons] at hdw
        have hrest := ih hdw.2
        simp only [Fields.mapValues, List.map_cons] at hrest ⊢
        rw [hgw.1, hgw.2 hdw.1, hrest]

end Dynamic

end Ty
end TypedConfig
