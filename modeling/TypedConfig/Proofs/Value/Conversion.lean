import TypedConfig.Proofs.Outcome
import TypedConfig.Proofs.Value.Conformance
import TypedConfig.Proofs.Value.Form
import TypedConfig.Value.Conversion

/-!
# Conversion yields what was wanted

A conversion takes a value apart and converts its parts, so that what passes from
the parts of what is converted to the whole holds of every conversion that succeeds:
`ClosedUnderConversion.holds`.

In this way a conversion yields a value that fits the storage type of what was
wanted, whatever value is converted: `convert_fits`.  The value that is converted
may be of any form and need not be well formed.

If the value is well formed and the wanted type leaves nothing to the data, the
result has the very form of the storage type: `convert_hasForm`.
-/

namespace TypedConfig
namespace Value

-- The equations are derived here once, before the proofs that all unfold them.
attribute [local simp] convert convertElements convertAttributes

section Steps

variable {f : Value → Except ConversionError Value} {i : Nat}

theorem convertEach_eq_ok_iff
    {elements converted : List Value} :
    convertEach f i elements = .ok converted ↔
      List.Forall₂ (fun v w => f v = .ok w) elements converted := by
  refine forall₂_of_countedSteps ?_ ?_
  · intro i
    rw [convertEach]
  · intro i v rest converted
    rw [convertEach]
    cases f v <;> simp [map_eq_ok_iff]

theorem convertEntries_eq_ok_iff
    {entries converted : Fields Value} :
    convertEntries f entries = .ok converted ↔
      Fields.Paired (fun v w => f v = .ok w) entries converted := by
  refine paired_of_steps (by rfl) ?_
  intro name v rest converted
  rw [convertEntries]
  cases f v <;> simp [map_eq_ok_iff]

theorem convertElements_eq_ok_iff
    {types : List Ty} {elements converted : List Value} :
    convertElements i types elements = .ok converted ↔
      List.Forall₂ (fun part w => convert part.1 part.2 = .ok w) (types.zip elements)
        converted := by
  refine forall₂_zip_of_countedSteps ?_ ?_ ?_
  · intro i elements
    simp [convertElements]
  · intro i t types
    simp [convertElements]
  · intro i t types v rest converted
    rw [convertElements]
    cases convert t v <;> simp [map_eq_ok_iff]

/-- Whether a wanted attribute becomes a value: the entry of its name is converted
to it, or it is a null for want of an entry. -/
def Supplies (optional : List String) (entries : Fields Value) (a : String × Ty)
    (w : Value) : Prop :=
  (∃ v, Fields.get? a.1 entries = some v ∧ convert a.2 v = .ok w) ∨
    (Fields.get? a.1 entries = none ∧ a.1 ∈ optional ∧ w = .null a.2.storage)

theorem convertAttributes_eq_ok_iff
    {optional : List String} {entries converted : Fields Value} {wants : Fields Ty} :
    convertAttributes optional entries wants = .ok converted ↔
      List.Forall₂ (fun a c => c.1 = a.1 ∧ Supplies optional entries a c.2) wants converted := by
  refine forall₂_of_steps (by rfl) ?_
  rintro ⟨name, t⟩ rest converted
  cases hentry : Fields.get? name entries with
  | some v =>
      rw [convertAttributes, hentry]
      cases hconvert : convert t v with
      | error e => simp [Supplies, hentry, hconvert, Except.mapError]
      | ok w => simp [Supplies, hentry, hconvert, Except.mapError, map_eq_ok_iff]
  | none =>
      rw [convertAttributes, hentry, missingAttribute]
      by_cases hoptional : name ∈ optional
      · simp [Supplies, hentry, hoptional, map_eq_ok_iff]
      · simp [Supplies, hentry, hoptional]

theorem unsupportedName?_eq_none_iff
    {entries : Fields Value} {wants : Fields Ty} :
    unsupportedName? entries wants = none ↔
      ∀ name ∈ Fields.names entries, name ∈ Fields.names wants := by
  rw [unsupportedName?, List.find?_eq_none]
  simp only [Fields.contains, Bool.not_eq_true, Bool.not_eq_false', Fields.get?_isSome_iff]

end Steps

section Results

variable {v result : Value}

/-- What becomes of a value that says no more than a type: a null or an unknown
value of the storage type of what is wanted. -/
inductive Retyped (want : Ty) : Value → Value → Prop where
  | null (t : Ty) : Retyped want (.null t) (.null want.storage)
  | unknown (t : Ty) : Retyped want (.unknown t) (.unknown want.storage)

theorem convert_bool_eq_ok
    (h : convert .bool v = .ok result) :
    Retyped .bool v result ∨ v.isWhollyKnown = true ∧ ∃ b, result = .bool b := by
  cases v with
  | null t =>
      cases h
      exact Or.inl (.null t)
  | unknown t =>
      cases h
      exact Or.inl (.unknown t)
  | bool b =>
      cases h
      exact Or.inr ⟨rfl, b, rfl⟩
  | string s =>
      simp only [convert, boolOfString] at h
      split at h
      · cases h
        exact Or.inr ⟨rfl, true, rfl⟩
      · cases h
        exact Or.inr ⟨rfl, false, rfl⟩
      · cases h
  | _ => simp at h

theorem convert_number_eq_ok
    (h : convert .number v = .ok result) :
    Retyped .number v result ∨ v.isWhollyKnown = true ∧ ∃ n, result = .number n := by
  cases v with
  | null t =>
      cases h
      exact Or.inl (.null t)
  | unknown t =>
      cases h
      exact Or.inl (.unknown t)
  | number n =>
      simp only [convert, Except.ok.injEq] at h
      exact Or.inr ⟨rfl, n, h.symm⟩
  | string s =>
      simp only [convert, numberOfString] at h
      split at h
      · cases h
        exact Or.inr ⟨rfl, _, rfl⟩
      · cases h
      · cases h
  | _ => simp at h

theorem convert_string_eq_ok
    (h : convert .string v = .ok result) :
    Retyped .string v result ∨ v.isWhollyKnown = true ∧ ∃ s, result = .string s := by
  cases v with
  | null t =>
      cases h
      exact Or.inl (.null t)
  | unknown t =>
      cases h
      exact Or.inl (.unknown t)
  | string s | number n | bool b =>
      cases h
      exact Or.inr ⟨rfl, _, rfl⟩
  | _ => simp at h

variable {e : Ty}

theorem convert_list_eq_ok
    (h : convert (.list e) v = .ok result) :
    Retyped (.list e) v result ∨ v.isUnknown = false ∧
      ∃ ws, convertEach (convert e) 0 v.components = .ok ws ∧ result = .list e.storage ws := by
  cases v with
  | null t =>
      cases h
      exact Or.inl (.null t)
  | unknown t =>
      cases h
      exact Or.inl (.unknown t)
  | list _ elements | set _ elements | tuple elements =>
      simp only [convert] at h
      obtain ⟨ws, hws, rfl⟩ := map_eq_ok_iff.1 h
      exact Or.inr ⟨rfl, ws, hws, rfl⟩
  | _ => simp at h

theorem convert_set_eq_ok
    (h : convert (.set e) v = .ok result) :
    Retyped (.set e) v result ∨ v.isUnknown = false ∧
      ∃ ws, convertEach (convert e) 0 v.components = .ok ws ∧ result = setOf e.storage ws := by
  cases v with
  | null t =>
      cases h
      exact Or.inl (.null t)
  | unknown t =>
      cases h
      exact Or.inl (.unknown t)
  | list _ elements | set _ elements | tuple elements =>
      simp only [convert] at h
      obtain ⟨ws, hws, rfl⟩ := map_eq_ok_iff.1 h
      exact Or.inr ⟨rfl, ws, hws, rfl⟩
  | _ => simp at h

theorem convert_map_eq_ok
    (h : convert (.map e) v = .ok result) :
    Retyped (.map e) v result ∨
      ∃ entries ws, v.entries? = some entries ∧ convertEntries (convert e) entries = .ok ws ∧
        result = .map e.storage ws := by
  cases v with
  | null t =>
      cases h
      exact Or.inl (.null t)
  | unknown t =>
      cases h
      exact Or.inl (.unknown t)
  | map _ entries | object entries =>
      simp only [convert] at h
      obtain ⟨ws, hws, rfl⟩ := map_eq_ok_iff.1 h
      exact Or.inr ⟨entries, ws, rfl, hws, rfl⟩
  | _ => simp at h

theorem convert_tuple_eq_ok
    {types : List Ty} (h : convert (.tuple types) v = .ok result) :
    Retyped (.tuple types) v result ∨ v.isUnknown = false ∧
      ∃ ws, v.components.length = types.length ∧
        convertElements 0 types v.components = .ok ws ∧ result = .tuple ws := by
  cases v with
  | null t =>
      cases h
      exact Or.inl (.null t)
  | unknown t =>
      cases h
      exact Or.inl (.unknown t)
  | list _ elements | tuple elements =>
      simp only [convert, tupleOfConverted] at h
      split at h
      · rename_i hlength
        obtain ⟨ws, hws, rfl⟩ := map_eq_ok_iff.1 h
        exact Or.inr ⟨rfl, ws, hlength, hws, rfl⟩
      · cases h
  | _ => simp at h

theorem convert_object_eq_ok
    {wants : Fields Ty} {optional : List String}
    (h : convert (.object wants optional) v = .ok result) :
    Retyped (.object wants optional) v result ∨
      ∃ entries ws, v.entries? = some entries ∧
        (∀ name ∈ Fields.names entries, name ∈ Fields.names wants) ∧
        convertAttributes optional entries wants = .ok ws ∧ result = .object ws := by
  cases v with
  | null t =>
      cases h
      exact Or.inl (.null t)
  | unknown t =>
      cases h
      exact Or.inl (.unknown t)
  | map _ entries | object entries =>
      simp only [convert, objectOfConverted] at h
      split at h
      · cases h
      · rename_i hsupported
        obtain ⟨ws, hws, rfl⟩ := map_eq_ok_iff.1 h
        exact Or.inr ⟨entries, ws, rfl, unsupportedName?_eq_none_iff.1 hsupported, hws, rfl⟩
  | _ => simp at h

end Results

section Along

/-- What an attribute is converted from: the entry of its name, or a null if there
is none. -/
def attributeSource (entries : Fields Value) (a : String × Ty) : Value :=
  (Fields.get? a.1 entries).getD (.null a.2.storage)

/-- Whether a relation of wanted types, values and results passes from the parts of
what is converted to the whole: it holds of nulls, unknown values and scalars, of
anything where the type is dynamic, and of values whose parts have it. -/
structure ClosedUnderConversion (P : Ty → Value → Value → Prop) : Prop where
  null : ∀ want t, want.WellFormed → P want (.null t) (.null want.storage)
  unknown : ∀ want t, want.WellFormed → P want (.unknown t) (.unknown want.storage)
  dynamic : ∀ v, v.isNoValue = false → P .dynamic v v
  bool : ∀ v b, v.isWhollyKnown = true → P .bool v (.bool b)
  number : ∀ v n, v.isWhollyKnown = true → P .number v (.number n)
  string : ∀ v s, v.isWhollyKnown = true → P .string v (.string s)
  list : ∀ e v ws, e.WellFormed → v.isUnknown = false →
    List.Forall₂ (P e) v.components ws → P (.list e) v (.list e.storage ws)
  set : ∀ e v ws, e.WellFormed → v.isUnknown = false →
    List.Forall₂ (P e) v.components ws → P (.set e) v (setOf e.storage ws)
  map : ∀ e v entries ws, e.WellFormed → v.entries? = some entries →
    Fields.Paired (P e) entries ws → P (.map e) v (.map e.storage ws)
  tuple : ∀ types v ws, (∀ t ∈ types, t.WellFormed) → v.isUnknown = false →
    types.length = v.components.length →
    List.Forall₂ (fun part w => P part.1 part.2 w) (types.zip v.components) ws →
    P (.tuple types) v (.tuple ws)
  object : ∀ wants optional v entries ws, Fields.Sorted wants →
    (∀ a ∈ wants, a.2.WellFormed) → v.entries? = some entries →
    (∀ name ∈ Fields.names entries, name ∈ Fields.names wants) →
    List.Forall₂ (fun a c => c.1 = a.1 ∧ P a.2 (attributeSource entries a) c.2) wants ws →
    P (.object wants optional) v (.object ws)

namespace ClosedUnderConversion

variable {P : Ty → Value → Value → Prop} (hP : ClosedUnderConversion P)
include hP

theorem retyped
    {want : Ty} (hw : want.WellFormed) {v result : Value} (h : Retyped want v result) :
    P want v result := by
  cases h with
  | null t => exact hP.null want t hw
  | unknown t => exact hP.unknown want t hw

/-- What passes from the parts to the whole holds of all conversions: by induction
over the wanted type, for every value at once. -/
theorem holds
    {want : Ty} (hw : want.WellFormed) {v result : Value} (h : convert want v = .ok result) :
    P want v result := by
  induction want using Ty.induction generalizing v result with
  | dynamic =>
      cases v with
      | noValue => cases h
      | _ =>
          cases h
          exact hP.dynamic _ rfl
  | bool =>
      rcases convert_bool_eq_ok h with hr | ⟨hknown, b, rfl⟩
      · exact hP.retyped hw hr
      · exact hP.bool v b hknown
  | number =>
      rcases convert_number_eq_ok h with hr | ⟨hknown, n, rfl⟩
      · exact hP.retyped hw hr
      · exact hP.number v n hknown
  | string =>
      rcases convert_string_eq_ok h with hr | ⟨hknown, s, rfl⟩
      · exact hP.retyped hw hr
      · exact hP.string v s hknown
  | list e ih =>
      rcases convert_list_eq_ok h with hr | ⟨hknown, ws, hws, rfl⟩
      · exact hP.retyped hw hr
      · exact hP.list e v ws hw hknown ((convertEach_eq_ok_iff.1 hws).imp fun c w => ih hw)
  | set e ih =>
      rcases convert_set_eq_ok h with hr | ⟨hknown, ws, hws, rfl⟩
      · exact hP.retyped hw hr
      · exact hP.set e v ws hw hknown ((convertEach_eq_ok_iff.1 hws).imp fun c w => ih hw)
  | map e ih =>
      rcases convert_map_eq_ok h with hr | ⟨entries, ws, hentries, hws, rfl⟩
      · exact hP.retyped hw hr
      · refine hP.map e v entries ws hw hentries ((convertEntries_eq_ok_iff.1 hws).imp ?_)
        exact fun entry w hc => ⟨hc.1, ih hw hc.2⟩
  | tuple types ih =>
      rcases convert_tuple_eq_ok h with hr | ⟨hknown, ws, hlength, hws, rfl⟩
      · exact hP.retyped hw hr
      · simp only [Ty.WellFormed, Ty.allWellFormed_iff] at hw
        refine hP.tuple types v ws hw hknown hlength.symm
          (forall₂_imp_of_mem (convertElements_eq_ok_iff.1 hws) ?_)
        intro part hpart w _ hc
        obtain ⟨ht, -⟩ := List.of_mem_zip hpart
        exact ih part.1 ht (hw part.1 ht) hc
  | object wants optional ih =>
      rcases convert_object_eq_ok h with hr | ⟨entries, ws, hentries, hnames, hws, rfl⟩
      · exact hP.retyped hw hr
      · simp only [Ty.WellFormed, Ty.attributesWellFormed_iff] at hw
        obtain ⟨hsorted, -, -, htypes⟩ := hw
        refine hP.object wants optional v entries ws hsorted htypes hentries hnames
          (forall₂_imp_of_mem (convertAttributes_eq_ok_iff.1 hws) ?_)
        rintro a ha c - ⟨hname, ⟨u, hu, hc⟩ | ⟨habsent, -, hnull⟩⟩
        · refine ⟨hname, ?_⟩
          rw [attributeSource, hu]
          exact ih a ha (htypes a ha) hc
        · refine ⟨hname, ?_⟩
          rw [attributeSource, habsent, hnull]
          exact hP.null a.2 a.2.storage (htypes a ha)

end ClosedUnderConversion

end Along

section Fits

theorem fits_closedUnderConversion :
    ClosedUnderConversion fun want _ result => result.Fits want.storage where
  null want _ hw := Fits.null_self (Ty.wellFormed_storage want hw)
  unknown want _ hw := Fits.unknown_self (Ty.wellFormed_storage want hw)
  dynamic v _ := Fits.dynamic v
  bool _ _ _ := ⟨rfl, fun _ => rfl⟩
  number _ _ _ := ⟨rfl, fun _ => rfl⟩
  string _ _ _ := ⟨rfl, fun _ => rfl⟩
  list e v ws he _ h := by
    refine Fits.list (Fits.null_self (Ty.wellFormed_storage e he)) ?_
    exact forall_mem_of_forall₂ h fun _ _ _ hw => hw
  set e v ws he _ h := by
    have hfits := forall_mem_of_forall₂ h fun _ _ _ hw => hw
    refine Fits.set (Fits.null_self (Ty.wellFormed_storage e he)) ?_
    exact fun w hw => hfits w ((mem_setElements w ws).1 hw)
  map e v entries ws he _ h := by
    refine Fits.map (Fits.null_self (Ty.wellFormed_storage e he)) ?_
    exact forall_mem_of_forall₂ h fun _ _ _ hw => hw.2
  tuple types v ws _ _ hlength h := by
    rw [Ty.storage_tuple]
    refine Fits.tuple (List.forall₂_map_right_iff.2 ?_)
    exact forall₂_of_forall₂_zip hlength h fun _ _ _ _ _ hw => hw
  object wants optional v entries ws hs _ _ _ h := by
    rw [Ty.storage_object]
    exact Fits.object (Fields.sorted_mapValues _ hs) (List.forall₂_map_right_iff.2 h.flip)

/-- A conversion that succeeds yields a value that fits what was wanted. -/
theorem convert_fits
    {want : Ty} (hw : want.WellFormed) {v result : Value} (h : convert want v = .ok result) :
    result.Fits want.storage :=
  fits_closedUnderConversion.holds hw h

end Fits

section Form

theorem WellFormed.attributeSource
    {entries : Fields Value} (h : ∀ entry ∈ entries, entry.2.WellFormed) {a : String × Ty}
    (ha : a.2.WellFormed) :
    (attributeSource entries a).WellFormed := by
  rw [Value.attributeSource]
  cases hentry : Fields.get? a.1 entries with
  | none => exact Ty.wellFormed_storage a.2 ha
  | some v => exact h (a.1, v) (Fields.mem_of_get? hentry)

theorem hasForm_closedUnderConversion :
    ClosedUnderConversion fun want v result =>
      want.hasDynamic = false → v.WellFormed → result.HasForm want.storage where
  null want _ _ _ _ := .null want.storage
  unknown want _ _ _ _ := .unknown want.storage
  dynamic v _ hstatic := by cases hstatic
  bool _ b _ _ _ := .bool b (Or.inl rfl)
  number _ n _ _ _ := .number n (Or.inl rfl)
  string _ s _ _ _ := .string s (Or.inl rfl)
  list e v ws _ _ h hstatic hv :=
    .list (forall_mem_of_forall₂ h fun c hc _ hw => hw hstatic (hv.components c hc))
  set e v ws _ _ h hstatic hv := by
    have hforms : ∀ w ∈ ws, w.HasForm e.storage :=
      forall_mem_of_forall₂ h fun c hc _ hw => hw hstatic (hv.components c hc)
    refine .set (ascending_setElements ws) ?_
    exact fun w hw => hforms w ((mem_setElements w ws).1 hw)
  map e v entries ws _ hentries h hstatic hv := by
    obtain ⟨hs, hparts⟩ := hv.entries hentries
    refine .map (h.sorted_iff.1 hs) (forall_mem_of_forall₂ h ?_)
    exact fun entry hentry w hw => hw.2 hstatic (hparts entry hentry)
  tuple types v ws _ _ hlength h hstatic hv := by
    have hstatics := Ty.hasDynamic_of_mem_tuple hstatic
    rw [Ty.storage_tuple]
    refine HasForm.tuple_of_forall₂ (List.forall₂_map_right_iff.2 ?_)
    exact forall₂_of_forall₂_zip hlength h
      fun t ht c hc w hw => hw (hstatics t ht) (hv.components c hc)
  object wants optional v entries ws hs htypes hentries _ h hstatic hv := by
    have hstatics := Ty.hasDynamic_of_mem_object hstatic
    have hparts := (hv.entries hentries).2
    have hpaired : Fields.Paired HasForm ws (Fields.mapValues Ty.storage wants) := by
      refine List.forall₂_map_right_iff.2 (forall₂_imp_of_mem h ?_).flip
      rintro a ha c - ⟨hname, hc⟩
      exact ⟨hname, hc (hstatics a ha) (.attributeSource hparts (htypes a ha))⟩
    rw [Ty.storage_object]
    exact HasForm.object_of_paired (hpaired.sorted_iff.2 (Fields.sorted_mapValues _ hs)) hpaired

/-- Where a type leaves nothing to the data, a conversion to it yields a value of
the form of its storage type. -/
theorem convert_hasForm
    {want : Ty} (hw : want.WellFormed) (hstatic : want.hasDynamic = false)
    {v result : Value} (hv : v.WellFormed) (h : convert want v = .ok result) :
    result.HasForm want.storage :=
  hasForm_closedUnderConversion.holds hw h hstatic hv

end Form

end Value
end TypedConfig
