import TypedConfig.Proofs.Value.Conversion

/-!
# What conversion leaves as it is

A value is settled at a type if conversion to that type leaves it as it is.  Every
form of value is settled if its parts are, so that what a conversion yields is
settled: converting once more changes nothing.

A value that conforms to a type is converted to it in any case.  It is settled
there if the type leaves nothing to the data and the types that are recorded in the
value have no optional marks.
-/

namespace TypedConfig
namespace Value

/-- Whether conversion to a type leaves a value as it is. -/
def Settled (v : Value) (want : Ty) : Prop :=
  convert want v = .ok v

section Closure

-- The equations are derived here once, before the proofs that all unfold them.
attribute [local simp] convert

theorem settled_null
    (want : Ty) :
    (Value.null want.storage).Settled want := by
  cases want <;> simp [Settled, Ty.storage]

theorem settled_unknown
    (want : Ty) :
    (Value.unknown want.storage).Settled want := by
  cases want <;> simp [Settled, Ty.storage]

/-- Anything but the absence of a value may stand where the type is dynamic. -/
theorem settled_dynamic
    {v : Value} (hpresent : v.isNoValue = false) :
    v.Settled .dynamic := by
  cases v with
  | noValue => cases hpresent
  | _ => simp [Settled]

/-- The elements of a sequence are left as they are if each of them is. -/
theorem convertEach_eq_self
    {e : Ty} {elements : List Value} (h : ∀ c ∈ elements, c.Settled e) :
    convertEach (convert e) 0 elements = .ok elements :=
  convertEach_eq_ok_iff.2 (List.forall₂_same.2 h)

namespace Settled

variable {e : Ty}

theorem list
    {elements : List Value} (h : ∀ c ∈ elements, c.Settled e) :
    (Value.list e.storage elements).Settled (.list e) := by
  simp only [Settled, convert, convertEach_eq_self h]
  rfl

theorem set
    {elements : List Value} (hs : Ascending elements) (h : ∀ c ∈ elements, c.Settled e) :
    (Value.set e.storage elements).Settled (.set e) := by
  simp only [Settled, convert, convertEach_eq_self h]
  rw [Except.map, setOf, setElements_eq_self hs]

theorem map
    {entries : Fields Value} (h : ∀ entry ∈ entries, entry.2.Settled e) :
    (Value.map e.storage entries).Settled (.map e) := by
  have hentries : convertEntries (convert e) entries = .ok entries :=
    convertEntries_eq_ok_iff.2 (List.forall₂_same.2 fun entry hentry => ⟨rfl, h entry hentry⟩)
  simp only [Settled, convert, hentries]
  rfl

theorem tuple
    {elements : List Value} {types : List Ty} (h : List.Forall₂ Settled elements types) :
    (Value.tuple elements).Settled (.tuple types) := by
  have helements : convertElements 0 types elements = .ok elements := by
    rw [convertElements_eq_ok_iff]
    induction h with
    | nil => exact .nil
    | cons hc _ ih => exact .cons hc ih
  simp only [Settled, convert, tupleOfConverted, h.length_eq, if_true, helements]
  rfl

end Settled

section Objects

variable {entries converted : Fields Value} {wants : Fields Ty} {optional : List String}

/-- Where the entries have the wanted names, none of them is unsupported: what the
attributes are converted to is an object. -/
theorem convert_object_of_names
    (hnames : Fields.names entries = Fields.names wants)
    (h : convertAttributes optional entries wants = .ok converted) :
    convert (.object wants optional) (.object entries) = .ok (.object converted) := by
  have hwanted : unsupportedName? entries wants = none := by
    rw [unsupportedName?_eq_none_iff, hnames]
    exact fun name hname => hname
  simp only [convert, objectOfConverted, hwanted, h]
  rfl

theorem Settled.object
    (hw : Fields.Sorted wants) (h : Fields.Paired Settled entries wants) :
    (Value.object entries).Settled (.object wants optional) := by
  have hs : Fields.Sorted entries := h.sorted_iff.2 hw
  refine convert_object_of_names h.names_eq (convertAttributes_eq_ok_iff.2 ?_)
  refine forall₂_imp_of_mem h.flip ?_
  rintro a - c hc ⟨hname, hsettled⟩
  exact ⟨hname.symm, Or.inl ⟨c.2, hname ▸ hs.get?_eq_some_iff.2 hc, hsettled⟩⟩

end Objects

end Closure

section Results

theorem settled_closedUnderConversion :
    ClosedUnderConversion fun want _ result => result.Settled want where
  null want _ _ := settled_null want
  unknown want _ _ := settled_unknown want
  dynamic _ hpresent := settled_dynamic hpresent
  bool _ _ _ := rfl
  number _ _ _ := rfl
  string _ _ _ := rfl
  list e v ws _ _ h := .list (forall_mem_of_forall₂ h fun _ _ _ hw => hw)
  set e v ws _ _ h := by
    have hsettled := forall_mem_of_forall₂ h fun _ _ _ hw => hw
    exact .set (ascending_setElements ws) fun w hw => hsettled w ((mem_setElements w ws).1 hw)
  map e v entries ws _ _ h := .map (forall_mem_of_forall₂ h fun _ _ _ hw => hw.2)
  tuple types v ws _ _ hlength h :=
    .tuple (forall₂_of_forall₂_zip hlength h fun _ _ _ _ _ hw => hw)
  object wants optional v entries ws hs _ _ _ h := .object hs h.flip

/-- Whatever is converted, the result is settled. -/
theorem convert_settled
    {want : Ty} (hw : want.WellFormed) {v result : Value} (h : convert want v = .ok result) :
    result.Settled want :=
  settled_closedUnderConversion.holds hw h

end Results

section Conforming

/-- The type that a value records besides its parts. -/
def recordedType? : Value → Option Ty
  | .null t | .unknown t | .list t _ | .set t _ | .map t _ => some t
  | _ => none

/-- Whether the types that are recorded in a value have no optional marks. -/
def Unmarked (v : Value) : Prop :=
  v.Throughout fun part => ∀ t, part.recordedType? = some t → t.storage = t

theorem Unmarked.components
    {v : Value} (h : v.Unmarked) :
    ∀ c ∈ v.components, c.Unmarked :=
  (throughout_iff.1 h).2

/-- Below a type that leaves nothing to the data, a value without marks records
nothing but the storage type of what is wanted. -/
theorem Unmarked.recorded_eq
    {v : Value} (h : v.Unmarked) {t want : Ty} (hrecorded : v.recordedType? = some t)
    (ht : t.WellFormed) (hw : want.WellFormed) (hconf : t.conformsTo want = true)
    (hstatic : want.hasDynamic = false) :
    t = want.storage := by
  rw [← Ty.storage_eq_of_conformsTo ht hw hconf hstatic]
  exact ((throughout_iff.1 h).1 t hrecorded).symm

/-- Whether a value is converted to a type, and left as it is if neither the type
leaves something to the data nor the value has optional marks. -/
structure Suits (v : Value) (want : Ty) : Prop where
  convertible : ∃ result, convert want v = .ok result
  settled : want.hasDynamic = false → v.Unmarked → v.Settled want

theorem Settled.suits
    {v : Value} {want : Ty} (h : v.Settled want) :
    v.Suits want :=
  ⟨⟨v, h⟩, fun _ _ => h⟩

-- The equations are derived here once, before the proofs that all unfold them.
attribute [local simp] convert

theorem StandsFor.suits
    {v : Value} {want : Ty} (hw : want.WellFormed) (hv : v.WellFormed) (h : v.StandsFor want) :
    v.Suits want := by
  obtain ⟨t, hconf, rfl | rfl⟩ := h
  · constructor
    · cases want <;> simp
    · intro hstatic hunmarked
      rw [hunmarked.recorded_eq rfl hv hw hconf hstatic]
      exact settled_null want
  · constructor
    · cases want <;> simp
    · intro hstatic hunmarked
      rw [hunmarked.recorded_eq rfl hv hw hconf hstatic]
      exact settled_unknown want

namespace Suits

/-- Where the type leaves something to the data, to suit it is to be converted. -/
theorem of_hasDynamic
    {v : Value} {want : Ty} (hd : want.hasDynamic = true)
    (h : ∃ result, convert want v = .ok result) :
    v.Suits want := by
  refine ⟨h, fun hstatic => ?_⟩
  rw [hd] at hstatic
  cases hstatic

variable {t e : Ty} (hconf : t.conformsTo e = true) (ht : t.WellFormed) (he : e.WellFormed)

theorem exists_convertEach
    {elements : List Value} (h : ∀ c ∈ elements, c.Suits e) :
    ∃ ws, convertEach (convert e) 0 elements = .ok ws := by
  simp only [convertEach_eq_ok_iff, exists_forall₂_iff]
  exact fun c hc => (h c hc).convertible

include hconf ht he

theorem list
    {elements : List Value} (h : ∀ c ∈ elements, c.Suits e) :
    (Value.list t elements).Suits (.list e) := by
  constructor
  · obtain ⟨ws, hws⟩ := exists_convertEach h
    exact ⟨.list e.storage ws, by simp only [convert, hws]; rfl⟩
  · intro hstatic hunmarked
    rw [hunmarked.recorded_eq rfl ht he hconf hstatic]
    exact .list fun c hc => (h c hc).settled hstatic (hunmarked.components c hc)

theorem set
    {elements : List Value} (hs : Ascending elements) (h : ∀ c ∈ elements, c.Suits e) :
    (Value.set t elements).Suits (.set e) := by
  constructor
  · obtain ⟨ws, hws⟩ := exists_convertEach h
    exact ⟨setOf e.storage ws, by simp only [convert, hws]; rfl⟩
  · intro hstatic hunmarked
    rw [hunmarked.recorded_eq rfl ht he hconf hstatic]
    exact .set hs fun c hc => (h c hc).settled hstatic (hunmarked.components c hc)

theorem map
    {entries : Fields Value} (h : ∀ entry ∈ entries, entry.2.Suits e) :
    (Value.map t entries).Suits (.map e) := by
  constructor
  · have hentries : ∃ ws, convertEntries (convert e) entries = .ok ws := by
      simp only [convertEntries_eq_ok_iff, Fields.Paired, exists_forall₂_iff]
      intro entry hentry
      obtain ⟨w, hw⟩ := (h entry hentry).convertible
      exact ⟨(entry.1, w), rfl, hw⟩
    obtain ⟨ws, hws⟩ := hentries
    exact ⟨.map e.storage ws, by simp only [convert, hws]; rfl⟩
  · intro hstatic hunmarked
    rw [hunmarked.recorded_eq rfl ht he hconf hstatic]
    refine .map fun entry hentry => (h entry hentry).settled hstatic ?_
    exact hunmarked.components entry.2 (List.mem_map_of_mem hentry)

omit hconf ht he

theorem tuple
    {elements : List Value} {types : List Ty} (h : List.Forall₂ Suits elements types) :
    (Value.tuple elements).Suits (.tuple types) := by
  constructor
  · have helements : ∃ ws, convertElements 0 types elements = .ok ws := by
      simp only [convertElements_eq_ok_iff, exists_forall₂_iff]
      rintro ⟨t, c⟩ hmem
      exact (List.forall₂_zip h.flip hmem).convertible
    obtain ⟨ws, hws⟩ := helements
    exact ⟨.tuple ws, by simp only [convert, tupleOfConverted, h.length_eq, if_true, hws]; rfl⟩
  · intro hstatic hunmarked
    have hstatics := Ty.hasDynamic_of_mem_tuple hstatic
    refine .tuple (forall₂_imp_of_mem h ?_)
    exact fun c hc t ht hct => hct.settled (hstatics t ht) (hunmarked.components c hc)

theorem object
    {entries : Fields Value} {wants : Fields Ty} {optional : List String}
    (hw : Fields.Sorted wants) (h : Fields.Paired Suits entries wants) :
    (Value.object entries).Suits (.object wants optional) := by
  constructor
  · have hattributes : ∃ ws, convertAttributes optional entries wants = .ok ws := by
      simp only [convertAttributes_eq_ok_iff, exists_forall₂_iff]
      intro a ha
      obtain ⟨v, hentry, hsuits⟩ := h.flip.exists_get? (hw.get?_eq_some_iff.2 ha)
      obtain ⟨w, hconvert⟩ := hsuits.convertible
      exact ⟨(a.1, w), rfl, Or.inl ⟨v, hentry, hconvert⟩⟩
    obtain ⟨ws, hws⟩ := hattributes
    exact ⟨.object ws, convert_object_of_names h.names_eq hws⟩
  · intro hstatic hunmarked
    have hstatics := Ty.hasDynamic_of_mem_object hstatic
    refine .object hw (forall₂_imp_of_mem h ?_)
    rintro c hc a ha ⟨hname, hsuits⟩
    refine ⟨hname, hsuits.settled (hstatics a ha) ?_⟩
    exact hunmarked.components c.2 (List.mem_map_of_mem hc)

end Suits

/-- A value without absent parts suits every type that it conforms to. -/
theorem suits_of_conformsTo
    {want : Ty} (hw : want.WellFormed) {v : Value} (hv : v.WellFormed)
    (hpresent : v.Throughout fun part => part.isNoValue = false)
    (h : v.conformsTo want = true) :
    v.Suits want := by
  induction want using Ty.induction generalizing v with
  | dynamic => exact (settled_dynamic (throughout_iff.1 hpresent).1).suits
  | bool =>
      rcases conformsTo_bool h with hs | ⟨b, rfl⟩
      · exact hs.suits hw hv
      · exact Settled.suits rfl
  | number =>
      rcases conformsTo_number h with hs | ⟨n, rfl⟩
      · exact hs.suits hw hv
      · exact Settled.suits rfl
  | string =>
      rcases conformsTo_string h with hs | ⟨s, rfl⟩
      · exact hs.suits hw hv
      · exact Settled.suits rfl
  | list e ih =>
      rcases conformsTo_list h with hs | ⟨rfl, hd⟩ | ⟨t, elements, rfl, hconf, helements⟩
      · exact hs.suits hw hv
      · exact .of_hasDynamic hd ⟨.list e.storage [], rfl⟩
      · refine .list hconf hv.1 hw fun c hc => ?_
        exact ih hw (hv.components c hc) ((throughout_iff.1 hpresent).2 c hc) (helements c hc)
  | set e ih =>
      rcases conformsTo_set h with hs | ⟨rfl, hd⟩ | ⟨t, elements, rfl, hconf, helements⟩
      · exact hs.suits hw hv
      · exact .of_hasDynamic hd ⟨.set e.storage [], rfl⟩
      · refine .set hconf hv.1 hw hv.2.1 fun c hc => ?_
        exact ih hw (hv.components c hc) ((throughout_iff.1 hpresent).2 c hc) (helements c hc)
  | map e ih =>
      rcases conformsTo_map h with hs | ⟨rfl, hd⟩ | ⟨t, entries, rfl, hconf, hentries⟩
      · exact hs.suits hw hv
      · exact .of_hasDynamic hd ⟨.map e.storage [], rfl⟩
      · refine .map hconf hv.1 hw fun entry hentry => ?_
        have hc : entry.2 ∈ (Value.map t entries).components := List.mem_map_of_mem hentry
        exact ih hw (hv.components _ hc) ((throughout_iff.1 hpresent).2 _ hc)
          (hentries entry hentry)
  | tuple types ih =>
      rcases conformsTo_tuple h with hs | ⟨elements, rfl, helements⟩
      · exact hs.suits hw hv
      · simp only [Ty.WellFormed, Ty.allWellFormed_iff] at hw
        refine .tuple (forall₂_imp_of_mem helements fun c hc t ht => ?_)
        exact ih t ht (hw t ht) (hv.components c hc) ((throughout_iff.1 hpresent).2 c hc)
  | object wants optional ih =>
      rcases conformsTo_object h with hs | ⟨entries, rfl⟩
      · exact hs.suits hw hv
      · simp only [Ty.WellFormed, Ty.attributesWellFormed_iff] at hw
        obtain ⟨hsorted, -, -, htypes⟩ := hw
        have hentries := (object_conformsTo_iff hv.1 hsorted).1 h
        refine .object hsorted (forall₂_imp_of_mem hentries ?_)
        rintro entry hentry a ha ⟨hname, hconf⟩
        have hc : entry.2 ∈ (Value.object entries).components := List.mem_map_of_mem hentry
        exact ⟨hname, ih a ha (htypes a ha) (hv.components _ hc)
          ((throughout_iff.1 hpresent).2 _ hc) hconf⟩

end Conforming

/-- What a conversion yields conforms to the storage type of what was wanted, has
exactly that type unless something is left to the data, and is left as it is by the
same conversion. -/
theorem conversion_sound_idempotent
    (want : Ty) (hw : want.WellFormed) (v result : Value) (h : convert want v = .ok result) :
    result.conformsTo want.storage = true ∧
      (want.hasDynamic = false → result.type = want.storage) ∧
      convert want result = .ok result := by
  have hfits := convert_fits hw h
  refine ⟨hfits.conforms, ?_, convert_settled hw h⟩
  intro hstatic
  exact hfits.exact_type (by rw [Ty.hasDynamic_storage, hstatic])

/-- The type of remarks with a note that may be left out. -/
def remarkType : Ty :=
  .object [("note", .string)] ["note"]

/-- A remark that is null and one that has no note. -/
def remarks : Value :=
  .list remarkType.storage [.null remarkType.storage, .object [("note", .null .string)]]

theorem wellFormed_list_remarkType :
    (Ty.list remarkType).WellFormed := by
  simp [remarkType, Ty.WellFormed, Ty.AttributesWellFormed, Fields.Sorted, Fields.names]

theorem conversion_sound_idempotent_remarks :
    convert (.list remarkType) (.tuple [.null .dynamic, emptyObject]) = .ok remarks ∧
      remarks.conformsTo (.list remarkType.storage) = true ∧
      remarks.type = .list remarkType.storage ∧
      convert (.list remarkType) remarks = .ok remarks := by
  have hconvert :
      convert (.list remarkType) (.tuple [.null .dynamic, emptyObject]) = .ok remarks := by rfl
  obtain ⟨hconforms, htype, hsettled⟩ := conversion_sound_idempotent (.list remarkType)
    wellFormed_list_remarkType (.tuple [.null .dynamic, emptyObject]) remarks hconvert
  exact ⟨hconvert, hconforms, htype rfl, hsettled⟩

/-- A value without absent parts is converted to every type that it conforms to, and
left as it is there if the type leaves nothing to the data and the types that the value
records have no optional marks. -/
theorem conforming_converts_unchanged
    (want : Ty) (hw : want.WellFormed) (v : Value) (hv : v.WellFormed)
    (hpresent : v.Throughout fun part => part.isNoValue = false)
    (h : v.conformsTo want = true) :
    (∃ result, convert want v = .ok result) ∧
      (want.hasDynamic = false → v.Unmarked → convert want v = .ok v) := by
  obtain ⟨hconvertible, hsettled⟩ := suits_of_conformsTo hw hv hpresent h
  exact ⟨hconvertible, hsettled⟩

theorem conforming_converts_unchanged_remarks :
    remarks.WellFormed ∧ remarks.conformsTo (.list remarkType) = true ∧ remarks.Unmarked ∧
      convert (.list remarkType) remarks = .ok remarks := by
  have hwell : remarks.WellFormed := by
    simp [remarks, remarkType, WellFormed, AllWellFormed, EntriesWellFormed, Ty.storage,
      Ty.storageAttributes, Ty.WellFormed, Ty.AttributesWellFormed, Fields.Sorted]
  have hnull : ∀ {P : Value → Prop} {t : Ty}, P (.null t) → (Value.null t).Throughout P :=
    fun h => throughout_iff.2 ⟨h, List.forall_mem_nil _⟩
  have hparts : ∀ {P : Value → Prop}, P remarks → (∀ t : Ty, t.storage = t → P (.null t)) →
      P (.object [("note", .null .string)]) → remarks.Throughout P := by
    intro P hlist hnulls hobject
    have hremark : (Value.object [("note", .null .string)]).Throughout P :=
      throughout_iff.2 ⟨hobject, List.forall_mem_singleton.2 (hnull (hnulls .string rfl))⟩
    refine throughout_iff.2 ⟨hlist, List.forall_mem_cons.2 ⟨?_, ?_⟩⟩
    · exact hnull (hnulls remarkType.storage rfl)
    · exact List.forall_mem_singleton.2 hremark
  have hpresent : remarks.Throughout fun part => part.isNoValue = false :=
    hparts rfl (fun _ _ => rfl) rfl
  have hunmarked : remarks.Unmarked := by
    refine hparts ?_ ?_ ?_
    · rintro t ⟨⟩
      rfl
    · rintro t ht _ ⟨⟩
      exact ht
    · rintro t ⟨⟩
  have hconforms : remarks.conformsTo (.list remarkType) = true := by rfl
  obtain ⟨-, hunchanged⟩ := conforming_converts_unchanged (.list remarkType)
    wellFormed_list_remarkType remarks hwell hpresent hconforms
  exact ⟨hwell, hconforms, hunmarked, hunchanged rfl hunmarked⟩

end Value
end TypedConfig
