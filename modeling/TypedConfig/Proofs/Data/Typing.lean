import TypedConfig.Proofs.Data.Reading
import TypedConfig.Proofs.Value.Conformance
import TypedConfig.Proofs.Value.Form

/-!
# What data is read as

Data that is read as a value of a type gives a value of that type.  The value
and its type conform to what was wanted; no part of it is unknown or absent; and
the elements of every collection in it conform to the element type that the
collection records.
-/

namespace TypedConfig

namespace Value

section Read

/-- Whether the elements of a list, set or map conform to the element type that
it records. -/
def Homogeneous : Value → Prop
  | .list e elements | .set e elements => ∀ w ∈ elements, w.conformsTo e = true
  | .map e entries => ∀ entry ∈ entries, entry.2.conformsTo e = true
  | _ => True

/-- A part of a value as it is read from data: not unknown, not absent, and
with elements of the type it records. -/
structure Sound (v : Value) : Prop where
  known : v.isUnknown = false
  present : v.isNoValue = false
  homogeneous : v.Homogeneous

theorem Sound.throughout
    {v : Value} (h : v.Sound) (hnone : v.components = []) :
    v.Throughout Sound := by
  rw [throughout_iff, hnone]
  exact ⟨h, List.forall_mem_nil _⟩

/-- What holds of a value that is read from data as a value of a type. -/
structure ReadAs (v : Value) (want : Ty) : Prop where
  conforms : v.conformsTo want = true
  type_conforms : v.type.conformsTo want = true
  wellFormed_type : v.type.WellFormed
  sound : v.Throughout Sound

namespace ReadAs

variable {v : Value} {want e : Ty} {elements : List Value} {types : List Ty}
  {entries : Fields Value} {wants : Fields Ty}

theorem dynamic
    (h : v.ReadAs want) :
    v.ReadAs .dynamic :=
  ⟨conformsTo_dynamic v, Ty.conformsTo_dynamic _, h.wellFormed_type, h.sound⟩

theorem null
    (hw : want.WellFormed) :
    (Value.null want).ReadAs want := by
  refine ⟨?_, Ty.conformsTo_self hw, hw, ?_⟩
  · rw [null_conformsTo, Ty.conformsTo_self hw]
  · exact Sound.throughout ⟨rfl, rfl, trivial⟩ rfl

theorem bool
    (b : Bool) :
    (Value.bool b).ReadAs .bool :=
  ⟨rfl, rfl, trivial, Sound.throughout ⟨rfl, rfl, trivial⟩ rfl⟩

theorem number
    (n : Decimal) :
    (Value.number n).ReadAs .number :=
  ⟨rfl, rfl, trivial, Sound.throughout ⟨rfl, rfl, trivial⟩ rfl⟩

theorem string
    (s : String) :
    (Value.string s).ReadAs .string :=
  ⟨rfl, rfl, trivial, Sound.throughout ⟨rfl, rfl, trivial⟩ rfl⟩

theorem list
    (he : e.WellFormed) (h : ∀ w ∈ elements, w.ReadAs e) :
    (Value.list e elements).ReadAs (.list e) := by
  have hconforms : ∀ w ∈ elements, w.conformsTo e = true := fun w hw => (h w hw).conforms
  have hself := Ty.conformsTo_self he
  refine ⟨list_conformsTo_iff.2 ⟨hself, hconforms⟩, Ty.conformsTo_self (t := .list e) he, he, ?_⟩
  exact throughout_iff.2 ⟨⟨rfl, rfl, hconforms⟩, fun w hw => (h w hw).sound⟩

theorem set
    (he : e.WellFormed) (h : ∀ w ∈ elements, w.ReadAs e) :
    (setOf e elements).ReadAs (.set e) := by
  have helements : ∀ w ∈ setElements elements, w.ReadAs e := by
    intro w hw
    exact h w ((mem_setElements w elements).1 hw)
  have hconforms : ∀ w ∈ setElements elements, w.conformsTo e = true :=
    fun w hw => (helements w hw).conforms
  have hself := Ty.conformsTo_self he
  refine ⟨set_conformsTo_iff.2 ⟨hself, hconforms⟩, Ty.conformsTo_self (t := .set e) he, he, ?_⟩
  exact throughout_iff.2 ⟨⟨rfl, rfl, hconforms⟩, fun w hw => (helements w hw).sound⟩

theorem map
    (he : e.WellFormed) (h : ∀ entry ∈ entries, entry.2.ReadAs e) :
    (Value.map e entries).ReadAs (.map e) := by
  have hconforms : ∀ entry ∈ entries, entry.2.conformsTo e = true :=
    fun entry hentry => (h entry hentry).conforms
  have hself := Ty.conformsTo_self he
  refine ⟨map_conformsTo_iff.2 ⟨hself, hconforms⟩, Ty.conformsTo_self (t := .map e) he, he, ?_⟩
  refine throughout_iff.2 ⟨⟨rfl, rfl, hconforms⟩, ?_⟩
  exact List.forall_mem_map.2 fun entry hentry => (h entry hentry).sound

/-- Elements of any types make a tuple of those types. -/
theorem tuple_of
    (hconforms : (Value.tuple elements).conformsTo want = true)
    (htype : (Value.tuple elements).type.conformsTo want = true)
    (h : ∀ w ∈ elements, w.ReadAs .dynamic) :
    (Value.tuple elements).ReadAs want := by
  refine ⟨hconforms, htype, ?_, ?_⟩
  · rw [type, types_eq_map, Ty.WellFormed, Ty.allWellFormed_iff, List.forall_mem_map]
    exact fun w hw => (h w hw).wellFormed_type
  · exact throughout_iff.2 ⟨⟨rfl, rfl, trivial⟩, fun w hw => (h w hw).sound⟩

theorem tuple
    (h : List.Forall₂ ReadAs elements types) :
    (Value.tuple elements).ReadAs (.tuple types) := by
  have helements : ∀ w ∈ elements, w.ReadAs .dynamic := by
    induction h with
    | nil => exact List.forall_mem_nil _
    | cons hw _ ih => exact List.forall_mem_cons.2 ⟨hw.dynamic, ih⟩
  refine tuple_of (tuple_conformsTo_iff.2 (h.imp fun _ _ hw => hw.conforms)) ?_ helements
  rw [type, types_eq_map, Ty.conformsTo_tuple_iff, List.forall₂_map_left_iff]
  exact h.imp fun _ _ hw => hw.type_conforms

/-- Attributes of any types make an object of those types. -/
theorem object_of
    (hs : Fields.Sorted entries)
    (hconforms : (Value.object entries).conformsTo want = true)
    (htype : (Value.object entries).type.conformsTo want = true)
    (h : ∀ entry ∈ entries, entry.2.ReadAs .dynamic) :
    (Value.object entries).ReadAs want := by
  refine ⟨hconforms, htype, ?_, ?_⟩
  · rw [type, attributeTypes_eq_mapValues]
    refine Ty.wellFormed_object (Fields.sorted_mapValues _ hs) ?_
    exact List.forall_mem_map.2 fun entry hentry => (h entry hentry).wellFormed_type
  · refine throughout_iff.2 ⟨⟨rfl, rfl, trivial⟩, ?_⟩
    exact List.forall_mem_map.2 fun entry hentry => (h entry hentry).sound

theorem object
    {optional : List String} (hw : Fields.Sorted wants)
    (h : Fields.Paired ReadAs entries wants) :
    (Value.object entries).ReadAs (.object wants optional) := by
  have hs : Fields.Sorted entries := h.sorted_iff.2 hw
  have hentries : ∀ entry ∈ entries, entry.2.ReadAs .dynamic := by
    clear hs hw
    induction h with
    | nil => exact List.forall_mem_nil _
    | cons hv _ ih => exact List.forall_mem_cons.2 ⟨hv.2.dynamic, ih⟩
  refine object_of hs ?_ ?_ hentries
  · rw [object_conformsTo_iff hs hw]
    exact List.Forall₂.imp (fun _ _ hv => ⟨hv.1, hv.2.conforms⟩) h
  · rw [type, attributeTypes_eq_mapValues,
      Ty.conformsTo_object_iff (Fields.sorted_mapValues _ hs) hw, Fields.Paired,
      Fields.mapValues, List.forall₂_map_left_iff]
    exact List.Forall₂.imp (fun _ _ hv => ⟨hv.1, hv.2.type_conforms⟩) h

/-- Nothing is unknown in what is read. -/
theorem isWhollyKnown
    (h : v.ReadAs want) :
    v.isWhollyKnown = true := by
  rw [isWhollyKnown_iff_throughout]
  exact fun part hpart => (h.sound part hpart).known

end ReadAs

end Read

/-- What is read as a value of a type has that type. -/
theorem readAs_closedUnderReading :
    ClosedUnderReading fun _ want v => v.ReadAs want where
  null := fun _ _ _ hw => ReadAs.null hw
  bool := by
    rintro _ _ b _ (rfl | rfl)
    · exact ReadAs.bool b
    · exact (ReadAs.bool b).dynamic
  number := by
    rintro _ _ n _ (rfl | rfl)
    · exact ReadAs.number n
    · exact (ReadAs.number n).dynamic
  string := by
    rintro _ _ s _ (rfl | rfl)
    · exact ReadAs.string s
    · exact (ReadAs.string s).dynamic
  list := fun _ _ _ _ he h => ReadAs.list he h
  set := fun _ _ _ _ he h => ReadAs.set he h
  map := fun _ _ _ _ he _ h => ReadAs.map he h
  tuple := fun _ _ _ _ h => ReadAs.tuple h
  object := fun _ _ _ _ _ hs h => ReadAs.object hs h
  dynamicTuple := fun _ _ _ h =>
    ReadAs.tuple_of (conformsTo_dynamic _) (Ty.conformsTo_dynamic _) h
  dynamicObject := fun _ _ _ hs h =>
    ReadAs.object_of hs (conformsTo_dynamic _) (Ty.conformsTo_dynamic _) h

/-- What is read as a value of a type has that type in all its parts, and has
no parts that are unknown or absent. -/
theorem ofData_typed
    (want : Ty) (hw : want.WellFormed) (d : Data) (v : Value) (h : ofData want d = .ok v) :
    v.conformsTo want = true ∧
      v.type.conformsTo want = true ∧
      (∀ part : Value, part.PartOf v → part.isUnknown = false ∧ part.isNoValue = false) ∧
      (∀ part : Value, part.PartOf v → part.Homogeneous) ∧
      (want.hasDynamic = false → v.type.storage = want.storage) := by
  have hread : v.ReadAs want := readAs_closedUnderReading.holdsOfRead d 0 want v hw h
  refine ⟨hread.conforms, hread.type_conforms, ?_, ?_, ?_⟩
  · intro part hpart
    exact ⟨(hread.sound part hpart).known, (hread.sound part hpart).present⟩
  · intro part hpart
    exact (hread.sound part hpart).homogeneous
  · exact Ty.storage_eq_of_conformsTo hread.wellFormed_type hw hread.type_conforms

/-- An object with a set of strings. -/
def tagsType : Ty :=
  .object [("tags", .set .string)] []

/-- A mapping that sets one attribute twice, the second time with an item that
occurs twice. -/
def repeatedTags : Data :=
  .mapping
    [(.string "tags", .null),
      (.string "tags", .sequence [.string "b", .string "a", .string "b"])]

theorem ofData_typed_repeatedTags :
    ∃ v, ofData tagsType repeatedTags = .ok v ∧
      v = .object [("tags", .set .string [.string "a", .string "b"])] ∧
      v.conformsTo tagsType = true ∧ v.type.storage = tagsType.storage := by
  have hw : tagsType.WellFormed := by
    refine Ty.wellFormed_object (List.pairwise_singleton _ _) ?_
    rw [List.forall_mem_singleton]
    trivial
  have hread :
      ofData tagsType repeatedTags =
        .ok (.object [("tags", .set .string [.string "a", .string "b"])]) := by
    rfl
  obtain ⟨hconforms, -, -, -, hstorage⟩ := ofData_typed tagsType hw repeatedTags _ hread
  exact ⟨_, hread, rfl, hconforms, hstorage (by decide)⟩

end Value
end TypedConfig
