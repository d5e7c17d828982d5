import TypedConfig.Proofs.Data.Reading
import TypedConfig.Proofs.Ty.Conformance
import TypedConfig.Value.Generic

/-!
# Reading at a wider type

Data that is read as a value of a type is read as well as a value of every type that
the type conforms to, and so always where the type is dynamic.  The two values are
not the same: lists become tuples, maps become objects and nulls change their type.
Their JSON is the same, unless the type has sets in it, which sort their elements and
merge equal ones.

What a type asks of a sequence or of a mapping is stated here apart from the reading:
`TakesItems` and `TakesEntries` say of which types the parts are, and what is made of
them.  A wider type asks no more of the parts than the type does.
-/

namespace TypedConfig

namespace Ty

section Sets

mutual

/-- Whether a set type occurs anywhere in a type. -/
def hasSet : Ty → Bool
  | .set _ => true
  | .bool | .number | .string | .dynamic => false
  | .list e | .map e => e.hasSet
  | .tuple elements => anySet elements
  | .object attributes _ => anyAttributeSet attributes

/-- Whether a set type occurs in any of the elements. -/
def anySet : List Ty → Bool
  | [] => false
  | t :: rest => t.hasSet || anySet rest

/-- Whether a set type occurs in any of the attributes. -/
def anyAttributeSet : List (String × Ty) → Bool
  | [] => false
  | (_, t) :: rest => t.hasSet || anyAttributeSet rest

end

theorem anySet_eq_false_iff
    {elements : List Ty} :
    anySet elements = false ↔ ∀ t ∈ elements, t.hasSet = false := by
  induction elements with
  | nil => simp [anySet]
  | cons t rest ih => simp [anySet, ih]

theorem anyAttributeSet_eq_false_iff
    {attributes : Fields Ty} :
    anyAttributeSet attributes = false ↔ ∀ a ∈ attributes, a.2.hasSet = false := by
  induction attributes with
  | nil => simp [anyAttributeSet]
  | cons a rest ih => simp [anyAttributeSet, ih]

end Sets

section Parts

/-- Whether a type takes sequences of a length: their items are of the listed types,
and a value is made of what is read from them. -/
inductive TakesItems : Ty → Nat → List Ty → (List Value → Value) → Prop where
  | list (e : Ty) (n : Nat) : TakesItems (.list e) n (List.replicate n e) (.list e)
  | set (e : Ty) (n : Nat) : TakesItems (.set e) n (List.replicate n e) (Value.setOf e)
  | tuple (types : List Ty) : TakesItems (.tuple types) types.length types .tuple
  | dynamic (n : Nat) : TakesItems .dynamic n (List.replicate n .dynamic) .tuple

/-- Whether a type takes mappings: their contents are of the types at their names,
some names have to be there, and a value is made of what is read. -/
inductive TakesEntries : Ty → (String → Option Ty) → List String → (Fields Value → Value) →
    Prop where
  | map (e : Ty) : TakesEntries (.map e) (fun _ => some e) [] (.map e)
  | object (wants : Fields Ty) (optional : List String) :
      TakesEntries (.object wants optional) (Fields.get? · wants) (Fields.names wants) .object
  | dynamic : TakesEntries .dynamic (fun _ => some .dynamic) [] .object

variable {a b : Ty}

theorem forall₂_conformsTo_replicate
    {types : List Ty} {f : Ty} (h : ∀ t ∈ types, t.conformsTo f = true) :
    List.Forall₂ (fun s t => s.conformsTo t = true) types (List.replicate types.length f) := by
  induction types with
  | nil => exact .nil
  | cons t rest ih =>
      obtain ⟨hhead, hrest⟩ := List.forall_mem_cons.1 h
      exact .cons hhead (ih hrest)

/-- A sequence of items of one type is one of items of each type that this type
conforms to. -/
theorem forall₂_conformsTo_replicate_replicate
    {e f : Ty} (h : e.conformsTo f = true) (n : Nat) :
    List.Forall₂ (fun s t => s.conformsTo t = true) (List.replicate n e) (List.replicate n f) := by
  have hall : ∀ t ∈ List.replicate n e, t.conformsTo f = true := by
    intro t ht
    rwa [List.eq_of_mem_replicate ht]
  have hitems := forall₂_conformsTo_replicate hall
  rwa [List.length_replicate] at hitems

/-- A wider type takes the same sequences, their items being of wider types. -/
theorem TakesItems.widen
    {n : Nat} {types : List Ty} {make : List Value → Value} (h : a.TakesItems n types make)
    (hconf : a.conformsTo b = true) :
    ∃ types' make', b.TakesItems n types' make' ∧
      List.Forall₂ (fun s t => s.conformsTo t = true) types types' := by
  cases h with
  | list e =>
      cases b with
      | list f =>
          rw [conformsTo] at hconf
          exact ⟨_, _, .list f n, forall₂_conformsTo_replicate_replicate hconf n⟩
      | dynamic =>
          have hitems := conformsTo_dynamic e
          exact ⟨_, _, .dynamic n, forall₂_conformsTo_replicate_replicate hitems n⟩
      | _ => simp [conformsTo] at hconf
  | set e =>
      cases b with
      | set f =>
          rw [conformsTo] at hconf
          exact ⟨_, _, .set f n, forall₂_conformsTo_replicate_replicate hconf n⟩
      | dynamic =>
          have hitems := conformsTo_dynamic e
          exact ⟨_, _, .dynamic n, forall₂_conformsTo_replicate_replicate hitems n⟩
      | _ => simp [conformsTo] at hconf
  | tuple =>
      cases b with
      | tuple wants =>
          rw [conformsTo_tuple_iff] at hconf
          exact ⟨wants, .tuple, hconf.length_eq ▸ .tuple wants, hconf⟩
      | dynamic =>
          refine ⟨_, _, .dynamic _, forall₂_conformsTo_replicate ?_⟩
          exact fun t _ => conformsTo_dynamic t
      | _ => simp [conformsTo] at hconf
  | dynamic =>
      rw [dynamic_conformsTo_iff] at hconf
      subst hconf
      exact ⟨_, _, .dynamic n, forall₂_conformsTo_replicate_replicate rfl n⟩

/-- A wider type takes the same mappings, their contents being of wider types, and
asks for no further names. -/
theorem TakesEntries.widen
    {typeOf : String → Option Ty} {required : List String} {make : Fields Value → Value}
    (h : a.TakesEntries typeOf required make) (hconf : a.conformsTo b = true) :
    ∃ typeOf' required' make', b.TakesEntries typeOf' required' make' ∧
      (∀ name t, typeOf name = some t → ∃ t', typeOf' name = some t' ∧ t.conformsTo t' = true) ∧
        ∀ name ∈ required', name ∈ required := by
  cases h with
  | map e =>
      cases b with
      | map f =>
          rw [conformsTo] at hconf
          refine ⟨_, _, _, .map f, ?_, fun _ hname => hname⟩
          rintro name t ⟨⟩
          exact ⟨f, rfl, hconf⟩
      | dynamic =>
          refine ⟨_, _, _, .dynamic, ?_, fun _ hname => hname⟩
          exact fun name t _ => ⟨.dynamic, rfl, conformsTo_dynamic t⟩
      | _ => simp [conformsTo] at hconf
  | object wants =>
      cases b with
      | object wants' optional' =>
          simp only [conformsTo, Bool.and_eq_true, List.all_eq_true, Fields.contains,
            Fields.get?_isSome_iff, attributesConform_iff] at hconf
          refine ⟨_, _, _, .object wants' optional', ?_, hconf.1⟩
          exact fun name t ht => hconf.2 (name, t) (Fields.mem_of_get? ht)
      | dynamic =>
          refine ⟨_, _, _, .dynamic, ?_, List.forall_mem_nil _⟩
          exact fun name t _ => ⟨.dynamic, rfl, conformsTo_dynamic t⟩
      | _ => simp [conformsTo] at hconf
  | dynamic =>
      rw [dynamic_conformsTo_iff] at hconf
      subst hconf
      exact ⟨_, _, _, .dynamic, fun name t ht => ⟨t, ht, by cases ht; rfl⟩, fun _ hname => hname⟩

/-- Above a scalar type there is only itself and the dynamic type. -/
theorem scalar_of_conformsTo
    {t : Ty} (ht : t.isPrimitive = true) (ha : a = t ∨ a = .dynamic)
    (hconf : a.conformsTo b = true) :
    b = t ∨ b = .dynamic := by
  rcases ha with rfl | rfl
  · cases a <;> cases b <;> simp_all [conformsTo, isPrimitive]
  · exact Or.inr (dynamic_conformsTo_iff.1 hconf)

theorem ne_set_of_hasSet_eq_false
    (hset : a.hasSet = false) (e : Ty) :
    a ≠ .set e := by
  rintro rfl
  cases hset

/-- Nothing but a set type conforms to a set type. -/
theorem ne_set_of_conformsTo
    (hconf : a.conformsTo b = true) (hset : a.hasSet = false) (e : Ty) :
    b ≠ .set e := by
  rintro rfl
  cases a <;> simp [conformsTo, hasSet] at hconf hset

theorem TakesItems.hasSet_eq_false
    {n : Nat} {types : List Ty} {make : List Value → Value} (h : a.TakesItems n types make)
    (hset : a.hasSet = false) :
    ∀ t ∈ types, t.hasSet = false := by
  cases h with
  | list e =>
      intro t ht
      rw [List.eq_of_mem_replicate ht]
      exact hset
  | set e => cases hset
  | tuple => exact anySet_eq_false_iff.1 hset
  | dynamic =>
      intro t ht
      rw [List.eq_of_mem_replicate ht]
      rfl

theorem TakesEntries.hasSet_eq_false
    {typeOf : String → Option Ty} {required : List String} {make : Fields Value → Value}
    (h : a.TakesEntries typeOf required make) (hset : a.hasSet = false) :
    ∀ name t, typeOf name = some t → t.hasSet = false := by
  cases h with
  | map e =>
      rintro name t ⟨⟩
      exact hset
  | object wants =>
      intro name t ht
      exact anyAttributeSet_eq_false_iff.1 hset (name, t) (Fields.mem_of_get? ht)
  | dynamic =>
      rintro name t ⟨⟩
      rfl

end Parts

end Ty

namespace Value

-- The equations are derived here once, before the proofs that all unfold them.
attribute [local simp] ofDataAt toJson elementsToJson entriesToJson

section Reading

variable {depth : Nat} {want : Ty} {v : Value}

theorem forall₂_zip_replicate
    {items : List Data} {elements : List Value} :
    List.Forall₂ (fun part v => ofDataAt depth part.1 part.2 = .ok v)
        ((List.replicate items.length want).zip items) elements ↔
      List.Forall₂ (fun item v => ofDataAt depth want item = .ok v) items elements := by
  induction items generalizing elements with
  | nil => simp
  | cons item items ih =>
      simp only [List.length_cons, List.replicate_succ, List.zip_cons_cons,
        List.forall₂_cons_left_iff, ih]

/-- Items of one type are items of a list of types. -/
theorem within_ofItems_eq_ok_iff
    {items : List Data} {make : List Value → Value} :
    within depth ((ofItems (depth + 1) want 0 items).map make) = .ok v ↔
      depth ≤ maxDepth ∧ ∃ elements,
        List.Forall₂ (fun part v => ofDataAt (depth + 1) part.1 part.2 = .ok v)
          ((List.replicate items.length want).zip items) elements ∧ make elements = v := by
  simp only [within_eq_ok_iff, map_eq_ok_iff, ofItems_eq_ok_iff, forall₂_zip_replicate]

/-- A sequence is read if the type takes it and its items are read. -/
theorem ofDataAt_sequence_eq_ok_iff
    {items : List Data} :
    ofDataAt depth want (.sequence items) = .ok v ↔
      depth ≤ maxDepth ∧ ∃ types make, want.TakesItems items.length types make ∧
        ∃ elements,
          List.Forall₂ (fun part v => ofDataAt (depth + 1) part.1 part.2 = .ok v)
            (types.zip items) elements ∧ make elements = v := by
  constructor
  · intro h
    cases want with
    | list e =>
        rw [ofDataAt, within_ofItems_eq_ok_iff] at h
        exact ⟨h.1, _, _, .list e _, h.2⟩
    | set e =>
        rw [ofDataAt, within_ofItems_eq_ok_iff] at h
        exact ⟨h.1, _, _, .set e _, h.2⟩
    | tuple types =>
        obtain ⟨hdepth, hlength, elements, helements, rfl⟩ := ofDataAt_tuple_eq_ok_iff.1 h
        exact ⟨hdepth, types, .tuple, hlength ▸ .tuple types, elements,
          ofTupleItems_eq_ok_iff.1 helements, rfl⟩
    | dynamic =>
        rw [ofDataAt, within_ofItems_eq_ok_iff] at h
        exact ⟨h.1, _, _, .dynamic _, h.2⟩
    | _ =>
        simp only [ofDataAt, within_eq_ok_iff] at h
        cases h.2
  · rintro ⟨hdepth, types, make, htakes, helements⟩
    generalize hlength : items.length = n at htakes
    cases htakes with
    | list e =>
        subst hlength
        rw [ofDataAt, within_ofItems_eq_ok_iff]
        exact ⟨hdepth, helements⟩
    | set e =>
        subst hlength
        rw [ofDataAt, within_ofItems_eq_ok_iff]
        exact ⟨hdepth, helements⟩
    | tuple =>
        obtain ⟨elements, helements, rfl⟩ := helements
        exact ofDataAt_tuple_eq_ok_iff.2
          ⟨hdepth, hlength, elements, ofTupleItems_eq_ok_iff.2 helements, rfl⟩
    | dynamic =>
        subst hlength
        rw [ofDataAt, within_ofItems_eq_ok_iff]
        exact ⟨hdepth, helements⟩

/-- Where all entries are of one type no name has to be there. -/
theorem within_ofEntries_eq_ok_iff
    {step : String → PathStep} {entries : List (Key × Data)} {make : Fields Value → Value} :
    within depth ((ofEntries (depth + 1) step want [] entries).map make) = .ok v ↔
      depth ≤ maxDepth ∧ ∃ members : Fields Value,
        List.Forall₂ (ReadAsMember (depth + 1) fun _ => some want) entries members ∧
          (∀ name ∈ ([] : List String), name ∈ Fields.names (Fields.ofList members)) ∧
            make (Fields.ofList members) = v := by
  simp [within_eq_ok_iff, map_eq_ok_iff, ofEntries_eq_ok_iff, Fields.ofList]

/-- A mapping is read if the type takes it, its contents are read, and the names that
have to be there are. -/
theorem ofDataAt_mapping_eq_ok_iff
    {entries : List (Key × Data)} :
    ofDataAt depth want (.mapping entries) = .ok v ↔
      depth ≤ maxDepth ∧ ∃ typeOf required make, want.TakesEntries typeOf required make ∧
        ∃ members : Fields Value,
          List.Forall₂ (ReadAsMember (depth + 1) typeOf) entries members ∧
            (∀ name ∈ required, name ∈ Fields.names (Fields.ofList members)) ∧
              make (Fields.ofList members) = v := by
  constructor
  · intro h
    cases want with
    | map e =>
        rw [ofDataAt, within_ofEntries_eq_ok_iff] at h
        exact ⟨h.1, _, _, _, .map e, h.2⟩
    | object wants optional =>
        rw [ofDataAt_object_eq_ok_iff] at h
        simp only [ofAttributes_eq_ok_iff] at h
        obtain ⟨hdepth, _, ⟨members, hmembers, rfl⟩, hall, rfl⟩ := h
        exact ⟨hdepth, _, _, _, .object wants optional, members, hmembers, hall, rfl⟩
    | dynamic =>
        rw [ofDataAt, within_ofEntries_eq_ok_iff] at h
        exact ⟨h.1, _, _, _, .dynamic, h.2⟩
    | _ =>
        simp only [ofDataAt, within_eq_ok_iff] at h
        cases h.2
  · rintro ⟨hdepth, typeOf, required, make, htakes, hmembers⟩
    cases htakes with
    | map e =>
        rw [ofDataAt, within_ofEntries_eq_ok_iff]
        exact ⟨hdepth, hmembers⟩
    | object wants =>
        obtain ⟨members, hmembers, hall, rfl⟩ := hmembers
        rw [ofDataAt_object_eq_ok_iff]
        simp only [ofAttributes_eq_ok_iff]
        exact ⟨hdepth, _, ⟨members, hmembers, rfl⟩, hall, rfl⟩
    | dynamic =>
        rw [ofDataAt, within_ofEntries_eq_ok_iff]
        exact ⟨hdepth, hmembers⟩

end Reading

section SameJson

/-- Whether two values are written as the same JSON. -/
def SameJson (v w : Value) : Prop :=
  ∃ j, v.toJson = .ok j ∧ w.toJson = .ok j

theorem exists_elementsToJson
    {vs ws : List Value} (h : List.Forall₂ SameJson vs ws) :
    ∃ items, elementsToJson vs = .ok items ∧ elementsToJson ws = .ok items := by
  induction h with
  | nil => exact ⟨[], rfl, rfl⟩
  | cons hhead _ ih =>
      obtain ⟨j, hv, hw⟩ := hhead
      obtain ⟨items, hvs, hws⟩ := ih
      exact ⟨j :: items, by simp [hv, hvs, Except.map], by simp [hw, hws, Except.map]⟩

theorem exists_entriesToJson
    {vs ws : Fields Value} (h : Fields.Paired SameJson vs ws) :
    ∃ members, entriesToJson vs = .ok members ∧ entriesToJson ws = .ok members := by
  induction h with
  | nil => exact ⟨[], rfl, rfl⟩
  | @cons v w vs ws hhead _ ih =>
      obtain ⟨name, v⟩ := v
      obtain ⟨_, w⟩ := w
      obtain ⟨rfl, j, hv, hw⟩ := hhead
      obtain ⟨members, hvs, hws⟩ := ih
      exact ⟨(name, j) :: members, by simp [hv, hvs, Except.map], by simp [hw, hws, Except.map]⟩

/-- What is made of items other than a set is written as the array of them. -/
theorem toJson_of_takesItems
    {want : Ty} {n : Nat} {types : List Ty} {make : List Value → Value}
    (h : want.TakesItems n types make) (hset : ∀ e, want ≠ .set e) (elements : List Value) :
    (make elements).toJson = (elementsToJson elements).map .array := by
  cases h with
  | list e => simp
  | set e => exact absurd rfl (hset e)
  | tuple => simp
  | dynamic => simp

theorem toJson_of_takesEntries
    {want : Ty} {typeOf : String → Option Ty} {required : List String}
    {make : Fields Value → Value} (h : want.TakesEntries typeOf required make)
    (members : Fields Value) :
    (make members).toJson = (entriesToJson members).map .object := by
  cases h <;> simp

end SameJson

section Widening

/-- Whether data that is read at a type is read at every wider type, and as a value of
the same JSON unless the type has sets in it. -/
def Widens (d : Data) : Prop :=
  ∀ (depth : Nat) (a b : Ty) (v : Value),
    a.conformsTo b = true → ofDataAt depth a d = .ok v →
      ∃ w, ofDataAt depth b d = .ok w ∧ (a.hasSet = false → v.SameJson w)

variable {depth : Nat}

theorem exists_forall₂_widened
    {types wider : List Ty} (htypes : List.Forall₂ (fun s t => s.conformsTo t = true) types wider)
    {items : List Data} (hitems : ∀ item ∈ items, Widens item) {elements : List Value}
    (h : List.Forall₂ (fun part v => ofDataAt depth part.1 part.2 = .ok v) (types.zip items)
      elements) :
    ∃ others,
      List.Forall₂ (fun part v => ofDataAt depth part.1 part.2 = .ok v) (wider.zip items) others ∧
        ((∀ t ∈ types, t.hasSet = false) → List.Forall₂ SameJson elements others) := by
  induction htypes generalizing items elements with
  | nil =>
      cases h
      exact ⟨[], .nil, fun _ => .nil⟩
  | @cons s t types wider hconf _ ih =>
      cases items with
      | nil =>
          cases h
          exact ⟨[], .nil, fun _ => .nil⟩
      | cons item items =>
          cases h with
          | cons hread hrest =>
              rw [List.forall_mem_cons] at hitems
              obtain ⟨w, hw, hsame⟩ := hitems.1 depth s t _ hconf hread
              obtain ⟨others, hothers, hsames⟩ := ih hitems.2 hrest
              refine ⟨w :: others, .cons hw hothers, ?_⟩
              intro hset
              rw [List.forall_mem_cons] at hset
              exact .cons (hsame hset.1) (hsames hset.2)

theorem exists_readAsMember_widened
    {typeOf wider : String → Option Ty}
    (htypes : ∀ name s, typeOf name = some s →
      ∃ t, wider name = some t ∧ s.conformsTo t = true)
    {entries : List (Key × Data)} (hentries : ∀ entry ∈ entries, Widens entry.2)
    {members : Fields Value} (h : List.Forall₂ (ReadAsMember depth typeOf) entries members) :
    ∃ others, List.Forall₂ (ReadAsMember depth wider) entries others ∧
      ((∀ name t, typeOf name = some t → t.hasSet = false) →
        Fields.Paired SameJson members others) := by
  induction h with
  | nil => exact ⟨[], .nil, fun _ => .nil⟩
  | @cons entry member entries members hhead _ ih =>
      obtain ⟨hkey, s, hs, hread⟩ := hhead
      rw [List.forall_mem_cons] at hentries
      obtain ⟨t, ht, hconf⟩ := htypes member.1 s hs
      obtain ⟨w, hw, hsame⟩ := hentries.1 depth s t member.2 hconf hread
      obtain ⟨others, hothers, hsames⟩ := ih hentries.2
      refine ⟨(member.1, w) :: others, .cons ⟨hkey, t, ht, hw⟩ hothers, ?_⟩
      exact fun hset => .cons ⟨rfl, hsame (hset member.1 s hs)⟩ (hsames hset)

theorem widens_sequence
    {items : List Data} (hitems : ∀ item ∈ items, Widens item) :
    Widens (.sequence items) := by
  intro depth a b v hconf h
  obtain ⟨hdepth, types, make, htakes, elements, helements, rfl⟩ :=
    ofDataAt_sequence_eq_ok_iff.1 h
  obtain ⟨wider, make', htakes', htypes⟩ := htakes.widen hconf
  obtain ⟨others, hothers, hsames⟩ := exists_forall₂_widened htypes hitems helements
  refine ⟨make' others,
    ofDataAt_sequence_eq_ok_iff.2 ⟨hdepth, wider, make', htakes', others, hothers, rfl⟩, ?_⟩
  intro hset
  obtain ⟨array, hvs, hws⟩ := exists_elementsToJson (hsames (htakes.hasSet_eq_false hset))
  have hself := Ty.ne_set_of_hasSet_eq_false hset
  have hwider := Ty.ne_set_of_conformsTo hconf hset
  refine ⟨.array array, ?_, ?_⟩
  · rw [toJson_of_takesItems htakes hself, hvs, Except.map]
  · rw [toJson_of_takesItems htakes' hwider, hws, Except.map]

theorem widens_mapping
    {entries : List (Key × Data)} (hentries : ∀ entry ∈ entries, Widens entry.2) :
    Widens (.mapping entries) := by
  intro depth a b v hconf h
  obtain ⟨hdepth, typeOf, required, make, htakes, members, hmembers, hall, rfl⟩ :=
    ofDataAt_mapping_eq_ok_iff.1 h
  obtain ⟨wider, required', make', htakes', htypes, hrequired⟩ := htakes.widen hconf
  obtain ⟨others, hothers, hsames⟩ := exists_readAsMember_widened htypes hentries hmembers
  -- The names that are read are the keys, whatever the types.
  have hnames : ∀ name, name ∈ Fields.names (Fields.ofList others) ↔
      name ∈ Fields.names (Fields.ofList members) := by
    intro name
    rw [Fields.ofList, Fields.ofList, mem_names_of_readAsMember_iff hothers,
      mem_names_of_readAsMember_iff hmembers]
  have hall' : ∀ name ∈ required', name ∈ Fields.names (Fields.ofList others) :=
    fun name hname => (hnames name).2 (hall name (hrequired name hname))
  refine ⟨make' (Fields.ofList others), ofDataAt_mapping_eq_ok_iff.2
    ⟨hdepth, wider, required', make', htakes', others, hothers, hall', rfl⟩, ?_⟩
  intro hset
  have hpaired : Fields.Paired SameJson (Fields.ofList members) (Fields.ofList others) :=
    Fields.Paired.insertAll .nil (hsames (htakes.hasSet_eq_false hset))
  obtain ⟨object, hvs, hws⟩ := exists_entriesToJson hpaired
  refine ⟨.object object, ?_, ?_⟩
  · rw [toJson_of_takesEntries htakes, hvs, Except.map]
  · rw [toJson_of_takesEntries htakes', hws, Except.map]

/-- Whatever is read at a type is read at every wider one. -/
theorem widens
    (d : Data) :
    Widens d := by
  induction d using Data.induction with
  | null =>
      intro depth a b v hconf h
      rw [ofDataAt, within_eq_ok_iff] at h
      obtain ⟨hdepth, ⟨⟩⟩ := h
      exact ⟨.null b, by rw [ofDataAt, within_eq_ok_iff]; exact ⟨hdepth, rfl⟩,
        fun _ => ⟨.null, rfl, rfl⟩⟩
  | bool x =>
      intro depth a b v hconf h
      rw [ofDataAt, within_eq_ok_iff, ofBool_eq_ok_iff] at h
      obtain ⟨hdepth, ha, rfl⟩ := h
      have hb : b = .bool ∨ b = .dynamic := Ty.scalar_of_conformsTo rfl ha hconf
      refine ⟨.bool x, ?_, fun _ => ⟨.bool x, rfl, rfl⟩⟩
      rw [ofDataAt, within_eq_ok_iff, ofBool_eq_ok_iff]
      exact ⟨hdepth, hb, rfl⟩
  | number literal =>
      intro depth a b v hconf h
      rw [ofDataAt, within_eq_ok_iff, ofNumber_eq_ok_iff] at h
      obtain ⟨hdepth, ha, n, hn, rfl⟩ := h
      have hb : b = .number ∨ b = .dynamic := Ty.scalar_of_conformsTo rfl ha hconf
      refine ⟨.number n, ?_, fun _ => ⟨.number n.jsonLiteral, rfl, rfl⟩⟩
      rw [ofDataAt, within_eq_ok_iff, ofNumber_eq_ok_iff]
      exact ⟨hdepth, hb, n, hn, rfl⟩
  | string s =>
      intro depth a b v hconf h
      rw [ofDataAt, within_eq_ok_iff, ofString_eq_ok_iff] at h
      obtain ⟨hdepth, ha, rfl⟩ := h
      have hb : b = .string ∨ b = .dynamic := Ty.scalar_of_conformsTo rfl ha hconf
      refine ⟨.string s, ?_, fun _ => ⟨.string s, rfl, rfl⟩⟩
      rw [ofDataAt, within_eq_ok_iff, ofString_eq_ok_iff]
      exact ⟨hdepth, hb, rfl⟩
  | sequence items ih => exact widens_sequence ih
  | mapping entries ih => exact widens_mapping ih

end Widening

/-- Data that is read at a type is read at every type that this one conforms to, and
hence where the type is dynamic; without sets it is read as a value of the same JSON. -/
theorem ofData_widened
    (a b : Ty) (hconf : a.conformsTo b = true) (d : Data) (v : Value) (h : ofData a d = .ok v) :
    (∃ w, ofData b d = .ok w ∧
        (a.hasSet = false → ∃ j, v.toJson = .ok j ∧ w.toJson = .ok j)) ∧
      ∃ w, ofData .dynamic d = .ok w := by
  constructor
  · exact widens d 0 a b v hconf h
  · obtain ⟨w, hw, -⟩ := widens d 0 a .dynamic v (Ty.conformsTo_dynamic a) h
    exact ⟨w, hw⟩

/-- A service with its ports and the limits of its replicas. -/
def serviceType : Ty :=
  .objectOf [("limits", .map (.objectOf [("cpu", .number)])), ("ports", .list .number)]

/-- The same with the ports left to the data, and with limits of any kind. -/
def looseServiceType : Ty :=
  .objectOf [("limits", .map .dynamic), ("ports", .dynamic)]

/-- A service whose ports are given twice, with a limit that is null. -/
def service : Data :=
  .mapping
    [(.string "ports", .null), (.string "ports", .sequence [.number "80", .null]),
      (.string "limits", .mapping [(.string "web", .mapping [(.string "cpu", .number "0.5")]),
        (.string "jobs", .null)])]

theorem ofData_widened_service :
    ∃ v w j, ofData serviceType service = .ok v ∧ ofData looseServiceType service = .ok w ∧
      (v.getName "ports").type = .list .number ∧
      (w.getName "ports").type = .tuple [.number, .dynamic] ∧
      v.toJson = .ok j ∧ w.toJson = .ok j := by
  have hconf : serviceType.conformsTo looseServiceType = true := by decide
  have hread : ofData serviceType service = .ok (.object
      [("limits", .map (.objectOf [("cpu", .number)])
          [("jobs", .null (.objectOf [("cpu", .number)])),
            ("web", .object [("cpu", .number (Decimal.ofScaled 5 1))])]),
        ("ports", .list .number [.number (Decimal.ofScaled 80 0), .null .number])]) := by
    rfl
  have hloose : ofData looseServiceType service = .ok (.object
      [("limits", .map .dynamic
          [("jobs", .null .dynamic),
            ("web", .object [("cpu", .number (Decimal.ofScaled 5 1))])]),
        ("ports", .tuple [.number (Decimal.ofScaled 80 0), .null .dynamic])]) := by
    rfl
  obtain ⟨⟨w, hw, hsame⟩, -⟩ := ofData_widened serviceType looseServiceType hconf service _ hread
  cases hloose.symm.trans hw
  obtain ⟨j, hvj, hwj⟩ := hsame rfl
  exact ⟨_, _, j, hread, hloose, rfl, rfl, hvj, hwj⟩

end Value
end TypedConfig
