import TypedConfig.Data.Typing
import TypedConfig.Proofs.Fields.Paired
import TypedConfig.Proofs.Outcome
import TypedConfig.Proofs.Ty.Parts

/-!
# Reading data part by part

Lists of parts are read one after the other, up to the first failure.  Each of
these traversals is stated here as a relation between the lists: it yields a
list exactly if every member of the list is what is read at its place.  The
entries of a mapping are read in this way too, before they are put in order.

A property of depths, types and values that passes from the parts of what is
read to the whole holds of all that is read: `ClosedUnderReading.holdsOfRead`.
-/

namespace TypedConfig

section Induction

/-- Induction over data: sequences and mappings may assume the property of every
item. -/
@[elab_as_elim]
theorem Data.induction
    {motive : Data → Prop}
    (null : motive .null)
    (bool : ∀ b, motive (.bool b))
    (number : ∀ literal, motive (.number literal))
    (string : ∀ s, motive (.string s))
    (sequence : ∀ items, (∀ item ∈ items, motive item) → motive (.sequence items))
    (mapping : ∀ entries, (∀ entry ∈ entries, motive entry.2) → motive (.mapping entries)) :
    ∀ d : Data, motive d :=
  Data.rec null bool number string
    (fun items => sequence items)
    (fun entries => mapping entries)
    (List.forall_mem_nil _)
    (fun _ _ hitem hrest => List.forall_mem_cons.2 ⟨hitem, hrest⟩)
    (List.forall_mem_nil _)
    (fun _ _ hentry hrest => List.forall_mem_cons.2 ⟨hentry, hrest⟩)
    (fun _ _ hitem => hitem)

end Induction

section Names

/-- The name that a key is. -/
def Key.name? : Key → Option String
  | .string name => some name
  | .other _ => none

/-- The names among the keys of a mapping. -/
def Data.names (entries : List (Key × Data)) : List String :=
  entries.filterMap fun entry => entry.1.name?

theorem Data.mem_names_iff
    {name : String} {entries : List (Key × Data)} :
    name ∈ names entries ↔ ∃ entry ∈ entries, entry.1 = .string name := by
  rw [names, List.mem_filterMap]
  refine exists_congr fun entry => and_congr_right fun _ => ?_
  cases entry.1 <;> simp [Key.name?]

end Names

namespace Value

-- The equations are derived here once, before the proofs that all unfold them.
attribute [local simp] ofDataAt ofItems ofTupleItems ofEntries ofAttributes

section Parts

variable {depth : Nat} {want : Ty} {v : Value}

theorem within_eq_ok_iff
    {result : Except TypingError Value} :
    within depth result = .ok v ↔ depth ≤ maxDepth ∧ result = .ok v := by
  unfold within
  split
  · rename_i hdeep
    simp [Nat.not_le.2 hdeep]
  · rename_i hdeep
    simp [Nat.not_lt.1 hdeep]

theorem ofItems_eq_ok_iff
    {i : Nat} {items : List Data} {elements : List Value} :
    ofItems depth want i items = .ok elements ↔
      List.Forall₂ (fun item v => ofDataAt depth want item = .ok v) items elements := by
  refine forall₂_of_countedSteps ?_ ?_
  · intro i
    rw [ofItems]
  · intro i item rest elements
    rw [ofItems]
    cases ofDataAt depth want item <;> simp [map_eq_ok_iff]

theorem ofTupleItems_eq_ok_iff
    {types : List Ty} {i : Nat} {items : List Data} {elements : List Value} :
    ofTupleItems depth i types items = .ok elements ↔
      List.Forall₂ (fun part v => ofDataAt depth part.1 part.2 = .ok v) (types.zip items)
        elements := by
  refine forall₂_zip_of_countedSteps ?_ ?_ ?_
  · intro i items
    simp [ofTupleItems]
  · intro i t types
    simp [ofTupleItems]
  · intro i t types item rest elements
    rw [ofTupleItems]
    cases ofDataAt depth t item <;> simp [map_eq_ok_iff]

/-- Whether an entry of a mapping is read as a member of a name: its key is that
name, and its item is read as the content, of the type that the name has. -/
def ReadAsMember (depth : Nat) (typeOf : String → Option Ty) (entry : Key × Data)
    (member : String × Value) : Prop :=
  entry.1 = .string member.1 ∧
    ∃ t, typeOf member.1 = some t ∧ ofDataAt depth t entry.2 = .ok member.2

theorem readAsMember_string_iff
    {typeOf : String → Option Ty} {name : String} {item : Data} {member : String × Value} :
    ReadAsMember depth typeOf (.string name, item) member ↔
      ∃ t v, typeOf name = some t ∧ ofDataAt depth t item = .ok v ∧ member = (name, v) := by
  obtain ⟨name', v⟩ := member
  constructor
  · rintro ⟨hname, t, ht, hv⟩
    cases hname
    exact ⟨t, v, ht, hv, rfl⟩
  · rintro ⟨t, v, ht, hv, heq⟩
    cases heq
    exact ⟨rfl, t, ht, hv⟩

/-- The members that are read have the names that the keys are. -/
theorem names_of_readAsMember
    {typeOf : String → Option Ty} {entries : List (Key × Data)} {members : Fields Value}
    (h : List.Forall₂ (ReadAsMember depth typeOf) entries members) :
    Fields.names members = Data.names entries := by
  induction h with
  | nil => rfl
  | @cons entry member entries members hhead _ ih =>
      simp only [Fields.names, Data.names] at ih ⊢
      simp [hhead.1, Key.name?, ih]

theorem mem_names_of_readAsMember_iff
    {typeOf : String → Option Ty} {entries : List (Key × Data)} {members : Fields Value}
    (h : List.Forall₂ (ReadAsMember depth typeOf) entries members) {name : String} :
    name ∈ Fields.names (Fields.insertAll [] members) ↔
      ∃ entry ∈ entries, entry.1 = .string name := by
  rw [Fields.mem_names_insertAll, names_of_readAsMember h, Data.mem_names_iff]
  simp [Fields.names]

/-- The entries of a map are read first and put in order then. -/
theorem ofEntries_eq_ok_iff
    {step : String → PathStep} {read : Fields Value} {entries : List (Key × Data)}
    {result : Fields Value} :
    ofEntries depth step want read entries = .ok result ↔
      ∃ members : Fields Value,
        List.Forall₂ (ReadAsMember depth fun _ => some want) entries members ∧
          Fields.insertAll read members = result := by
  induction entries generalizing read with
  | nil => simp [ofEntries, Fields.insertAll]
  | cons entry rest ih =>
      obtain ⟨key, item⟩ := entry
      cases key with
      | other kind => simp [ofEntries, List.forall₂_cons_left_iff, ReadAsMember]
      | string name =>
          simp only [List.forall₂_cons_left_iff, readAsMember_string_iff]
          rw [ofEntries]
          cases hitem : ofDataAt depth want item with
          | error e => simp [hitem]
          | ok v =>
              simp only [ih]
              constructor
              · rintro ⟨members, hmembers, rfl⟩
                exact ⟨_, ⟨(name, v), members, ⟨want, v, rfl, hitem, rfl⟩, hmembers, rfl⟩, rfl⟩
              · rintro ⟨_, ⟨_, members, ⟨_, w, ⟨⟩, hw, rfl⟩, hmembers, rfl⟩, rfl⟩
                rw [hitem] at hw
                cases hw
                exact ⟨members, hmembers, rfl⟩

/-- So are the attributes of an object, each of the type that it has there. -/
theorem ofAttributes_eq_ok_iff
    {wants : Fields Ty} {read : Fields Value} {entries : List (Key × Data)}
    {result : Fields Value} :
    ofAttributes depth wants read entries = .ok result ↔
      ∃ members : Fields Value,
        List.Forall₂ (ReadAsMember depth (Fields.get? · wants)) entries members ∧
          Fields.insertAll read members = result := by
  induction entries generalizing read with
  | nil => simp [ofAttributes, Fields.insertAll]
  | cons entry rest ih =>
      obtain ⟨key, item⟩ := entry
      cases key with
      | other kind => simp [ofAttributes, List.forall₂_cons_left_iff, ReadAsMember]
      | string name =>
          simp only [List.forall₂_cons_left_iff, readAsMember_string_iff]
          rw [ofAttributes]
          cases hwant : Fields.get? name wants with
          | none => simp
          | some t =>
              cases hitem : ofDataAt depth t item with
              | error e => simp [hitem]
              | ok v =>
                  simp only [hitem, ih]
                  constructor
                  · rintro ⟨members, hmembers, rfl⟩
                    exact ⟨_, ⟨(name, v), members, ⟨t, v, rfl, hitem, rfl⟩, hmembers, rfl⟩, rfl⟩
                  · rintro ⟨_, ⟨_, members, ⟨_, w, ⟨⟩, hw, rfl⟩, hmembers, rfl⟩, rfl⟩
                    rw [hitem] at hw
                    cases hw
                    exact ⟨members, hmembers, rfl⟩

end Parts

section Scalars

variable {want : Ty} {v : Value}

theorem ofBool_eq_ok_iff
    {b : Bool} :
    ofBool want b = .ok v ↔ (want = .bool ∨ want = .dynamic) ∧ .bool b = v := by
  cases want <;> simp [ofBool]

theorem ofString_eq_ok_iff
    {s : String} :
    ofString want s = .ok v ↔ (want = .string ∨ want = .dynamic) ∧ .string s = v := by
  cases want <;> simp [ofString]

theorem ofLiteral_eq_ok_iff
    {literal : String} :
    ofLiteral literal = .ok v ↔ ∃ n, Decimal.parse literal = .ok n ∧ .number n = v := by
  unfold ofLiteral
  rcases Decimal.parse literal with (_ | _) | n <;> simp

theorem ofNumber_eq_ok_iff
    {literal : String} :
    ofNumber want literal = .ok v ↔
      (want = .number ∨ want = .dynamic) ∧
        ∃ n, Decimal.parse literal = .ok n ∧ .number n = v := by
  cases want <;> simp [ofNumber, ofLiteral_eq_ok_iff]

/-- An object is made only of entries at all the wanted names. -/
theorem objectOfEntries_eq_ok_iff
    {wants : Fields Ty} {entries : Fields Value} :
    objectOfEntries wants entries = .ok v ↔
      (∀ name ∈ Fields.names wants, name ∈ Fields.names entries) ∧ .object entries = v := by
  unfold objectOfEntries
  split
  · rename_i name hfind
    have hname := List.mem_of_find?_eq_some hfind
    have hmissing := List.find?_some hfind
    simp only [Fields.contains, Bool.not_eq_true', ← Bool.not_eq_true, Fields.get?_isSome_iff]
      at hmissing
    simp only [reduceCtorEq, false_iff, not_and]
    exact fun hall => absurd (hall name hname) hmissing
  · rename_i hfind
    have hall : ∀ name ∈ Fields.names wants, name ∈ Fields.names entries := by
      intro name hname
      have hcontains := List.find?_eq_none.1 hfind name hname
      simpa only [Fields.contains, Bool.not_eq_true', Bool.not_eq_false, Fields.get?_isSome_iff]
        using hcontains
    rw [Except.ok.injEq]
    exact (and_iff_right hall).symm

end Scalars

section Shapes

variable {depth : Nat} {v : Value}

theorem ofDataAt_tuple_eq_ok_iff
    {types : List Ty} {items : List Data} :
    ofDataAt depth (.tuple types) (.sequence items) = .ok v ↔
      depth ≤ maxDepth ∧ items.length = types.length ∧
        ∃ elements, ofTupleItems (depth + 1) 0 types items = .ok elements ∧
          .tuple elements = v := by
  simp only [ofDataAt, within_eq_ok_iff]
  split
  · rename_i hlength
    rw [map_eq_ok_iff]
    simp [hlength]
  · rename_i hlength
    simp [hlength]

theorem ofDataAt_object_eq_ok_iff
    {wants : Fields Ty} {optional : List String} {entries : List (Key × Data)} :
    ofDataAt depth (.object wants optional) (.mapping entries) = .ok v ↔
      depth ≤ maxDepth ∧ ∃ read, ofAttributes (depth + 1) wants [] entries = .ok read ∧
        (∀ name ∈ Fields.names wants, name ∈ Fields.names read) ∧ .object read = v := by
  simp only [ofDataAt, within_eq_ok_iff]
  cases ofAttributes (depth + 1) wants [] entries with
  | error e => simp
  | ok read => simp [objectOfEntries_eq_ok_iff]

end Shapes

section Along

/-- Whether a property of depths, types and values passes from the parts of what
is read to the whole: it holds of nulls and scalars, and of values whose parts
have it one level below.  Nothing is read beyond the limit. -/
structure ClosedUnderReading (P : Nat → Ty → Value → Prop) : Prop where
  null : ∀ depth want, depth ≤ maxDepth → want.WellFormed → P depth want (.null want)
  bool : ∀ depth want b, depth ≤ maxDepth → want = .bool ∨ want = .dynamic →
    P depth want (.bool b)
  number : ∀ depth want n, depth ≤ maxDepth → want = .number ∨ want = .dynamic →
    P depth want (.number n)
  string : ∀ depth want s, depth ≤ maxDepth → want = .string ∨ want = .dynamic →
    P depth want (.string s)
  list : ∀ depth e elements, depth ≤ maxDepth → e.WellFormed →
    (∀ c ∈ elements, P (depth + 1) e c) → P depth (.list e) (.list e elements)
  set : ∀ depth e elements, depth ≤ maxDepth → e.WellFormed →
    (∀ c ∈ elements, P (depth + 1) e c) → P depth (.set e) (setOf e elements)
  map : ∀ depth e entries, depth ≤ maxDepth → e.WellFormed → Fields.Sorted entries →
    (∀ entry ∈ entries, P (depth + 1) e entry.2) → P depth (.map e) (.map e entries)
  tuple : ∀ depth types elements, depth ≤ maxDepth →
    List.Forall₂ (fun v t => P (depth + 1) t v) elements types →
    P depth (.tuple types) (.tuple elements)
  object : ∀ depth wants optional entries, depth ≤ maxDepth → Fields.Sorted wants →
    Fields.Paired (fun v t => P (depth + 1) t v) entries wants →
    P depth (.object wants optional) (.object entries)
  dynamicTuple : ∀ depth elements, depth ≤ maxDepth →
    (∀ c ∈ elements, P (depth + 1) .dynamic c) → P depth .dynamic (.tuple elements)
  dynamicObject : ∀ depth entries, depth ≤ maxDepth → Fields.Sorted entries →
    (∀ entry ∈ entries, P (depth + 1) .dynamic entry.2) → P depth .dynamic (.object entries)

variable {P : Nat → Ty → Value → Prop}

/-- Whether a property holds of all values as which a node is read. -/
def HoldsOfRead (P : Nat → Ty → Value → Prop) (d : Data) : Prop :=
  ∀ (depth : Nat) (want : Ty) (v : Value),
    want.WellFormed → ofDataAt depth want d = .ok v → P depth want v

section Parts

variable {depth : Nat}

theorem forall_mem_of_ofItems
    {e : Ty} (he : e.WellFormed) {items : List Data} (hitems : ∀ item ∈ items, HoldsOfRead P item)
    {i : Nat} {elements : List Value} (h : ofItems depth e i items = .ok elements) :
    ∀ c ∈ elements, P depth e c :=
  forall_mem_of_forall₂ (ofItems_eq_ok_iff.1 h) fun item hitem c hc =>
    hitems item hitem depth e c he hc

theorem forall₂_of_ofTupleItems
    {types : List Ty} (htypes : ∀ t ∈ types, t.WellFormed) {items : List Data}
    (hitems : ∀ item ∈ items, HoldsOfRead P item) (hlength : items.length = types.length)
    {i : Nat} {elements : List Value} (h : ofTupleItems depth i types items = .ok elements) :
    List.Forall₂ (fun v t => P depth t v) elements types := by
  refine forall₂_of_forall₂_zip hlength.symm (ofTupleItems_eq_ok_iff.1 h) ?_
  exact fun t ht item hitem v hv => hitems item hitem depth t v (htypes t ht) hv

/-- Every member was read from an entry, as the type that its name has. -/
theorem forall_mem_of_readAsMember
    {typeOf : String → Option Ty} (htypes : ∀ name t, typeOf name = some t → t.WellFormed)
    {entries : List (Key × Data)} (hentries : ∀ entry ∈ entries, HoldsOfRead P entry.2)
    {members : Fields Value} (h : List.Forall₂ (ReadAsMember depth typeOf) entries members) :
    ∀ member ∈ Fields.insertAll [] members,
      ∃ t, typeOf member.1 = some t ∧ P depth t member.2 := by
  have hall : ∀ member ∈ members, ∃ t, typeOf member.1 = some t ∧ P depth t member.2 := by
    refine forall_mem_of_forall₂ h ?_
    rintro entry hentry member ⟨-, t, ht, hread⟩
    exact ⟨t, ht, hentries entry hentry depth t member.2 (htypes _ t ht) hread⟩
  exact fun member hmember => hall member (Fields.mem_of_mem_ofList hmember)

theorem forall_mem_of_ofEntries
    {e : Ty} (he : e.WellFormed) {entries : List (Key × Data)}
    (hentries : ∀ entry ∈ entries, HoldsOfRead P entry.2) {step : String → PathStep}
    {read : Fields Value} (h : ofEntries depth step e [] entries = .ok read) :
    Fields.Sorted read ∧ ∀ entry ∈ read, P depth e entry.2 := by
  obtain ⟨members, hmembers, rfl⟩ := ofEntries_eq_ok_iff.1 h
  refine ⟨Fields.sorted_ofList members, ?_⟩
  intro entry hentry
  have htypes : ∀ (name : String) t, some e = some t → t.WellFormed := by
    rintro name t ⟨⟩
    exact he
  obtain ⟨_, ⟨⟩, hholds⟩ := forall_mem_of_readAsMember htypes hentries hmembers entry hentry
  exact hholds

/-- An object that is made has the names that are wanted, and no others. -/
theorem paired_of_ofAttributes
    {wants : Fields Ty} (hs : Fields.Sorted wants) (htypes : ∀ a ∈ wants, a.2.WellFormed)
    {entries : List (Key × Data)} (hentries : ∀ entry ∈ entries, HoldsOfRead P entry.2)
    {read : Fields Value} (h : ofAttributes depth wants [] entries = .ok read)
    (hall : ∀ name ∈ Fields.names wants, name ∈ Fields.names read) :
    Fields.Paired (fun v t => P depth t v) read wants := by
  obtain ⟨members, hmembers, rfl⟩ := ofAttributes_eq_ok_iff.1 h
  have hwanted := forall_mem_of_readAsMember
    (fun name t ht => htypes (name, t) (Fields.mem_of_get? ht)) hentries hmembers
  refine Fields.paired_of_get? (Fields.sorted_ofList members) hs ?_ ?_
  · intro name
    refine ⟨?_, hall name⟩
    intro hname
    obtain ⟨member, hmember, rfl⟩ := List.mem_map.1 hname
    obtain ⟨t, ht, -⟩ := hwanted member hmember
    exact Fields.mem_names_of_mem (Fields.mem_of_get? ht)
  · intro name c t hc ht
    obtain ⟨t', ht', hholds⟩ := hwanted (name, c) (Fields.mem_of_get? hc)
    cases ht.symm.trans ht'
    exact hholds

end Parts

namespace ClosedUnderReading

variable (hP : ClosedUnderReading P)
include hP

theorem holdsOfRead_sequence
    {items : List Data} (hitems : ∀ item ∈ items, HoldsOfRead P item) :
    HoldsOfRead P (.sequence items) := by
  intro depth want v hw h
  cases want with
  | list e =>
      have he : e.WellFormed := hw
      simp only [ofDataAt, within_eq_ok_iff, map_eq_ok_iff] at h
      obtain ⟨hdepth, elements, helements, rfl⟩ := h
      exact hP.list depth e elements hdepth he (forall_mem_of_ofItems he hitems helements)
  | set e =>
      have he : e.WellFormed := hw
      simp only [ofDataAt, within_eq_ok_iff, map_eq_ok_iff] at h
      obtain ⟨hdepth, elements, helements, rfl⟩ := h
      exact hP.set depth e elements hdepth he (forall_mem_of_ofItems he hitems helements)
  | tuple types =>
      obtain ⟨hdepth, hlength, elements, helements, rfl⟩ := ofDataAt_tuple_eq_ok_iff.1 h
      simp only [Ty.WellFormed, Ty.allWellFormed_iff] at hw
      exact hP.tuple depth types elements hdepth
        (forall₂_of_ofTupleItems hw hitems hlength helements)
  | dynamic =>
      simp only [ofDataAt, within_eq_ok_iff, map_eq_ok_iff] at h
      obtain ⟨hdepth, elements, helements, rfl⟩ := h
      exact hP.dynamicTuple depth elements hdepth (forall_mem_of_ofItems hw hitems helements)
  | _ =>
      simp only [ofDataAt, within_eq_ok_iff] at h
      cases h.2

theorem holdsOfRead_mapping
    {entries : List (Key × Data)} (hentries : ∀ entry ∈ entries, HoldsOfRead P entry.2) :
    HoldsOfRead P (.mapping entries) := by
  intro depth want v hw h
  cases want with
  | map e =>
      have he : e.WellFormed := hw
      simp only [ofDataAt, within_eq_ok_iff, map_eq_ok_iff] at h
      obtain ⟨hdepth, read, hread, rfl⟩ := h
      obtain ⟨hs, hholds⟩ := forall_mem_of_ofEntries he hentries hread
      exact hP.map depth e read hdepth he hs hholds
  | object wants optional =>
      obtain ⟨hdepth, read, hread, hall, rfl⟩ := ofDataAt_object_eq_ok_iff.1 h
      simp only [Ty.WellFormed, Ty.attributesWellFormed_iff] at hw
      obtain ⟨hs, -, -, htypes⟩ := hw
      exact hP.object depth wants optional read hdepth hs
        (paired_of_ofAttributes hs htypes hentries hread hall)
  | dynamic =>
      simp only [ofDataAt, within_eq_ok_iff, map_eq_ok_iff] at h
      obtain ⟨hdepth, read, hread, rfl⟩ := h
      obtain ⟨hs, hholds⟩ := forall_mem_of_ofEntries hw hentries hread
      exact hP.dynamicObject depth read hdepth hs hholds
  | _ =>
      simp only [ofDataAt, within_eq_ok_iff] at h
      cases h.2

/-- What passes from the parts to the whole holds of all that is read: by
induction over the data, for every depth and every type at once. -/
theorem holdsOfRead
    (d : Data) :
    HoldsOfRead P d := by
  induction d using Data.induction with
  | null =>
      intro depth want v hw h
      rw [ofDataAt, within_eq_ok_iff] at h
      obtain ⟨hdepth, ⟨⟩⟩ := h
      exact hP.null depth want hdepth hw
  | bool b =>
      intro depth want v hw h
      rw [ofDataAt, within_eq_ok_iff, ofBool_eq_ok_iff] at h
      obtain ⟨hdepth, hwant, rfl⟩ := h
      exact hP.bool depth want b hdepth hwant
  | number literal =>
      intro depth want v hw h
      rw [ofDataAt, within_eq_ok_iff, ofNumber_eq_ok_iff] at h
      obtain ⟨hdepth, hwant, n, -, rfl⟩ := h
      exact hP.number depth want n hdepth hwant
  | string s =>
      intro depth want v hw h
      rw [ofDataAt, within_eq_ok_iff, ofString_eq_ok_iff] at h
      obtain ⟨hdepth, hwant, rfl⟩ := h
      exact hP.string depth want s hdepth hwant
  | sequence items ih => exact hP.holdsOfRead_sequence ih
  | mapping entries ih => exact hP.holdsOfRead_mapping ih

end ClosedUnderReading

end Along

end Value
end TypedConfig
