import TypedConfig.Proofs.Data.Typing
import TypedConfig.Value.Generic

/-!
# What is read back from JSON

A value is written as JSON unless some part of it is absent.  Reading the JSON
of a wholly known value that has the form of a type as that type yields the
value again, if the value is within the limits of data, and nothing if it is
not.

What is read from data has the form of the type that was wanted and nests no
deeper than data may.  So it is read back exactly if the exponents of all its
numbers are within the limit of literals.  They need not be: a literal may have
an exponent within the limit and stand for a number whose canonical text has
one beyond it.
-/

namespace TypedConfig

namespace Value

-- The equations are derived here once, before the proofs that all unfold them.
attribute [local simp] toJson elementsToJson entriesToJson Data.ofJson

section Writing

theorem elementsToJson_eq_ok_iff
    {elements : List Value} {items : List Json} :
    elementsToJson elements = .ok items ↔
      List.Forall₂ (fun v j => v.toJson = .ok j) elements items := by
  refine forall₂_of_steps (by rfl) ?_
  intro v rest items
  rw [elementsToJson]
  cases v.toJson <;> simp [map_eq_ok_iff]

theorem entriesToJson_eq_ok_iff
    {entries : Fields Value} {members : Fields Json} :
    entriesToJson entries = .ok members ↔
      Fields.Paired (fun v j => v.toJson = .ok j) entries members := by
  refine paired_of_steps (by rfl) ?_
  intro name v rest members
  rw [entriesToJson]
  cases v.toJson <;> simp [map_eq_ok_iff]

/-- A value is written unless some part of it is absent. -/
theorem exists_toJson
    {v : Value} (h : v.Throughout fun part => part.isNoValue = false) :
    ∃ j, v.toJson = .ok j := by
  induction v using Value.induction with
  | step v ih =>
      obtain ⟨hself, hcomponents⟩ := throughout_iff.1 h
      have hall : ∀ c ∈ v.components, ∃ j, c.toJson = .ok j :=
        fun c hc => ih c hc (hcomponents c hc)
      cases v with
      | noValue => cases hself
      | list e elements | set e elements | tuple elements =>
          obtain ⟨items, hitems⟩ := exists_forall₂_iff.2 hall
          exact ⟨.array items, map_eq_ok_iff.2 ⟨items, elementsToJson_eq_ok_iff.2 hitems, rfl⟩⟩
      | map e entries | object entries =>
          have hmembers : ∀ entry ∈ entries, ∃ member : String × Json,
              entry.1 = member.1 ∧ entry.2.toJson = .ok member.2 := by
            intro entry hentry
            obtain ⟨j, hj⟩ := hall entry.2 (List.mem_map_of_mem hentry)
            exact ⟨(entry.1, j), rfl, hj⟩
          obtain ⟨members, hpaired⟩ := exists_forall₂_iff.2 hmembers
          exact ⟨.object members, map_eq_ok_iff.2 ⟨members, entriesToJson_eq_ok_iff.2 hpaired, rfl⟩⟩
      | _ => exact ⟨_, rfl⟩

end Writing

section Rereading

/-- Whether the JSON of a value is read as a value of a type, at a depth, exactly
if the value is within the limits there, and then as that value. -/
def Rereads (v : Value) (want : Ty) : Prop :=
  ∀ j, v.toJson = .ok j → ∀ (depth : Nat) (w : Value),
    ofDataAt depth want (.ofJson j) = .ok w ↔ v.WithinLimits depth ∧ v = w

variable {depth : Nat}

theorem ofItems_ofJson_eq_ok_iff
    {e : Ty} {elements : List Value} (h : ∀ c ∈ elements, c.Rereads e)
    {items : List Json} (hitems : elementsToJson elements = .ok items)
    {i : Nat} {read : List Value} :
    ofItems depth e i (Data.ofJsonItems items) = .ok read ↔
      (∀ c ∈ elements, c.WithinLimits depth) ∧ elements = read := by
  rw [ofItems_eq_ok_iff, Data.ofJsonItems_eq_map, List.forall₂_map_left_iff]
  have hiff := forall₂_iff_map_eq (elementsToJson_eq_ok_iff.1 hitems) (n := read)
    fun c hc j hj => h c hc j hj depth
  rwa [List.map_id'] at hiff

theorem ofTupleItems_ofJson_eq_ok_iff
    {parts : List (Value × Ty)} (h : ∀ p ∈ parts, p.1.Rereads p.2)
    {items : List Json} (hitems : elementsToJson (parts.map Prod.fst) = .ok items)
    {i : Nat} {read : List Value} :
    ofTupleItems depth i (parts.map Prod.snd) (Data.ofJsonItems items) = .ok read ↔
      (∀ p ∈ parts, p.1.WithinLimits depth) ∧ parts.map Prod.fst = read := by
  rw [elementsToJson_eq_ok_iff, List.forall₂_map_left_iff] at hitems
  -- Each part beside its own item again.
  have hpairs : List.Forall₂ (fun p pair => p = pair.1 ∧ p.1.toJson = .ok pair.2) parts
      (parts.zip items) := by
    clear h
    induction hitems with
    | nil => exact .nil
    | cons hj _ ih => exact .cons ⟨rfl, hj⟩ ih
  rw [ofTupleItems_eq_ok_iff, Data.ofJsonItems_eq_map, List.zip_map, List.forall₂_map_left_iff]
  refine forall₂_iff_map_eq hpairs ?_
  rintro p hp ⟨_, j⟩ ⟨rfl, hj⟩ c
  exact h p hp j hj depth c

/-- Written entries in order are read back in that order. -/
theorem exists_readAsMember_ofJson_iff
    (typeOf : String → Option Ty) {entries : Fields Value} (hs : Fields.Sorted entries)
    (h : ∀ entry ∈ entries, ∃ t, typeOf entry.1 = some t ∧ entry.2.Rereads t)
    {members : Fields Json} (hmembers : entriesToJson entries = .ok members)
    {result : Fields Value} :
    (∃ read, List.Forall₂ (ReadAsMember depth typeOf) (Data.ofJsonMembers members) read ∧
        Fields.insertAll [] read = result) ↔
      (∀ entry ∈ entries, entry.2.WithinLimits depth) ∧ entries = result := by
  have hself : Fields.insertAll [] entries = entries := Fields.ofList_eq_self hs
  have hread : ∀ read,
      List.Forall₂ (ReadAsMember depth typeOf) (Data.ofJsonMembers members) read ↔
        (∀ entry ∈ entries, entry.2.WithinLimits depth) ∧ entries.map id = read := by
    intro read
    rw [Data.ofJsonMembers_eq_map, List.forall₂_map_left_iff]
    refine forall₂_iff_map_eq (entriesToJson_eq_ok_iff.1 hmembers) ?_
    rintro ⟨name, v⟩ hentry ⟨_, j⟩ ⟨rfl, hj⟩ c
    obtain ⟨t, ht, hrereads⟩ := h (name, v) hentry
    rw [readAsMember_string_iff]
    constructor
    · rintro ⟨t', w, ht', hw, rfl⟩
      cases ht.symm.trans ht'
      obtain ⟨hlimits, rfl⟩ := (hrereads j hj depth w).1 hw
      exact ⟨hlimits, rfl⟩
    · rintro ⟨hlimits, rfl⟩
      exact ⟨t, v, ht, (hrereads j hj depth v).2 ⟨hlimits, rfl⟩, rfl⟩
  simp only [hread, List.map_id]
  constructor
  · rintro ⟨_, ⟨hlimits, rfl⟩, rfl⟩
    exact ⟨hlimits, hself.symm⟩
  · rintro ⟨hlimits, rfl⟩
    exact ⟨entries, ⟨hlimits, rfl⟩, hself⟩

theorem ofEntries_ofJson_eq_ok_iff
    {e : Ty} {entries : Fields Value} (hs : Fields.Sorted entries)
    (h : ∀ entry ∈ entries, entry.2.Rereads e)
    {members : Fields Json} (hmembers : entriesToJson entries = .ok members)
    {step : String → PathStep} {read : Fields Value} :
    ofEntries depth step e [] (Data.ofJsonMembers members) = .ok read ↔
      (∀ entry ∈ entries, entry.2.WithinLimits depth) ∧ entries = read :=
  ofEntries_eq_ok_iff.trans <|
    exists_readAsMember_ofJson_iff (fun _ => some e) hs
      (fun entry hentry => ⟨e, rfl, h entry hentry⟩) hmembers

theorem ofAttributes_ofJson_eq_ok_iff
    {wants : Fields Ty} {entries : Fields Value} (hs : Fields.Sorted entries)
    (h : ∀ entry ∈ entries, ∃ t, Fields.get? entry.1 wants = some t ∧ entry.2.Rereads t)
    {members : Fields Json} (hmembers : entriesToJson entries = .ok members)
    {read : Fields Value} :
    ofAttributes depth wants [] (Data.ofJsonMembers members) = .ok read ↔
      (∀ entry ∈ entries, entry.2.WithinLimits depth) ∧ entries = read :=
  ofAttributes_eq_ok_iff.trans <|
    exists_readAsMember_ofJson_iff (Fields.get? · wants) hs h hmembers

namespace Rereads

section Scalars

variable {want : Ty}

theorem null
    (t : Ty) :
    (Value.null t).Rereads t := by
  rintro j ⟨⟩ depth w
  rw [Data.ofJson, ofDataAt, within_eq_ok_iff, withinLimits_iff]
  simp [components]

theorem bool
    (b : Bool) (h : want = .bool ∨ want = .dynamic) :
    (Value.bool b).Rereads want := by
  rintro j ⟨⟩ depth w
  rw [Data.ofJson, ofDataAt, within_eq_ok_iff, ofBool_eq_ok_iff, withinLimits_iff]
  simp [components, h]

theorem string
    (s : String) (h : want = .string ∨ want = .dynamic) :
    (Value.string s).Rereads want := by
  rintro j ⟨⟩ depth w
  rw [Data.ofJson, ofDataAt, within_eq_ok_iff, ofString_eq_ok_iff, withinLimits_iff]
  simp [components, h]

/-- A number is read back if the exponent that it is written with is read. -/
theorem number
    (n : Decimal) (h : want = .number ∨ want = .dynamic) :
    (Value.number n).Rereads want := by
  rintro j ⟨⟩ depth w
  rw [Data.ofJson, ofDataAt, within_eq_ok_iff, ofNumber_eq_ok_iff, withinLimits_iff]
  simp [components, h, Decimal.parse_jsonLiteral_eq_ok_iff, and_assoc]

end Scalars

section Structures

variable {e : Ty} {elements : List Value} {entries : Fields Value}

theorem list
    (h : ∀ c ∈ elements, c.Rereads e) :
    (Value.list e elements).Rereads (.list e) := by
  intro j hj depth w
  obtain ⟨items, hitems, rfl⟩ := map_eq_ok_iff.1 hj
  simp only [Data.ofJson, ofDataAt, within_eq_ok_iff, map_eq_ok_iff,
    ofItems_ofJson_eq_ok_iff h hitems]
  rw [withinLimits_iff]
  simp [components, and_assoc]

theorem set
    (hs : Ascending elements) (h : ∀ c ∈ elements, c.Rereads e) :
    (Value.set e elements).Rereads (.set e) := by
  intro j hj depth w
  obtain ⟨items, hitems, rfl⟩ := map_eq_ok_iff.1 hj
  have hself : setOf e elements = .set e elements := by
    rw [setOf, setElements_eq_self hs]
  simp only [Data.ofJson, ofDataAt, within_eq_ok_iff, map_eq_ok_iff,
    ofItems_ofJson_eq_ok_iff h hitems]
  rw [withinLimits_iff]
  simp [components, and_assoc, hself]

theorem dynamicTuple
    (h : ∀ c ∈ elements, c.Rereads .dynamic) :
    (Value.tuple elements).Rereads .dynamic := by
  intro j hj depth w
  obtain ⟨items, hitems, rfl⟩ := map_eq_ok_iff.1 hj
  simp only [Data.ofJson, ofDataAt, within_eq_ok_iff, map_eq_ok_iff,
    ofItems_ofJson_eq_ok_iff h hitems]
  rw [withinLimits_iff]
  simp [components, and_assoc]

theorem map
    (hs : Fields.Sorted entries) (h : ∀ entry ∈ entries, entry.2.Rereads e) :
    (Value.map e entries).Rereads (.map e) := by
  intro j hj depth w
  obtain ⟨members, hmembers, rfl⟩ := map_eq_ok_iff.1 hj
  simp only [Data.ofJson, ofDataAt, within_eq_ok_iff, map_eq_ok_iff,
    ofEntries_ofJson_eq_ok_iff hs h hmembers]
  rw [withinLimits_iff, components, List.forall_mem_map]
  simp [and_assoc]

theorem dynamicObject
    (hs : Fields.Sorted entries) (h : ∀ entry ∈ entries, entry.2.Rereads .dynamic) :
    (Value.object entries).Rereads .dynamic := by
  intro j hj depth w
  obtain ⟨members, hmembers, rfl⟩ := map_eq_ok_iff.1 hj
  simp only [Data.ofJson, ofDataAt, within_eq_ok_iff, map_eq_ok_iff,
    ofEntries_ofJson_eq_ok_iff hs h hmembers]
  rw [withinLimits_iff, components, List.forall_mem_map]
  simp [and_assoc]

theorem tuple
    {parts : List (Value × Ty)} (h : ∀ p ∈ parts, p.1.Rereads p.2) :
    (Value.tuple (parts.map Prod.fst)).Rereads (.tuple (parts.map Prod.snd)) := by
  intro j hj depth w
  obtain ⟨items, hitems, rfl⟩ := map_eq_ok_iff.1 hj
  have hlength : (Data.ofJsonItems items).length = (parts.map Prod.snd).length := by
    have hforall := (elementsToJson_eq_ok_iff.1 hitems).length_eq
    simpa [Data.ofJsonItems_eq_map] using hforall.symm
  rw [Data.ofJson, ofDataAt_tuple_eq_ok_iff]
  simp only [ofTupleItems_ofJson_eq_ok_iff h hitems]
  rw [withinLimits_iff, components, List.forall_mem_map]
  simp [and_assoc, hlength]

theorem object
    {parts : Fields (Value × Ty)} {optional : List String} (hs : Fields.Sorted parts)
    (h : ∀ p ∈ parts, p.2.1.Rereads p.2.2) :
    (Value.object (Fields.mapValues Prod.fst parts)).Rereads
      (.object (Fields.mapValues Prod.snd parts) optional) := by
  intro j hj depth w
  obtain ⟨members, hmembers, rfl⟩ := map_eq_ok_iff.1 hj
  have hentries : ∀ entry ∈ Fields.mapValues Prod.fst parts,
      ∃ t, Fields.get? entry.1 (Fields.mapValues Prod.snd parts) = some t ∧
        entry.2.Rereads t := by
    intro entry hentry
    obtain ⟨p, hp, rfl⟩ := Fields.mem_mapValues.1 hentry
    refine ⟨p.2.2, ?_, h p hp⟩
    rw [Fields.get?_mapValues, hs.get?_eq_some_iff.2 hp]
    rfl
  rw [Data.ofJson, ofDataAt_object_eq_ok_iff]
  simp only [ofAttributes_ofJson_eq_ok_iff (Fields.sorted_mapValues _ hs) hentries hmembers]
  rw [withinLimits_iff, components, List.forall_mem_map]
  simp [and_assoc]

end Structures

end Rereads

/-- A wholly known value that has the form of a type is read back as that
type. -/
theorem HasForm.rereads
    {v : Value} {want : Ty} (h : v.HasForm want) (hknown : v.isWhollyKnown = true) :
    v.Rereads want := by
  induction h with
  | null t => exact Rereads.null t
  | unknown t => cases hknown
  | bool b h => exact Rereads.bool b h
  | number n h => exact Rereads.number n h
  | string s h => exact Rereads.string s h
  | list h ih =>
      have hcomponents := (isWhollyKnown_iff.1 hknown).2
      exact Rereads.list fun c hc => ih c hc (hcomponents c hc)
  | set hs h ih =>
      have hcomponents := (isWhollyKnown_iff.1 hknown).2
      exact Rereads.set hs fun c hc => ih c hc (hcomponents c hc)
  | dynamicTuple h ih =>
      have hcomponents := (isWhollyKnown_iff.1 hknown).2
      exact Rereads.dynamicTuple fun c hc => ih c hc (hcomponents c hc)
  | map hs h ih =>
      have hcomponents := List.forall_mem_map.1 (isWhollyKnown_iff.1 hknown).2
      exact Rereads.map hs fun entry hentry => ih entry hentry (hcomponents entry hentry)
  | dynamicObject hs h ih =>
      have hcomponents := List.forall_mem_map.1 (isWhollyKnown_iff.1 hknown).2
      exact Rereads.dynamicObject hs fun entry hentry => ih entry hentry (hcomponents entry hentry)
  | tuple h ih =>
      have hcomponents := List.forall_mem_map.1 (isWhollyKnown_iff.1 hknown).2
      exact Rereads.tuple fun p hp => ih p hp (hcomponents p hp)
  | object hs h ih =>
      have hcomponents :=
        List.forall_mem_map.1 (List.forall_mem_map.1 (isWhollyKnown_iff.1 hknown).2)
      exact Rereads.object hs fun p hp => ih p hp (hcomponents p hp)

end Rereading

section RoundTrip

/-- What is read has the form of the type that was wanted, and nests no deeper
than data may. -/
theorem hasForm_closedUnderReading :
    ClosedUnderReading fun depth want v => v.HasForm want ∧ depth + v.depth ≤ maxDepth where
  null := fun _ want hd _ => ⟨.null want, add_depth_le_iff.2 ⟨hd, List.forall_mem_nil _⟩⟩
  bool := fun _ _ b hd h => ⟨.bool b h, add_depth_le_iff.2 ⟨hd, List.forall_mem_nil _⟩⟩
  number := fun _ _ n hd h => ⟨.number n h, add_depth_le_iff.2 ⟨hd, List.forall_mem_nil _⟩⟩
  string := fun _ _ s hd h => ⟨.string s h, add_depth_le_iff.2 ⟨hd, List.forall_mem_nil _⟩⟩
  list := fun _ _ _ hd _ h =>
    ⟨.list fun c hc => (h c hc).1, add_depth_le_iff.2 ⟨hd, fun c hc => (h c hc).2⟩⟩
  set := by
    intro depth e elements hd _ h
    have helements : ∀ c ∈ setElements elements, c.HasForm e ∧ depth + 1 + c.depth ≤ maxDepth :=
      fun c hc => h c ((mem_setElements c elements).1 hc)
    exact ⟨.set (ascending_setElements elements) fun c hc => (helements c hc).1,
      add_depth_le_iff.2 ⟨hd, fun c hc => (helements c hc).2⟩⟩
  map := fun _ _ _ hd _ hs h =>
    ⟨.map hs fun entry hentry => (h entry hentry).1,
      add_depth_le_iff.2 ⟨hd, List.forall_mem_map.2 fun entry hentry => (h entry hentry).2⟩⟩
  tuple := by
    intro depth types elements hd h
    refine ⟨.tuple_of_forall₂ (h.imp fun _ _ hc => hc.1), add_depth_le_iff.2 ⟨hd, ?_⟩⟩
    exact forall_mem_of_forall₂ h.flip fun _ _ c hc => hc.2
  object := by
    intro depth wants optional entries hd hs h
    refine ⟨.object_of_paired (h.sorted_iff.2 hs)
      (List.Forall₂.imp (fun _ _ hc => ⟨hc.1, hc.2.1⟩) h), add_depth_le_iff.2 ⟨hd, ?_⟩⟩
    exact List.forall_mem_map.2 (forall_mem_of_forall₂ h.flip fun _ _ entry hc => hc.2.2)
  dynamicTuple := fun _ _ hd h =>
    ⟨.dynamicTuple fun c hc => (h c hc).1, add_depth_le_iff.2 ⟨hd, fun c hc => (h c hc).2⟩⟩
  dynamicObject := fun _ _ hd hs h =>
    ⟨.dynamicObject hs fun entry hentry => (h entry hentry).1,
      add_depth_le_iff.2 ⟨hd, List.forall_mem_map.2 fun entry hentry => (h entry hentry).2⟩⟩

/-- What is read from data is written as JSON, and from that JSON it is read back
exactly if the exponents of all its numbers are within the limit.  Otherwise
nothing is read back. -/
theorem ofData_ofJson_eq_ok_iff
    (want : Ty) (hw : want.WellFormed) (d : Data) (v : Value) (h : ofData want d = .ok v) :
    ∃ j, v.toJson = .ok j ∧
      ∀ w, ofData want (.ofJson j) = .ok w ↔
        (∀ n : Decimal, (Value.number n).PartOf v → n.ExponentWithinLimit) ∧ v = w := by
  obtain ⟨hform, hdepth⟩ := hasForm_closedUnderReading.holdsOfRead d 0 want v hw h
  have hread : v.ReadAs want := readAs_closedUnderReading.holdsOfRead d 0 want v hw h
  obtain ⟨j, hj⟩ := exists_toJson hform.present
  refine ⟨j, hj, ?_⟩
  intro w
  have hrereads := hform.rereads hread.isWhollyKnown j hj 0 w
  refine hrereads.trans (and_congr_left fun _ => ?_)
  exact ⟨fun hlimits => hlimits.exponents, fun hexponents => ⟨hdepth, hexponents⟩⟩

/-- A list with a number that is not written canonically, and with a null. -/
def looseNumbers : Data :=
  .sequence [.number "1.50", .null]

theorem ofData_ofJson_eq_ok_iff_looseNumbers :
    ∃ v j, ofData (.list .number) looseNumbers = .ok v ∧ v.toJson = .ok j ∧
      ofData (.list .number) (.ofJson j) = .ok v := by
  have hread : ofData (.list .number) looseNumbers =
      .ok (.list .number [.number (Decimal.ofScaled 15 1), .null .number]) := by
    rfl
  have hnumber : (Value.number (Decimal.ofScaled 15 1)).WithinLimits 1 := by
    refine withinLimits_iff.2 ⟨by decide, ?_, List.forall_mem_nil _⟩
    rintro n ⟨⟩
    decide
  have hnull : (Value.null .number).WithinLimits 1 :=
    withinLimits_iff.2 ⟨by decide, nofun, List.forall_mem_nil _⟩
  have hlimits : (Value.list .number
      [.number (Decimal.ofScaled 15 1), .null .number]).WithinLimits 0 := by
    refine withinLimits_iff.2 ⟨by decide, nofun, ?_⟩
    exact List.forall_mem_cons.2 ⟨hnumber, List.forall_mem_singleton.2 hnull⟩
  obtain ⟨j, hj, hback⟩ := ofData_ofJson_eq_ok_iff (.list .number) trivial looseNumbers _ hread
  exact ⟨_, j, hread, hj, (hback _).2 ⟨hlimits.exponents, rfl⟩⟩

/-- Ten times the greatest power of ten that literals may have is written with
the next power, and is not read back. -/
theorem not_ofData_ofJson_largeExponent :
    ∃ v, ofData .number (.number "10e10000") = .ok v ∧
      v.toJson = .ok (.number "1e+10001") ∧
      ¬ ofData .number (.ofJson (.number "1e+10001")) = .ok v := by
  have hread : ofData .number (.number "10e10000") =
      .ok (.number (Decimal.ofScaled 1 (-10001))) := by
    rfl
  have hliteral : (Decimal.ofScaled 1 (-10001)).jsonLiteral = "1e+10001" := by
    decide +kernel
  refine ⟨_, hread, by rw [toJson, hliteral], ?_⟩
  intro h
  rw [ofData, Data.ofJson, ofDataAt, within_eq_ok_iff, ofNumber_eq_ok_iff, ← hliteral] at h
  obtain ⟨-, -, n, hn, -⟩ := h
  have hlimit := ((Decimal.parse_jsonLiteral_eq_ok_iff _).1 hn).1
  revert hlimit
  decide

end RoundTrip

end Value
end TypedConfig
