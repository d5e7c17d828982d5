import TypedConfig.Proofs.Data.Reading

/-!
# The data of a type

Data inhabits a type if, as far down as it is visited, every node is null or is of the
kind that is wanted there, and nothing lies deeper than data may.  The main statement
says that exactly the data of a type is read as a value of it.
-/

namespace TypedConfig

/-- Whether data that stands at a depth inhabits a type. -/
inductive Data.Inhabits : Nat → Ty → Data → Prop where
  | null {depth : Nat} {want : Ty} (hdepth : depth ≤ maxDepth) :
      Inhabits depth want .null
  | bool {depth : Nat} {want : Ty} {b : Bool} (hdepth : depth ≤ maxDepth)
      (hwant : want = .bool ∨ want = .dynamic) :
      Inhabits depth want (.bool b)
  /-- The literal has to be one that is read as a number. -/
  | number {depth : Nat} {want : Ty} {literal : String} {n : Decimal}
      (hdepth : depth ≤ maxDepth) (hwant : want = .number ∨ want = .dynamic)
      (hparse : Decimal.parse literal = .ok n) :
      Inhabits depth want (.number literal)
  | string {depth : Nat} {want : Ty} {s : String} (hdepth : depth ≤ maxDepth)
      (hwant : want = .string ∨ want = .dynamic) :
      Inhabits depth want (.string s)
  | list {depth : Nat} {e : Ty} {items : List Data} (hdepth : depth ≤ maxDepth)
      (hitems : ∀ item ∈ items, Inhabits (depth + 1) e item) :
      Inhabits depth (.list e) (.sequence items)
  | set {depth : Nat} {e : Ty} {items : List Data} (hdepth : depth ≤ maxDepth)
      (hitems : ∀ item ∈ items, Inhabits (depth + 1) e item) :
      Inhabits depth (.set e) (.sequence items)
  | tuple {depth : Nat} {types : List Ty} {items : List Data} (hdepth : depth ≤ maxDepth)
      (hlength : items.length = types.length)
      (hitems : ∀ part ∈ types.zip items, Inhabits (depth + 1) part.1 part.2) :
      Inhabits depth (.tuple types) (.sequence items)
  | map {depth : Nat} {e : Ty} {entries : List (Key × Data)} (hdepth : depth ≤ maxDepth)
      (hkeys : ∀ entry ∈ entries, ∃ name, entry.1 = .string name)
      (hitems : ∀ entry ∈ entries, Inhabits (depth + 1) e entry.2) :
      Inhabits depth (.map e) (.mapping entries)
  /-- The keys are exactly the names of the attributes; every entry at a name counts. -/
  | object {depth : Nat} {wants : Fields Ty} {optional : List String}
      {entries : List (Key × Data)} (hdepth : depth ≤ maxDepth)
      (hkeys : ∀ entry ∈ entries, ∃ name ∈ Fields.names wants, entry.1 = .string name)
      (hall : ∀ name ∈ Fields.names wants, ∃ entry ∈ entries, entry.1 = .string name)
      (hitems : ∀ name item t, (Key.string name, item) ∈ entries →
        Fields.get? name wants = some t → Inhabits (depth + 1) t item) :
      Inhabits depth (.object wants optional) (.mapping entries)
  | dynamicSequence {depth : Nat} {items : List Data} (hdepth : depth ≤ maxDepth)
      (hitems : ∀ item ∈ items, Inhabits (depth + 1) .dynamic item) :
      Inhabits depth .dynamic (.sequence items)
  | dynamicMapping {depth : Nat} {entries : List (Key × Data)} (hdepth : depth ≤ maxDepth)
      (hkeys : ∀ entry ∈ entries, ∃ name, entry.1 = .string name)
      (hitems : ∀ entry ∈ entries, Inhabits (depth + 1) .dynamic entry.2) :
      Inhabits depth .dynamic (.mapping entries)

namespace Value

-- The equations are derived here once, before the proofs that all unfold them.
attribute [local simp] ofDataAt

section Parts

variable {depth : Nat}

/-- Whether a node is read exactly as the types that it inhabits. -/
def ReadIffInhabits (d : Data) : Prop :=
  ∀ (depth : Nat) (want : Ty), (∃ v, ofDataAt depth want d = .ok v) ↔ d.Inhabits depth want

theorem exists_within_iff
    {result : Except TypingError Value} :
    (∃ v, within depth result = .ok v) ↔ depth ≤ maxDepth ∧ ∃ v, result = .ok v := by
  simp only [within_eq_ok_iff, exists_and_left]

theorem exists_within_map_iff
    {α : Type} {result : Except TypingError α} {f : α → Value} :
    (∃ v, within depth (result.map f) = .ok v) ↔
      depth ≤ maxDepth ∧ ∃ a, result = .ok a := by
  rw [exists_within_iff]
  refine and_congr_right fun _ => ?_
  cases result <;> simp [Except.map]

theorem exists_ofItems_iff
    {items : List Data} (h : ∀ item ∈ items, ReadIffInhabits item) {e : Ty} {i : Nat} :
    (∃ elements, ofItems depth e i items = .ok elements) ↔
      ∀ item ∈ items, item.Inhabits depth e := by
  simp only [ofItems_eq_ok_iff, exists_forall₂_iff]
  exact forall₂_congr fun item hitem => h item hitem depth e

theorem exists_ofTupleItems_iff
    {items : List Data} (h : ∀ item ∈ items, ReadIffInhabits item) {types : List Ty} {i : Nat} :
    (∃ elements, ofTupleItems depth i types items = .ok elements) ↔
      ∀ part ∈ types.zip items, part.2.Inhabits depth part.1 := by
  simp only [ofTupleItems_eq_ok_iff, exists_forall₂_iff]
  exact forall₂_congr fun part hpart => h part.2 (List.of_mem_zip hpart).2 depth part.1

theorem exists_readAsMember_iff
    {typeOf : String → Option Ty} {entry : Key × Data} (h : ReadIffInhabits entry.2) :
    (∃ member, ReadAsMember depth typeOf entry member) ↔
      ∃ name t, entry.1 = .string name ∧ typeOf name = some t ∧ entry.2.Inhabits depth t := by
  constructor
  · rintro ⟨member, hkey, t, ht, hread⟩
    exact ⟨member.1, t, hkey, ht, (h depth t).1 ⟨member.2, hread⟩⟩
  · rintro ⟨name, t, hkey, ht, hinhabits⟩
    obtain ⟨v, hv⟩ := (h depth t).2 hinhabits
    exact ⟨(name, v), hkey, t, ht, hv⟩

theorem exists_ofEntries_iff
    {entries : List (Key × Data)} (h : ∀ entry ∈ entries, ReadIffInhabits entry.2)
    {e : Ty} {step : String → PathStep} {read : Fields Value} :
    (∃ result, ofEntries depth step e read entries = .ok result) ↔
      (∀ entry ∈ entries, ∃ name, entry.1 = .string name) ∧
        ∀ entry ∈ entries, entry.2.Inhabits depth e := by
  have hmembers : (∃ result, ofEntries depth step e read entries = .ok result) ↔
      ∃ members, List.Forall₂ (ReadAsMember depth fun _ => some e) entries members := by
    simp only [ofEntries_eq_ok_iff]
    rw [exists_comm]
    simp only [exists_and_left, exists_eq', and_true]
  rw [hmembers, exists_forall₂_iff]
  simp only [← forall₂_and]
  refine forall₂_congr fun entry hentry => ?_
  rw [exists_readAsMember_iff (h entry hentry)]
  simp

/-- The entries of a mapping make an object exactly if they are at its names. -/
theorem exists_objectOfAttributes_iff
    {entries : List (Key × Data)} (h : ∀ entry ∈ entries, ReadIffInhabits entry.2)
    {wants : Fields Ty} :
    (∃ read, ofAttributes depth wants [] entries = .ok read ∧
        ∀ name ∈ Fields.names wants, name ∈ Fields.names read) ↔
      (∀ entry ∈ entries, ∃ name ∈ Fields.names wants, entry.1 = .string name) ∧
        (∀ name ∈ Fields.names wants, ∃ entry ∈ entries, entry.1 = .string name) ∧
          ∀ name item t, (Key.string name, item) ∈ entries →
            Fields.get? name wants = some t → item.Inhabits depth t := by
  have hread : ∀ entry ∈ entries,
      (∃ member, ReadAsMember depth (Fields.get? · wants) entry member) ↔
      ∃ name t, entry.1 = .string name ∧ Fields.get? name wants = some t ∧
        entry.2.Inhabits depth t :=
    fun entry hentry => exists_readAsMember_iff (h entry hentry)
  simp only [ofAttributes_eq_ok_iff]
  constructor
  · rintro ⟨_, ⟨members, hmembers, rfl⟩, hcovered⟩
    have hentries := fun entry hentry =>
      (hread entry hentry).1 (exists_forall₂_iff.1 ⟨members, hmembers⟩ entry hentry)
    have hnames := fun name hname =>
      (mem_names_of_readAsMember_iff hmembers).1 (hcovered name hname)
    refine ⟨?_, hnames, ?_⟩
    · intro entry hentry
      obtain ⟨name, t, hkey, ht, -⟩ := hentries entry hentry
      exact ⟨name, Fields.mem_names_of_mem (Fields.mem_of_get? ht), hkey⟩
    · intro name item t hentry ht
      obtain ⟨_, t', ⟨⟩, ht', hinhabits⟩ := hentries _ hentry
      cases ht.symm.trans ht'
      exact hinhabits
  · rintro ⟨hkeys, hall, hitems⟩
    have hmember : ∀ entry ∈ entries,
        ∃ member, ReadAsMember depth (Fields.get? · wants) entry member := by
      rintro ⟨key, item⟩ hentry
      obtain ⟨name, hname, rfl⟩ := hkeys _ hentry
      obtain ⟨t, ht⟩ := Option.isSome_iff_exists.1 ((Fields.get?_isSome_iff name wants).2 hname)
      exact (hread _ hentry).2 ⟨name, t, rfl, ht, hitems name item t hentry ht⟩
    obtain ⟨members, hmembers⟩ := exists_forall₂_iff.2 hmember
    exact ⟨_, ⟨members, hmembers, rfl⟩, fun name hname =>
      (mem_names_of_readAsMember_iff hmembers).2 (hall name hname)⟩

end Parts

section Acceptance

theorem readIffInhabits_sequence
    {items : List Data} (h : ∀ item ∈ items, ReadIffInhabits item) :
    ReadIffInhabits (.sequence items) := by
  intro depth want
  constructor
  · rintro ⟨v, hv⟩
    cases want with
    | list e =>
        obtain ⟨hdepth, elements, helements⟩ := exists_within_map_iff.1 ⟨v, hv⟩
        exact .list hdepth ((exists_ofItems_iff h).1 ⟨elements, helements⟩)
    | set e =>
        obtain ⟨hdepth, elements, helements⟩ := exists_within_map_iff.1 ⟨v, hv⟩
        exact .set hdepth ((exists_ofItems_iff h).1 ⟨elements, helements⟩)
    | tuple types =>
        obtain ⟨hdepth, hlength, elements, helements, -⟩ := ofDataAt_tuple_eq_ok_iff.1 hv
        exact .tuple hdepth hlength ((exists_ofTupleItems_iff h).1 ⟨elements, helements⟩)
    | dynamic =>
        obtain ⟨hdepth, elements, helements⟩ := exists_within_map_iff.1 ⟨v, hv⟩
        exact .dynamicSequence hdepth ((exists_ofItems_iff h).1 ⟨elements, helements⟩)
    | _ => cases (within_eq_ok_iff.1 hv).2
  · intro hinhabits
    cases hinhabits with
    | list hdepth hitems =>
        exact exists_within_map_iff.2 ⟨hdepth, (exists_ofItems_iff h).2 hitems⟩
    | set hdepth hitems =>
        exact exists_within_map_iff.2 ⟨hdepth, (exists_ofItems_iff h).2 hitems⟩
    | tuple hdepth hlength hitems =>
        obtain ⟨elements, helements⟩ := (exists_ofTupleItems_iff h).2 hitems
        exact ⟨_, ofDataAt_tuple_eq_ok_iff.2 ⟨hdepth, hlength, elements, helements, rfl⟩⟩
    | dynamicSequence hdepth hitems =>
        exact exists_within_map_iff.2 ⟨hdepth, (exists_ofItems_iff h).2 hitems⟩

theorem readIffInhabits_mapping
    {entries : List (Key × Data)} (h : ∀ entry ∈ entries, ReadIffInhabits entry.2) :
    ReadIffInhabits (.mapping entries) := by
  intro depth want
  constructor
  · rintro ⟨v, hv⟩
    cases want with
    | map e =>
        obtain ⟨hdepth, hread⟩ := exists_within_map_iff.1 ⟨v, hv⟩
        obtain ⟨hkeys, hitems⟩ := (exists_ofEntries_iff h).1 hread
        exact .map hdepth hkeys hitems
    | object wants optional =>
        obtain ⟨hdepth, read, hread, hcovered, -⟩ := ofDataAt_object_eq_ok_iff.1 hv
        obtain ⟨hkeys, hall, hitems⟩ :=
          (exists_objectOfAttributes_iff h).1 ⟨read, hread, hcovered⟩
        exact .object hdepth hkeys hall hitems
    | dynamic =>
        obtain ⟨hdepth, hread⟩ := exists_within_map_iff.1 ⟨v, hv⟩
        obtain ⟨hkeys, hitems⟩ := (exists_ofEntries_iff h).1 hread
        exact .dynamicMapping hdepth hkeys hitems
    | _ => cases (within_eq_ok_iff.1 hv).2
  · intro hinhabits
    cases hinhabits with
    | map hdepth hkeys hitems =>
        exact exists_within_map_iff.2 ⟨hdepth, (exists_ofEntries_iff h).2 ⟨hkeys, hitems⟩⟩
    | object hdepth hkeys hall hitems =>
        obtain ⟨read, hread, hcovered⟩ :=
          (exists_objectOfAttributes_iff h).2 ⟨hkeys, hall, hitems⟩
        exact ⟨_, ofDataAt_object_eq_ok_iff.2 ⟨hdepth, read, hread, hcovered, rfl⟩⟩
    | dynamicMapping hdepth hkeys hitems =>
        exact exists_within_map_iff.2 ⟨hdepth, (exists_ofEntries_iff h).2 ⟨hkeys, hitems⟩⟩

/-- A node is read exactly as the types that it inhabits. -/
theorem readIffInhabits
    (d : Data) :
    ReadIffInhabits d := by
  induction d using Data.induction with
  | null =>
      intro depth want
      rw [ofDataAt, exists_within_iff]
      constructor
      · rintro ⟨hdepth, -⟩
        exact .null hdepth
      · rintro ⟨hdepth⟩
        exact ⟨hdepth, _, rfl⟩
  | bool b =>
      intro depth want
      simp only [ofDataAt, exists_within_iff, ofBool_eq_ok_iff]
      constructor
      · rintro ⟨hdepth, _, hwant, -⟩
        exact .bool hdepth hwant
      · intro h
        cases h with
        | bool hdepth hwant => exact ⟨hdepth, _, hwant, rfl⟩
  | number literal =>
      intro depth want
      simp only [ofDataAt, exists_within_iff, ofNumber_eq_ok_iff]
      constructor
      · rintro ⟨hdepth, _, hwant, _, hparse, -⟩
        exact .number hdepth hwant hparse
      · intro h
        cases h with
        | number hdepth hwant hparse => exact ⟨hdepth, _, hwant, _, hparse, rfl⟩
  | string s =>
      intro depth want
      simp only [ofDataAt, exists_within_iff, ofString_eq_ok_iff]
      constructor
      · rintro ⟨hdepth, _, hwant, -⟩
        exact .string hdepth hwant
      · intro h
        cases h with
        | string hdepth hwant => exact ⟨hdepth, _, hwant, rfl⟩
  | sequence items ih => exact readIffInhabits_sequence ih
  | mapping entries ih => exact readIffInhabits_mapping ih

end Acceptance

end Value
end TypedConfig
