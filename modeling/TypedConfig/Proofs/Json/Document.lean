import TypedConfig.Json.Document
import TypedConfig.Proofs.Json.Parts
import TypedConfig.Proofs.Outcome

/-!
# Documents written and read back

A document is a tree whose text is read again as what it was written for.  Its
members may be put down in the order in which they are written, or in the order
of their names, as generic data keeps them.  What is said here holds of both.

* `Arrangement.ReadsBack`: a tree is read back on a condition, and otherwise not
  read at all.
* `Arrangement.exists_readRecord`: an object is read as a record, each of its
  members as the field of that name.
* The lemmas on fields say of each kind of field how it is read back: options,
  flags, choices, entries by name and bounds.
-/

namespace TypedConfig
namespace Json

/-- The order in which the members of objects are put down. -/
inductive Arrangement where
  | asWritten
  | byName

namespace Arrangement

/-- A tree as a source, the members of its objects in an order. -/
def arrange : Arrangement → Json → Source
  | .asWritten, j => j.source
  | .byName, j => j.canonical.source

/-- A canonical tree is put down in one way only. -/
theorem arrange_of_canonical
    (o : Arrangement) {j : Json} (h : j.Canonical) :
    o.arrange j = j.source := by
  cases o with
  | asWritten => rfl
  | byName => rw [arrange, canonical_eq_self j h]

theorem arrange_ne_null
    (o : Arrangement) {j : Json} (h : j ≠ .null) :
    o.arrange j ≠ .null := by
  cases o <;> cases j <;> simp_all [arrange, source, canonical]

end Arrangement

/-- Fields as the members of an object. -/
def ofFields (fields : Fields Source) : Source :=
  .object (fields.map fun field => (some field.1, field.2))

theorem source_object
    (members : Fields Json) :
    (Json.object members).source = ofFields (Fields.mapValues source members) := by
  rw [source, memberSources_eq_map, ofFields, Fields.mapValues, List.map_map]
  rfl

theorem Arrangement.arrange_object
    (o : Arrangement) {members : Fields Json} (hs : Fields.Sorted members) :
    o.arrange (.object members) = ofFields (Fields.mapValues o.arrange members) := by
  cases o with
  | asWritten => exact source_object members
  | byName =>
      have hsorted := Fields.sorted_mapValues canonical hs
      rw [arrange, canonical_object, Fields.ofList_eq_self hsorted, source_object,
        Fields.mapValues_mapValues]
      rfl

/-- Where the names of the members differ they lead to the same contents in any
order. -/
theorem Arrangement.exists_arrange_object
    (o : Arrangement) {members : Fields Json} (h : (Fields.names members).Nodup) :
    ∃ fields, o.arrange (.object members) = ofFields fields ∧ (Fields.names fields).Nodup ∧
      ∀ name, Fields.get? name fields = (Fields.get? name members).map o.arrange := by
  cases o with
  | asWritten =>
      refine ⟨_, source_object members, ?_, fun name => Fields.get?_mapValues _ _ _⟩
      rwa [Fields.names_mapValues]
  | byName =>
      have hnames : (Fields.names (Fields.mapValues canonical members)).Nodup := by
        rwa [Fields.names_mapValues]
      refine ⟨_, (congrArg source (canonical_object members)).trans (source_object _), ?_, ?_⟩
      · rw [Fields.names_mapValues]
        exact (Fields.sorted_ofList _).nodup_names
      · intro name
        rw [Fields.get?_mapValues, Fields.ofList, Fields.get?_insertAll_of_nodup _ _ hnames,
          Fields.get?_mapValues, Fields.get?_nil, Option.or_none, Option.map_map]
        rfl

namespace Source

variable {levels : Nat} {j : Json}

/-- The items of an array that is read as generic data are themselves read. -/
theorem exists_generic_of_mem
    {items : List Source} (h : (Source.array items).generic levels = .ok j) :
    ∀ item ∈ items, ∃ l i, item.generic l = .ok i := by
  cases levels with
  | zero => cases h
  | succ levels =>
      rw [generic, map_eq_ok_iff] at h
      obtain ⟨read, hread, -⟩ := h
      have hitems : List.Forall₂ (fun s j => s.generic levels = .ok j) items read := by
        refine (forall₂_of_steps (by rfl) ?_).1 hread
        intro item rest read
        rw [genericItems]
        cases item.generic levels <;> simp [map_eq_ok_iff]
      exact forall_mem_of_forall₂ hitems.flip fun _ _ item hitem => ⟨levels, _, hitem⟩

theorem genericMembers_eq_ok_iff
    {fields : Fields Source} {read : Fields Json} :
    genericMembers levels (fields.map fun field => (some field.1, field.2)) = .ok read ↔
      Fields.Paired (fun s j => s.generic levels = .ok j) fields read := by
  refine @paired_of_steps _ _ _ _
    (fun fields => genericMembers levels (fields.map fun field => (some field.1, field.2)))
    rfl ?_ fields read
  intro name item rest read
  simp only [List.map_cons, genericMembers]
  cases item.generic levels <;> simp [map_eq_ok_iff]

/-- An object that is read as generic data stands for a number, or its members
are themselves read. -/
theorem exists_generic_of_ofFields
    {fields : Fields Source} (h : (ofFields fields).generic levels = .ok j) :
    (∃ item rest, fields = (numberName, item) :: rest ∧ readReserved item rest.isEmpty = .ok j) ∨
      (∀ field ∈ fields.head?, field.1 ≠ numberName) ∧
        ∀ field ∈ fields, ∃ l i, field.2.generic l = .ok i := by
  cases levels with
  | zero => cases h
  | succ levels =>
      cases fields with
      | nil => exact Or.inr ⟨by simp, List.forall_mem_nil _⟩
      | cons field rest =>
          rw [ofFields, List.map_cons, generic, reserved?] at h
          by_cases hname : field.1 = numberName
          · rw [if_pos hname] at h
            refine Or.inl ⟨field.2, rest, ?_, ?_⟩
            · rw [← hname]
            · rw [← h, List.isEmpty_map]
          · rw [if_neg hname] at h
            obtain ⟨read, hread, -⟩ := map_eq_ok_iff.1 h
            have hpaired := (@genericMembers_eq_ok_iff _ (field :: rest) read).1 hread
            refine Or.inr ⟨by simpa using hname, ?_⟩
            exact forall_mem_of_forall₂ hpaired.flip
              fun _ _ field hfield => ⟨levels, _, hfield.2⟩

end Source

section Records

variable {names : List String}

/-- An object of fields that the record has is read as those fields. -/
theorem readRecord_ofFields
    {fields : Fields Source} (hnodup : (Fields.names fields).Nodup)
    (hnames : ∀ name ∈ Fields.names fields, name ∈ names) :
    readRecord names (ofFields fields) = .ok fields := by
  unfold readRecord ofFields
  induction fields with
  | nil => rfl
  | cons field rest ih =>
      obtain ⟨name, item⟩ := field
      obtain ⟨hfirst, hrest⟩ := List.nodup_cons.1 hnodup
      obtain ⟨hname, hothers⟩ := List.forall_mem_cons.1 hnames
      have hcontains : names.contains name = true := List.contains_iff_mem.2 hname
      have hnew : Fields.contains name rest = false := by
        rw [Fields.contains, Fields.get?_eq_none_iff.2 hfirst]
        rfl
      simp only [List.map_cons, fieldsOfMembers, ih hrest hothers, hcontains, hnew]
      rfl

/-- A record that has some of the fields in question, each once, is read as what
they hold. -/
theorem Arrangement.exists_readRecord
    (o : Arrangement) {members : Fields Json}
    (h : (Fields.names members).Sublist names) (hnodup : names.Nodup) :
    ∃ fields, readRecord names (o.arrange (.object members)) = .ok fields ∧
      ∀ name, Fields.get? name fields = (Fields.get? name members).map o.arrange := by
  obtain ⟨fields, hobject, hfields, hget⟩ := o.exists_arrange_object (hnodup.sublist h)
  refine ⟨fields, ?_, hget⟩
  rw [hobject]
  refine readRecord_ofFields hfields ?_
  intro name hname
  rw [← Fields.get?_isSome_iff, hget, Option.isSome_map, Fields.get?_isSome_iff] at hname
  exact h.subset hname

end Records

section Maps

variable {α : Type} {read : Source → Except DocumentError α}

theorem readEachMember_eq_ok_iff
    {fields : Fields Source} {result : Fields α} :
    readEachMember read (fields.map fun field => (some field.1, field.2)) = .ok result ↔
      Fields.Paired (fun s a => read s = .ok a) fields result := by
  refine @paired_of_steps _ _ _ _
    (fun fields => readEachMember read (fields.map fun field => (some field.1, field.2)))
    rfl ?_ fields result
  intro name s rest result
  simp only [List.map_cons, readEachMember]
  cases read s <;> simp [map_eq_ok_iff]

/-- Members in the order of their names are kept in it. -/
theorem readMap_ofFields_eq_ok_iff
    {fields : Fields Source} {result : Fields α} (hs : Fields.Sorted fields) :
    readMap read (ofFields fields) = .ok result ↔
      Fields.Paired (fun s a => read s = .ok a) fields result := by
  simp only [ofFields, readMap, map_eq_ok_iff, readEachMember_eq_ok_iff]
  constructor
  · rintro ⟨members, hpaired, rfl⟩
    rwa [Fields.ofList_eq_self (hpaired.sorted_iff.1 hs)]
  · intro hpaired
    exact ⟨result, hpaired, Fields.ofList_eq_self (hpaired.sorted_iff.1 hs)⟩

end Maps

/-- Whether a tree is read back as what it was written for: a reader that may
enter enough levels succeeds exactly on a condition, and then with that. -/
def Arrangement.ReadsBack
    {α : Type} (o : Arrangement) (read : Nat → Source → Except DocumentError α) (j : Json) (a : α)
    (condition : Prop) : Prop :=
  ∀ levels, j.depth ≤ levels → ∀ b, read levels (o.arrange j) = .ok b ↔ b = a ∧ condition

theorem Arrangement.ReadsBack.map
    {α β : Type} {o : Arrangement} {read : Nat → Source → Except DocumentError α} {j : Json} {a : α}
    {condition : Prop} (h : o.ReadsBack read j a condition) (f : α → β) :
    o.ReadsBack (fun levels s => (read levels s).map f) j (f a) condition := by
  intro levels hd b
  simp only [map_eq_ok_iff, h levels hd]
  constructor
  · rintro ⟨_, ⟨rfl, hcondition⟩, rfl⟩
    exact ⟨rfl, hcondition⟩
  · rintro ⟨rfl, hcondition⟩
    exact ⟨a, ⟨rfl, hcondition⟩, rfl⟩

section Written

variable {α : Type} {name : String}

@[simp] theorem get?_fieldOf?
    (key : String) (write : α → Json) (a : Option α) :
    Fields.get? key (fieldOf? name write a) = if name = key then a.map write else none := by
  cases a with
  | none => simp [fieldOf?]
  | some x => simp [fieldOf?, Fields.get?]

@[simp] theorem get?_fieldIf
    (key : String) (written : Bool) (j : Json) :
    Fields.get? key (fieldIf written name j) = if name = key ∧ written then some j else none := by
  cases written <;> simp [fieldIf, Fields.get?]

theorem names_fieldOf?_sublist
    (write : α → Json) (a : Option α) :
    (Fields.names (fieldOf? name write a)).Sublist [name] := by
  cases a with
  | none => exact List.nil_sublist _
  | some x => exact List.Sublist.refl _

theorem names_fieldIf_sublist
    (written : Bool) (j : Json) :
    (Fields.names (fieldIf written name j)).Sublist [name] := by
  cases written with
  | false => exact List.nil_sublist _
  | true => exact List.Sublist.refl _

end Written

section Fields

variable {α : Type} {members : Fields Json} {fields : Fields Source} {name : String} {j : Json}
  {levels : Nat} {P : α → Prop}

theorem depth_le_of_get?
    (hd : (Json.object members).depth ≤ levels + 1) (h : Fields.get? name members = some j) :
    j.depth ≤ levels :=
  Nat.le_trans (depth_le_of_mem_members (Fields.mem_of_get? h)) (Nat.le_of_succ_le_succ hd)

namespace Arrangement

variable (o : Arrangement)

/-- An object that is made of fields is read back if each of them is. -/
theorem readMap_arrange_eq_ok_iff
    {read : Nat → Source → Except DocumentError α} {write : α → Json} {entries : Fields α}
    (hs : Fields.Sorted entries)
    (hread : ∀ x ∈ entries, o.ReadsBack read (write x.2) x.2 (P x.2))
    (hd : (Json.object (Fields.mapValues write entries)).depth ≤ levels + 1) {b : Fields α} :
    readMap (read levels) (o.arrange (.object (Fields.mapValues write entries))) = .ok b ↔
      b = entries ∧ ∀ x ∈ entries, P x.2 := by
  have hwritten := Fields.sorted_mapValues write hs
  have hmember : ∀ x ∈ entries, ∀ y, x = y → ∀ c : String × α,
      (y.1 = c.1 ∧ read levels (o.arrange (write y.2)) = .ok c.2) ↔ P x.2 ∧ id x = c := by
    rintro x hx _ rfl c
    have hdepth : (write x.2).depth ≤ levels :=
      Nat.le_trans (depth_le_of_mem_members (Fields.mem_mapValues.2 ⟨x, hx, rfl⟩))
        (Nat.le_of_succ_le_succ hd)
    rw [hread x hx levels hdepth, id, Prod.ext_iff, @eq_comm _ x.2]
    tauto
  have hself : List.Forall₂ (· = ·) entries entries := List.forall₂_same.2 fun _ _ => rfl
  rw [o.arrange_object hwritten, readMap_ofFields_eq_ok_iff (Fields.sorted_mapValues _ hwritten),
    Fields.mapValues_mapValues, Fields.Paired, Fields.mapValues, List.forall₂_map_left_iff]
  refine (forall₂_iff_map_eq hself hmember).trans ?_
  rw [List.map_id, and_comm, @eq_comm _ entries]

theorem readsBack_string
    (s : String) :
    o.ReadsBack (fun _ => readString) (.string s) s True := by
  intro levels _ b
  have hread : readString (o.arrange (.string s)) = .ok s := by
    cases o <;> rfl
  change readString (o.arrange (.string s)) = .ok b ↔ _
  rw [hread, Except.ok.injEq, eq_comm, and_true]

/-- A natural number is read back if it is one of 64 bits. -/
theorem readsBack_nat64
    (n : Nat) :
    o.ReadsBack (fun _ => readNat64) (ofNat n) n (n < Decimal.twoPow 64) := by
  intro levels _ b
  have hdigits : (Nat.toDigits 10 n).all Char.isDigit = true :=
    List.all_eq_true.2 fun c hc => Nat.isDigit_of_mem_toDigits (by decide) (by decide) hc
  have hvalue : Decimal.digitsValue (Nat.toDigits 10 n) = n := Nat.ofDigitChars_ten_toDigits
  rw [o.arrange_of_canonical (show (ofNat n).Canonical from trivial)]
  simp only [ofNat, source, readNat64, unsigned?, String.toList_ofList, hdigits, hvalue]
  by_cases h : n < Decimal.twoPow 64
  · simp [h, eq_comm]
  · simp [h]

-- The fields of a record that has been read from the members.
variable (hget : ∀ name, Fields.get? name fields = (Fields.get? name members).map o.arrange)
include hget

/-- An option is read back if what it holds is. -/
theorem optionalField_eq_ok_iff
    (hd : (Json.object members).depth ≤ levels + 1)
    {read : Nat → Source → Except DocumentError α} {write : α → Json} {a : Option α}
    (hread : ∀ x, a = some x → o.ReadsBack read (write x) x (P x))
    (hnull : ∀ x, write x ≠ .null) (h : Fields.get? name members = a.map write) {b : Option α} :
    optionalField fields name (read levels) = .ok b ↔ b = a ∧ ∀ x, a = some x → P x := by
  unfold optionalField
  rw [hget, h]
  cases a with
  | none => simp [eq_comm]
  | some x =>
      have hwritten := o.arrange_ne_null (hnull x)
      have hx := hread x rfl levels (depth_le_of_get? hd h)
      simp only [Option.map_some, map_eq_ok_iff, hx]
      constructor
      · rintro ⟨_, ⟨rfl, hP⟩, rfl⟩
        exact ⟨rfl, fun _ hy => Option.some.inj hy ▸ hP⟩
      · rintro ⟨rfl, hP⟩
        exact ⟨x, ⟨rfl, hP x rfl⟩, rfl⟩

/-- A flag is read back from its field, which is there if the flag is set. -/
theorem defaultField_flag
    {flag : Bool} (h : Fields.get? name members = if flag then some (.bool true) else none)
    {b : Bool} :
    defaultField fields name false readBool = .ok b ↔ b = flag := by
  have hread : defaultField fields name false readBool = .ok flag := by
    unfold defaultField
    rw [hget, h]
    cases flag with
    | false => rfl
    | true => cases o <;> rfl
  rw [hread, Except.ok.injEq, eq_comm]

/-- A choice is read back from the name of what was chosen. -/
theorem defaultField_choice
    {choice : String → Option α} {a default : α} {chosen : String} (ha : choice chosen = some a)
    (h : Fields.get? name members = some (.string chosen)) {b : α} :
    defaultField fields name default (readChoice levels choice) = .ok b ↔ b = a := by
  have hread : defaultField fields name default (readChoice levels choice) = .ok a := by
    unfold defaultField
    rw [hget, h]
    cases o <;> simp [arrange, canonical, source, readChoice, ha]
  rw [hread, Except.ok.injEq, eq_comm]

/-- Entries that are left out only if there are none are read back if each of
them is. -/
theorem defaultField_map_eq_ok_iff
    (hd : (Json.object members).depth ≤ levels + 1)
    {readAll : Nat → Source → Except DocumentError (Fields α)}
    {read : Nat → Source → Except DocumentError α}
    (hreadAll : ∀ levels, readAll (levels + 1) = readMap (read levels))
    {write : α → Json} {entries : Fields α} {omitted : Bool} (hs : Fields.Sorted entries)
    (hread : ∀ x ∈ entries, o.ReadsBack read (write x.2) x.2 (P x.2))
    (h : Fields.get? name members =
      if omitted then none else some (.object (Fields.mapValues write entries)))
    (homitted : omitted = true → entries = []) {b : Fields α} :
    defaultField fields name [] (readAll levels) = .ok b ↔
      b = entries ∧ ∀ x ∈ entries, P x.2 := by
  unfold defaultField
  rw [hget, h]
  cases omitted with
  | true =>
      rw [homitted rfl]
      simp [eq_comm]
  | false =>
      have hentries := depth_le_of_get? hd h
      cases levels with
      | zero => cases hentries
      | succ levels =>
          rw [hreadAll]
          exact o.readMap_arrange_eq_ok_iff hs hread hentries

theorem optionalField_string
    (hd : (Json.object members).depth ≤ levels + 1)
    {a : Option String} (h : Fields.get? name members = a.map Json.string) {b : Option String} :
    optionalField fields name readString = .ok b ↔ b = a := by
  refine (o.optionalField_eq_ok_iff hget hd (fun s _ => o.readsBack_string s)
    (fun _ => Json.noConfusion) h).trans ?_
  simp only [implies_true, and_true]

end Arrangement

end Fields

end Json
end TypedConfig
