import Mathlib.Data.List.Perm.Basic
import TypedConfig.Proofs.Data.Reading

/-!
# Rearranged data

Data may be rearranged in two ways without any effect on what it is read as: the
entries of a mapping whose names are distinct may stand in another order, and a
number may be spelled in another way.  Both may be done anywhere in a tree.  The
main statement says so, and that JSON and YAML trees that hold the same data are
read alike.
-/

namespace TypedConfig

namespace Data

/-- Whether two trees differ at most in the order of entries in mappings with distinct
names and in how numbers are spelled. -/
inductive Alike : Data → Data → Prop where
  | null : Alike .null .null
  | bool {b : Bool} : Alike (.bool b) (.bool b)
  /-- The literals are read as the same number, or neither of them is read. -/
  | number {literal other : String}
      (hparse : ∀ n, Decimal.parse literal = .ok n ↔ Decimal.parse other = .ok n) :
      Alike (.number literal) (.number other)
  | string {s : String} : Alike (.string s) (.string s)
  | sequence {items others : List Data} (hitems : List.Forall₂ Alike items others) :
      Alike (.sequence items) (.sequence others)
  /-- The entries in the middle have the keys of one mapping and are those of the other. -/
  | mapping {entries middle others : List (Key × Data)}
      (hkeys : entries.map Prod.fst = middle.map Prod.fst)
      (hitems : List.Forall₂ Alike (entries.map Prod.snd) (middle.map Prod.snd))
      (horder : middle = others ∨ middle.Perm others ∧ (names middle).Nodup) :
      Alike (.mapping entries) (.mapping others)

end Data

/-- Whether a YAML tree holds the same data as a JSON tree.  Its nodes may be tagged,
its numbers may be spelled in another way, and its mappings, whose keys are distinct
strings, may be in another order. -/
inductive Yaml.Holds : Yaml → Json → Prop where
  | null : Holds .null .null
  | bool {b : Bool} : Holds (.bool b) (.bool b)
  | number {literal other : String}
      (hparse : ∀ n, Decimal.parse literal = .ok n ↔ Decimal.parse other = .ok n) :
      Holds (.number literal) (.number other)
  | string {s : String} : Holds (.string s) (.string s)
  | sequence {nodes : List Yaml} {items : List Json} (hitems : List.Forall₂ Holds nodes items) :
      Holds (.sequence nodes) (.array items)
  | mapping {entries : List (Yaml × Yaml)} {middle members : Fields Json}
      (hkeys : entries.map Prod.fst = middle.map fun member => .string member.1)
      (hitems : List.Forall₂ Holds (entries.map Prod.snd) (middle.map Prod.snd))
      (hperm : middle.Perm members) (hdistinct : (Fields.names middle).Nodup) :
      Holds (.mapping entries) (.object members)
  | tagged {tag : String} {node : Yaml} {j : Json} (h : Holds node j) :
      Holds (.tagged tag node) j

namespace Value

-- The equations are derived here once, before the proofs that all unfold them.
attribute [local simp] ofDataAt

/-- Whether two readings give the same value or both fail. -/
def Agree (first second : Except TypingError Value) : Prop :=
  (∃ v, first = .ok v ∧ second = .ok v) ∨ ∃ e e', first = .error e ∧ second = .error e'

theorem agree_of_forall_iff
    {first second : Except TypingError Value} (h : ∀ v, first = .ok v ↔ second = .ok v) :
    Agree first second := by
  cases first with
  | ok v => exact Or.inl ⟨v, rfl, (h v).1 rfl⟩
  | error e =>
      cases second with
      | ok v => cases (h v).2 rfl
      | error e' => exact Or.inr ⟨e, e', rfl, rfl⟩

section Alike

/-- Whether two trees are read as the same values, wherever they stand. -/
def ReadAlike (d d' : Data) : Prop :=
  ∀ (depth : Nat) (want : Ty) (v : Value),
    ofDataAt depth want d = .ok v ↔ ofDataAt depth want d' = .ok v

variable {depth : Nat} {want : Ty}

theorem ofItems_congr
    {items others : List Data} (h : List.Forall₂ ReadAlike items others) {i : Nat}
    {elements : List Value} :
    ofItems depth want i items = .ok elements ↔ ofItems depth want i others = .ok elements := by
  rw [ofItems_eq_ok_iff, ofItems_eq_ok_iff]
  exact forall₂_iff_of_forall₂ h fun _ _ _ _ hread v => hread depth want v

theorem ofTupleItems_congr
    {items others : List Data} (h : List.Forall₂ ReadAlike items others) {i : Nat}
    {types : List Ty} {elements : List Value} :
    ofTupleItems depth i types items = .ok elements ↔
      ofTupleItems depth i types others = .ok elements := by
  rw [ofTupleItems_eq_ok_iff, ofTupleItems_eq_ok_iff]
  refine forall₂_iff_of_forall₂ (forall₂_zip_left h types) ?_
  rintro ⟨t, item⟩ _ ⟨_, other⟩ _ ⟨rfl, hread⟩ v
  exact hread depth t v

/-- Sequences are read alike if their items are, place by place. -/
theorem readAlike_sequence
    {items others : List Data} (h : List.Forall₂ ReadAlike items others) :
    ReadAlike (.sequence items) (.sequence others) := by
  intro depth want v
  cases want with
  | tuple types =>
      rw [ofDataAt_tuple_eq_ok_iff, ofDataAt_tuple_eq_ok_iff, h.length_eq]
      simp only [ofTupleItems_congr h]
  | list e => simp only [ofDataAt, within_eq_ok_iff, map_eq_ok_iff, ofItems_congr h]
  | set e => simp only [ofDataAt, within_eq_ok_iff, map_eq_ok_iff, ofItems_congr h]
  | dynamic => simp only [ofDataAt, within_eq_ok_iff, map_eq_ok_iff, ofItems_congr h]
  | _ => simp

/-- Whether two lists of entries are read as the same fields, whatever the types that
are wanted of them. -/
def EntriesReadAlike (entries others : List (Key × Data)) : Prop :=
  ∀ (depth : Nat) (typeOf : String → Option Ty) (result : Fields Value),
    (∃ members, List.Forall₂ (ReadAsMember depth typeOf) entries members ∧
        Fields.ofList members = result) ↔
      ∃ members, List.Forall₂ (ReadAsMember depth typeOf) others members ∧
        Fields.ofList members = result

theorem entriesReadAlike_of_forall₂
    {entries others : List (Key × Data)}
    (h : List.Forall₂ (fun a b => a.1 = b.1 ∧ ReadAlike a.2 b.2) entries others) :
    EntriesReadAlike entries others := by
  intro depth typeOf result
  refine exists_congr fun members => and_congr_left fun _ => forall₂_iff_of_forall₂ h ?_
  rintro ⟨key, item⟩ _ ⟨_, other⟩ _ ⟨rfl, hread⟩ member
  simp only [ReadAsMember, hread depth _ _]

/-- The order of entries with distinct names does not matter. -/
theorem exists_readAsMember_of_perm
    {typeOf : String → Option Ty} {entries others : List (Key × Data)} {members : Fields Value}
    (hperm : entries.Perm others) (hdistinct : (Data.names entries).Nodup)
    (h : List.Forall₂ (ReadAsMember depth typeOf) entries members) :
    ∃ members', List.Forall₂ (ReadAsMember depth typeOf) others members' ∧
      Fields.ofList members' = Fields.ofList members := by
  obtain ⟨members', hmembers', hperm'⟩ := List.perm_comp_forall₂ hperm.symm h
  rw [← names_of_readAsMember h] at hdistinct
  exact ⟨members', hmembers', (Fields.ofList_eq_of_perm hperm'.symm hdistinct).symm⟩

theorem entriesReadAlike_of_perm
    {entries others : List (Key × Data)} (hperm : entries.Perm others)
    (hdistinct : (Data.names entries).Nodup) :
    EntriesReadAlike entries others := by
  intro depth typeOf result
  have hdistinct' : (Data.names others).Nodup := (hperm.filterMap _).nodup_iff.1 hdistinct
  constructor
  · rintro ⟨members, hmembers, rfl⟩
    exact exists_readAsMember_of_perm hperm hdistinct hmembers
  · rintro ⟨members, hmembers, rfl⟩
    exact exists_readAsMember_of_perm hperm.symm hdistinct' hmembers

/-- Mappings are read alike if their entries are. -/
theorem readAlike_mapping
    {entries others : List (Key × Data)} (h : EntriesReadAlike entries others) :
    ReadAlike (.mapping entries) (.mapping others) := by
  intro depth want v
  have hentries : ∀ (step : String → PathStep) (e : Ty) (read : Fields Value),
      ofEntries (depth + 1) step e [] entries = .ok read ↔
        ofEntries (depth + 1) step e [] others = .ok read := by
    intro step e read
    rw [ofEntries_eq_ok_iff, ofEntries_eq_ok_iff]
    exact h (depth + 1) _ read
  have hattributes : ∀ (wants : Fields Ty) (read : Fields Value),
      ofAttributes (depth + 1) wants [] entries = .ok read ↔
        ofAttributes (depth + 1) wants [] others = .ok read := by
    intro wants read
    rw [ofAttributes_eq_ok_iff, ofAttributes_eq_ok_iff]
    exact h (depth + 1) _ read
  cases want with
  | object wants optional => simp only [ofDataAt_object_eq_ok_iff, hattributes]
  | map e => simp only [ofDataAt, within_eq_ok_iff, map_eq_ok_iff, hentries]
  | dynamic => simp only [ofDataAt, within_eq_ok_iff, map_eq_ok_iff, hentries]
  | _ => simp

/-- What differs only in the order of entries and the spelling of numbers is read
alike. -/
theorem readAlike_of_alike
    {d d' : Data} (h : d.Alike d') :
    ReadAlike d d' := by
  induction d using Data.induction generalizing d' with
  | null | bool _ | string _ =>
      cases h
      exact fun _ _ _ => Iff.rfl
  | number literal =>
      cases h with
      | number hparse =>
          intro depth want v
          simp only [ofDataAt, within_eq_ok_iff, ofNumber_eq_ok_iff, hparse]
  | sequence items ih =>
      cases h with
      | sequence hitems =>
          have hread := forall₂_imp_of_mem hitems fun item hitem _ _ h => ih item hitem h
          exact readAlike_sequence hread
  | mapping entries ih =>
      cases h with
      | @mapping _ middle others hkeys hitems horder =>
          rw [List.forall₂_map_left_iff, List.forall₂_map_right_iff] at hitems
          have hread := forall₂_imp_of_mem hitems fun entry hentry _ _ h => ih entry hentry h
          -- The contents are exchanged first; the order changes after that.
          have hmiddle := entriesReadAlike_of_forall₂ (forall₂_and_map_eq hread hkeys)
          refine readAlike_mapping fun depth typeOf result => ?_
          rcases horder with rfl | ⟨hperm, hdistinct⟩
          · exact hmiddle depth typeOf result
          · exact (hmiddle depth typeOf result).trans
              (entriesReadAlike_of_perm hperm hdistinct depth typeOf result)

end Alike

end Value

section Views

/-- Induction over YAML trees: a tree may assume the property of the items of a
sequence, of the contents of a mapping and of a node under a tag. -/
@[elab_as_elim]
theorem Yaml.induction
    {motive : Yaml → Prop}
    (null : motive .null)
    (bool : ∀ b, motive (.bool b))
    (number : ∀ literal, motive (.number literal))
    (string : ∀ s, motive (.string s))
    (sequence : ∀ items, (∀ item ∈ items, motive item) → motive (.sequence items))
    (mapping : ∀ entries, (∀ entry ∈ entries, motive entry.2) → motive (.mapping entries))
    (tagged : ∀ tag node, motive node → motive (.tagged tag node)) :
    ∀ y : Yaml, motive y :=
  Yaml.rec null bool number string
    (fun items => sequence items)
    (fun entries => mapping entries)
    tagged
    (List.forall_mem_nil _)
    (fun _ _ hitem hrest => List.forall_mem_cons.2 ⟨hitem, hrest⟩)
    (List.forall_mem_nil _)
    (fun _ _ hentry hrest => List.forall_mem_cons.2 ⟨hentry, hrest⟩)
    (fun _ _ _ hitem => hitem)

namespace Data

theorem ofYamlItems_eq_map
    (items : List Yaml) :
    ofYamlItems items = items.map ofYaml := by
  induction items with
  | nil => rfl
  | cons item rest ih => simp [ofYamlItems, ih]

theorem ofYamlEntries_eq_map
    (entries : List (Yaml × Yaml)) :
    ofYamlEntries entries = entries.map fun entry => (keyOfYaml entry.1, ofYaml entry.2) := by
  induction entries with
  | nil => rfl
  | cons entry rest ih => simp [ofYamlEntries, ih]

/-- A key that is none of the names so far is put at the end. -/
theorem putEntry_eq_append
    {key : Key} (d : Data) {entries : List (Key × Data)}
    (h : ∀ name ∈ names entries, key ≠ .string name) :
    putEntry key d entries = entries ++ [(key, d)] := by
  induction entries with
  | nil => rfl
  | cons entry rest ih =>
      obtain ⟨other, e⟩ := entry
      simp only [mem_names_iff, List.exists_mem_cons_iff] at h ih
      have hrest := ih fun name hname => h name (Or.inr hname)
      cases key with
      | other kind => simp [putEntry, hrest]
      | string name =>
          have hne : other ≠ .string name := fun heq => h name (Or.inl heq) rfl
          simp [putEntry, hne, hrest]

/-- Where the names are distinct, no entry takes the place of another. -/
theorem foldl_putEntry_eq_append
    {entries added : List (Key × Data)} (h : (names (entries ++ added)).Nodup) :
    added.foldl (fun acc entry => putEntry entry.1 entry.2 acc) entries = entries ++ added := by
  induction added generalizing entries with
  | nil => simp
  | cons entry rest ih =>
      have hnew : ∀ name ∈ names entries, entry.1 ≠ .string name := by
        intro name hname hkey
        rw [names, List.filterMap_append, List.nodup_append] at h
        have hentry : name ∈ names (entry :: rest) :=
          mem_names_iff.2 ⟨entry, List.mem_cons_self, hkey⟩
        exact h.2.2 name hname name hentry rfl
      rw [List.foldl_cons, putEntry_eq_append _ hnew, ih (by simpa using h)]
      simp

theorem distinctEntries_eq_self
    {entries : List (Key × Data)} (h : (names entries).Nodup) :
    distinctEntries entries = entries :=
  foldl_putEntry_eq_append (show (names ([] ++ entries)).Nodup from h)

theorem names_congr
    {entries others : List (Key × Data)}
    (h : entries.map Prod.fst = others.map Prod.fst) :
    names entries = names others := by
  have hmap : ∀ entries : List (Key × Data),
      names entries = (entries.map Prod.fst).filterMap Key.name? := by
    intro entries
    rw [List.filterMap_map]
    rfl
  rw [hmap, hmap, h]

theorem names_ofJsonMembers
    (members : Fields Json) :
    names (ofJsonMembers members) = Fields.names members := by
  induction members with
  | nil => rfl
  | cons member rest ih => exact congrArg (member.1 :: ·) ih

theorem map_fst_ofYamlEntries
    {entries : List (Yaml × Yaml)} {members : Fields Json}
    (h : entries.map Prod.fst = members.map fun member => .string member.1) :
    (ofYamlEntries entries).map Prod.fst = (ofJsonMembers members).map Prod.fst := by
  rw [ofYamlEntries_eq_map, ofJsonMembers_eq_map, List.map_map, List.map_map]
  have hkeys := congrArg (List.map keyOfYaml) h
  rwa [List.map_map, List.map_map] at hkeys

/-- The same data is alike, be it held by a YAML tree or by a JSON tree. -/
theorem alike_of_holds
    {y : Yaml} {j : Json} (h : y.Holds j) :
    (ofYaml y).Alike (ofJson j) := by
  induction y using Yaml.induction generalizing j with
  | null =>
      cases h
      exact .null
  | bool b =>
      cases h
      exact .bool
  | number literal =>
      cases h with
      | number hparse => exact .number hparse
  | string s =>
      cases h
      exact .string
  | sequence nodes ih =>
      cases h with
      | @sequence _ items hitems =>
          rw [ofYaml, ofJson, ofYamlItems_eq_map, ofJsonItems_eq_map]
          refine .sequence ?_
          rw [List.forall₂_map_left_iff, List.forall₂_map_right_iff]
          exact forall₂_imp_of_mem hitems fun node hnode _ _ h => ih node hnode h
  | mapping entries ih =>
      cases h with
      | @mapping _ middle members hkeys hitems hperm hdistinct =>
          have hkeys' := map_fst_ofYamlEntries hkeys
          have hnames : (names (ofYamlEntries entries)).Nodup := by
            rwa [names_congr hkeys', names_ofJsonMembers]
          rw [ofYaml, ofJson, distinctEntries_eq_self hnames]
          refine .mapping hkeys' ?_ (Or.inr ⟨?_, by rwa [names_ofJsonMembers]⟩)
          · rw [List.forall₂_map_left_iff, List.forall₂_map_right_iff] at hitems
            rw [ofYamlEntries_eq_map, ofJsonMembers_eq_map, List.map_map, List.map_map,
              List.forall₂_map_left_iff, List.forall₂_map_right_iff]
            exact forall₂_imp_of_mem hitems fun entry hentry _ _ h => ih entry hentry h
          · rw [ofJsonMembers_eq_map, ofJsonMembers_eq_map]
            exact hperm.map _
  | tagged tag node ih =>
      cases h with
      | tagged h => exact ih h

end Data

end Views

namespace Value

/-- Reading depends neither on the order of entries with distinct names nor on the
spelling of numbers; hence a YAML tree is read as a JSON tree is that holds the same
data. -/
theorem ofData_agree
    (want : Ty) :
    (∀ d d' : Data, d.Alike d' → Agree (ofData want d) (ofData want d')) ∧
      ∀ (y : Yaml) (j : Json), y.Holds j →
        Agree (ofData want (.ofYaml y)) (ofData want (.ofJson j)) := by
  have hagree : ∀ d d' : Data, d.Alike d' → Agree (ofData want d) (ofData want d') :=
    fun d d' h => agree_of_forall_iff (readAlike_of_alike h 0 want)
  exact ⟨hagree, fun y j h => hagree _ _ (Data.alike_of_holds h)⟩

/-- The type of an allowance. -/
def allowance : Ty :=
  .objectOf [("limit", .number), ("unit", .string)]

/-- An allowance in the order of its attributes. -/
def ascendingAllowance : Data :=
  .mapping [(.string "limit", .number "10"), (.string "unit", .string "GiB")]

/-- The same in another order, the limit with an exponent. -/
def descendingAllowance : Data :=
  .mapping [(.string "unit", .string "GiB"), (.string "limit", .number "1e1")]

/-- The same as a YAML tree. -/
def allowanceYaml : Yaml :=
  .tagged "!allowance" (.mapping
    [(.string "unit", .string "GiB"), (.string "limit", .number "1e1")])

/-- The same as a JSON tree. -/
def allowanceJson : Json :=
  .object [("limit", .number "10"), ("unit", .string "GiB")]

theorem ofData_agree_allowance :
    (∃ v, ofData allowance ascendingAllowance = .ok v ∧
        ofData allowance descendingAllowance = .ok v) ∧
      ∃ v, ofData allowance (.ofYaml allowanceYaml) = .ok v ∧
        ofData allowance (.ofJson allowanceJson) = .ok v := by
  have hparse : Decimal.parse "1e1" = Decimal.parse "10" := by
    rfl
  have hread : ofData allowance ascendingAllowance =
      .ok (.object [("limit", .number (Decimal.ofScaled 10 0)), ("unit", .string "GiB")]) := by
    rfl
  have halike : ascendingAllowance.Alike descendingAllowance := by
    refine @Data.Alike.mapping _ [(.string "limit", .number "1e1"), (.string "unit", .string "GiB")]
      _ rfl ?_ (Or.inr ⟨List.Perm.swap _ _ _, by decide⟩)
    exact .cons (.number fun n => by rw [hparse]) (.cons .string .nil)
  have hholds : allowanceYaml.Holds allowanceJson := by
    refine .tagged (@Yaml.Holds.mapping _ [("unit", .string "GiB"), ("limit", .number "10")]
      _ rfl ?_ (List.Perm.swap _ _ _) (by decide))
    exact .cons .string (.cons (.number fun n => by rw [hparse]) .nil)
  constructor
  · rcases (ofData_agree allowance).1 _ _ halike with h | ⟨e, _, he, -⟩
    · exact h
    · cases hread.symm.trans he
  · rcases (ofData_agree allowance).2 _ _ hholds with h | ⟨_, e, -, he⟩
    · exact h
    · cases hread.symm.trans he

end Value

end TypedConfig
