import Mathlib.Data.List.Sort
import TypedConfig.Json.Generic
import TypedConfig.Proofs.Json.Parts
import TypedConfig.Proofs.Outcome
import TypedConfig.Proofs.Ty.Parts
import TypedConfig.Ty.Expression

/-!
# Type expressions read and written

The reader is described by the forms that it accepts, given what the parts of a
tree are read as.  From that description both directions follow.

* `ofJson_toJson`: the expression of a type is read as that type.
* `wellFormed_of_ofJson`: what is read is a type in good order, and its
  expression is the tree that was read, with the optional attributes of every
  object listed in order.
-/

namespace TypedConfig

namespace Fields

section Ascending

/-- Ascending lists of names with the same members are the same. -/
theorem eq_of_ascending
    {l m : List String}
    (hl : l.Pairwise fun a b => compare a b = .lt)
    (hm : m.Pairwise fun a b => compare a b = .lt)
    (h : ∀ name, name ∈ l ↔ name ∈ m) :
    l = m := by
  have : Std.Irrefl fun a b : String => compare a b = .lt :=
    ⟨fun a hlt => ne_of_compare_eq_lt hlt rfl⟩
  have : Std.Antisymm fun a b : String => compare a b = .lt :=
    ⟨fun a b hlt hgt => by
      rw [Std.OrientedCmp.gt_of_lt hlt] at hgt
      cases hgt⟩
  exact hl.eq_of_mem_iff hm h

/-- Ascending names that are all among those of the members are what is left of the
latter. -/
theorem filter_names_eq
    {α : Type} {fields : Fields α} {l : List String} (hs : Sorted fields)
    (hl : l.Pairwise fun a b => compare a b = .lt) (hmem : ∀ name ∈ l, name ∈ names fields) :
    (names fields).filter l.contains = l := by
  refine eq_of_ascending ((sorted_iff_names.1 hs).filter _) hl ?_
  intro name
  rw [List.mem_filter, List.contains_iff_mem]
  exact ⟨fun h => h.2, fun h => ⟨hmem name h, h⟩⟩

/-- A name is put at its place. -/
theorem pairwise_insertName
    (name : String) {names : List String}
    (h : names.Pairwise fun a b => compare a b = .lt) :
    (insertName name names).Pairwise fun a b => compare a b = .lt := by
  induction names with
  | nil => simp [insertName]
  | cons key rest ih =>
      obtain ⟨hhead, hrest⟩ := List.pairwise_cons.1 h
      simp only [insertName]
      split
      · rename_i hlt
        refine List.pairwise_cons.2 ⟨?_, h⟩
        intro other hother
        rcases List.mem_cons.1 hother with rfl | hother
        · exact hlt
        · exact Std.TransCmp.lt_trans hlt (hhead other hother)
      · exact h
      · rename_i hgt
        refine List.pairwise_cons.2 ⟨?_, ih hrest⟩
        intro other hother
        rcases (mem_insertName _ _ _).1 hother with rfl | hother
        · exact Std.OrientedCmp.lt_of_gt hgt
        · exact hhead other hother

/-- The names in order, none twice. -/
def ascending (names : List String) : List String :=
  names.foldr insertName []

theorem mem_ascending
    {name : String} {names : List String} :
    name ∈ ascending names ↔ name ∈ names := by
  induction names with
  | nil => rfl
  | cons key rest ih =>
      rw [List.mem_cons, ← ih]
      exact mem_insertName _ _ _

theorem pairwise_ascending
    (names : List String) :
    (ascending names).Pairwise fun a b => compare a b = .lt := by
  induction names with
  | nil => exact .nil
  | cons key rest ih => exact pairwise_insertName key ih

end Ascending

end Fields

namespace Ty

section Reading

theorem elementsOfJson_eq_ok_iff
    {items : List Json} {elements : List Ty} :
    elementsOfJson items = .ok elements ↔
      List.Forall₂ (fun j t => ofJson j = .ok t) items elements := by
  refine forall₂_of_steps (by rfl) ?_
  intro item rest elements
  rw [elementsOfJson]
  cases ofJson item <;> simp [map_eq_ok_iff]

theorem attributesOfJson_eq_ok_iff
    {members : Fields Json} {attributes : Fields Ty} :
    attributesOfJson members = .ok attributes ↔
      Fields.Paired (fun j t => ofJson j = .ok t) members attributes := by
  refine paired_of_steps (by rfl) ?_
  intro name item rest attributes
  rw [attributesOfJson]
  cases ofJson item <;> simp [map_eq_ok_iff]

/-- The names of optional attributes are strings that name attributes. -/
theorem readOptional_eq_ok_iff
    {attributes : Fields Ty} {entries : List Json} {names : List String} :
    readOptional attributes entries = .ok names ↔
      entries = names.map .string ∧ ∀ name ∈ names, name ∈ Fields.names attributes := by
  induction entries generalizing names with
  | nil =>
      rw [readOptional, Except.ok.injEq, @eq_comm _ [] (names.map _), List.map_eq_nil_iff,
        @eq_comm _ [] names]
      constructor
      · rintro rfl
        exact ⟨rfl, List.forall_mem_nil _⟩
      · exact fun h => h.1
  | cons entry rest ih =>
      rw [eq_comm (a := entry :: rest), List.map_eq_cons_iff]
      cases entry with
      | string name =>
          rw [readOptional]
          have hcontains :
              Fields.contains name attributes = true ↔ name ∈ Fields.names attributes :=
            Fields.get?_isSome_iff name attributes
          split
          · rename_i h
            simp only [map_eq_ok_iff, ih]
            constructor
            · rintro ⟨names, ⟨rfl, hnames⟩, rfl⟩
              exact ⟨⟨name, names, rfl, rfl, rfl⟩,
                List.forall_mem_cons.2 ⟨hcontains.1 h, hnames⟩⟩
            · rintro ⟨⟨_, names, rfl, heq, rfl⟩, hnames⟩
              cases heq
              exact ⟨names, ⟨rfl, (List.forall_mem_cons.1 hnames).2⟩, rfl⟩
          · rename_i h
            constructor
            · intro h
              cases h
            · rintro ⟨⟨_, names, rfl, heq, rfl⟩, hnames⟩
              cases heq
              exact absurd (hcontains.2 (List.forall_mem_cons.1 hnames).1) h
      | null | bool _ | number _ | array _ | object _ =>
          simp [readOptional]

/-- A tree spells a type if it has one of the forms of the notation and its parts
are read as the parts of the type. -/
inductive Spells : Json → Ty → Prop where
  | name {name : String} {t : Ty} (h : ofName name = .ok t) :
      Spells (.string name) t
  | list {j : Json} {t : Ty} (h : ofJson j = .ok t) :
      Spells (.array [.string "list", j]) (.list t)
  | set {j : Json} {t : Ty} (h : ofJson j = .ok t) :
      Spells (.array [.string "set", j]) (.set t)
  | map {j : Json} {t : Ty} (h : ofJson j = .ok t) :
      Spells (.array [.string "map", j]) (.map t)
  | tuple {items : List Json} {elements : List Ty}
      (h : List.Forall₂ (fun j t => ofJson j = .ok t) items elements) :
      Spells (.array [.string "tuple", .array items]) (.tuple elements)
  | object {members : Fields Json} {attributes : Fields Ty}
      (h : Fields.Paired (fun j t => ofJson j = .ok t) members attributes) :
      Spells (.array [.string "object", .object members]) (objectOf (Fields.ofList attributes))
  | objectWith {members : Fields Json} {attributes : Fields Ty} {optional : List String}
      (h : Fields.Paired (fun j t => ofJson j = .ok t) members attributes)
      (hoptional : ∀ name ∈ optional, name ∈ Fields.names (Fields.ofList attributes)) :
      Spells (.array [.string "object", .object members, .array (optional.map .string)])
        (objectWith (Fields.ofList attributes) optional)

/-- What is read is what is spelled. -/
theorem ofJson_eq_ok_iff
    {j : Json} {t : Ty} :
    ofJson j = .ok t ↔ Spells j t := by
  constructor
  · intro h
    unfold ofJson at h
    split at h
    · exact .name h
    · obtain ⟨u, hu, rfl⟩ := map_eq_ok_iff.1 h
      exact .list hu
    · obtain ⟨u, hu, rfl⟩ := map_eq_ok_iff.1 h
      exact .set hu
    · obtain ⟨u, hu, rfl⟩ := map_eq_ok_iff.1 h
      exact .map hu
    · obtain ⟨elements, helements, rfl⟩ := map_eq_ok_iff.1 h
      exact .tuple (elementsOfJson_eq_ok_iff.1 helements)
    · obtain ⟨attributes, hattributes, rfl⟩ := map_eq_ok_iff.1 h
      exact .object (attributesOfJson_eq_ok_iff.1 hattributes)
    · split at h
      · cases h
      · rename_i attributes hattributes
        obtain ⟨names, hnames, rfl⟩ := map_eq_ok_iff.1 h
        obtain ⟨rfl, hoptional⟩ := readOptional_eq_ok_iff.1 hnames
        exact .objectWith (attributesOfJson_eq_ok_iff.1 hattributes) hoptional
    all_goals cases h
  · intro h
    cases h with
    | name h => rwa [ofJson]
    | list h | set h | map h =>
        rw [ofJson, h]
        rfl
    | tuple h =>
        rw [ofJson, elementsOfJson_eq_ok_iff.2 h]
        rfl
    | object h =>
        rw [ofJson, attributesOfJson_eq_ok_iff.2 h]
        rfl
    | objectWith h hoptional =>
        simp only [ofJson, attributesOfJson_eq_ok_iff.2 h]
        rw [readOptional_eq_ok_iff.2 ⟨rfl, hoptional⟩]
        rfl

end Reading

section Writing

/-- Marks are kept in the order of the names, whatever order they are given
in. -/
theorem marks_eq_ascending
    {attributes : Fields Ty} {optional : List String}
    (hs : Fields.Sorted attributes) (h : ∀ name ∈ optional, name ∈ Fields.names attributes) :
    (Fields.names attributes).filter optional.contains = Fields.ascending optional := by
  have hmarks := (Fields.sorted_iff_names.1 hs).filter optional.contains
  refine Fields.eq_of_ascending hmarks (Fields.pairwise_ascending _) ?_
  intro name
  rw [List.mem_filter, Fields.mem_ascending, List.contains_iff_mem]
  exact ⟨fun hmem => hmem.2, fun hmem => ⟨h name hmem, hmem⟩⟩

/-- The expression of a type is read as that type. -/
theorem ofJson_toJson
    (t : Ty) (h : t.WellFormed) :
    ofJson t.toJson = .ok t := by
  induction t using Ty.induction with
  | bool | number | string | dynamic => rfl
  | list e ih => exact ofJson_eq_ok_iff.2 (.list (ih h))
  | set e ih => exact ofJson_eq_ok_iff.2 (.set (ih h))
  | map e ih => exact ofJson_eq_ok_iff.2 (.map (ih h))
  | tuple elements ih =>
      simp only [WellFormed, allWellFormed_iff] at h
      rw [toJson, elementsToJson_eq_map]
      refine ofJson_eq_ok_iff.2 (.tuple ?_)
      rw [List.forall₂_map_left_iff, List.forall₂_same]
      exact fun t ht => ih t ht (h t ht)
  | object attributes optional ih =>
      simp only [WellFormed, attributesWellFormed_iff] at h
      obtain ⟨hs, hordered, hoptional, hattributes⟩ := h
      have hpaired : Fields.Paired (fun j t => ofJson j = .ok t)
          (attributesToJson attributes) attributes := by
        rw [attributesToJson_eq_mapValues, Fields.Paired, Fields.mapValues,
          List.forall₂_map_left_iff, List.forall₂_same]
        exact fun a ha => ⟨rfl, ih a ha (hattributes a ha)⟩
      have hself := Fields.ofList_eq_self hs
      cases optional with
      | nil =>
          have hspells := Spells.object hpaired
          rw [hself] at hspells
          exact ofJson_eq_ok_iff.2 hspells
      | cons name rest =>
          have hspells := Spells.objectWith hpaired (hself.symm ▸ hoptional)
          rw [hself] at hspells
          rw [objectWith, Fields.filter_names_eq hs hordered hoptional] at hspells
          exact ofJson_eq_ok_iff.2 hspells

/-- The members of the expressions of well formed types are in order. -/
theorem canonical_toJson
    (t : Ty) (h : t.WellFormed) :
    t.toJson.Canonical := by
  induction t using Ty.induction with
  | bool | number | string | dynamic => trivial
  | list e ih | set e ih | map e ih => exact ⟨trivial, ih h, trivial⟩
  | tuple elements ih =>
      simp only [WellFormed, allWellFormed_iff] at h
      refine ⟨trivial, Json.itemsCanonical_iff.2 ?_, trivial⟩
      rw [elementsToJson_eq_map, List.forall_mem_map]
      exact fun t ht => ih t ht (h t ht)
  | object attributes optional ih =>
      simp only [WellFormed, attributesWellFormed_iff] at h
      obtain ⟨hs, -, -, hattributes⟩ := h
      refine ⟨trivial, ⟨?_, (Json.membersCanonical_iff _).2 ?_⟩, Json.itemsCanonical_iff.2 ?_⟩
      · rw [attributesToJson_eq_mapValues]
        exact Fields.sorted_mapValues _ hs
      · rw [attributesToJson_eq_mapValues, Fields.mapValues, List.forall_mem_map]
        exact fun a ha => ih a ha (hattributes a ha)
      · split
        · exact List.forall_mem_nil _
        · rw [List.forall_mem_singleton]
          refine Json.itemsCanonical_iff.2 ?_
          rw [List.forall_mem_map]
          exact fun name _ => trivial

end Writing

section NormalForm

/-- The name that a tree is, if it is one. -/
def name? : Json → Option String
  | .string name => some name
  | _ => none

/-- The names in a list of optional attributes, in order and none twice. -/
def namesOf (entries : List Json) : List String :=
  Fields.ascending (entries.filterMap name?)

theorem namesOf_map_string
    (names : List String) :
    namesOf (names.map .string) = Fields.ascending names := by
  rw [namesOf, List.filterMap_map]
  congr 1
  exact List.filterMap_some

mutual

/-- The expression with each list of optional attributes in the order of the
names, no name twice, and left out if it is empty. -/
def normalForm : Json → Json
  | .array [.string "tuple", .array items] =>
      .array [.string "tuple", .array (normalItems items)]
  | .array [.string "object", .object members] =>
      .array [.string "object", .object (normalMembers members)]
  | .array [.string "object", .object members, .array entries] =>
      .array (.string "object" :: .object (normalMembers members) ::
        if (namesOf entries).isEmpty then [] else [.array ((namesOf entries).map .string)])
  | .array [.string "list", j] => .array [.string "list", normalForm j]
  | .array [.string "set", j] => .array [.string "set", normalForm j]
  | .array [.string "map", j] => .array [.string "map", normalForm j]
  | j => j

/-- The elements of a tuple type in normal form. -/
def normalItems : List Json → List Json
  | [] => []
  | item :: rest => normalForm item :: normalItems rest

/-- The attributes of an object type in normal form. -/
def normalMembers : List (String × Json) → List (String × Json)
  | [] => []
  | (name, item) :: rest => (name, normalForm item) :: normalMembers rest

end

theorem normalItems_eq_map
    (items : List Json) :
    normalItems items = items.map normalForm := by
  induction items with
  | nil => rfl
  | cons item rest ih => simp [normalItems, ih]

theorem normalMembers_eq_mapValues
    (members : Fields Json) :
    normalMembers members = Fields.mapValues normalForm members := by
  induction members with
  | nil => rfl
  | cons member rest ih => simpa [normalMembers, Fields.mapValues] using ih

/-- A name that is read as a type is in normal form. -/
theorem normal_of_ofName
    {name : String} {t : Ty} (h : ofName name = .ok t) :
    t.WellFormed ∧ t.toJson = normalForm (.string name) := by
  refine ⟨?_, toJson_of_ofName h⟩
  unfold ofName at h
  split at h
  case h_5 => cases h
  all_goals
    cases h
    trivial

section Parts

variable {items : List Json} {elements : List Ty} {members : Fields Json} {attributes : Fields Ty}

theorem parts_of_elements
    (h : List.Forall₂ (fun j t => ofJson j = .ok t) items elements)
    (hc : ∀ item ∈ items, item.Canonical)
    (ih :
      ∀ t ∈ elements, ∀ j : Json, j.Canonical → ofJson j = .ok t →
        t.WellFormed ∧ t.toJson = normalForm j) :
    (∀ t ∈ elements, t.WellFormed) ∧ elements.map toJson = items.map normalForm :=
  forall_mem_and_map_eq_of_forall₂ h fun j hj t ht hread => ih t ht j (hc j hj) hread

theorem parts_of_attributes
    (h : Fields.Paired (fun j t => ofJson j = .ok t) members attributes)
    (hc : ∀ member ∈ members, member.2.Canonical)
    (ih :
      ∀ a ∈ attributes, ∀ j : Json, j.Canonical → ofJson j = .ok a.2 →
        a.2.WellFormed ∧ a.2.toJson = normalForm j) :
    (∀ a ∈ attributes, a.2.WellFormed) ∧
      Fields.mapValues toJson attributes = Fields.mapValues normalForm members := by
  refine forall_mem_and_map_eq_of_forall₂ h ?_
  intro member hmember a ha hread
  obtain ⟨hwell, hnormal⟩ := ih a ha member.2 (hc member hmember) hread.2
  exact ⟨hwell, Prod.ext hread.1.symm hnormal⟩

end Parts

/-- A tree that is read as a type is the expression of that type, but for how
the optional attributes are listed.  The induction is on the type: it has all
the parts that the tree has. -/
theorem wellFormed_of_ofJson
    (t : Ty) (j : Json) (hc : j.Canonical) (h : ofJson j = .ok t) :
    t.WellFormed ∧ t.toJson = normalForm j := by
  induction t using Ty.induction generalizing j with
  | bool | number | string | dynamic =>
      cases ofJson_eq_ok_iff.1 h with
      | name h => exact normal_of_ofName h
  | list e ih =>
      cases ofJson_eq_ok_iff.1 h with
      | name h => exact normal_of_ofName h
      | list h =>
          obtain ⟨hwell, hnormal⟩ := ih _ hc.2.1 h
          exact ⟨hwell, by rw [toJson, normalForm, hnormal]⟩
  | set e ih =>
      cases ofJson_eq_ok_iff.1 h with
      | name h => exact normal_of_ofName h
      | set h =>
          obtain ⟨hwell, hnormal⟩ := ih _ hc.2.1 h
          exact ⟨hwell, by rw [toJson, normalForm, hnormal]⟩
  | map e ih =>
      cases ofJson_eq_ok_iff.1 h with
      | name h => exact normal_of_ofName h
      | map h =>
          obtain ⟨hwell, hnormal⟩ := ih _ hc.2.1 h
          exact ⟨hwell, by rw [toJson, normalForm, hnormal]⟩
  | tuple elements ih =>
      cases ofJson_eq_ok_iff.1 h with
      | name h => exact normal_of_ofName h
      | tuple h =>
          obtain ⟨hwell, hnormal⟩ := parts_of_elements h (Json.itemsCanonical_iff.1 hc.2.1) ih
          refine ⟨allWellFormed_iff.2 hwell, ?_⟩
          rw [toJson, elementsToJson_eq_map, hnormal, normalForm, normalItems_eq_map]
  | object attributes optional ih =>
      cases ofJson_eq_ok_iff.1 h with
      | name h => exact normal_of_ofName h
      | object hpaired =>
          have hs := hpaired.sorted_iff.1 hc.2.1.1
          rw [Fields.ofList_eq_self hs] at ih ⊢
          obtain ⟨hwell, hnormal⟩ :=
            parts_of_attributes hpaired ((Json.membersCanonical_iff _).1 hc.2.1.2) ih
          refine ⟨wellFormed_object hs hwell, ?_⟩
          rw [toJson, attributesToJson_eq_mapValues, hnormal, normalForm,
            normalMembers_eq_mapValues]
          rfl
      | objectWith hpaired hoptional =>
          have hs := hpaired.sorted_iff.1 hc.2.1.1
          rw [Fields.ofList_eq_self hs] at ih hoptional ⊢
          obtain ⟨hwell, hnormal⟩ :=
            parts_of_attributes hpaired ((Json.membersCanonical_iff _).1 hc.2.1.2) ih
          refine ⟨wellFormed_objectWith _ hs hwell, ?_⟩
          rw [marks_eq_ascending hs hoptional, toJson, attributesToJson_eq_mapValues, hnormal,
            normalForm, normalMembers_eq_mapValues, namesOf_map_string]

/-- Types and type expressions correspond: a well formed type is read back from
its expression, and a tree that is read as a type is the expression of that
type, which is well formed, up to the lists of optional attributes. -/
theorem expression_roundTrip :
    (∀ t : Ty, t.WellFormed → ofJson t.toJson = .ok t) ∧
      ∀ (j : Json) (t : Ty), j.Canonical → ofJson j = .ok t →
        t.WellFormed ∧ t.toJson = normalForm j :=
  ⟨ofJson_toJson, fun j t => wellFormed_of_ofJson t j⟩

/-- A text is read as a tree in order, so what it says of a type is the expression of that
type up to the lists of optional attributes. -/
theorem toJson_eq_normalForm_of_ofText
    {text : String} {j : Json} {t : Ty} (htext : Json.ofText text = .ok j)
    (h : ofJson j = .ok t) :
    t.WellFormed ∧ t.toJson = normalForm j :=
  wellFormed_of_ofJson t j (Json.canonical_of_ofText htext) h

/-- An object type inside a tuple type, with both of its attributes optional. -/
def optionalPair : Ty :=
  .tuple [.object [("a", .list .number), ("b", .dynamic)] ["a", "b"], .emptyObject]

/-- An expression of that type that lists the optional attributes in another
order and one of them twice, and lists none for the empty object. -/
def looseOptionalPair : Json :=
  .array [.string "tuple", .array
    [.array [.string "object",
      .object [("a", .array [.string "list", .string "number"]), ("b", .string "dynamic")],
      .array [.string "b", .string "a", .string "b"]],
    .array [.string "object", .object [], .array []]]]

theorem expression_roundTrip_optionalPair :
    ofJson optionalPair.toJson = .ok optionalPair ∧ optionalPair.WellFormed ∧
      optionalPair.toJson = normalForm looseOptionalPair ∧
      optionalPair.toJson ≠ looseOptionalPair := by
  have hcanonical : looseOptionalPair.Canonical := by
    have hnames : compare "a" "b" = .lt := by decide
    simpa [looseOptionalPair, Json.Canonical, Json.ItemsCanonical, Json.MembersCanonical,
      Fields.Sorted] using hnames
  have hread : ofJson looseOptionalPair = .ok optionalPair := by rfl
  obtain ⟨hwell, hnormal⟩ := expression_roundTrip.2 looseOptionalPair optionalPair hcanonical hread
  refine ⟨expression_roundTrip.1 optionalPair hwell, hwell, hnormal, ?_⟩
  simp [optionalPair, looseOptionalPair, toJson, elementsToJson]

end NormalForm

end Ty
end TypedConfig
