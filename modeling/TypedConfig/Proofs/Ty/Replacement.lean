import Mathlib.Logic.Relation
import TypedConfig.Proofs.Ty.Conformance

/-!
# Conformance as replacement

In a type the dynamic type may take the place of any subtree.  The main statement
says that one type conforms to another exactly if the other, optional marks aside,
comes of it by such replacements.

* `Replaced.tuple`, `Replaced.object`: parts are replaced one after the other.
* `conformsTo_of_replaced`: what conforms to a type conforms to all that comes of it.
* `conformsTo_trans`, `storage_eq_of_conformsTo_of_conformsTo`: conformance is
  transitive and, marks aside, antisymmetric.
-/

namespace TypedConfig
namespace Ty

/-- Whether the second type is the first with the dynamic type in the place of one
of its subtrees. -/
inductive ReplacedOnce : Ty → Ty → Prop where
  | here (t : Ty) : ReplacedOnce t .dynamic
  | list {e f : Ty} (h : ReplacedOnce e f) : ReplacedOnce (.list e) (.list f)
  | set {e f : Ty} (h : ReplacedOnce e f) : ReplacedOnce (.set e) (.set f)
  | map {e f : Ty} (h : ReplacedOnce e f) : ReplacedOnce (.map e) (.map f)
  | tuple (before after : List Ty) {e f : Ty} (h : ReplacedOnce e f) :
      ReplacedOnce (.tuple (before ++ e :: after)) (.tuple (before ++ f :: after))
  | object (before after : Fields Ty) (name : String) (optional : List String) {e f : Ty}
      (h : ReplacedOnce e f) :
      ReplacedOnce (.object (before ++ (name, e) :: after) optional)
        (.object (before ++ (name, f) :: after) optional)

/-- Whether the second type is the first with the dynamic type in the place of some
of its subtrees. -/
def Replaced : Ty → Ty → Prop :=
  Relation.ReflTransGen ReplacedOnce

section Congruence

variable {e f : Ty}

/-- What surrounds a part of a type stays as it is while the part is replaced. -/
theorem Replaced.within
    (around : Ty → Ty) (haround : ∀ s t, ReplacedOnce s t → ReplacedOnce (around s) (around t))
    (h : Replaced e f) :
    Replaced (around e) (around f) :=
  Relation.ReflTransGen.lift around haround e f h

theorem Replaced.list
    (h : Replaced e f) :
    Replaced (.list e) (.list f) :=
  h.within Ty.list fun _ _ hstep => .list hstep

theorem Replaced.set
    (h : Replaced e f) :
    Replaced (.set e) (.set f) :=
  h.within Ty.set fun _ _ hstep => .set hstep

theorem Replaced.map
    (h : Replaced e f) :
    Replaced (.map e) (.map f) :=
  h.within Ty.map fun _ _ hstep => .map hstep

theorem Replaced.tuple
    {gots wants : List Ty} (h : List.Forall₂ Replaced gots wants) :
    Replaced (.tuple gots) (.tuple wants) := by
  -- One element after the other, those before being replaced already.
  suffices hafter : ∀ before, Replaced (.tuple (before ++ gots)) (.tuple (before ++ wants)) from
    hafter []
  induction h with
  | nil => exact fun before => .refl
  | @cons got want gots wants hhead _ ih =>
      intro before
      have hfirst : Replaced (.tuple (before ++ got :: gots)) (.tuple (before ++ want :: gots)) :=
        hhead.within (fun t => .tuple (before ++ t :: gots))
          fun _ _ hstep => .tuple before gots hstep
      have hrest := ih (before ++ [want])
      rw [List.append_assoc, List.append_assoc] at hrest
      exact hfirst.trans hrest

theorem Replaced.object
    {gots wants : Fields Ty} (optional : List String) (h : Fields.Paired Replaced gots wants) :
    Replaced (.object gots optional) (.object wants optional) := by
  suffices hafter : ∀ before,
      Replaced (.object (before ++ gots) optional) (.object (before ++ wants) optional) from
    hafter []
  induction h with
  | nil => exact fun before => .refl
  | @cons got want gots wants hhead _ ih =>
      intro before
      obtain ⟨name, e⟩ := got
      obtain ⟨_, f⟩ := want
      obtain ⟨rfl, hpart⟩ := hhead
      have hfirst : Replaced (.object (before ++ (name, e) :: gots) optional)
          (.object (before ++ (name, f) :: gots) optional) :=
        hpart.within (fun t => .object (before ++ (name, t) :: gots) optional)
          fun _ _ hstep => .object before gots name optional hstep
      have hrest := ih (before ++ [(name, f)])
      rw [List.append_assoc, List.append_assoc] at hrest
      exact hfirst.trans hrest

/-- What a type conforms to comes of it by replacements. -/
theorem replaced_of_conformsTo
    {got want : Ty} (hg : got.WellFormed) (hw : want.WellFormed)
    (h : got.conformsTo want = true) :
    Replaced got.storage want.storage := by
  refine conformsTo_induction (motive := fun g w => Replaced g.storage w.storage)
    ?dynamic .refl .refl .refl (fun _ _ ih => .list ih) (fun _ _ ih => .set ih)
    (fun _ _ ih => .map ih) ?tuple ?object hg hw h
  case dynamic => exact fun t => .single (.here t.storage)
  case tuple =>
    intro gots wants ih
    rw [storage_tuple, storage_tuple]
    refine .tuple ?_
    rwa [List.forall₂_map_left_iff, List.forall₂_map_right_iff]
  case object =>
    intro gots wants o o' ih
    rw [storage_object, storage_object]
    refine .object [] ?_
    rwa [Fields.Paired, Fields.mapValues, Fields.mapValues, List.forall₂_map_left_iff,
      List.forall₂_map_right_iff]

end Congruence

section Replacement

variable {t got want other : Ty}

theorem ReplacedOnce.wellFormed
    (h : ReplacedOnce got want) (hg : got.WellFormed) :
    want.WellFormed := by
  induction h with
  | here => trivial
  | list _ ih | set _ ih | map _ ih => exact ih hg
  | tuple before after _ ih =>
      simp only [WellFormed, allWellFormed_iff, List.forall_mem_append,
        List.forall_mem_cons] at hg ⊢
      exact ⟨hg.1, ih hg.2.1, hg.2.2⟩
  | @object before after name optional e f _ ih =>
      have hnames : Fields.names (before ++ (name, e) :: after) =
          Fields.names (before ++ (name, f) :: after) := by
        simp [Fields.names]
      simp only [WellFormed, attributesWellFormed_iff, Fields.sorted_iff_names, hnames,
        List.forall_mem_append, List.forall_mem_cons] at hg ⊢
      obtain ⟨hs, ho, hmem, hbefore, he, hafter⟩ := hg
      exact ⟨hs, ho, hmem, hbefore, ih he, hafter⟩

/-- What conforms to a type conforms to it after a replacement. -/
theorem conformsTo_of_replacedOnce
    (h : ReplacedOnce got want) (ht : t.WellFormed) (hg : got.WellFormed)
    (htg : t.conformsTo got = true) :
    t.conformsTo want = true := by
  induction h generalizing t with
  | here => exact conformsTo_dynamic t
  | list _ ih | set _ ih | map _ ih =>
      cases t <;> simp only [conformsTo, Bool.false_eq_true] at htg
      exact ih ht hg htg
  | @tuple before after e f _ ih =>
      cases t with
      | tuple parts =>
          rw [conformsTo_tuple_iff] at htg ⊢
          simp only [WellFormed, allWellFormed_iff] at ht hg
          refine forall₂_replace htg fun part hpart hconf => ?_
          exact ih (ht part hpart) (hg e (List.mem_append_right _ List.mem_cons_self)) hconf
      | _ => simp [conformsTo] at htg
  | @object before after name optional e f hstep ih =>
      cases t with
      | object parts o =>
          have hw := (ReplacedOnce.object before after name optional hstep).wellFormed hg
          simp only [WellFormed, attributesWellFormed_iff] at ht hg hw
          obtain ⟨hts, -, -, htparts⟩ := ht
          obtain ⟨hgs, -, -, hgparts⟩ := hg
          rw [conformsTo_object_iff hts hgs] at htg
          rw [conformsTo_object_iff hts hw.1]
          refine forall₂_replace htg ?_
          rintro part hpart ⟨hname, hconf⟩
          have he := hgparts (name, e) (List.mem_append_right _ List.mem_cons_self)
          exact ⟨hname, ih (htparts part hpart) he hconf⟩
      | _ => simp [conformsTo] at htg

theorem conformsTo_of_replaced
    (h : Replaced got want) (ht : t.WellFormed) (hg : got.WellFormed)
    (htg : t.conformsTo got = true) :
    want.WellFormed ∧ t.conformsTo want = true := by
  induction h with
  | refl => exact ⟨hg, htg⟩
  | tail _ hstep ih => exact ⟨hstep.wellFormed ih.1, conformsTo_of_replacedOnce hstep ht ih.1 ih.2⟩

/-- It does not matter whether what is wanted has optional marks. -/
theorem conformsTo_storage_iff
    (hg : got.WellFormed) (hw : want.WellFormed) :
    got.conformsTo want.storage = true ↔ got.conformsTo want = true := by
  induction want using Ty.induction generalizing got with
  | bool | number | string | dynamic => rfl
  | list w ih | set w ih | map w ih =>
      cases got <;> simp only [conformsTo, storage]
      exact ih hg hw
  | tuple wants ih =>
      cases got with
      | tuple gots =>
          simp only [WellFormed, allWellFormed_iff] at hg hw
          rw [storage_tuple, conformsTo_tuple_iff, conformsTo_tuple_iff,
            List.forall₂_map_right_iff]
          exact forall₂_congr_of_mem fun g hgmem w hwmem => ih w hwmem (hg g hgmem) (hw w hwmem)
      | _ => simp [conformsTo, storage]
  | object wants o ih =>
      cases got with
      | object gots o' =>
          simp only [WellFormed, attributesWellFormed_iff] at hg hw
          obtain ⟨hgs, -, -, hgt⟩ := hg
          obtain ⟨hws, -, -, hwt⟩ := hw
          rw [storage_object, conformsTo_object_iff hgs (Fields.sorted_mapValues _ hws),
            conformsTo_object_iff hgs hws, Fields.Paired, Fields.mapValues,
            List.forall₂_map_right_iff]
          refine forall₂_congr_of_mem fun g hgmem w hwmem => and_congr_right fun _ => ?_
          exact ih w hwmem (hgt g hgmem) (hwt w hwmem)
      | _ => simp [conformsTo, storage]

/-- A type conforms to another exactly if the other, optional marks aside, is it
with the dynamic type in the place of some subtrees. -/
theorem conformsTo_iff_replaced
    (hg : got.WellFormed) (hw : want.WellFormed) :
    got.conformsTo want = true ↔ Replaced got.storage want.storage := by
  constructor
  · exact replaced_of_conformsTo hg hw
  · intro h
    have hself : got.conformsTo got.storage = true :=
      (conformsTo_storage_iff hg hg).2 (conformsTo_self hg)
    have hstorage := conformsTo_of_replaced h hg (wellFormed_storage got hg) hself
    exact (conformsTo_storage_iff hg hw).1 hstorage.2

end Replacement

section Order

variable {a b c : Ty} (ha : a.WellFormed) (hb : b.WellFormed)
include ha hb

theorem conformsTo_trans
    (hc : c.WellFormed) (hab : a.conformsTo b = true) (hbc : b.conformsTo c = true) :
    a.conformsTo c = true := by
  rw [conformsTo_iff_replaced ha hb] at hab
  rw [conformsTo_iff_replaced hb hc] at hbc
  exact (conformsTo_iff_replaced ha hc).2 (hab.trans hbc)

/-- Types that conform to each other are the same, optional marks aside. -/
theorem storage_eq_of_conformsTo_of_conformsTo
    (hab : a.conformsTo b = true) (hba : b.conformsTo a = true) :
    a.storage = b.storage := by
  refine conformsTo_induction
    (motive := fun g w => g.WellFormed → w.WellFormed → w.conformsTo g = true →
      g.storage = w.storage)
    ?dynamic (fun _ _ _ => rfl) (fun _ _ _ => rfl) (fun _ _ _ => rfl)
    ?list ?set ?map ?tuple ?object ha hb hab ha hb hba
  case dynamic =>
    intro t _ _ h
    rw [dynamic_conformsTo_iff.1 h]
  case list =>
    intro g w ih hg hw h
    exact congrArg Ty.list (ih hg hw (by simpa [conformsTo] using h))
  case set =>
    intro g w ih hg hw h
    exact congrArg Ty.set (ih hg hw (by simpa [conformsTo] using h))
  case map =>
    intro g w ih hg hw h
    exact congrArg Ty.map (ih hg hw (by simpa [conformsTo] using h))
  case tuple =>
    intro gots wants ih hg hw h
    rw [conformsTo_tuple_iff] at h
    simp only [WellFormed, allWellFormed_iff] at hg hw
    rw [storage_tuple, storage_tuple]
    refine congrArg Ty.tuple ?_
    induction ih with
    | nil => rfl
    | cons hgw _ ih =>
        rw [List.forall_mem_cons] at hg hw
        cases h with
        | cons hwg hrest =>
            rw [List.map_cons, List.map_cons, hgw hg.1 hw.1 hwg, ih hrest hg.2 hw.2]
  case object =>
    intro gots wants o o' ih hg hw h
    simp only [WellFormed, attributesWellFormed_iff] at hg hw
    obtain ⟨hgs, -, -, hgt⟩ := hg
    obtain ⟨hws, -, -, hwt⟩ := hw
    rw [conformsTo_object_iff hws hgs] at h
    rw [storage_object, storage_object]
    refine congrArg (Ty.object · []) ?_
    clear hgs hws
    induction ih with
    | nil => rfl
    | cons hgw _ ih =>
        rw [List.forall_mem_cons] at hgt hwt
        cases h with
        | cons hwg hrest =>
            have htail := ih hrest hgt.2 hwt.2
            simp only [Fields.mapValues, List.map_cons] at htail ⊢
            rw [hgw.1, hgw.2 hgt.1 hwt.1 hwg.2, htail]

/-- Types conform to each other exactly if they are the same, optional marks
aside. -/
theorem conformsTo_and_conformsTo_iff :
    a.conformsTo b = true ∧ b.conformsTo a = true ↔ a.storage = b.storage := by
  constructor
  · rintro ⟨hab, hba⟩
    exact storage_eq_of_conformsTo_of_conformsTo ha hb hab hba
  · intro h
    rw [conformsTo_iff_replaced ha hb, conformsTo_iff_replaced hb ha, h]
    exact ⟨.refl, .refl⟩

theorem storage_conformsTo :
    a.storage.conformsTo b = a.conformsTo b := by
  rw [Bool.eq_iff_iff, conformsTo_iff_replaced (wellFormed_storage a ha) hb,
    conformsTo_iff_replaced ha hb, storage_storage]

theorem conformsTo_storage :
    a.conformsTo b.storage = a.conformsTo b := by
  rw [Bool.eq_iff_iff, conformsTo_storage_iff ha hb]

end Order

/-- A type conforms to another exactly if the other, optional marks aside, is it
with the dynamic type in the place of some subtrees, and then there is no mismatch
to report.  So conformance is an order: reflexive, transitive, and antisymmetric up
to optional marks, which do not matter on either side.  The dynamic type is on top of
it, and what has the dynamic type in it conforms only to what has it too. -/
theorem conformance_isOrder_dynamicOnTop
    (a b c : Ty) (ha : a.WellFormed) (hb : b.WellFormed) (hc : c.WellFormed) :
    (a.conformsTo b = true ↔ Replaced a.storage b.storage) ∧
      (a.mismatches b = [] ↔ a.conformsTo b = true) ∧
      a.conformsTo a = true ∧
      a.conformsTo .dynamic = true ∧
      (a.conformsTo b = true → b.conformsTo c = true → a.conformsTo c = true) ∧
      (a.conformsTo b = true ∧ b.conformsTo a = true ↔ a.storage = b.storage) ∧
      a.storage.conformsTo b = a.conformsTo b ∧
      a.conformsTo b.storage = a.conformsTo b ∧
      (a.conformsTo b = true → a.hasDynamic = true → b.hasDynamic = true) :=
  ⟨conformsTo_iff_replaced ha hb, mismatches_eq_nil_iff a b, conformsTo_self ha,
    conformsTo_dynamic a, conformsTo_trans ha hb hc, conformsTo_and_conformsTo_iff ha hb,
    storage_conformsTo ha hb, conformsTo_storage ha hb, hasDynamic_of_conformsTo ha hb⟩

/-- Records with a name, and with tags that may be left out. -/
def recordType (tags : Ty) : Ty :=
  .object [("name", .string), ("tags", tags)] ["tags"]

theorem conformance_isOrder_dynamicOnTop_records :
    (recordType (.list .string)).conformsTo (recordType (.list .dynamic)) = true ∧
      (recordType (.list .dynamic)).conformsTo (recordType .dynamic) = true ∧
      (recordType (.list .string)).conformsTo (recordType .dynamic) = true ∧
      Replaced (recordType (.list .string)).storage (recordType (.list .dynamic)).storage := by
  have hw : ∀ tags : Ty, tags.WellFormed → (recordType tags).WellFormed := by
    intro tags htags
    have hs : compare "name" "tags" = .lt := by decide
    simp [recordType, WellFormed, AttributesWellFormed, Fields.Sorted, Fields.names, htags, hs]
  have hfirst : (recordType (.list .string)).conformsTo (recordType (.list .dynamic)) = true := by
    decide
  have hsecond : (recordType (.list .dynamic)).conformsTo (recordType .dynamic) = true := by
    decide
  obtain ⟨hiff, -, -, -, htrans, -⟩ := conformance_isOrder_dynamicOnTop
    (recordType (.list .string)) (recordType (.list .dynamic)) (recordType .dynamic)
    (hw _ trivial) (hw _ trivial) (hw _ trivial)
  exact ⟨hfirst, hsecond, htrans hfirst hsecond, hiff.1 hfirst⟩

end Ty
end TypedConfig
