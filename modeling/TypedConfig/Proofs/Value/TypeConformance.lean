import TypedConfig.Proofs.Data.Typing
import TypedConfig.Proofs.Ty.Replacement

/-!
# Conformance of values and of their types

Conformance of values respects the order of types: a value conforms to every type to
which one conforms that it conforms to itself.

If the elements of the collections in a value have the types that are recorded, the
value conforms to all that its own type conforms to.  The converse fails for empty
collections of elements with dynamic types, which may be kept as tuples and objects,
and holds for all types that leave nothing to the data.
-/

namespace TypedConfig
namespace Value

section Order

variable {v : Value} {a b : Ty}

/-- What stands for a type stands for all types above it. -/
theorem StandsFor.conformsTo
    (h : v.StandsFor a) (hv : v.WellFormed) (ha : a.WellFormed) (hb : b.WellFormed)
    (hab : a.conformsTo b = true) :
    v.conformsTo b = true := by
  obtain ⟨t, hta, rfl | rfl⟩ := h
  · rw [null_conformsTo]
    exact Ty.conformsTo_trans hv ha hb hta hab
  · rw [unknown_conformsTo]
    exact Ty.conformsTo_trans hv ha hb hta hab

/-- By induction along the two types: the upper one has the shape of the lower one,
unless it is dynamic. -/
theorem conformsTo_trans
    (hv : v.WellFormed) (ha : a.WellFormed) (hb : b.WellFormed)
    (hva : v.conformsTo a = true) (hab : a.conformsTo b = true) :
    v.conformsTo b = true := by
  refine Ty.conformsTo_induction
    (motive := fun a b => a.WellFormed → b.WellFormed → a.conformsTo b = true →
      ∀ v : Value, v.WellFormed → v.conformsTo a = true → v.conformsTo b = true)
    (fun _ _ _ _ v _ _ => conformsTo_dynamic v) (fun _ _ _ _ _ h => h) (fun _ _ _ _ _ h => h)
    (fun _ _ _ _ _ h => h) ?list ?set ?map ?tuple ?object ha hb hab ha hb hab v hv hva
  case list =>
    intro e f ih he hf hef v hv hve
    have he : e.WellFormed := he
    have hf : f.WellFormed := hf
    have helement : e.conformsTo f = true := by simpa [Ty.conformsTo] using hef
    rcases conformsTo_list hve with hs | ⟨rfl, hd⟩ | ⟨t, elements, rfl, hte, helements⟩
    · exact hs.conformsTo hv he hf hef
    · exact Ty.hasDynamic_of_conformsTo he hf helement hd
    · have ht : t.conformsTo f = true := Ty.conformsTo_trans hv.1 he hf hte helement
      refine list_conformsTo_iff.2 ⟨ht, fun c hc => ?_⟩
      exact ih he hf helement c (hv.components c hc) (helements c hc)
  case set =>
    intro e f ih he hf hef v hv hve
    have he : e.WellFormed := he
    have hf : f.WellFormed := hf
    have helement : e.conformsTo f = true := by simpa [Ty.conformsTo] using hef
    rcases conformsTo_set hve with hs | ⟨rfl, hd⟩ | ⟨t, elements, rfl, hte, helements⟩
    · exact hs.conformsTo hv he hf hef
    · exact Ty.hasDynamic_of_conformsTo he hf helement hd
    · have ht : t.conformsTo f = true := Ty.conformsTo_trans hv.1 he hf hte helement
      refine set_conformsTo_iff.2 ⟨ht, fun c hc => ?_⟩
      exact ih he hf helement c (hv.components c hc) (helements c hc)
  case map =>
    intro e f ih he hf hef v hv hve
    have he : e.WellFormed := he
    have hf : f.WellFormed := hf
    have helement : e.conformsTo f = true := by simpa [Ty.conformsTo] using hef
    rcases conformsTo_map hve with hs | ⟨rfl, hd⟩ | ⟨t, entries, rfl, hte, hentries⟩
    · exact hs.conformsTo hv he hf hef
    · exact Ty.hasDynamic_of_conformsTo he hf helement hd
    · have ht : t.conformsTo f = true := Ty.conformsTo_trans hv.1 he hf hte helement
      refine map_conformsTo_iff.2 ⟨ht, fun entry hentry => ?_⟩
      have hc : entry.2 ∈ (Value.map t entries).components := List.mem_map_of_mem hentry
      exact ih he hf helement entry.2 (hv.components _ hc) (hentries entry hentry)
  case tuple =>
    intro types wants ih ht hw htw v hv hvt
    rcases conformsTo_tuple hvt with hs | ⟨elements, rfl, helements⟩
    · exact hs.conformsTo hv ht hw htw
    · rw [Ty.conformsTo_tuple_iff] at htw
      simp only [Ty.WellFormed, Ty.allWellFormed_iff] at ht hw
      refine tuple_conformsTo_iff.2
        (forall₂_comp helements (List.Forall₂.mp (fun _ _ => And.intro) ih htw) ?_)
      rintro c hc t htmem w hwmem hct ⟨hle, hconf⟩
      exact hle (ht t htmem) (hw w hwmem) hconf c (hv.components c hc) hct
  case object =>
    intro types wants o o' ih ht hw htw v hv hvt
    rcases conformsTo_object hvt with hs | ⟨attributes, rfl⟩
    · exact hs.conformsTo hv ht hw htw
    · simp only [Ty.WellFormed, Ty.attributesWellFormed_iff] at ht hw
      obtain ⟨hts, -, -, htt⟩ := ht
      obtain ⟨hws, -, -, hwt⟩ := hw
      rw [Ty.conformsTo_object_iff hts hws] at htw
      rw [object_conformsTo_iff hv.1 hts] at hvt
      rw [object_conformsTo_iff hv.1 hws]
      refine forall₂_comp hvt (List.Forall₂.mp (fun _ _ => And.intro) ih htw) ?_
      rintro c hc t htmem w hwmem ⟨hct, hconf⟩ ⟨⟨-, hle⟩, htw, hlower⟩
      have hpart : c.2 ∈ (Value.object attributes).components := List.mem_map_of_mem hc
      exact ⟨hct.trans htw,
        hle (htt t htmem) (hwt w hwmem) hlower c.2 (hv.components _ hpart) hconf⟩

end Order

section OwnType

variable {v : Value} {b : Ty}

/-- A value whose collections have elements of the types they record conforms to all
that its own type conforms to. -/
theorem conformsTo_of_type_conformsTo
    (hv : v.WellFormed) (hb : b.WellFormed) (hhom : v.Throughout Homogeneous)
    (h : v.type.conformsTo b = true) :
    v.conformsTo b = true := by
  induction v using Value.induction generalizing b with
  | step v ih =>
      obtain ⟨hself, hcomponents⟩ := throughout_iff.1 hhom
      cases v with
      | null t => rwa [null_conformsTo]
      | unknown t => rwa [unknown_conformsTo]
      | noValue => exact noValue_conformsTo_iff.2 (Ty.dynamic_conformsTo_iff.1 h)
      | bool x | number n | string s =>
          cases b <;> first | rfl | simp [type, Ty.conformsTo] at h
      | list t elements =>
          cases b with
          | dynamic => rfl
          | list e =>
              have hte : t.conformsTo e = true := by simpa [type, Ty.conformsTo] using h
              refine list_conformsTo_iff.2 ⟨hte, fun c hc => ?_⟩
              exact conformsTo_trans (hv.components c hc) hv.1 hb (hself c hc) hte
          | _ => simp [type, Ty.conformsTo] at h
      | set t elements =>
          cases b with
          | dynamic => rfl
          | set e =>
              have hte : t.conformsTo e = true := by simpa [type, Ty.conformsTo] using h
              refine set_conformsTo_iff.2 ⟨hte, fun c hc => ?_⟩
              exact conformsTo_trans (hv.components c hc) hv.1 hb (hself c hc) hte
          | _ => simp [type, Ty.conformsTo] at h
      | map t entries =>
          cases b with
          | dynamic => rfl
          | map e =>
              have hte : t.conformsTo e = true := by simpa [type, Ty.conformsTo] using h
              refine map_conformsTo_iff.2 ⟨hte, fun entry hentry => ?_⟩
              have hc : entry.2 ∈ (Value.map t entries).components := List.mem_map_of_mem hentry
              exact conformsTo_trans (hv.components _ hc) hv.1 hb (hself entry hentry) hte
          | _ => simp [type, Ty.conformsTo] at h
      | tuple elements =>
          cases b with
          | dynamic => rfl
          | tuple wants =>
              rw [type, types_eq_map, Ty.conformsTo_tuple_iff, List.forall₂_map_left_iff] at h
              simp only [Ty.WellFormed, Ty.allWellFormed_iff] at hb
              refine tuple_conformsTo_iff.2 (forall₂_imp_of_mem h fun c hc w hw hcw => ?_)
              exact ih c hc (hv.components c hc) (hb w hw) (hcomponents c hc) hcw
          | _ => simp [type, Ty.conformsTo] at h
      | object attributes =>
          cases b with
          | dynamic => rfl
          | object wants o =>
              simp only [Ty.WellFormed, Ty.attributesWellFormed_iff] at hb
              obtain ⟨hbs, -, -, hbt⟩ := hb
              rw [type, attributeTypes_eq_mapValues,
                Ty.conformsTo_object_iff (Fields.sorted_mapValues _ hv.1) hbs, Fields.Paired,
                Fields.mapValues, List.forall₂_map_left_iff] at h
              rw [object_conformsTo_iff hv.1 hbs]
              refine forall₂_imp_of_mem h ?_
              rintro c hc w hw ⟨hname, hcw⟩
              have hpart : c.2 ∈ (Value.object attributes).components := List.mem_map_of_mem hc
              exact ⟨hname,
                ih c.2 hpart (hv.components _ hpart) (hbt w hw) (hcomponents _ hpart) hcw⟩
          | _ => simp [type, Ty.conformsTo] at h

/-- A value that conforms to a type that leaves nothing to the data has a type that
does. -/
theorem type_conformsTo_of_conformsTo
    (hv : v.WellFormed) (hb : b.WellFormed) (hstatic : b.hasDynamic = false)
    (h : v.conformsTo b = true) :
    v.type.conformsTo b = true := by
  have hstands : ∀ {v : Value} {b : Ty}, v.StandsFor b → v.type.conformsTo b = true := by
    rintro _ b ⟨t, ht, rfl | rfl⟩
    · exact ht
    · exact ht
  induction b using Ty.induction generalizing v with
  | dynamic => cases hstatic
  | bool =>
      rcases conformsTo_bool h with hs | ⟨x, rfl⟩
      · exact hstands hs
      · rfl
  | number =>
      rcases conformsTo_number h with hs | ⟨n, rfl⟩
      · exact hstands hs
      · rfl
  | string =>
      rcases conformsTo_string h with hs | ⟨s, rfl⟩
      · exact hstands hs
      · rfl
  | list e ih =>
      have hstatic : e.hasDynamic = false := hstatic
      rcases conformsTo_list h with hs | ⟨-, hd⟩ | ⟨t, elements, rfl, hte, -⟩
      · exact hstands hs
      · rw [hstatic] at hd
        cases hd
      · simpa [type, Ty.conformsTo] using hte
  | set e ih =>
      have hstatic : e.hasDynamic = false := hstatic
      rcases conformsTo_set h with hs | ⟨-, hd⟩ | ⟨t, elements, rfl, hte, -⟩
      · exact hstands hs
      · rw [hstatic] at hd
        cases hd
      · simpa [type, Ty.conformsTo] using hte
  | map e ih =>
      have hstatic : e.hasDynamic = false := hstatic
      rcases conformsTo_map h with hs | ⟨-, hd⟩ | ⟨t, entries, rfl, hte, -⟩
      · exact hstands hs
      · rw [hstatic] at hd
        cases hd
      · simpa [type, Ty.conformsTo] using hte
  | tuple types ih =>
      have hparts := Ty.hasDynamic_of_mem_tuple hstatic
      rcases conformsTo_tuple h with hs | ⟨elements, rfl, helements⟩
      · exact hstands hs
      · simp only [Ty.WellFormed, Ty.allWellFormed_iff] at hb
        rw [type, types_eq_map, Ty.conformsTo_tuple_iff, List.forall₂_map_left_iff]
        refine forall₂_imp_of_mem helements fun c hc t ht hct => ?_
        exact ih t ht (hv.components c hc) (hb t ht) (hparts t ht) hct
  | object types o ih =>
      have hparts := Ty.hasDynamic_of_mem_object hstatic
      rcases conformsTo_object h with hs | ⟨attributes, rfl⟩
      · exact hstands hs
      · simp only [Ty.WellFormed, Ty.attributesWellFormed_iff] at hb
        obtain ⟨hbs, -, -, hbt⟩ := hb
        rw [object_conformsTo_iff hv.1 hbs] at h
        rw [type, attributeTypes_eq_mapValues,
          Ty.conformsTo_object_iff (Fields.sorted_mapValues _ hv.1) hbs, Fields.Paired,
          Fields.mapValues, List.forall₂_map_left_iff]
        refine forall₂_imp_of_mem h ?_
        rintro c hc t ht ⟨hname, hct⟩
        have hpart : c.2 ∈ (Value.object attributes).components := List.mem_map_of_mem hc
        exact ⟨hname, ih t ht (hv.components _ hpart) (hbt t ht) (hparts t ht) hct⟩

end OwnType

/-- A value conforms to every type to which one conforms that it conforms to.  If the
elements of the collections in it have the types that are recorded, it conforms to all
that its own type conforms to, and to no other type that leaves nothing to the data. -/
theorem conformance_followsTypes
    (v : Value) (hv : v.WellFormed) (a b : Ty) (ha : a.WellFormed) (hb : b.WellFormed) :
    (v.conformsTo a = true → a.conformsTo b = true → v.conformsTo b = true) ∧
      ((∀ part : Value, part.PartOf v → part.Homogeneous) →
        (v.type.conformsTo b = true → v.conformsTo b = true) ∧
          (b.hasDynamic = false → (v.conformsTo b = true ↔ v.type.conformsTo b = true))) := by
  refine ⟨conformsTo_trans hv ha hb, fun hhom => ?_⟩
  have hown := conformsTo_of_type_conformsTo hv hb hhom
  exact ⟨hown, fun hstatic => ⟨type_conformsTo_of_conformsTo hv hb hstatic, hown⟩⟩

/-- The type of quotas, whose names may be left out. -/
def quotaType : Ty :=
  .object [("limits", .list .number), ("name", .string)] ["name"]

/-- A quota with a limit that is null and with a name that is not known yet. -/
def quota : Value :=
  .object [("limits", .list .number [ofInt 1, .null .number]), ("name", .unknown .string)]

theorem conformance_followsTypes_quota :
    quota.WellFormed ∧ quota.conformsTo quotaType = true ∧
      quotaType.conformsTo quotaType.storage = true ∧
      quota.conformsTo quotaType.storage = true ∧
      quota.type.conformsTo quotaType.storage = true := by
  have hs : Ord.compare "limits" "name" = .lt := by decide
  have hv : quota.WellFormed := by
    simp [quota, ofInt, WellFormed, EntriesWellFormed, AllWellFormed, Ty.WellFormed,
      Fields.Sorted, hs]
  have ha : quotaType.WellFormed := by
    simp [quotaType, Ty.WellFormed, Ty.AttributesWellFormed, Fields.Sorted, Fields.names, hs]
  have hconforms : quota.conformsTo quotaType = true := by rfl
  have hmarks : quotaType.conformsTo quotaType.storage = true := by rfl
  have hleaf : ∀ w : Value, w.Homogeneous → w.components = [] → w.Throughout Homogeneous := by
    intro w hw hnone
    rw [throughout_iff, hnone]
    exact ⟨hw, List.forall_mem_nil _⟩
  have hlimits : (Value.list .number [ofInt 1, .null .number]).Throughout Homogeneous := by
    refine throughout_iff.2 ⟨?_, ?_⟩
    · exact List.forall_mem_cons.2 ⟨rfl, List.forall_mem_singleton.2 rfl⟩
    · exact List.forall_mem_cons.2
        ⟨hleaf _ trivial rfl, List.forall_mem_singleton.2 (hleaf _ trivial rfl)⟩
  have hhom : quota.Throughout Homogeneous := by
    refine throughout_iff.2 ⟨trivial, List.forall_mem_cons.2 ⟨hlimits, ?_⟩⟩
    exact List.forall_mem_singleton.2 (hleaf _ trivial rfl)
  obtain ⟨htrans, hown⟩ := conformance_followsTypes quota hv quotaType quotaType.storage ha
    (Ty.wellFormed_storage quotaType ha)
  have hstorage := htrans hconforms hmarks
  exact ⟨hv, hconforms, hmarks, hstorage, ((hown hhom).2 rfl).1 hstorage⟩

end Value
end TypedConfig
