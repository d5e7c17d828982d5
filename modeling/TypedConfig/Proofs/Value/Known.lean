import TypedConfig.Proofs.Value.Conversion

/-!
# Conversion neither makes nor loses what is unknown

An unknown value is converted to an unknown value and a known one to a known
one, whatever the collection that holds it is turned into: the elements of a
sequence may be merged in a set, but only with their equals, and where an
attribute is missing a null stands for it, which is known.  So a conversion that
succeeds yields a wholly known value exactly from a wholly known one.

One direction needs that the entries of a mapping have different names, since
only one entry of a name is converted.
-/

namespace TypedConfig
namespace Value

/-- Whether of two values either is wholly known if the other one is; of the first
this is asked only if it is well formed. -/
structure KnownAlike (v w : Value) : Prop where
  known : v.isWhollyKnown = true → w.isWhollyKnown = true
  of_known : v.WellFormed → w.isWhollyKnown = true → v.isWhollyKnown = true

section Parts

variable {v w : Value}

@[simp] theorem isWhollyKnown_orNull :
    v.orNull.isWhollyKnown = v.isWhollyKnown := by
  cases v <;> rfl

theorem components_of_entries?
    {entries : Fields Value} (h : v.entries? = some entries) :
    v.isUnknown = false ∧ v.components = entries.map Prod.snd := by
  cases v with
  | map _ _ | object _ =>
      cases h
      exact ⟨rfl, rfl⟩
  | _ => cases h

theorem KnownAlike.of_isWhollyKnown
    (hv : v.isWhollyKnown = true) (hw : w.isWhollyKnown = true) :
    KnownAlike v w :=
  ⟨fun _ => hw, fun _ _ => hv⟩

/-- A whole is known alike if every part of the result is known or made from a part
of the value, and every part of the value is made into one of the result. -/
theorem KnownAlike.of_components
    (hv : v.isUnknown = false) (hw : w.isUnknown = false)
    (hmade : ∀ d ∈ w.components, d.isWhollyKnown = true ∨ ∃ c ∈ v.components, KnownAlike c d)
    (hkept : v.WellFormed → ∀ c ∈ v.components, ∃ d ∈ w.components, KnownAlike c d) :
    KnownAlike v w := by
  constructor
  · intro hknown
    refine isWhollyKnown_iff.2 ⟨hw, fun d hd => ?_⟩
    rcases hmade d hd with hd | ⟨c, hc, halike⟩
    · exact hd
    · exact halike.known ((isWhollyKnown_iff.1 hknown).2 c hc)
  · intro hwell hknown
    refine isWhollyKnown_iff.2 ⟨hv, fun c hc => ?_⟩
    obtain ⟨d, hd, halike⟩ := hkept hwell c hc
    exact halike.of_known (hwell.components c hc) ((isWhollyKnown_iff.1 hknown).2 d hd)

/-- So it is where the parts are converted one by one, whether or not the results
are merged. -/
theorem KnownAlike.of_forall₂
    {ws : List Value} (hv : v.isUnknown = false) (hw : w.isUnknown = false)
    (hmem : ∀ d, d ∈ w.components ↔ d ∈ ws) (h : List.Forall₂ KnownAlike v.components ws) :
    KnownAlike v w := by
  have hmade : ∀ d ∈ ws, ∃ c ∈ v.components, KnownAlike c d :=
    forall_mem_of_forall₂ h fun c hc _ halike => ⟨c, hc, halike⟩
  have hkept : ∀ c ∈ v.components, ∃ d ∈ ws, KnownAlike c d :=
    forall_mem_of_forall₂ h.flip fun d hd _ halike => ⟨d, hd, halike⟩
  refine .of_components hv hw (fun d hd => Or.inr (hmade d ((hmem d).1 hd))) fun _ c hc => ?_
  obtain ⟨d, hd, halike⟩ := hkept c hc
  exact ⟨d, (hmem d).2 hd, halike⟩

end Parts

section Conversion

theorem knownAlike_closedUnderConversion :
    ClosedUnderConversion fun _ v result => KnownAlike v result where
  null _ _ _ := .of_isWhollyKnown rfl rfl
  unknown _ _ _ := ⟨fun hknown => absurd hknown Bool.false_ne_true,
    fun _ hknown => absurd hknown Bool.false_ne_true⟩
  dynamic _ _ := ⟨id, fun _ => id⟩
  bool _ _ hknown := .of_isWhollyKnown hknown rfl
  number _ _ hknown := .of_isWhollyKnown hknown rfl
  string _ _ hknown := .of_isWhollyKnown hknown rfl
  list _ _ _ _ hknown h := .of_forall₂ hknown rfl (fun _ => Iff.rfl) h
  set _ _ ws _ hknown h := .of_forall₂ hknown rfl (fun w => mem_setElements w ws) h
  map e v entries ws _ hentries h := by
    obtain ⟨hknown, hcomponents⟩ := components_of_entries? hentries
    refine .of_forall₂ hknown rfl (fun _ => Iff.rfl) ?_
    rw [hcomponents]
    exact List.forall₂_map_left_iff.2 (List.forall₂_map_right_iff.2 (h.imp fun _ _ hc => hc.2))
  tuple types v ws _ hknown hlength h := by
    refine .of_forall₂ hknown rfl (fun _ => Iff.rfl) ?_
    rw [← List.map_snd_zip (Nat.le_of_eq hlength.symm)]
    exact List.forall₂_map_left_iff.2 h
  object wants optional v entries ws _ _ hentries hnames h := by
    obtain ⟨hknown, hcomponents⟩ := components_of_entries? hentries
    refine .of_components hknown rfl (List.forall_mem_map.2 ?_) ?_
    · refine forall_mem_of_forall₂ h ?_
      rintro a - c ⟨-, halike⟩
      rw [attributeSource] at halike
      cases hentry : Fields.get? a.1 entries with
      | none =>
          rw [hentry] at halike
          exact Or.inl (halike.known rfl)
      | some u =>
          rw [hentry] at halike
          rw [hcomponents]
          exact Or.inr ⟨u, List.mem_map.2 ⟨(a.1, u), Fields.mem_of_get? hentry, rfl⟩, halike⟩
    · intro hwell
      rw [hcomponents]
      refine List.forall_mem_map.2 fun entry hentry => ?_
      have hget := (hwell.entries hentries).1.get?_eq_some_iff.2 hentry
      obtain ⟨a, ha, hname⟩ := List.mem_map.1 (hnames entry.1 (Fields.mem_names_of_mem hentry))
      have hpartner : ∀ a ∈ wants, ∃ c ∈ ws, KnownAlike (attributeSource entries a) c.2 :=
        forall_mem_of_forall₂ h.flip fun c hc _ halike => ⟨c, hc, halike.2⟩
      obtain ⟨c, hc, halike⟩ := hpartner a ha
      rw [attributeSource, hname, hget] at halike
      exact ⟨c.2, List.mem_map.2 ⟨c, hc, rfl⟩, halike⟩

/-- A conversion that succeeds yields a wholly known value exactly from a wholly
known one. -/
theorem convert_isWhollyKnown_iff
    {want : Ty} (hw : want.WellFormed) {v result : Value} (hv : v.WellFormed)
    (h : convert want v = .ok result) :
    result.isWhollyKnown = true ↔ v.isWhollyKnown = true := by
  have halike := knownAlike_closedUnderConversion.holds hw h
  exact ⟨halike.of_known hv, halike.known⟩

end Conversion

end Value
end TypedConfig
