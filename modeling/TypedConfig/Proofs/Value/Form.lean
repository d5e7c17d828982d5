import TypedConfig.Depth
import TypedConfig.Proofs.Decimal.Canonical
import TypedConfig.Proofs.Fields.Paired
import TypedConfig.Proofs.Value.Parts
import TypedConfig.Value.Collection

/-!
# The form of stored values

A stored value is of the form that its type prescribes: nulls are nulls of
exactly that type, collections record exactly its element type, sets are
ascending, and maps and objects are in the order of their names.  Where the type
is dynamic there are scalars, tuples and objects.

A value of that form is lost when it is stored only if it has unknown parts,
nests too deep, or has numbers whose exponents are not read back.
-/

namespace TypedConfig
namespace Value

section Induction

/-- Induction over values: the property may be assumed of all that a value
directly consists of. -/
@[elab_as_elim]
theorem induction
    {motive : Value → Prop}
    (step : ∀ v : Value, (∀ c ∈ v.components, motive c) → motive v) :
    ∀ v : Value, motive v := by
  refine @Value.rec motive
    (fun elements => ∀ c ∈ elements, motive c)
    (fun entries => ∀ c ∈ entries.map Prod.snd, motive c)
    (fun entry => motive entry.2) ?_ ?_ ?_ ?_ ?_ ?_ ?_ ?_ ?_ ?_ ?_ ?_ ?_ ?_ ?_ ?_
  · exact fun t => step _ (List.forall_mem_nil _)
  · exact fun t => step _ (List.forall_mem_nil _)
  · exact step _ (List.forall_mem_nil _)
  · exact fun b => step _ (List.forall_mem_nil _)
  · exact fun n => step _ (List.forall_mem_nil _)
  · exact fun s => step _ (List.forall_mem_nil _)
  · exact fun e elements ih => step _ ih
  · exact fun e elements ih => step _ ih
  · exact fun e entries ih => step _ ih
  · exact fun elements ih => step _ ih
  · exact fun attributes ih => step _ ih
  · exact List.forall_mem_nil _
  · exact fun v rest hv hrest => List.forall_mem_cons.2 ⟨hv, hrest⟩
  · exact List.forall_mem_nil _
  · exact fun entry rest hentry hrest => List.forall_mem_cons.2 ⟨hentry, hrest⟩
  · exact fun name v hv => hv

end Induction

section WellFormed

theorem allWellFormed_iff
    {elements : List Value} :
    AllWellFormed elements ↔ ∀ c ∈ elements, c.WellFormed := by
  induction elements with
  | nil => simp [AllWellFormed]
  | cons v rest ih => simp [AllWellFormed, ih]

theorem entriesWellFormed_iff
    {entries : Fields Value} :
    EntriesWellFormed entries ↔ ∀ entry ∈ entries, entry.2.WellFormed := by
  induction entries with
  | nil => simp [EntriesWellFormed]
  | cons entry rest ih => simp [EntriesWellFormed, ih]

theorem WellFormed.components
    {v : Value} (h : v.WellFormed) :
    ∀ c ∈ v.components, c.WellFormed := by
  cases v with
  | list e elements => exact allWellFormed_iff.1 h.2
  | set e elements => exact allWellFormed_iff.1 h.2.2
  | tuple elements => exact allWellFormed_iff.1 h
  | map e entries => exact List.forall_mem_map.2 (entriesWellFormed_iff.1 h.2.2)
  | object entries => exact List.forall_mem_map.2 (entriesWellFormed_iff.1 h.2)
  | _ => exact List.forall_mem_nil _

theorem WellFormed.entries
    {v : Value} (h : v.WellFormed) {entries : Fields Value} (he : v.entries? = some entries) :
    Fields.Sorted entries ∧ ∀ entry ∈ entries, entry.2.WellFormed := by
  cases v with
  | map e entries =>
      cases he
      exact ⟨h.2.1, entriesWellFormed_iff.1 h.2.2⟩
  | object entries =>
      cases he
      exact ⟨h.1, entriesWellFormed_iff.1 h.2⟩
  | _ => cases he

end WellFormed

section Known

/-- A value is wholly known if it is not unknown and its components are wholly
known. -/
theorem isWhollyKnown_iff
    {v : Value} :
    v.isWhollyKnown = true ↔
      v.isUnknown = false ∧ ∀ c ∈ v.components, c.isWhollyKnown = true := by
  cases v with
  | map e entries | object entries =>
      rw [isWhollyKnown, entriesWhollyKnown_eq_all, List.all_eq_true, components,
        List.forall_mem_map]
      exact (and_iff_right rfl).symm
  | _ => simp [isWhollyKnown, isUnknown, components, allWhollyKnown_eq_all]

theorem isWhollyKnown_iff_throughout
    {v : Value} :
    v.isWhollyKnown = true ↔ v.Throughout fun part => part.isUnknown = false := by
  induction v using Value.induction with
  | step v ih =>
      rw [isWhollyKnown_iff, throughout_iff]
      exact and_congr_right fun _ => forall₂_congr ih

end Known

section Depth

mutual

/-- How many levels a value nests below itself. -/
def depth : Value → Nat
  | .list _ elements | .set _ elements | .tuple elements => elementsDepth elements
  | .map _ entries | .object entries => entriesDepth entries
  | _ => 0

/-- How many levels elements nest below the value that has them. -/
def elementsDepth : List Value → Nat
  | [] => 0
  | v :: rest => max (v.depth + 1) (elementsDepth rest)

/-- How many levels entries nest below the value that has them. -/
def entriesDepth : List (String × Value) → Nat
  | [] => 0
  | (_, v) :: rest => max (v.depth + 1) (entriesDepth rest)

end

theorem elementsDepth_le_iff
    {elements : List Value} {k : Nat} :
    elementsDepth elements ≤ k ↔ ∀ c ∈ elements, c.depth + 1 ≤ k := by
  induction elements with
  | nil => simp [elementsDepth]
  | cons v rest ih =>
      rw [elementsDepth, List.forall_mem_cons, Nat.max_le, ih]

theorem entriesDepth_le_iff
    {entries : Fields Value} {k : Nat} :
    entriesDepth entries ≤ k ↔ ∀ c ∈ entries.map Prod.snd, c.depth + 1 ≤ k := by
  induction entries with
  | nil => simp [entriesDepth]
  | cons entry rest ih =>
      rw [entriesDepth, List.map_cons, List.forall_mem_cons, Nat.max_le, ih]

theorem depth_le_iff
    {v : Value} {k : Nat} :
    v.depth ≤ k ↔ ∀ c ∈ v.components, c.depth + 1 ≤ k := by
  cases v with
  | list e elements | set e elements | tuple elements => exact elementsDepth_le_iff
  | map e entries | object entries => exact entriesDepth_le_iff
  | _ => simp [depth, components]

/-- A value reaches down as far as its components, which stand one level
below. -/
theorem add_depth_le_iff
    {v : Value} {k limit : Nat} :
    k + v.depth ≤ limit ↔ k ≤ limit ∧ ∀ c ∈ v.components, k + 1 + c.depth ≤ limit := by
  constructor
  · intro h
    have hcomponents := depth_le_iff.1 (Nat.le_refl v.depth)
    refine ⟨by omega, ?_⟩
    intro c hc
    have hlevel := hcomponents c hc
    omega
  · rintro ⟨hself, hcomponents⟩
    have hlevels : v.depth ≤ limit - k := by
      rw [depth_le_iff]
      intro c hc
      have hlevel := hcomponents c hc
      omega
    omega

/-- Whether a value that stands at a depth is within the limits of data: it
nests no deeper than data may, and its numbers have exponents that are read. -/
structure WithinLimits (depth : Nat) (v : Value) : Prop where
  depth_le : depth + v.depth ≤ maxDepth
  exponents : ∀ n, (Value.number n).PartOf v → n.ExponentWithinLimit

/-- A value is within the limits if it is so itself and its components are, one
level below. -/
theorem withinLimits_iff
    {depth : Nat} {v : Value} :
    v.WithinLimits depth ↔
      depth ≤ maxDepth ∧ (∀ n, v = .number n → n.ExponentWithinLimit) ∧
        ∀ c ∈ v.components, c.WithinLimits (depth + 1) := by
  constructor
  · rintro ⟨hdepth, hexponents⟩
    obtain ⟨hself, hcomponents⟩ := add_depth_le_iff.1 hdepth
    refine ⟨hself, ?_, ?_⟩
    · rintro n rfl
      exact hexponents n (.self _)
    · exact fun c hc => ⟨hcomponents c hc, fun n hn => hexponents n (.inside hc hn)⟩
  · rintro ⟨hdepth, hself, hcomponents⟩
    refine ⟨add_depth_le_iff.2 ⟨hdepth, fun c hc => (hcomponents c hc).depth_le⟩, ?_⟩
    intro n hn
    cases hn with
    | self => exact hself n rfl
    | inside hc hn => exact (hcomponents _ hc).exponents n hn

end Depth

section Form

/-- Whether a value is of the form in which values of a type are stored. -/
inductive HasForm : Value → Ty → Prop where
  | null (t : Ty) : HasForm (.null t) t
  | unknown (t : Ty) : HasForm (.unknown t) t
  | bool {want : Ty} (b : Bool) (h : want = .bool ∨ want = .dynamic) :
      HasForm (.bool b) want
  | number {want : Ty} (n : Decimal) (h : want = .number ∨ want = .dynamic) :
      HasForm (.number n) want
  | string {want : Ty} (s : String) (h : want = .string ∨ want = .dynamic) :
      HasForm (.string s) want
  | list {e : Ty} {elements : List Value} (h : ∀ c ∈ elements, HasForm c e) :
      HasForm (.list e elements) (.list e)
  | set {e : Ty} {elements : List Value} (hs : Ascending elements)
      (h : ∀ c ∈ elements, HasForm c e) :
      HasForm (.set e elements) (.set e)
  | map {e : Ty} {entries : Fields Value} (hs : Fields.Sorted entries)
      (h : ∀ entry ∈ entries, HasForm entry.2 e) :
      HasForm (.map e entries) (.map e)
  /-- A tuple type lists a type for each element. -/
  | tuple {parts : List (Value × Ty)} (h : ∀ p ∈ parts, HasForm p.1 p.2) :
      HasForm (.tuple (parts.map Prod.fst)) (.tuple (parts.map Prod.snd))
  /-- An object type has a type for each attribute. -/
  | object {parts : Fields (Value × Ty)} {optional : List String} (hs : Fields.Sorted parts)
      (h : ∀ p ∈ parts, HasForm p.2.1 p.2.2) :
      HasForm (.object (Fields.mapValues Prod.fst parts))
        (.object (Fields.mapValues Prod.snd parts) optional)
  | dynamicTuple {elements : List Value} (h : ∀ c ∈ elements, HasForm c .dynamic) :
      HasForm (.tuple elements) .dynamic
  | dynamicObject {entries : Fields Value} (hs : Fields.Sorted entries)
      (h : ∀ entry ∈ entries, HasForm entry.2 .dynamic) :
      HasForm (.object entries) .dynamic

namespace HasForm

theorem tuple_of_forall₂
    {elements : List Value} {types : List Ty} (h : List.Forall₂ HasForm elements types) :
    (Value.tuple elements).HasForm (.tuple types) := by
  obtain ⟨hlength, hparts⟩ := List.forall₂_iff_zip.1 h
  have htuple : (Value.tuple ((elements.zip types).map Prod.fst)).HasForm
      (.tuple ((elements.zip types).map Prod.snd)) := .tuple fun p hp => hparts hp
  rwa [List.map_fst_zip (by omega), List.map_snd_zip (by omega)] at htuple

theorem object_of_paired
    {attributes : Fields Value} {wants : Fields Ty} {optional : List String}
    (hs : Fields.Sorted attributes) (h : Fields.Paired HasForm attributes wants) :
    (Value.object attributes).HasForm (.object wants optional) := by
  obtain ⟨parts, rfl, rfl, hparts⟩ := h.exists_parts
  exact .object (List.pairwise_map.1 hs) hparts

/-- No part of a value of some form is absent. -/
theorem present
    {v : Value} {want : Ty} (h : v.HasForm want) :
    v.Throughout fun part => part.isNoValue = false := by
  induction h with
  | null | unknown | bool | number | string =>
      exact throughout_iff.2 ⟨rfl, List.forall_mem_nil _⟩
  | list h ih | set hs h ih | dynamicTuple h ih => exact throughout_iff.2 ⟨rfl, ih⟩
  | map hs h ih | dynamicObject hs h ih =>
      exact throughout_iff.2 ⟨rfl, List.forall_mem_map.2 ih⟩
  | tuple h ih => exact throughout_iff.2 ⟨rfl, List.forall_mem_map.2 ih⟩
  | object hs h ih =>
      refine throughout_iff.2 ⟨rfl, List.forall_mem_map.2 ?_⟩
      exact List.forall_mem_map.2 ih

theorem orNull_eq
    {v : Value} {want : Ty} (h : v.HasForm want) :
    v.orNull = v := by
  cases h <;> rfl

end HasForm

end Form

end Value
end TypedConfig
