import TypedConfig.Value.Basic

/-!
# The parts of a value

A value has parts at any depth: itself, and the parts of its elements, entries
and attributes.  What holds throughout a value holds of it and throughout all
that it directly consists of.
-/

namespace TypedConfig
namespace Value

/-- What a value directly consists of. -/
def components : Value → List Value
  | .list _ elements | .set _ elements | .tuple elements => elements
  | .map _ entries | .object entries => entries.map Prod.snd
  | _ => []

/-- The parts of a value, the value itself among them. -/
inductive PartOf : Value → Value → Prop where
  | self (v : Value) : PartOf v v
  | inside {part c v : Value} (hmem : c ∈ v.components) (hpart : PartOf part c) : PartOf part v

/-- Whether all parts of a value have a property. -/
def Throughout (P : Value → Prop) (v : Value) : Prop :=
  ∀ part, part.PartOf v → P part

theorem throughout_iff
    {P : Value → Prop} {v : Value} :
    v.Throughout P ↔ P v ∧ ∀ c ∈ v.components, c.Throughout P := by
  constructor
  · intro h
    exact ⟨h v (.self v), fun c hc part hpart => h part (.inside hc hpart)⟩
  · rintro ⟨hself, hcomponents⟩ part hpart
    cases hpart with
    | self => exact hself
    | inside hmem hpart => exact hcomponents _ hmem part hpart

end Value
end TypedConfig
