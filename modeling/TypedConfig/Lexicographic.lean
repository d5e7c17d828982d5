/-!
# Orders that compare in steps

Types and values are compared step by step, a later step deciding only where
the earlier ones find no difference.  This module holds what is needed to show
that such comparisons are total orders: how transitivity passes from the steps
to the whole, and how a comparison becomes a lawful order.
-/

namespace TypedConfig
namespace Lexicographic

/-- Transitivity of two steps, from that of each step and from what the first
step says where it finds no difference. -/
theorem then_lt_trans
    {ab bc ac ab' bc' ac' : Ordering}
    (hlt : ab = .lt → bc = .lt → ac = .lt)
    (hlt_eq : ab = .lt → bc = .eq → ac = .lt)
    (heq_lt : ab = .eq → bc = .lt → ac = .lt)
    (heq : ab = .eq → bc = .eq → ac = .eq)
    (hrest : ab' = .lt → bc' = .lt → ac' = .lt)
    (hab : ab.then ab' = .lt) (hbc : bc.then bc' = .lt) :
    ac.then ac' = .lt := by
  rcases Ordering.then_eq_lt.1 hab with h₁ | ⟨h₁, h₁'⟩
  · rcases Ordering.then_eq_lt.1 hbc with h₂ | ⟨h₂, _⟩
    · exact Ordering.then_eq_lt.2 (Or.inl (hlt h₁ h₂))
    · exact Ordering.then_eq_lt.2 (Or.inl (hlt_eq h₁ h₂))
  · rcases Ordering.then_eq_lt.1 hbc with h₂ | ⟨h₂, h₂'⟩
    · exact Ordering.then_eq_lt.2 (Or.inl (heq_lt h₁ h₂))
    · exact Ordering.then_eq_lt.2 (Or.inr ⟨heq h₁ h₂, hrest h₁' h₂'⟩)

/-- Transitivity of two steps of which the first finds no difference between
equals only. -/
theorem then_lt_trans_of_eq_iff
    {α : Type} {f : α → α → Ordering} (heq_iff : ∀ a b, f a b = .eq ↔ a = b)
    {a b c : α} (htrans : f a b = .lt → f b c = .lt → f a c = .lt)
    {ab' bc' ac' : Ordering} (hrest : ab' = .lt → bc' = .lt → ac' = .lt)
    (hab : (f a b).then ab' = .lt) (hbc : (f b c).then bc' = .lt) :
    (f a c).then ac' = .lt := by
  refine then_lt_trans htrans ?_ ?_ ?_ hrest hab hbc
  · intro h₁ h₂
    rw [← (heq_iff b c).1 h₂]
    exact h₁
  · intro h₁ h₂
    rw [(heq_iff a b).1 h₁]
    exact h₂
  · intro h₁ h₂
    rw [(heq_iff a b).1 h₁]
    exact h₂

/-- A comparison that turns round with its arguments is antisymmetric. -/
theorem orientedCmp
    {α : Type} {cmp : α → α → Ordering} (hswap : ∀ a b, cmp a b = (cmp b a).swap) :
    Std.OrientedCmp cmp :=
  ⟨fun {a b} => hswap a b⟩

/-- A comparison whose less is transitive, and whose equal is equality, is a
total order. -/
theorem transCmp
    {α : Type} {cmp : α → α → Ordering} (hswap : ∀ a b, cmp a b = (cmp b a).swap)
    (heq_iff : ∀ a b, cmp a b = .eq ↔ a = b)
    (htrans : ∀ a b c, cmp a b = .lt → cmp b c = .lt → cmp a c = .lt) :
    Std.TransCmp cmp := by
  have := orientedCmp hswap
  refine ⟨?_⟩
  intro a b c hab hbc
  have hle : ∀ {x y}, (cmp x y).isLE = true → cmp x y = .lt ∨ x = y := by
    intro x y h
    cases hxy : cmp x y with
    | lt => exact Or.inl rfl
    | eq => exact Or.inr ((heq_iff x y).1 hxy)
    | gt =>
        rw [hxy] at h
        cases h
  rcases hle hab with h₁ | rfl
  · rcases hle hbc with h₂ | rfl
    · rw [htrans a b c h₁ h₂]
      rfl
    · exact hab
  · exact hbc

/-- A comparison whose equal is equality is a lawful one. -/
theorem lawfulEqCmp
    {α : Type} {cmp : α → α → Ordering} (heq_iff : ∀ a b, cmp a b = .eq ↔ a = b) :
    Std.LawfulEqCmp cmp where
  compare_self {a} := (heq_iff a a).2 rfl
  eq_of_compare {a b} h := (heq_iff a b).1 h

end Lexicographic
end TypedConfig
