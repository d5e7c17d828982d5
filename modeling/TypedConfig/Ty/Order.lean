import TypedConfig.Lexicographic
import TypedConfig.Ty.Basic

/-!
# The order of types

Types are ordered by their kind first and by their contents then: collections
by their elements, tuples as sequences, objects as sequences of names and
types, and at last by the names that are optional.

The main statements say that the order is total and that two types compare
equal exactly when they are equal.
-/

namespace TypedConfig
namespace Ty

/-- The place of the kind of a type. -/
def rank : Ty → Nat
  | .bool => 0
  | .number => 1
  | .string => 2
  | .list _ => 3
  | .set _ => 4
  | .map _ => 5
  | .tuple _ => 6
  | .object _ _ => 7
  | .dynamic => 8

mutual

/-- The order of types. -/
def compare : Ty → Ty → Ordering
  | .list a, .list b => a.compare b
  | .set a, .set b => a.compare b
  | .map a, .map b => a.compare b
  | .tuple as, .tuple bs => compareAll as bs
  | .object as os, .object bs ps => (compareAttributes as bs).then (Ord.compare os ps)
  | a, b => Ord.compare a.rank b.rank

/-- The order of sequences of types. -/
def compareAll : List Ty → List Ty → Ordering
  | [], [] => .eq
  | [], _ :: _ => .lt
  | _ :: _, [] => .gt
  | a :: as, b :: bs => (a.compare b).then (compareAll as bs)

/-- The order of sequences of names and types. -/
def compareAttributes : List (String × Ty) → List (String × Ty) → Ordering
  | [], [] => .eq
  | [], _ :: _ => .lt
  | _ :: _, [] => .gt
  | (n, a) :: as, (m, b) :: bs =>
      ((Ord.compare n m).then (a.compare b)).then (compareAttributes as bs)

end

instance : Ord Ty :=
  ⟨compare⟩

/-- What is compared of two types of the same kind. -/
def compareContents : Ty → Ty → Ordering
  | .list a, .list b => a.compare b
  | .set a, .set b => a.compare b
  | .map a, .map b => a.compare b
  | .tuple as, .tuple bs => compareAll as bs
  | .object as os, .object bs ps => (compareAttributes as bs).then (Ord.compare os ps)
  | _, _ => .eq

/-- The kinds decide first and the contents then. -/
theorem compare_eq_then
    (a b : Ty) :
    a.compare b = (Ord.compare a.rank b.rank).then (a.compareContents b) := by
  cases a <;> cases b <;> simp [compare, compareContents, rank]

mutual

theorem compare_eq_iff :
    ∀ a b : Ty, a.compare b = .eq ↔ a = b
  | .list a, b => by cases b <;> simp [compare, rank, compare_eq_iff a]
  | .set a, b => by cases b <;> simp [compare, rank, compare_eq_iff a]
  | .map a, b => by cases b <;> simp [compare, rank, compare_eq_iff a]
  | .tuple as, b => by cases b <;> simp [compare, rank, compareAll_eq_iff as]
  | .object as os, b => by
      cases b <;> simp [compare, rank, Ordering.then_eq_eq, compareAttributes_eq_iff as]
  | .bool, b => by cases b <;> simp [compare, rank]
  | .number, b => by cases b <;> simp [compare, rank]
  | .string, b => by cases b <;> simp [compare, rank]
  | .dynamic, b => by cases b <;> simp [compare, rank]

theorem compareAll_eq_iff :
    ∀ as bs : List Ty, compareAll as bs = .eq ↔ as = bs
  | [], bs => by cases bs <;> simp [compareAll]
  | a :: as, bs => by
      cases bs <;>
        simp [compareAll, Ordering.then_eq_eq, compare_eq_iff a, compareAll_eq_iff as]

theorem compareAttributes_eq_iff :
    ∀ as bs : List (String × Ty), compareAttributes as bs = .eq ↔ as = bs
  | [], bs => by cases bs <;> simp [compareAttributes]
  | (n, a) :: as, bs => by
      cases bs <;>
        simp [compareAttributes, Ordering.then_eq_eq, compare_eq_iff a,
          compareAttributes_eq_iff as, Prod.ext_iff]

end

/-- Turning round the contents turns round the whole. -/
theorem compare_eq_swap_of_contents
    {a b : Ty} (h : a.compareContents b = (b.compareContents a).swap) :
    a.compare b = (b.compare a).swap := by
  rw [compare_eq_then a b, compare_eq_then b a, Ordering.swap_then, h]
  congr 1
  exact Std.OrientedOrd.eq_swap

mutual

theorem compare_eq_swap :
    ∀ a b : Ty, a.compare b = (b.compare a).swap
  | .list a, b => by
      apply compare_eq_swap_of_contents
      cases b with
      | list b => exact compare_eq_swap a b
      | _ => rfl
  | .set a, b => by
      apply compare_eq_swap_of_contents
      cases b with
      | set b => exact compare_eq_swap a b
      | _ => rfl
  | .map a, b => by
      apply compare_eq_swap_of_contents
      cases b with
      | map b => exact compare_eq_swap a b
      | _ => rfl
  | .tuple as, b => by
      apply compare_eq_swap_of_contents
      cases b with
      | tuple bs => exact compareAll_eq_swap as bs
      | _ => rfl
  | .object as os, b => by
      apply compare_eq_swap_of_contents
      cases b with
      | object bs ps =>
          simp only [compareContents, Ordering.swap_then]
          rw [compareAttributes_eq_swap as bs, Std.OrientedOrd.eq_swap (a := os) (b := ps)]
      | _ => rfl
  | .bool, b => compare_eq_swap_of_contents (by cases b <;> rfl)
  | .number, b => compare_eq_swap_of_contents (by cases b <;> rfl)
  | .string, b => compare_eq_swap_of_contents (by cases b <;> rfl)
  | .dynamic, b => compare_eq_swap_of_contents (by cases b <;> rfl)

theorem compareAll_eq_swap :
    ∀ as bs : List Ty, compareAll as bs = (compareAll bs as).swap
  | [], bs => by cases bs <;> rfl
  | a :: as, bs => by
      cases bs with
      | nil => rfl
      | cons b bs =>
          simp only [compareAll, Ordering.swap_then]
          rw [compare_eq_swap a b, compareAll_eq_swap as bs]

theorem compareAttributes_eq_swap :
    ∀ as bs : List (String × Ty), compareAttributes as bs = (compareAttributes bs as).swap
  | [], bs => by cases bs <;> rfl
  | (n, a) :: as, bs => by
      cases bs with
      | nil => rfl
      | cons b bs =>
          obtain ⟨m, b⟩ := b
          simp only [compareAttributes, Ordering.swap_then]
          rw [compare_eq_swap a b, compareAttributes_eq_swap as bs,
            Std.OrientedOrd.eq_swap (a := n) (b := m)]

end

/-- If less is transitive on contents of one kind, it is on the whole. -/
theorem compare_lt_trans_of_contents
    {a b c : Ty}
    (hcontents : a.rank = b.rank → b.rank = c.rank →
      a.compareContents b = .lt → b.compareContents c = .lt → a.compareContents c = .lt)
    (hab : a.compare b = .lt) (hbc : b.compare c = .lt) :
    a.compare c = .lt := by
  rw [compare_eq_then] at hab hbc ⊢
  simp only [Ordering.then_eq_lt, Nat.compare_eq_lt, Nat.compare_eq_eq] at hab hbc ⊢
  rcases hab with hab | ⟨hab, hab'⟩
  · left
    omega
  · rcases hbc with hbc | ⟨hbc, hbc'⟩
    · left
      omega
    · exact Or.inr ⟨by omega, hcontents hab hbc hab' hbc'⟩

mutual

theorem compare_lt_trans :
    ∀ a b c : Ty, a.compare b = .lt → b.compare c = .lt → a.compare c = .lt
  | .list a, b, c => compare_lt_trans_of_contents fun hab hbc => by
      cases b with
      | list b =>
          cases c with
          | list c => exact compare_lt_trans a b c
          | _ => simp [rank] at hbc
      | _ => simp [rank] at hab
  | .set a, b, c => compare_lt_trans_of_contents fun hab hbc => by
      cases b with
      | set b =>
          cases c with
          | set c => exact compare_lt_trans a b c
          | _ => simp [rank] at hbc
      | _ => simp [rank] at hab
  | .map a, b, c => compare_lt_trans_of_contents fun hab hbc => by
      cases b with
      | map b =>
          cases c with
          | map c => exact compare_lt_trans a b c
          | _ => simp [rank] at hbc
      | _ => simp [rank] at hab
  | .tuple as, b, c => compare_lt_trans_of_contents fun hab hbc => by
      cases b with
      | tuple bs =>
          cases c with
          | tuple cs => exact compareAll_lt_trans as bs cs
          | _ => simp [rank] at hbc
      | _ => simp [rank] at hab
  | .object as os, b, c => compare_lt_trans_of_contents fun hab hbc => by
      cases b with
      | object bs ps =>
          cases c with
          | object cs qs =>
              exact Lexicographic.then_lt_trans_of_eq_iff compareAttributes_eq_iff
                (compareAttributes_lt_trans as bs cs) Std.TransCmp.lt_trans
          | _ => simp [rank] at hbc
      | _ => simp [rank] at hab
  | .bool, b, c => compare_lt_trans_of_contents fun _ _ => by cases b <;> simp [compareContents]
  | .number, b, c => compare_lt_trans_of_contents fun _ _ => by cases b <;> simp [compareContents]
  | .string, b, c => compare_lt_trans_of_contents fun _ _ => by cases b <;> simp [compareContents]
  | .dynamic, b, c => compare_lt_trans_of_contents fun _ _ => by
      cases b <;> simp [compareContents]

theorem compareAll_lt_trans :
    ∀ as bs cs : List Ty,
      compareAll as bs = .lt → compareAll bs cs = .lt → compareAll as cs = .lt
  | [], bs, cs => by cases bs <;> cases cs <;> simp [compareAll]
  | a :: as, bs, cs => by
      cases bs with
      | nil => simp [compareAll]
      | cons b bs =>
          cases cs with
          | nil => simp [compareAll]
          | cons c cs =>
              exact Lexicographic.then_lt_trans_of_eq_iff compare_eq_iff
                (compare_lt_trans a b c) (compareAll_lt_trans as bs cs)

theorem compareAttributes_lt_trans :
    ∀ as bs cs : List (String × Ty),
      compareAttributes as bs = .lt → compareAttributes bs cs = .lt →
        compareAttributes as cs = .lt
  | [], bs, cs => by cases bs <;> cases cs <;> simp [compareAttributes]
  | (n, a) :: as, bs, cs => by
      cases bs with
      | nil => simp [compareAttributes]
      | cons b bs =>
          cases cs with
          | nil => simp [compareAttributes]
          | cons c cs =>
              obtain ⟨m, b⟩ := b
              obtain ⟨k, c⟩ := c
              exact Lexicographic.then_lt_trans_of_eq_iff
                (f := fun x y : String × Ty => (Ord.compare x.1 y.1).then (x.2.compare y.2))
                (a := (n, a)) (b := (m, b)) (c := (k, c))
                (fun x y => by
                  simp [Ordering.then_eq_eq, compare_eq_iff x.2, Prod.ext_iff])
                (Lexicographic.then_lt_trans_of_eq_iff (f := Ord.compare)
                  (fun _ _ => Std.LawfulEqCmp.compare_eq_iff_eq) Std.TransCmp.lt_trans
                  (compare_lt_trans a b c))
                (compareAttributes_lt_trans as bs cs)

end

instance : Std.TransOrd Ty :=
  Lexicographic.transCmp compare_eq_swap compare_eq_iff compare_lt_trans

instance : Std.LawfulEqOrd Ty :=
  Lexicographic.lawfulEqCmp compare_eq_iff

instance : DecidableEq Ty := fun a b =>
  decidable_of_iff (a.compare b = .eq) (compare_eq_iff a b)

end Ty
end TypedConfig
