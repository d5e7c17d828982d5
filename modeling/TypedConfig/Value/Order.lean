import TypedConfig.Decimal.Order
import TypedConfig.Ty.Order
import TypedConfig.Value.Basic

/-!
# The order of values

Values are ordered by their form first and by their contents then: nulls,
unknowns and collections by their type, numbers as numbers, false before true,
sequences and entries element by element.

The main statements say that the order is total and that two values compare
equal exactly when they are equal.
-/

namespace TypedConfig
namespace Value

/-- The place of the form of a value. -/
def rank : Value → Nat
  | .null _ => 0
  | .unknown _ => 1
  | .noValue => 2
  | .bool _ => 3
  | .number _ => 4
  | .string _ => 5
  | .list _ _ => 6
  | .set _ _ => 7
  | .map _ _ => 8
  | .tuple _ => 9
  | .object _ => 10

mutual

/-- The order of values. -/
def compare : Value → Value → Ordering
  | .null s, .null t => Ord.compare s t
  | .unknown s, .unknown t => Ord.compare s t
  | .bool a, .bool b => Ord.compare a b
  | .number a, .number b => Ord.compare a b
  | .string a, .string b => Ord.compare a b
  | .list s as, .list t bs => (Ord.compare s t).then (compareAll as bs)
  | .set s as, .set t bs => (Ord.compare s t).then (compareAll as bs)
  | .map s as, .map t bs => (Ord.compare s t).then (compareEntries as bs)
  | .tuple as, .tuple bs => compareAll as bs
  | .object as, .object bs => compareEntries as bs
  | a, b => Ord.compare a.rank b.rank

/-- The order of sequences of values. -/
def compareAll : List Value → List Value → Ordering
  | [], [] => .eq
  | [], _ :: _ => .lt
  | _ :: _, [] => .gt
  | a :: as, b :: bs => (a.compare b).then (compareAll as bs)

/-- The order of sequences of names and values. -/
def compareEntries : List (String × Value) → List (String × Value) → Ordering
  | [], [] => .eq
  | [], _ :: _ => .lt
  | _ :: _, [] => .gt
  | (n, a) :: as, (m, b) :: bs =>
      ((Ord.compare n m).then (a.compare b)).then (compareEntries as bs)

end

instance : Ord Value :=
  ⟨compare⟩

/-- What is compared of two values of the same form. -/
def compareContents : Value → Value → Ordering
  | .null s, .null t => Ord.compare s t
  | .unknown s, .unknown t => Ord.compare s t
  | .bool a, .bool b => Ord.compare a b
  | .number a, .number b => Ord.compare a b
  | .string a, .string b => Ord.compare a b
  | .list s as, .list t bs => (Ord.compare s t).then (compareAll as bs)
  | .set s as, .set t bs => (Ord.compare s t).then (compareAll as bs)
  | .map s as, .map t bs => (Ord.compare s t).then (compareEntries as bs)
  | .tuple as, .tuple bs => compareAll as bs
  | .object as, .object bs => compareEntries as bs
  | _, _ => .eq

/-- The forms decide first and the contents then. -/
theorem compare_eq_then
    (a b : Value) :
    a.compare b = (Ord.compare a.rank b.rank).then (a.compareContents b) := by
  cases a <;> cases b <;> simp [compare, compareContents, rank]

mutual

theorem compare_eq_iff :
    ∀ a b : Value, a.compare b = .eq ↔ a = b
  | .null s, b => by cases b <;> simp [compare, rank]
  | .unknown s, b => by cases b <;> simp [compare, rank]
  | .noValue, b => by cases b <;> simp [compare, rank]
  | .bool x, b => by cases b <;> simp [compare, rank]
  | .number n, b => by cases b <;> simp [compare, rank]
  | .string s, b => by cases b <;> simp [compare, rank]
  | .list s as, b => by
      cases b <;> simp [compare, rank, Ordering.then_eq_eq, compareAll_eq_iff as]
  | .set s as, b => by
      cases b <;> simp [compare, rank, Ordering.then_eq_eq, compareAll_eq_iff as]
  | .map s as, b => by
      cases b <;> simp [compare, rank, Ordering.then_eq_eq, compareEntries_eq_iff as]
  | .tuple as, b => by cases b <;> simp [compare, rank, compareAll_eq_iff as]
  | .object as, b => by cases b <;> simp [compare, rank, compareEntries_eq_iff as]

theorem compareAll_eq_iff :
    ∀ as bs : List Value, compareAll as bs = .eq ↔ as = bs
  | [], bs => by cases bs <;> simp [compareAll]
  | a :: as, bs => by
      cases bs <;>
        simp [compareAll, Ordering.then_eq_eq, compare_eq_iff a, compareAll_eq_iff as]

theorem compareEntries_eq_iff :
    ∀ as bs : List (String × Value), compareEntries as bs = .eq ↔ as = bs
  | [], bs => by cases bs <;> simp [compareEntries]
  | (n, a) :: as, bs => by
      cases bs <;>
        simp [compareEntries, Ordering.then_eq_eq, compare_eq_iff a,
          compareEntries_eq_iff as, Prod.ext_iff]

end

/-- Turning round the contents turns round the whole. -/
theorem compare_eq_swap_of_contents
    {a b : Value} (h : a.compareContents b = (b.compareContents a).swap) :
    a.compare b = (b.compare a).swap := by
  rw [compare_eq_then a b, compare_eq_then b a, Ordering.swap_then, h]
  congr 1
  exact Std.OrientedOrd.eq_swap

mutual

theorem compare_eq_swap :
    ∀ a b : Value, a.compare b = (b.compare a).swap
  | .null a, b => by
      apply compare_eq_swap_of_contents
      cases b with
      | null b => exact Std.OrientedOrd.eq_swap
      | _ => rfl
  | .unknown a, b => by
      apply compare_eq_swap_of_contents
      cases b with
      | unknown b => exact Std.OrientedOrd.eq_swap
      | _ => rfl
  | .bool a, b => by
      apply compare_eq_swap_of_contents
      cases b with
      | bool b => exact Std.OrientedOrd.eq_swap
      | _ => rfl
  | .number a, b => by
      apply compare_eq_swap_of_contents
      cases b with
      | number b => exact Std.OrientedOrd.eq_swap
      | _ => rfl
  | .string a, b => by
      apply compare_eq_swap_of_contents
      cases b with
      | string b => exact Std.OrientedOrd.eq_swap
      | _ => rfl
  | .noValue, b => compare_eq_swap_of_contents (by cases b <;> rfl)
  | .list s as, b => by
      apply compare_eq_swap_of_contents
      cases b with
      | list t bs =>
          simp only [compareContents, Ordering.swap_then]
          rw [compareAll_eq_swap as bs, Std.OrientedOrd.eq_swap (a := s) (b := t)]
      | _ => rfl
  | .set s as, b => by
      apply compare_eq_swap_of_contents
      cases b with
      | set t bs =>
          simp only [compareContents, Ordering.swap_then]
          rw [compareAll_eq_swap as bs, Std.OrientedOrd.eq_swap (a := s) (b := t)]
      | _ => rfl
  | .map s as, b => by
      apply compare_eq_swap_of_contents
      cases b with
      | map t bs =>
          simp only [compareContents, Ordering.swap_then]
          rw [compareEntries_eq_swap as bs, Std.OrientedOrd.eq_swap (a := s) (b := t)]
      | _ => rfl
  | .tuple as, b => by
      apply compare_eq_swap_of_contents
      cases b with
      | tuple bs => exact compareAll_eq_swap as bs
      | _ => rfl
  | .object as, b => by
      apply compare_eq_swap_of_contents
      cases b with
      | object bs => exact compareEntries_eq_swap as bs
      | _ => rfl

theorem compareAll_eq_swap :
    ∀ as bs : List Value, compareAll as bs = (compareAll bs as).swap
  | [], bs => by cases bs <;> rfl
  | a :: as, bs => by
      cases bs with
      | nil => rfl
      | cons b bs =>
          simp only [compareAll, Ordering.swap_then]
          rw [compare_eq_swap a b, compareAll_eq_swap as bs]

theorem compareEntries_eq_swap :
    ∀ as bs : List (String × Value), compareEntries as bs = (compareEntries bs as).swap
  | [], bs => by cases bs <;> rfl
  | (n, a) :: as, bs => by
      cases bs with
      | nil => rfl
      | cons b bs =>
          obtain ⟨m, b⟩ := b
          simp only [compareEntries, Ordering.swap_then]
          rw [compare_eq_swap a b, compareEntries_eq_swap as bs,
            Std.OrientedOrd.eq_swap (a := n) (b := m)]

end

/-- If less is transitive on contents of one form, it is on the whole. -/
theorem compare_lt_trans_of_contents
    {a b c : Value}
    (hcontents : a.rank = b.rank → b.rank = c.rank →
      a.compareContents b = .lt → b.compareContents c = .lt → a.compareContents c = .lt)
    (hab : a.compare b = .lt) (hbc : b.compare c = .lt) :
    a.compare c = .lt := by
  rw [compare_eq_then] at hab hbc ⊢
  simp only [Ordering.then_eq_lt, Nat.compare_eq_lt, Nat.compare_eq_eq] at hab hbc ⊢
  rcases hab with hab | ⟨hab, hab'⟩
  · left
    omega
  · rcases hbc with hbc | ⟨hbc, hbc'⟩
    · left
      omega
    · exact Or.inr ⟨by omega, hcontents hab hbc hab' hbc'⟩

mutual

theorem compare_lt_trans :
    ∀ a b c : Value, a.compare b = .lt → b.compare c = .lt → a.compare c = .lt
  | .null a, b, c => compare_lt_trans_of_contents fun hab hbc => by
      cases b with
      | null b =>
          cases c with
          | null c => exact @Std.TransCmp.lt_trans _ Ord.compare _ a b c
          | _ => simp [rank] at hbc
      | _ => simp [rank] at hab
  | .unknown a, b, c => compare_lt_trans_of_contents fun hab hbc => by
      cases b with
      | unknown b =>
          cases c with
          | unknown c => exact @Std.TransCmp.lt_trans _ Ord.compare _ a b c
          | _ => simp [rank] at hbc
      | _ => simp [rank] at hab
  | .bool a, b, c => compare_lt_trans_of_contents fun hab hbc => by
      cases b with
      | bool b =>
          cases c with
          | bool c => exact @Std.TransCmp.lt_trans _ Ord.compare _ a b c
          | _ => simp [rank] at hbc
      | _ => simp [rank] at hab
  | .number a, b, c => compare_lt_trans_of_contents fun hab hbc => by
      cases b with
      | number b =>
          cases c with
          | number c => exact @Std.TransCmp.lt_trans _ Ord.compare _ a b c
          | _ => simp [rank] at hbc
      | _ => simp [rank] at hab
  | .string a, b, c => compare_lt_trans_of_contents fun hab hbc => by
      cases b with
      | string b =>
          cases c with
          | string c => exact @Std.TransCmp.lt_trans _ Ord.compare _ a b c
          | _ => simp [rank] at hbc
      | _ => simp [rank] at hab
  | .noValue, b, c => compare_lt_trans_of_contents fun _ _ => by
      cases b <;> simp [compareContents]
  | .list s as, b, c => compare_lt_trans_of_contents fun hab hbc => by
      cases b with
      | list t bs =>
          cases c with
          | list u cs =>
              exact Lexicographic.then_lt_trans_of_eq_iff (f := Ord.compare)
                (fun _ _ => Std.LawfulEqCmp.compare_eq_iff_eq) Std.TransCmp.lt_trans
                (compareAll_lt_trans as bs cs)
          | _ => simp [rank] at hbc
      | _ => simp [rank] at hab
  | .set s as, b, c => compare_lt_trans_of_contents fun hab hbc => by
      cases b with
      | set t bs =>
          cases c with
          | set u cs =>
              exact Lexicographic.then_lt_trans_of_eq_iff (f := Ord.compare)
                (fun _ _ => Std.LawfulEqCmp.compare_eq_iff_eq) Std.TransCmp.lt_trans
                (compareAll_lt_trans as bs cs)
          | _ => simp [rank] at hbc
      | _ => simp [rank] at hab
  | .map s as, b, c => compare_lt_trans_of_contents fun hab hbc => by
      cases b with
      | map t bs =>
          cases c with
          | map u cs =>
              exact Lexicographic.then_lt_trans_of_eq_iff (f := Ord.compare)
                (fun _ _ => Std.LawfulEqCmp.compare_eq_iff_eq) Std.TransCmp.lt_trans
                (compareEntries_lt_trans as bs cs)
          | _ => simp [rank] at hbc
      | _ => simp [rank] at hab
  | .tuple as, b, c => compare_lt_trans_of_contents fun hab hbc => by
      cases b with
      | tuple bs =>
          cases c with
          | tuple cs => exact compareAll_lt_trans as bs cs
          | _ => simp [rank] at hbc
      | _ => simp [rank] at hab
  | .object as, b, c => compare_lt_trans_of_contents fun hab hbc => by
      cases b with
      | object bs =>
          cases c with
          | object cs => exact compareEntries_lt_trans as bs cs
          | _ => simp [rank] at hbc
      | _ => simp [rank] at hab

theorem compareAll_lt_trans :
    ∀ as bs cs : List Value,
      compareAll as bs = .lt → compareAll bs cs = .lt → compareAll as cs = .lt
  | [], bs, cs => by cases bs <;> cases cs <;> simp [compareAll]
  | a :: as, bs, cs => by
      cases bs with
      | nil => simp [compareAll]
      | cons b bs =>
          cases cs with
          | nil => simp [compareAll]
          | cons c cs =>
              exact Lexicographic.then_lt_trans_of_eq_iff compare_eq_iff
                (compare_lt_trans a b c) (compareAll_lt_trans as bs cs)

theorem compareEntries_lt_trans :
    ∀ as bs cs : List (String × Value),
      compareEntries as bs = .lt → compareEntries bs cs = .lt → compareEntries as cs = .lt
  | [], bs, cs => by cases bs <;> cases cs <;> simp [compareEntries]
  | (n, a) :: as, bs, cs => by
      cases bs with
      | nil => simp [compareEntries]
      | cons b bs =>
          cases cs with
          | nil => simp [compareEntries]
          | cons c cs =>
              obtain ⟨m, b⟩ := b
              obtain ⟨k, c⟩ := c
              exact Lexicographic.then_lt_trans_of_eq_iff
                (f := fun x y : String × Value => (Ord.compare x.1 y.1).then (x.2.compare y.2))
                (a := (n, a)) (b := (m, b)) (c := (k, c))
                (fun x y => by
                  simp [Ordering.then_eq_eq, compare_eq_iff x.2, Prod.ext_iff])
                (Lexicographic.then_lt_trans_of_eq_iff (f := Ord.compare)
                  (fun _ _ => Std.LawfulEqCmp.compare_eq_iff_eq) Std.TransCmp.lt_trans
                  (compare_lt_trans a b c))
                (compareEntries_lt_trans as bs cs)

end

instance : Std.TransOrd Value :=
  Lexicographic.transCmp compare_eq_swap compare_eq_iff compare_lt_trans

instance : Std.LawfulEqOrd Value :=
  Lexicographic.lawfulEqCmp compare_eq_iff

instance : DecidableEq Value := fun a b =>
  decidable_of_iff (a.compare b = .eq) (compare_eq_iff a b)

end Value
end TypedConfig
