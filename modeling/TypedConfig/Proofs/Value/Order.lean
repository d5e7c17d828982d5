import Mathlib.Data.List.Dedup
import TypedConfig.Proofs.Decimal.Comparison
import TypedConfig.Proofs.Value.Form
import TypedConfig.Value.ScaledOrder

/-!
# The order of values and its sets

The orders of types and of values are total, and find only equals equal: nulls,
unknown values and empty collections differ where their types do.  The machine
finds the same order of values, as long as the scales of the numbers in them are no
further apart than powers of ten are raised to.

So sets are canonical: sequences with the same elements make the same set, however
often and in whatever order they have them, and a set has as many elements as there
are distinct ones.
-/

namespace TypedConfig

/-- Whether comparison is a total order that finds only equals equal. -/
structure IsTotalOrder (α : Type) [Ord α] : Prop where
  refl : ∀ a : α, compare a a = .eq
  antisymm : ∀ a b : α, (compare a b).isLE = true → (compare b a).isLE = true → a = b
  trans : ∀ a b c : α,
    (compare a b).isLE = true → (compare b c).isLE = true → (compare a c).isLE = true
  total : ∀ a b : α, (compare a b).isLE = true ∨ (compare b a).isLE = true
  eq_iff : ∀ a b : α, compare a b = .eq ↔ a = b

theorem isTotalOrder_of_lawful
    (α : Type) [Ord α] [Std.TransOrd α] [Std.LawfulEqOrd α] :
    IsTotalOrder α where
  refl _ := Std.ReflOrd.compare_self
  antisymm _ _ hab hba := Std.LawfulEqOrd.eq_of_compare (Std.OrientedCmp.isLE_antisymm hab hba)
  trans _ _ _ := Std.TransOrd.isLE_trans
  total a b := by
    have hswap : compare b a = (compare a b).swap := Std.OrientedOrd.eq_swap
    rw [hswap]
    cases compare a b <;> simp
  eq_iff _ _ := Std.LawfulEqCmp.compare_eq_iff_eq

namespace Value

section Machine

/-- Whether all numbers in a value are allowed. -/
def NumbersIn (allowed : Decimal → Prop) (v : Value) : Prop :=
  v.Throughout fun part => ∀ n, part = .number n → allowed n

theorem NumbersIn.components
    {allowed : Decimal → Prop} {v : Value} (h : v.NumbersIn allowed) :
    ∀ c ∈ v.components, c.NumbersIn allowed :=
  (throughout_iff.1 h).2

theorem numbersIn_number_iff
    {allowed : Decimal → Prop} {n : Decimal} :
    (Value.number n).NumbersIn allowed ↔ allowed n := by
  rw [NumbersIn, throughout_iff]
  constructor
  · exact fun h => h.1 n rfl
  · intro h
    refine ⟨?_, List.forall_mem_nil _⟩
    rintro m ⟨⟩
    exact h

theorem compareAll?_eq
    {as bs : List Value} (h : ∀ a ∈ as, ∀ b ∈ bs, a.compare? b = some (a.compare b)) :
    compareAll? as bs = some (compareAll as bs) := by
  induction as generalizing bs with
  | nil => cases bs <;> rfl
  | cons a as ih =>
      cases bs with
      | nil => rfl
      | cons b bs =>
          have hrest := ih fun a ha b hb =>
            h a (List.mem_cons_of_mem _ ha) b (List.mem_cons_of_mem _ hb)
          rw [compareAll?, compareAll, h a List.mem_cons_self b List.mem_cons_self, hrest,
            decideInTurn_some]

theorem compareEntries?_eq
    {as bs : Fields Value}
    (h : ∀ a ∈ as.map Prod.snd, ∀ b ∈ bs.map Prod.snd, a.compare? b = some (a.compare b)) :
    compareEntries? as bs = some (compareEntries as bs) := by
  induction as generalizing bs with
  | nil => cases bs <;> rfl
  | cons a as ih =>
      cases bs with
      | nil => rfl
      | cons b bs =>
          have hrest := ih fun a ha b hb =>
            h a (List.mem_cons_of_mem _ ha) b (List.mem_cons_of_mem _ hb)
          rw [compareEntries?, compareEntries, h a.2 List.mem_cons_self b.2 List.mem_cons_self,
            hrest, decideInTurn_some, decideInTurn_some]

variable {allowed : Decimal → Prop}

/-- Values whose numbers are close are found in their order by the machine. -/
theorem compare?_eq
    (hclose : ∀ m n, allowed m → allowed n → m.scaled.Close n.scaled)
    {a b : Value} (ha : a.NumbersIn allowed) (hb : b.NumbersIn allowed) :
    a.compare? b = some (a.compare b) := by
  induction a using Value.induction generalizing b with
  | step a ih =>
      have hparts : ∀ c ∈ a.components, ∀ d ∈ b.components,
          c.compare? d = some (c.compare d) :=
        fun c hc d hd => ih c hc (ha.components c hc) (hb.components d hd)
      cases a with
      | null s | unknown s | bool x | string s | noValue => cases b <;> rfl
      | number m =>
          cases b with
          | number n =>
              have hmn := hclose m n (numbersIn_number_iff.1 ha) (numbersIn_number_iff.1 hb)
              rw [compare?, compare, Scaled.compare?_eq hmn, Decimal.compare_eq_compare_toRat]
              rfl
          | _ => rfl
      | list s as =>
          cases b with
          | list t bs =>
              have helements : compareAll? as bs = some (compareAll as bs) :=
                compareAll?_eq hparts
              rw [compare?, compare, helements, decideInTurn_some]
          | _ => rfl
      | set s as =>
          cases b with
          | set t bs =>
              have helements : compareAll? as bs = some (compareAll as bs) :=
                compareAll?_eq hparts
              rw [compare?, compare, helements, decideInTurn_some]
          | _ => rfl
      | map s as =>
          cases b with
          | map t bs => rw [compare?, compare, compareEntries?_eq hparts, decideInTurn_some]
          | _ => rfl
      | tuple as =>
          cases b with
          | tuple bs =>
              rw [compare?, compare]
              exact compareAll?_eq hparts
          | _ => rfl
      | object as =>
          cases b with
          | object bs => rw [compare?, compare, compareEntries?_eq hparts]
          | _ => rfl

end Machine

section Sets

theorem Ascending.nodup
    {elements : List Value} (h : Ascending elements) :
    elements.Nodup := by
  refine List.Pairwise.imp ?_ h
  rintro v _ hlt rfl
  rw [(compare_eq_iff v v).2 rfl] at hlt
  cases hlt

/-- Ascending elements are known by which they are. -/
theorem Ascending.ext
    {as bs : List Value} (ha : Ascending as) (hb : Ascending bs) (h : ∀ v, v ∈ as ↔ v ∈ bs) :
    as = bs := by
  refine ((List.perm_ext_iff_of_nodup ha.nodup hb.nodup).2 h).eq_of_pairwise ?_ ha hb
  intro v w _ _ hvw hwv
  have htrans := compare_lt_trans v w v hvw hwv
  rw [(compare_eq_iff v v).2 rfl] at htrans
  cases htrans

theorem setOf_eq_iff
    {e : Ty} {as bs : List Value} :
    setOf e as = setOf e bs ↔ ∀ v, v ∈ as ↔ v ∈ bs := by
  rw [setOf, setOf, Value.set.injEq, and_iff_right rfl]
  constructor
  · intro h v
    rw [← mem_setElements v as, h, mem_setElements]
  · intro h
    refine (ascending_setElements as).ext (ascending_setElements bs) ?_
    intro v
    rw [mem_setElements, mem_setElements, h v]

theorem length_setElements
    (elements : List Value) :
    (setElements elements).length = elements.dedup.length := by
  refine (List.Perm.length_eq ?_)
  refine (List.perm_ext_iff_of_nodup (ascending_setElements elements).nodup
    (List.nodup_dedup elements)).2 ?_
  intro v
  rw [mem_setElements, List.mem_dedup]

/-- The orders of types and of values are total and find only equals equal, and the
machine finds that order of values whose numbers have close scales.  Two sequences
make the same set exactly if they have the same elements, and a set has as many
elements as the sequence has distinct ones. -/
theorem ordering_isTotal_setsCanonical
    (allowed : Decimal → Prop)
    (hclose : ∀ m n, allowed m → allowed n → m.scaled.Close n.scaled) :
    IsTotalOrder Ty ∧ IsTotalOrder Value ∧
      (∀ a b : Value, a.NumbersIn allowed → b.NumbersIn allowed →
        a.compare? b = some (Ord.compare a b)) ∧
      ∀ (e : Ty) (as bs : List Value),
        (setOf e as = setOf e bs ↔ ∀ v, v ∈ as ↔ v ∈ bs) ∧
          (setOf e as).size? = some as.dedup.length := by
  refine ⟨isTotalOrder_of_lawful Ty, isTotalOrder_of_lawful Value,
    fun a b ha hb => compare?_eq hclose ha hb, ?_⟩
  intro e as bs
  refine ⟨setOf_eq_iff, ?_⟩
  rw [setOf, size?, length_setElements]

theorem ordering_isTotal_setsCanonical_nulls :
    (Value.ofInt 1000).compare? (.ofInt 7) = some .gt ∧
      setOf .dynamic [.null .bool, .ofInt 7, .null .string, .ofInt 7] =
        setOf .dynamic [.ofInt 7, .null .string, .null .bool, .null .bool] ∧
      (setOf .dynamic [.null .bool, .ofInt 7, .null .string, .ofInt 7]).size? = some 3 := by
  have hwidths : Decimal.twoPow 32 = Decimal.twoPow 31 + Decimal.twoPow 31 := by decide
  -- Scales of 31 bits are no further apart than 32 bits can say.
  obtain ⟨-, -, hmachine, hsets⟩ := ordering_isTotal_setsCanonical
    (fun n => n.scale.natAbs < Decimal.twoPow 31) (by
      intro m n hm hn
      change (m.scale - n.scale).natAbs < Decimal.twoPow 32
      omega)
  have hthousand : (Decimal.ofInt 1000).scale.natAbs < Decimal.twoPow 31 := by decide +kernel
  have hseven : (Decimal.ofInt 7).scale.natAbs < Decimal.twoPow 31 := by decide +kernel
  obtain ⟨hequal, hsize⟩ := hsets .dynamic [.null .bool, .ofInt 7, .null .string, .ofInt 7]
    [.ofInt 7, .null .string, .null .bool, .null .bool]
  refine ⟨?_, hequal.2 ?_, ?_⟩
  · rw [hmachine (.ofInt 1000) (.ofInt 7) (numbersIn_number_iff.2 hthousand)
      (numbersIn_number_iff.2 hseven)]
    decide +kernel
  · intro v
    simp only [List.mem_cons, List.not_mem_nil]
    tauto
  · rw [hsize]
    decide +kernel

end Sets

end Value
end TypedConfig
