/-!
# Exact decimal numbers

A decimal is an integer mantissa and a scale; it stands for
mantissa * 10 ^ (-scale).  It is kept in lowest terms: zero has scale zero, and
no other mantissa is divisible by ten.  Hence two decimals are the same number
exactly when they are the same pair.

The module holds the type, its construction from any mantissa and scale, and
the accessors for numbers that are integers.
-/

namespace TypedConfig

/-- A decimal number in lowest terms. -/
structure Decimal where
  mantissa : Int
  scale : Int
  /-- Only zero has a mantissa that ten divides, and its scale is zero. -/
  lowest : mantissa % 10 = 0 → mantissa = 0 ∧ scale = 0
  deriving DecidableEq

namespace Decimal

/-- The number of trailing zeros of the decimal digits of a number, looked for
in a bounded number of steps. -/
def trailingZerosWithin : Nat → Nat → Nat
  | 0, _ => 0
  | steps + 1, n => if n % 10 = 0 then trailingZerosWithin steps (n / 10) + 1 else 0

/-- The number of trailing zeros of the decimal digits of a number, none for
zero.  A number has fewer trailing zeros than its own size. -/
def trailingZeros (n : Nat) : Nat :=
  trailingZerosWithin n n

/-- A power of ten. -/
def tenPow (exponent : Nat) : Nat :=
  Nat.pow 10 exponent

/-- A power of two. -/
def twoPow (exponent : Nat) : Nat :=
  Nat.pow 2 exponent

@[simp] theorem tenPow_zero :
    tenPow 0 = 1 :=
  rfl

theorem tenPow_succ
    (exponent : Nat) :
    tenPow (exponent + 1) = tenPow exponent * 10 :=
  rfl

theorem tenPow_pos
    (exponent : Nat) :
    0 < tenPow exponent :=
  Nat.pow_pos (by omega)

theorem tenPow_trailingZerosWithin_dvd
    (steps n : Nat) :
    tenPow (trailingZerosWithin steps n) ∣ n := by
  induction steps generalizing n with
  | zero => simp [trailingZerosWithin]
  | succ steps ih =>
      simp only [trailingZerosWithin]
      split
      · rename_i h
        obtain ⟨k, hk⟩ := ih (n / 10)
        refine ⟨k, ?_⟩
        have h10 : n = 10 * (n / 10) := by omega
        rw [tenPow_succ, Nat.mul_comm _ 10, Nat.mul_assoc, ← hk]
        exact h10
      · simp

theorem div_trailingZerosWithin_mod
    (steps n : Nat) (hpos : 0 < n) (hsteps : n ≤ steps) :
    n / tenPow (trailingZerosWithin steps n) % 10 ≠ 0 := by
  induction steps generalizing n with
  | zero => omega
  | succ steps ih =>
      simp only [trailingZerosWithin]
      split
      · rename_i h
        have hlt : n / 10 < n := Nat.div_lt_self hpos (by omega)
        have := ih (n / 10) (by omega) (by omega)
        rwa [Nat.div_div_eq_div_mul, Nat.mul_comm, ← tenPow_succ] at this
      · simpa using ‹¬ n % 10 = 0›

theorem tenPow_trailingZeros_dvd
    (n : Nat) :
    tenPow (trailingZeros n) ∣ n :=
  tenPow_trailingZerosWithin_dvd n n

theorem div_trailingZeros_mod
    {n : Nat} (h : 0 < n) :
    n / tenPow (trailingZeros n) % 10 ≠ 0 :=
  div_trailingZerosWithin_mod n n h (Nat.le_refl n)

/-- The number zero. -/
def zero : Decimal :=
  ⟨0, 0, fun _ => ⟨rfl, rfl⟩⟩

/-- The number m * 10 ^ (-s), its trailing zeros moved from the mantissa to the
scale. -/
def ofScaled (m s : Int) : Decimal :=
  if h : m = 0 then
    zero
  else
    let zeros := trailingZeros m.natAbs
    ⟨m.sign * (m.natAbs / tenPow zeros : Nat), s - zeros, by
      intro hmod
      have hdigit := div_trailingZeros_mod (Int.natAbs_pos.2 h)
      exfalso
      apply hdigit
      have hdvd : (10 : Int) ∣ m.sign * (m.natAbs / tenPow zeros : Nat) :=
        Int.dvd_of_emod_eq_zero hmod
      rcases Int.lt_or_gt_of_ne h with hneg | hpos
      · rw [Int.sign_eq_neg_one_of_neg hneg] at hdvd
        have : (10 : Int) ∣ ((m.natAbs / tenPow zeros : Nat) : Int) := by
          simpa using hdvd
        have hnat : 10 ∣ m.natAbs / tenPow zeros := by exact_mod_cast this
        exact Nat.mod_eq_zero_of_dvd hnat
      · rw [Int.sign_eq_one_of_pos hpos] at hdvd
        have : (10 : Int) ∣ ((m.natAbs / tenPow zeros : Nat) : Int) := by
          simpa using hdvd
        have hnat : 10 ∣ m.natAbs / tenPow zeros := by exact_mod_cast this
        exact Nat.mod_eq_zero_of_dvd hnat⟩

/-- An integer as a decimal. -/
def ofInt (i : Int) : Decimal :=
  ofScaled i 0

/-- Whether the number has no fractional part. -/
def isInteger (d : Decimal) : Bool :=
  decide (d.scale ≤ 0)

/-- Whether the number is less than zero. -/
def isNegative (d : Decimal) : Bool :=
  decide (d.mantissa < 0)

/-- The integer that the number is, if it has no fractional part. -/
def toInt? (d : Decimal) : Option Int :=
  if d.scale ≤ 0 then some (d.mantissa * tenPow (-d.scale).toNat) else none

/-- Every integer of 64 bits other than zero has fewer trailing zeros than
this. -/
def maxMachineZeros : Int := 20

/-- The integer that the number is, if it lies between two bounds of at most
64 bits.  Numbers with too many trailing zeros are refused unexpanded. -/
def toIntWithin? (lower upper : Int) (d : Decimal) : Option Int :=
  if maxMachineZeros < -d.scale then
    none
  else
    d.toInt?.filter fun i => decide (lower ≤ i) && decide (i ≤ upper)

/-- The signed 64-bit integer that the number is, if it is one. -/
def toInt64? (d : Decimal) : Option Int :=
  toIntWithin? (-twoPow 63) (twoPow 63 - 1) d

/-- The unsigned 64-bit integer that the number is, if it is one. -/
def toUInt64? (d : Decimal) : Option Int :=
  toIntWithin? 0 (twoPow 64 - 1) d

@[simp] theorem ofScaled_zero
    (s : Int) :
    ofScaled 0 s = zero := by
  simp [ofScaled]

/-- Moving the zeros of the mantissa to the scale does not change the number. -/
theorem mantissa_ofScaled
    (m s : Int) :
    (ofScaled m s).mantissa * tenPow (trailingZeros m.natAbs) = m := by
  by_cases h : m = 0
  · subst h
    simp [ofScaled, zero]
  · have hdiv := Nat.div_mul_cancel (tenPow_trailingZeros_dvd m.natAbs)
    have hcast : ((m.natAbs / tenPow (trailingZeros m.natAbs) : Nat) : Int) *
        tenPow (trailingZeros m.natAbs) = (m.natAbs : Int) := by
      exact_mod_cast hdiv
    simp only [ofScaled, h, dite_false]
    rw [Int.mul_assoc, hcast]
    exact Int.sign_mul_natAbs m

theorem scale_ofScaled
    {m : Int} (h : m ≠ 0) (s : Int) :
    (ofScaled m s).scale = s - trailingZeros m.natAbs := by
  simp [ofScaled, h]

/-- Two decimals with the same mantissa and scale are equal. -/
theorem ext_iff
    {a b : Decimal} :
    a = b ↔ a.mantissa = b.mantissa ∧ a.scale = b.scale := by
  constructor
  · rintro rfl
    exact ⟨rfl, rfl⟩
  · obtain ⟨m, s, h⟩ := a
    obtain ⟨m', s', h'⟩ := b
    rintro ⟨hm, hs⟩
    dsimp only at hm hs
    subst hm hs
    rfl

/-- A decimal is what its mantissa and scale make. -/
theorem ofScaled_self
    (d : Decimal) :
    ofScaled d.mantissa d.scale = d := by
  by_cases h : d.mantissa = 0
  · have hscale := (d.lowest (by rw [h]; rfl)).2
    rw [ext_iff]
    simp [h, hscale, ofScaled, zero]
  · have hmod : d.mantissa % 10 ≠ 0 := fun hm => h (d.lowest hm).1
    have hnat : d.mantissa.natAbs % 10 ≠ 0 := by omega
    have hzeros : trailingZeros d.mantissa.natAbs = 0 := by
      unfold trailingZeros
      cases hn : d.mantissa.natAbs with
      | zero => rfl
      | succ k =>
          rw [hn] at hnat
          simp [trailingZerosWithin, hnat]
    rw [ext_iff]
    refine ⟨?_, ?_⟩
    · have := mantissa_ofScaled d.mantissa d.scale
      simpa [hzeros] using this
    · simp [scale_ofScaled h, hzeros]

end Decimal
end TypedConfig
