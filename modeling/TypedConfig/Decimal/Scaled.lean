import TypedConfig.Decimal.Canonical
import TypedConfig.Decimal.Literal
import TypedConfig.Decimal.Order

/-!
# Decimals in machine integers

A decimal is held as a mantissa of any size and a scale of 64 bits.  Here it is
read, made of integers, compared and written step by step in that form.  A step
whose result is no integer of 64 bits has none, and neither has what needs it.

Powers of ten are raised to exponents of 32 bits, by squaring.  Mantissas whose
zeros are too many to be counted in 32 bits are left as they are, so a scaled
number need not be in lowest terms.
-/

namespace TypedConfig

/-- A mantissa and a scale; they stand for mantissa * 10 ^ (-scale). -/
structure Scaled where
  mantissa : Int
  scale : Int
  deriving DecidableEq

/-- The mantissa and the scale of a decimal. -/
def Decimal.scaled (d : Decimal) : Scaled :=
  ⟨d.mantissa, d.scale⟩

namespace Scaled

open Decimal

/-- An integer as one of 64 bits with a sign. -/
def int64? (i : Int) : Checked Int :=
  if -twoPow 63 ≤ i ∧ i < twoPow 63 then some i else none

/-- An integer as an exponent of 32 bits, if it is one. -/
def exponent32? (i : Int) : Option Nat :=
  if 0 ≤ i ∧ i < twoPow 32 then some i.toNat else none

/-- Multiplies a number by a power of a base whose exponent has the given number
of bits: the base is squared from bit to bit, and taken where the bit is set. -/
def mulPow : Nat → Nat → Nat → Nat → Nat
  | 0, n, _, _ => n
  | bits + 1, n, base, exponent =>
      if exponent = 0 then
        n
      else
        mulPow bits (if exponent % 2 = 1 then n * base else n)
          (if 1 < exponent then base * base else base) (exponent / 2)

/-- The power of ten with an exponent of 32 bits. -/
def tenPow32 (exponent : Nat) : Nat :=
  mulPow 32 1 10 exponent

/-- Digits without the zeros at their end. -/
def trimZeros (digits : List Char) : List Char :=
  (digits.reverse.dropWhile (· == '0')).reverse

/-- The number of zeros at the end of digits. -/
def zerosAtEnd (digits : List Char) : Nat :=
  digits.length - (trimZeros digits).length

/-- The number of zeros at the end of the digits of a mantissa. -/
def mantissaZeros (m : Int) : Nat :=
  zerosAtEnd (Nat.toDigits 10 m.natAbs)

/-- The number m * 10 ^ (-s), the zeros at the end of its mantissa moved to the
scale.  An odd mantissa has none. -/
def ofParts? (m s : Int) : Checked Scaled :=
  if m = 0 then
    some ⟨0, 0⟩
  else if m % 2 = 1 then
    some ⟨m, s⟩
  else
    let zeros := mantissaZeros m
    if 0 < zeros ∧ zeros < twoPow 32 then
      (int64? (s - zeros)).map fun scale => ⟨m.tdiv (tenPow32 zeros), scale⟩
    else
      some ⟨m, s⟩

/-- An integer as a scaled number. -/
def ofInt? (i : Int) : Checked Scaled :=
  ofParts? i 0

/-- The number that a significand times a power of ten stands for.  The zeros at
the end of its digits are left out before the digits are read. -/
def ofSignificand? (s : Significand) (exponent : Int) : Checked Scaled :=
  let digits := s.whole ++ s.fraction
  if (trimZeros digits).isEmpty then
    some ⟨0, 0⟩
  else do
    let places ← int64? (s.fraction.length - zerosAtEnd digits)
    let scale ← int64? (places - exponent)
    ofParts? (signed s.negative (digitsValue (trimZeros digits))) scale

/-- Reads a number literal.  The magnitude of its exponent is taken before it is
compared with the limit. -/
def parse? (text : String) : Checked (Except LiteralError Scaled) :=
  let (significand, exponent) := Text.splitFirst isExponentMark (Text.trim text.toList)
  let withExponent (e : Int) : Checked (Except LiteralError Scaled) :=
    match Significand.read? significand with
    | some s => (ofSignificand? s e).map .ok
    | none => some (.error (.invalid text))
  match exponent with
  | none => withExponent 0
  | some digits =>
      match exponentValue? digits with
      | none => some (.error (.invalid text))
      | some e => do
          let magnitude ← int64? e.natAbs
          if maxExponent < magnitude then
            return .error (.invalid text)
          else
            withExponent e

/-- The canonical text. -/
def canonical? (n : Scaled) : Checked String := do
  let digits := Nat.toDigits 10 n.mantissa.natAbs
  let magnitude ←
    if n.scale ≤ 0 then do
      let zeros ← int64? (-n.scale)
      pure (integerText digits zeros.toNat)
    else
      pure (fractionText digits n.scale.toNat)
  return String.ofList (if n.mantissa < 0 then '-' :: magnitude else magnitude)

/-- The integer that the number is, if it has no fractional part and its zeros
are counted in 32 bits. -/
def toInt? (n : Scaled) : Checked (Option Int) :=
  if 0 < n.scale then
    some none
  else do
    let zeros ← int64? (-n.scale)
    return (exponent32? zeros).map fun k => n.mantissa * tenPow32 k

/-- The integer that the number is, if it lies between two bounds of at most 64
bits. -/
def toIntWithin? (lower upper : Int) (n : Scaled) : Checked (Option Int) := do
  let zeros ← int64? (-n.scale)
  if maxMachineZeros < zeros then
    return none
  else
    let i ← n.toInt?
    return i.filter fun i => decide (lower ≤ i) && decide (i ≤ upper)

/-- The signed 64-bit integer that the number is, if it is one. -/
def toInt64? (n : Scaled) : Checked (Option Int) :=
  n.toIntWithin? (-twoPow 63) (twoPow 63 - 1)

/-- The unsigned 64-bit integer that the number is, if it is one. -/
def toUInt64? (n : Scaled) : Checked (Option Int) :=
  n.toIntWithin? 0 (twoPow 64 - 1)

/-- A mantissa brought to a scale that is larger by the given number; it stays as
it is if that is no number of 32 bits. -/
def rescale (mantissa places : Int) : Int :=
  match exponent32? places with
  | none => mantissa
  | some k => if k = 0 then mantissa else mantissa * tenPow32 k

/-- The order of two numbers: that of their signs if these differ, and otherwise
that of their mantissas at the larger of their scales. -/
def compare? (a b : Scaled) : Checked Ordering :=
  if a.mantissa.sign ≠ b.mantissa.sign then
    some (Ord.compare a.mantissa.sign b.mantissa.sign)
  else do
    let scale := max a.scale b.scale
    let left ← int64? (scale - a.scale)
    let right ← int64? (scale - b.scale)
    return Ord.compare (rescale a.mantissa left) (rescale b.mantissa right)

end Scaled
end TypedConfig
