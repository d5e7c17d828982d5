import TypedConfig.Decimal.Binary64
import TypedConfig.Decimal.Literal

/-!
# Unsigned integers in JSON texts

Where an unsigned 64-bit integer is expected, a plain run of digits below the
bound is one.  Every other literal is told apart by its size only: it may or may
not be beyond the range of doubles.

The size is that of an approximation, the leading digits times a power of ten.
Digits are taken as long as they make a 64-bit integer, and again behind the
point.  The digits, the power of ten and their product are each rounded to a
double.  Hence a literal close to the bound may be taken for one on the other
side of it.
-/

namespace TypedConfig
namespace Json

/-- The unsigned 64-bit integer that a literal writes without point, sign and
exponent. -/
def unsigned? (literal : String) : Option Nat :=
  let digits := literal.toList
  if digits.all Char.isDigit && Decimal.digitsValue digits < Decimal.twoPow 64 then
    some (Decimal.digitsValue digits)
  else
    none

/-- Appends digits to a number as long as it stays below the bound, and returns
the digits that are left as well. -/
def appendDigits (n : Nat) : List Char → Nat × List Char
  | [] => (n, [])
  | c :: cs =>
      let next := 10 * n + (c.toNat - '0'.toNat)
      if next < Decimal.twoPow 64 then appendDigits next cs else (n, c :: cs)

/-- A 64-bit integer times a power of ten. -/
structure Approximation where
  significand : Nat
  exponent : Int

/-- The approximation of a number from its digits before and behind the point
and its exponent. -/
def Approximation.ofDigits (whole fraction : List Char) (exponent : Int) : Approximation :=
  let (leading, skipped) := appendDigits 0 whole
  let (significand, left) := appendDigits leading fraction
  ⟨significand, exponent + skipped.length - (fraction.length - left.length : Nat)⟩

/-- The approximation of the magnitude of a literal. -/
def Approximation.ofLiteral (literal : String) : Approximation :=
  let (significand, exponent) := Text.splitFirst Decimal.isExponentMark literal.toList
  let (whole, fraction) := Text.splitFirst (· == '.') (Decimal.splitSign significand).2
  let (negative, digits) := Decimal.splitSign (exponent.getD [])
  ofDigits whole (fraction.getD []) (Decimal.signed negative (Decimal.digitsValue digits))

/-- The exponent of the greatest power of ten in the range of doubles. -/
def maxPower : Nat := 308

/-- Whether an approximation is beyond the range of doubles. -/
def Approximation.isBeyondDoubles (a : Approximation) : Bool :=
  if a.significand = 0 ∨ a.exponent < 0 then
    false
  else if maxPower < a.exponent then
    true
  else
    Decimal.twoPow 1024 ≤ Decimal.roundInteger
      (Decimal.roundInteger a.significand * Decimal.roundInteger (Decimal.tenPow a.exponent.toNat))

/-- Whether a literal is taken to be beyond the range of doubles. -/
def isBeyondDoubles (literal : String) : Bool :=
  (Approximation.ofLiteral literal).isBeyondDoubles

end Json
end TypedConfig
