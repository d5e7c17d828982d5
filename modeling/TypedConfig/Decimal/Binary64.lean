import TypedConfig.Decimal.Basic

/-!
# The nearest double of a decimal

A decimal is rounded to the nearest number of the binary64 format, a tie going
to the even neighbour, by exact integer arithmetic.  Numbers that are too large
become infinity; the sign is kept, also where the magnitude rounds to zero.
The result is the word of 64 bits that encodes the double.
-/

namespace TypedConfig
namespace Decimal

/-- A quotient rounded to the nearest integer, a tie to the even one. -/
def roundHalfEven (num den : Nat) : Nat :=
  let quotient := num / den
  let twice := 2 * (num % den)
  if twice < den then
    quotient
  else if den < twice then
    quotient + 1
  else
    quotient + quotient % 2

/-- An integer rounded to the nearest one with at most 53 binary digits and
zeros behind them. -/
def roundInteger (n : Nat) : Nat :=
  let place := twoPow (n.log2 - 52)
  roundHalfEven n place * place

/-- The exponent of the largest power of two that a positive quotient reaches. -/
def binaryExponent (num den : Nat) : Int :=
  let guess : Int := (num.log2 : Int) - den.log2
  if den * twoPow guess.toNat ≤ num * twoPow (-guess).toNat then guess else guess - 1

/-- The exponent of the last place of the smallest doubles. -/
def leastPlace : Int := -1074

/-- The word of positive infinity. -/
def infinityBits : Nat := 2047 * twoPow 52

/-- The word of the nearest double of a quotient.  The last place has the
exponent q; a significand of 53 bits adds its leading bit to the exponent
field, which also carries a significand that rounds up to the next power. -/
def magnitudeBits (num den : Nat) : Nat :=
  if num = 0 then
    0
  else
    let q := max (binaryExponent num den - 52) leastPlace
    let significand := roundHalfEven (num * twoPow (-q).toNat) (den * twoPow q.toNat)
    min ((q - leastPlace).toNat * twoPow 52 + significand) infinityBits

/-- The word of the nearest double of a decimal. -/
def toBinary64 (d : Decimal) : Nat :=
  let bits := magnitudeBits (d.mantissa.natAbs * tenPow (-d.scale).toNat) (tenPow d.scale.toNat)
  if d.isNegative then twoPow 63 + bits else bits

/-- Whether a word encodes neither an infinity nor something that is not a
number. -/
def isFiniteBits (bits : Nat) : Bool :=
  bits / twoPow 52 % 2048 != 2047

end Decimal
end TypedConfig
