import TypedConfig.Decimal.Basic

/-!
# The canonical text of a decimal

Integers are written plainly with at most twenty-one trailing zeros, and with
an exponent beyond that.  Fractions are written with a point, after a zero if
all their digits stand behind it, and with a negative exponent if more than
twenty-one zeros would stand between the point and the digits.
-/

namespace TypedConfig
namespace Decimal

/-- The most zeros that are written out behind or before the digits. -/
def maxPlainZeros : Nat := 21

/-- The decimal digits of the magnitude of the mantissa. -/
def digits (d : Decimal) : List Char :=
  Nat.toDigits 10 d.mantissa.natAbs

/-- Digits followed by zeros, or by an exponent if the zeros are too many. -/
def integerText (digits : List Char) (zeros : Nat) : List Char :=
  if zeros ≤ maxPlainZeros then
    digits ++ List.replicate zeros '0'
  else
    digits ++ 'e' :: Nat.toDigits 10 zeros

/-- Digits of which the given number, not zero, stand behind the point. -/
def fractionText (digits : List Char) (places : Nat) : List Char :=
  if places < digits.length then
    digits.take (digits.length - places) ++ '.' :: digits.drop (digits.length - places)
  else if places ≤ maxPlainZeros + digits.length then
    '0' :: '.' :: (List.replicate (places - digits.length) '0' ++ digits)
  else
    digits ++ 'e' :: '-' :: Nat.toDigits 10 places

/-- The characters of the canonical text. -/
def canonicalChars (d : Decimal) : List Char :=
  let magnitude :=
    if d.scale ≤ 0 then
      integerText d.digits (-d.scale).toNat
    else
      fractionText d.digits d.scale.toNat
  if d.isNegative then '-' :: magnitude else magnitude

/-- The canonical text of a decimal. -/
def canonical (d : Decimal) : String :=
  String.ofList d.canonicalChars

@[simp] theorem toList_canonical
    (d : Decimal) :
    d.canonical.toList = d.canonicalChars := by
  simp [canonical]

theorem digits_ne_nil
    (d : Decimal) :
    d.digits ≠ [] :=
  Nat.toDigits_ne_nil

theorem isDigit_of_mem_digits
    {d : Decimal} {c : Char} (h : c ∈ d.digits) :
    c.isDigit = true :=
  Nat.isDigit_of_mem_toDigits (by decide) (by decide) h

end Decimal
end TypedConfig
