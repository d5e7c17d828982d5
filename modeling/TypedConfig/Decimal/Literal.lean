import TypedConfig.Decimal.Basic
import TypedConfig.Text.Blank
import TypedConfig.Text.Split

/-!
# Number literals

A number literal is, between blanks, an optional sign, ASCII digits with at
most one point among them, and an optional exponent of ten with a sign of its
own.  At least one digit stands beside the point.  The exponent is read as a
signed 64-bit integer and may not exceed ten thousand in magnitude; larger
ones are refused rather than expanded.  The least of these integers has no
magnitude among them: where it is the exponent, reading leaves their range, and
nothing is returned.

The module reads a literal in three steps: the exponent is split off at the
first e, the sign is taken off, and the digits are split at the first point.
-/

namespace TypedConfig

/-- What a computation in integers of 64 bits gives, if no step leaves their
range. -/
abbrev Checked : Type → Type := Option

/-- What is said where a step leaves the range. -/
def outOfRange : String := "attempt to negate with overflow"

namespace Decimal

/-- Why a text is not read as a number.  Both causes quote the whole text. -/
inductive LiteralError where
  /-- The text is not a literal, or its exponent is beyond the limit. -/
  | invalid (text : String)
  /-- Nothing is returned, since the exponent is the least 64-bit integer. -/
  | overflow (text : String)
  deriving DecidableEq

/-- The wording of a refused literal. -/
def LiteralError.message : LiteralError → String
  | .invalid text => "invalid number literal `" ++ text ++ "`"
  | .overflow _ => outOfRange

/-- The largest magnitude of an exponent. -/
def maxExponent : Nat := 10000

/-- Whether a character starts an exponent. -/
def isExponentMark (c : Char) : Bool :=
  c == 'e' || c == 'E'

/-- Takes off a sign; true stands for minus. -/
def splitSign : List Char → Bool × List Char
  | '-' :: cs => (true, cs)
  | '+' :: cs => (false, cs)
  | cs => (false, cs)

/-- The integer with a sign and a magnitude. -/
def signed (negative : Bool) (n : Nat) : Int :=
  if negative then -n else n

/-- The value of a run of digits. -/
def digitsValue (digits : List Char) : Nat :=
  Nat.ofDigitChars 10 digits 0

/-- Reads the text of an exponent: an optional sign and at least one digit,
within the signed 64-bit integers. -/
def exponentValue? (cs : List Char) : Option Int :=
  let (negative, digits) := splitSign cs
  if digits.isEmpty || !digits.all Char.isDigit then
    none
  else
    let e := signed negative (digitsValue digits)
    if -twoPow 63 ≤ e ∧ e < twoPow 63 then some e else none

/-- The parts of a literal before its exponent. -/
structure Significand where
  negative : Bool
  whole : List Char
  fraction : List Char

/-- Reads an optional sign and digits with at most one point, at least one
digit in all. -/
def Significand.read? (cs : List Char) : Option Significand :=
  let (negative, unsigned) := splitSign cs
  let (whole, fraction) := Text.splitFirst (· == '.') unsigned
  let fraction := fraction.getD []
  if whole.isEmpty && fraction.isEmpty then
    none
  else if (whole ++ fraction).all Char.isDigit then
    some ⟨negative, whole, fraction⟩
  else
    none

/-- The number that a significand times a power of ten stands for. -/
def Significand.value (s : Significand) (exponent : Int) : Decimal :=
  ofScaled (signed s.negative (digitsValue (s.whole ++ s.fraction)))
    (s.fraction.length - exponent)

/-- Reads a number literal. -/
def parse (text : String) : Except LiteralError Decimal :=
  let (significand, exponent) := Text.splitFirst isExponentMark (Text.trim text.toList)
  let withExponent (e : Int) : Except LiteralError Decimal :=
    match Significand.read? significand with
    | some s => .ok (s.value e)
    | none => .error (.invalid text)
  match exponent with
  | none => withExponent 0
  | some digits =>
      match exponentValue? digits with
      | none => .error (.invalid text)
      | some e =>
          if e = -twoPow 63 then
            .error (.overflow text)
          else if maxExponent < e.natAbs then
            .error (.invalid text)
          else
            withExponent e

end Decimal
end TypedConfig
