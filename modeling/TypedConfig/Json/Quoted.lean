/-!
# Strings between quotes

A string in a JSON text is a run of characters and of code units, which are
written as escapes with four hexadecimal digits.  A character beyond sixteen
bits takes a pair of such units.  A unit that is half of a pair and stands
alone is no character, so a string may be well written and still be no text.

Hence strings are read in two steps: first the pieces up to the closing quote,
then their text.
-/

namespace TypedConfig
namespace Json

/-- A piece of a string between quotes. -/
inductive Piece where
  /-- A character, as itself or by a short escape. -/
  | char (c : Char)
  /-- A code unit of sixteen bits. -/
  | unit (n : Nat)
  deriving DecidableEq

/-- The value of a hexadecimal digit. -/
def hexValue? (c : Char) : Option Nat :=
  if '0' ≤ c ∧ c ≤ '9' then
    some (c.toNat - '0'.toNat)
  else if 'a' ≤ c ∧ c ≤ 'f' then
    some (c.toNat - 'a'.toNat + 10)
  else if 'A' ≤ c ∧ c ≤ 'F' then
    some (c.toNat - 'A'.toNat + 10)
  else
    none

/-- The value of four hexadecimal digits. -/
def hexUnit? (a b c d : Char) : Option Nat := do
  let a ← hexValue? a
  let b ← hexValue? b
  let c ← hexValue? c
  let d ← hexValue? d
  return ((a * 16 + b) * 16 + c) * 16 + d

/-- The character that a backslash and one other character stand for. -/
def simpleEscape? : Char → Option Char
  | '"' => some '"'
  | '\\' => some '\\'
  | '/' => some '/'
  | 'b' => some '\x08'
  | 'f' => some '\x0c'
  | 'n' => some '\n'
  | 'r' => some '\r'
  | 't' => some '\t'
  | _ => none

/-- Puts a piece before those of a string that was read on. -/
def consPiece (p : Piece) (read : Option (List Piece × List Char)) :
    Option (List Piece × List Char) :=
  read.map fun r => (p :: r.1, r.2)

/-- Reads the pieces of a string after its opening quote. -/
def readPieces : List Char → Option (List Piece × List Char)
  | [] => none
  | '"' :: rest => some ([], rest)
  | '\\' :: 'u' :: a :: b :: c :: d :: rest =>
      match hexUnit? a b c d with
      | some n => consPiece (.unit n) (readPieces rest)
      | none => none
  | '\\' :: c :: rest =>
      match simpleEscape? c with
      | some d => consPiece (.char d) (readPieces rest)
      | none => none
  | c :: rest => if c.toNat < 32 then none else consPiece (.char c) (readPieces rest)

/-- Whether a code unit is the first half of a pair. -/
def isHighUnit (n : Nat) : Bool :=
  0xD800 ≤ n && n < 0xDC00

/-- Whether a code unit is the second half of a pair. -/
def isLowUnit (n : Nat) : Bool :=
  0xDC00 ≤ n && n < 0xE000

/-- The character of a pair of code units. -/
def pairChar (high low : Nat) : Char :=
  Char.ofNat (0x10000 + (high - 0xD800) * 0x400 + (low - 0xDC00))

/-- The characters that pieces stand for, unless half of a pair is among them
alone. -/
def charsOfPieces : List Piece → Option (List Char)
  | [] => some []
  | .char c :: rest => (charsOfPieces rest).map (c :: ·)
  | .unit high :: .unit low :: rest =>
      if isHighUnit high then
        if isLowUnit low then (charsOfPieces rest).map (pairChar high low :: ·) else none
      else if isLowUnit high then
        none
      else
        (charsOfPieces (.unit low :: rest)).map (Char.ofNat high :: ·)
  | .unit n :: rest =>
      if isHighUnit n || isLowUnit n then none else (charsOfPieces rest).map (Char.ofNat n :: ·)

/-- The text that pieces stand for. -/
def textOfPieces? (pieces : List Piece) : Option String :=
  (charsOfPieces pieces).map String.ofList

end Json
end TypedConfig
