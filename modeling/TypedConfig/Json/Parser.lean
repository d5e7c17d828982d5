import TypedConfig.Json.Quoted
import TypedConfig.Json.Source

/-!
# Reading JSON texts

The reader accepts JSON as the standard has it: no comments, no comma before a
closing bracket, no leading zeros, and no control characters inside strings.
The literal of a number is kept, its exponent written with a small e and always
with a sign.

Every function takes the characters that are left and returns those it leaves.
The nesting of a text has no bound here; who reads the source sets one.
-/

namespace TypedConfig
namespace Json

/-- Whether a character may stand between tokens. -/
def isSpace (c : Char) : Bool :=
  c == ' ' || c == '\n' || c == '\t' || c == '\r'

/-- The characters from the next token on. -/
def skipSpace (cs : List Char) : List Char :=
  cs.dropWhile isSpace

/-- Reads one digit or more. -/
def digitRun (cs : List Char) : Option (List Char × List Char) :=
  match cs.takeWhile Char.isDigit with
  | [] => none
  | digits => some (digits, cs.dropWhile Char.isDigit)

/-- Reads the digits before the point: a zero alone, or digits that do not
start with one. -/
def wholePart : List Char → Option (List Char × List Char)
  | '0' :: rest => some (['0'], rest)
  | cs => digitRun cs

/-- Reads a point and the digits after it, or nothing. -/
def fractionPart : List Char → Option (List Char × List Char)
  | '.' :: rest => (digitRun rest).map fun r => ('.' :: r.1, r.2)
  | cs => some ([], cs)

/-- Reads the sign of an exponent, plus if there is none. -/
def exponentSign : List Char → Char × List Char
  | '+' :: rest => ('+', rest)
  | '-' :: rest => ('-', rest)
  | cs => ('+', cs)

/-- Reads an exponent, or nothing. -/
def exponentPart : List Char → Option (List Char × List Char)
  | [] => some ([], [])
  | c :: rest =>
      if c == 'e' || c == 'E' then
        let (sign, rest) := exponentSign rest
        (digitRun rest).map fun r => ('e' :: sign :: r.1, r.2)
      else
        some ([], c :: rest)

/-- Reads the sign of a number, or nothing. -/
def minusSign : List Char → List Char × List Char
  | '-' :: rest => (['-'], rest)
  | cs => ([], cs)

/-- Reads a number literal. -/
def numberLiteral (cs : List Char) : Option (List Char × List Char) := do
  let (sign, cs) := minusSign cs
  let (whole, cs) ← wholePart cs
  let (fraction, cs) ← fractionPart cs
  let (exponent, cs) ← exponentPart cs
  return (sign ++ whole ++ fraction ++ exponent, cs)

mutual

/-- Reads a value, in a bounded number of steps. -/
def value : Nat → List Char → Option (Source × List Char)
  | 0, _ => none
  | steps + 1, cs =>
      match skipSpace cs with
      | 'n' :: 'u' :: 'l' :: 'l' :: rest => some (.null, rest)
      | 't' :: 'r' :: 'u' :: 'e' :: rest => some (.bool true, rest)
      | 'f' :: 'a' :: 'l' :: 's' :: 'e' :: rest => some (.bool false, rest)
      | '"' :: rest => (readPieces rest).map fun r => (.string (textOfPieces? r.1), r.2)
      | '[' :: rest =>
          match skipSpace rest with
          | ']' :: rest => some (.array [], rest)
          | rest => (items steps rest).map fun r => (.array r.1, r.2)
      | '\x7b' :: rest =>
          match skipSpace rest with
          | '\x7d' :: rest => some (.object [], rest)
          | rest => (members steps rest).map fun r => (.object r.1, r.2)
      | cs => (numberLiteral cs).map fun r => (.number (String.ofList r.1), r.2)

/-- Reads the items of an array, at least one, and its closing bracket. -/
def items : Nat → List Char → Option (List Source × List Char)
  | 0, _ => none
  | steps + 1, cs =>
      match value steps cs with
      | none => none
      | some (item, rest) =>
          match skipSpace rest with
          | ',' :: rest => (items steps rest).map fun r => (item :: r.1, r.2)
          | ']' :: rest => some ([item], rest)
          | _ => none

/-- Reads the members of an object, at least one, and its closing bracket. -/
def members : Nat → List Char → Option (List (Option String × Source) × List Char)
  | 0, _ => none
  | steps + 1, cs =>
      match skipSpace cs with
      | '"' :: rest =>
          match readPieces rest with
          | none => none
          | some (name, rest) =>
              match skipSpace rest with
              | ':' :: rest =>
                  match value steps rest with
                  | none => none
                  | some (item, rest) =>
                      match skipSpace rest with
                      | ',' :: rest =>
                          (members steps rest).map fun r =>
                            ((textOfPieces? name, item) :: r.1, r.2)
                      | '\x7d' :: rest => some ([(textOfPieces? name, item)], rest)
                      | _ => none
              | _ => none
      | _ => none

end

/-- Reads a text that is one value between spaces.  Every second step at least
takes a character, so twice their number of steps is enough. -/
def parse? (s : String) : Option Source :=
  let cs := s.toList
  match value (2 * cs.length + 2) cs with
  | some (j, rest) => if (skipSpace rest).isEmpty then some j else none
  | none => none

end Json
end TypedConfig
