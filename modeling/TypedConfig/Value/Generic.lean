import TypedConfig.Decimal.Binary64
import TypedConfig.Decimal.Canonical
import TypedConfig.Json.Basic
import TypedConfig.Text.Split
import TypedConfig.Value.Basic

/-!
# The generic form of values

A value loses its types when it is written as generic data: nulls and unknowns
both become null, sets, lists and tuples become sequences, maps and objects
become mappings.  The absence of a value has no generic form, nor has anything
that holds one.

There are two such forms.  JSON keeps the canonical text of every number.
Machine data keeps numbers as 64-bit integers where they are that, as doubles
where these are finite, and as text otherwise.
-/

namespace TypedConfig

/-- Why a value has no generic form. -/
inductive SerializationError where
  | absentValue
  deriving DecidableEq

/-- The wording of a failed serialization. -/
def SerializationError.message : SerializationError → String
  | .absentValue => "cannot serialize the absence of a value"

/-- The literal of a number in JSON: its canonical text, in which an exponent
has a sign. -/
def Decimal.jsonLiteral (d : Decimal) : String :=
  let (significand, exponent) := Text.splitFirst (· == 'e') d.canonicalChars
  match exponent with
  | none => d.canonical
  | some ('-' :: digits) => String.ofList (significand ++ 'e' :: '-' :: digits)
  | some digits => String.ofList (significand ++ 'e' :: '+' :: digits)

namespace Value

mutual

/-- The JSON form of a value. -/
def toJson : Value → Except SerializationError Json
  | .null _ | .unknown _ => .ok .null
  | .noValue => .error .absentValue
  | .bool b => .ok (.bool b)
  | .number n => .ok (.number n.jsonLiteral)
  | .string s => .ok (.string s)
  | .list _ elements | .set _ elements | .tuple elements =>
      (elementsToJson elements).map .array
  | .map _ entries | .object entries => (entriesToJson entries).map .object

/-- The JSON forms of elements. -/
def elementsToJson : List Value → Except SerializationError (List Json)
  | [] => .ok []
  | v :: rest =>
      match v.toJson with
      | .error e => .error e
      | .ok j => (elementsToJson rest).map (j :: ·)

/-- The JSON forms of entries. -/
def entriesToJson : List (String × Value) → Except SerializationError (List (String × Json))
  | [] => .ok []
  | (name, v) :: rest =>
      match v.toJson with
      | .error e => .error e
      | .ok j => (entriesToJson rest).map ((name, j) :: ·)

end

/-- The text of a value for reports, if it has one: its JSON text, and a phrase
for the absence of a value and for a value that is itself unknown. -/
def display? : Value → Option String
  | .noValue => some "<no value>"
  | .unknown t => some ("<unknown " ++ t.text ++ ">")
  | v =>
      match v.toJson with
      | .ok j => some j.text
      | .error _ => none

end Value

/-- Generic data whose numbers are machine numbers. -/
inductive MachineData where
  | null
  | bool (b : Bool)
  /-- A signed or unsigned 64-bit integer. -/
  | integer (i : Int)
  /-- A double by its word of bits. -/
  | double (bits : Nat)
  | string (s : String)
  | sequence (items : List MachineData)
  | mapping (entries : List (String × MachineData))
  deriving Inhabited

/-- The number in machine data. -/
def Decimal.toMachineData (d : Decimal) : MachineData :=
  match d.toInt64? with
  | some i => .integer i
  | none =>
      match d.toUInt64? with
      | some i => .integer i
      | none =>
          if isFiniteBits d.toBinary64 then
            .double d.toBinary64
          else
            .string d.canonical

namespace Value

mutual

/-- The machine data of a value. -/
def toMachineData : Value → Except SerializationError MachineData
  | .null _ | .unknown _ => .ok .null
  | .noValue => .error .absentValue
  | .bool b => .ok (.bool b)
  | .number n => .ok n.toMachineData
  | .string s => .ok (.string s)
  | .list _ elements | .set _ elements | .tuple elements =>
      (elementsToMachineData elements).map .sequence
  | .map _ entries | .object entries => (entriesToMachineData entries).map .mapping

/-- The machine data of elements. -/
def elementsToMachineData : List Value → Except SerializationError (List MachineData)
  | [] => .ok []
  | v :: rest =>
      match v.toMachineData with
      | .error e => .error e
      | .ok m => (elementsToMachineData rest).map (m :: ·)

/-- The machine data of entries. -/
def entriesToMachineData :
    List (String × Value) → Except SerializationError (List (String × MachineData))
  | [] => .ok []
  | (name, v) :: rest =>
      match v.toMachineData with
      | .error e => .error e
      | .ok m => (entriesToMachineData rest).map ((name, m) :: ·)

end

end Value
end TypedConfig
