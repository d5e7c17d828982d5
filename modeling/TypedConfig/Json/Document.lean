import TypedConfig.Json.Generic
import TypedConfig.Json.Unsigned

/-!
# Reading documents

A document is a JSON text of a known structure.  A record is an object whose
members are its fields: fields may be missing where they have a default, and
members that are no fields are passed over, but no field may be there twice.  A
record may also be an array of its fields in their order, the last ones left
out.

What is passed over has to be well written and nothing else: its strings need
not be text, and its levels do not count.  Readers are given the number of
levels of arrays and objects that they may still enter.
-/

namespace TypedConfig

namespace Json

/-- What comes of a source at the last level: it nests too deep if its form would
be entered, and does not fit otherwise. -/
def atLastLevel {α : Type} (j : Source) (isEntered : Bool) : Except DocumentError α :=
  .error (if isEntered then .malformed else j.unfit)

/-- Takes the fields among the members of an object. -/
def fieldsOfMembers (names : List String) :
    List (Option String × Source) → Except DocumentError (Fields Source)
  | [] => .ok []
  | (none, _) :: _ => .error .malformed
  | (some name, item) :: rest =>
      match fieldsOfMembers names rest with
      | .error e => .error e
      | .ok fields =>
          if !names.contains name then
            .ok fields
          else if Fields.contains name fields then
            .error .mismatch
          else
            .ok ((name, item) :: fields)

/-- Reads a record with fields of the given names as what is there of them. -/
def readRecord (names : List String) : Source → Except DocumentError (Fields Source)
  | .object members => fieldsOfMembers names members
  | .array items =>
      if items.length ≤ names.length then .ok (names.zip items) else .error .malformed
  | j => .error j.unfit

/-- Reads a field that has to be there. -/
def requiredField {α : Type} (fields : Fields Source) (name : String)
    (read : Source → Except DocumentError α) : Except DocumentError α :=
  match Fields.get? name fields with
  | none => .error .mismatch
  | some j => read j

/-- Reads a field that has a default. -/
def defaultField {α : Type} (fields : Fields Source) (name : String) (default : α)
    (read : Source → Except DocumentError α) : Except DocumentError α :=
  match Fields.get? name fields with
  | none => .ok default
  | some j => read j

/-- Reads a field that may be missing or null. -/
def optionalField {α : Type} (fields : Fields Source) (name : String)
    (read : Source → Except DocumentError α) : Except DocumentError (Option α) :=
  match Fields.get? name fields with
  | none | some .null => .ok none
  | some j => (read j).map some

/-- Reads a string. -/
def readString : Source → Except DocumentError String
  | .string (some s) => .ok s
  | j => .error j.unfit

/-- Reads a truth value. -/
def readBool : Source → Except DocumentError Bool
  | .bool b => .ok b
  | j => .error j.unfit

/-- Reads an unsigned 64-bit integer.  Other numbers do not fit, and those
beyond the range of doubles are not well formed. -/
def readNat64 : Source → Except DocumentError Nat
  | .number literal =>
      match unsigned? literal with
      | some n => .ok n
      | none => .error (if isBeyondDoubles literal then .malformed else .mismatch)
  | j => .error j.unfit

/-- Reads one of several names, written as a string, or as an object with that
one member, which is null. -/
def readChoice {α : Type} (levels : Nat) (choice : String → Option α) :
    Source → Except DocumentError α
  | .string (some name) =>
      match choice name with
      | some a => .ok a
      | none => .error .mismatch
  | .object ((some name, item) :: rest) =>
      match levels, choice name, item with
      | 0, _, _ => .error .malformed
      | _ + 1, some a, .null => if rest.isEmpty then .ok a else .error .malformed
      | _ + 1, some _, item => .error item.unfit
      | _ + 1, none, _ => .error .mismatch
  | _ => .error .malformed

/-- Reads each item of an array in the same way. -/
def readEach {α : Type} (read : Source → Except DocumentError α) :
    List Source → Except DocumentError (List α)
  | [] => .ok []
  | item :: rest =>
      match read item with
      | .error e => .error e
      | .ok a => (readEach read rest).map (a :: ·)

/-- Reads each member of an object in the same way. -/
def readEachMember {α : Type} (read : Source → Except DocumentError α) :
    List (Option String × Source) → Except DocumentError (List (String × α))
  | [] => .ok []
  | (none, _) :: _ => .error .malformed
  | (some name, item) :: rest =>
      match read item with
      | .error e => .error e
      | .ok a => (readEachMember read rest).map ((name, a) :: ·)

/-- Reads an array. -/
def readList {α : Type} (read : Source → Except DocumentError α) :
    Source → Except DocumentError (List α)
  | .array items => readEach read items
  | j => .error j.unfit

/-- Reads an object with any names; the last of equal names is taken. -/
def readMap {α : Type} (read : Source → Except DocumentError α) :
    Source → Except DocumentError (Fields α)
  | .object members => (readEachMember read members).map Fields.ofList
  | j => .error j.unfit

/-- A field that is written if there is something to write. -/
def fieldIf (write : Bool) (name : String) (j : Json) : List (String × Json) :=
  if write then [(name, j)] else []

/-- A field that is written if it is there. -/
def fieldOf? {α : Type} (name : String) (write : α → Json) (a : Option α) :
    List (String × Json) :=
  match a with
  | none => []
  | some a => [(name, write a)]

/-- A natural number in JSON. -/
def ofNat (n : Nat) : Json :=
  .number (String.ofList (Nat.toDigits 10 n))

end Json
end TypedConfig
