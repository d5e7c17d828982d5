import TypedConfig.Decimal.Canonical
import TypedConfig.Decimal.Literal
import TypedConfig.Ty.Conformance
import TypedConfig.Value.Collection

/-!
# Conversion of values

A value is converted to a wanted type where that loses nothing but the form:
numbers and truth values become strings and back, sequences become lists, sets
or tuples, and mappings become maps or objects.  Attributes that the wanted
type marks optional may be missing; they become null.  The result is a value of
the storage type of what was wanted.

A failed conversion names the part that did not fit.  At a string whose reading
as a number leaves the range of 64-bit integers nothing is returned, neither a
value nor a failure.
-/

namespace TypedConfig

/-- Why a value cannot be converted. -/
inductive ConversionCause where
  | absentValue
  | notNumber
  /-- Nothing is returned, since a string is read out of the range. -/
  | overflow (text : String)
  | notBool
  | tupleLength (wanted got : Nat)
  | missingAttribute (name : String)
  | unsupportedAttribute (name : String)
  | kind (wanted got : Ty)

/-- The wording of a cause. -/
def ConversionCause.message : ConversionCause → String
  | .absentValue => "a value is required"
  | .notNumber => "a number is required"
  | .overflow _ => outOfRange
  | .notBool => "a bool is required"
  | .tupleLength wanted got =>
      "tuple required with " ++ toString wanted ++ " elements, not " ++ toString got
  | .missingAttribute name => "attribute \"" ++ name ++ "\" is required"
  | .unsupportedAttribute name => "unsupported attribute \"" ++ name ++ "\""
  | .kind wanted got => wanted.kind ++ " required, but got " ++ got.kind

/-- The part of a value that cannot be converted, and why. -/
structure ConversionError where
  path : Path
  cause : ConversionCause

namespace ConversionError

/-- A failure at the root. -/
def here (cause : ConversionCause) : ConversionError :=
  ⟨[], cause⟩

/-- A failure in a part, seen from the whole. -/
def under (step : PathStep) (e : ConversionError) : ConversionError :=
  { e with path := step :: e.path }

/-- Whether the range has been left, so that there is no failure to report. -/
def leavesRange (e : ConversionError) : Bool :=
  match e.cause with
  | .overflow _ => true
  | _ => false

/-- The text of the place. -/
def pathText (e : ConversionError) : String :=
  Path.text "" e.path

/-- The full text of the failure. -/
def text (e : ConversionError) : String :=
  Ty.located e.pathText e.cause.message

end ConversionError

namespace Value

/-- The number that a string writes. -/
def numberOfString (s : String) : Except ConversionError Value :=
  match Decimal.parse s with
  | .ok n => .ok (.number n)
  | .error (.invalid _) => .error (.here .notNumber)
  | .error (.overflow text) => .error (.here (.overflow text))

/-- The truth value that a string writes. -/
def boolOfString (s : String) : Except ConversionError Value :=
  match s with
  | "true" => .ok (.bool true)
  | "false" => .ok (.bool false)
  | _ => .error (.here .notBool)

/-- The string that writes a truth value. -/
def stringOfBool (b : Bool) : Value :=
  .string (if b then "true" else "false")

/-- The name of the first entry that a list of attributes does not have. -/
def unsupportedName? (entries : Fields Value) (wants : Fields Ty) : Option String :=
  (Fields.names entries).find? fun name => !Fields.contains name wants

/-- What stands for an attribute that is missing: a null of its type if it is
optional. -/
def missingAttribute (optional : List String) (name : String) (t : Ty) :
    Except ConversionError Value :=
  if optional.contains name then
    .ok (.null t.storage)
  else
    .error (.here (.missingAttribute name))

/-- Converts the elements of a sequence, counted from a number on, each in the
same way. -/
def convertEach (f : Value → Except ConversionError Value) (i : Nat) :
    List Value → Except ConversionError (List Value)
  | [] => .ok []
  | v :: rest =>
      match f v with
      | .error e => .error (e.under (.index i))
      | .ok w => (convertEach f (i + 1) rest).map (w :: ·)

/-- Converts the entries of a mapping, each in the same way. -/
def convertEntries (f : Value → Except ConversionError Value) :
    Fields Value → Except ConversionError (Fields Value)
  | [] => .ok []
  | (name, v) :: rest =>
      match f v with
      | .error e => .error (e.under (.key name))
      | .ok w => (convertEntries f rest).map ((name, w) :: ·)

/-- The tuple of converted elements, if there is one for each type. -/
def tupleOfConverted (types : List Ty) (elements : List Value)
    (converted : Except ConversionError (List Value)) : Except ConversionError Value :=
  if elements.length = types.length then
    converted.map .tuple
  else
    .error (.here (.tupleLength types.length elements.length))

/-- The object of converted attributes, if every entry is wanted. -/
def objectOfConverted (wants : Fields Ty) (entries : Fields Value)
    (converted : Except ConversionError (Fields Value)) : Except ConversionError Value :=
  match unsupportedName? entries wants with
  | some name => .error (.here (.unsupportedAttribute name))
  | none => converted.map .object

mutual

/-- Converts a value to a wanted type. -/
def convert : Ty → Value → Except ConversionError Value
  | _, .noValue => .error (.here .absentValue)
  | .dynamic, v => .ok v
  | want, .null _ => .ok (.null want.storage)
  | want, .unknown _ => .ok (.unknown want.storage)
  | .bool, .bool b => .ok (.bool b)
  | .number, .number n => .ok (.number n)
  | .string, .string s => .ok (.string s)
  | .string, .number n => .ok (.string n.canonical)
  | .string, .bool b => .ok (stringOfBool b)
  | .number, .string s => numberOfString s
  | .bool, .string s => boolOfString s
  | .list e, .list _ elements => (convertEach (convert e) 0 elements).map (.list e.storage)
  | .list e, .tuple elements => (convertEach (convert e) 0 elements).map (.list e.storage)
  | .list e, .set _ elements => (convertEach (convert e) 0 elements).map (.list e.storage)
  | .set e, .list _ elements => (convertEach (convert e) 0 elements).map (setOf e.storage)
  | .set e, .tuple elements => (convertEach (convert e) 0 elements).map (setOf e.storage)
  | .set e, .set _ elements => (convertEach (convert e) 0 elements).map (setOf e.storage)
  | .map e, .map _ entries => (convertEntries (convert e) entries).map (.map e.storage)
  | .map e, .object entries => (convertEntries (convert e) entries).map (.map e.storage)
  | .tuple types, .list _ elements =>
      tupleOfConverted types elements (convertElements 0 types elements)
  | .tuple types, .tuple elements =>
      tupleOfConverted types elements (convertElements 0 types elements)
  | .object wants optional, .map _ entries =>
      objectOfConverted wants entries (convertAttributes optional entries wants)
  | .object wants optional, .object entries =>
      objectOfConverted wants entries (convertAttributes optional entries wants)
  | want, v => .error (.here (.kind want v.type))

/-- Converts elements, counted from a number on, each to its own type. -/
def convertElements (i : Nat) : List Ty → List Value → Except ConversionError (List Value)
  | t :: ts, v :: vs =>
      match convert t v with
      | .error e => .error (e.under (.index i))
      | .ok w => (convertElements (i + 1) ts vs).map (w :: ·)
  | _, _ => .ok []

/-- Makes the wanted attributes from the entries of a mapping. -/
def convertAttributes (optional : List String) (entries : Fields Value) :
    List (String × Ty) → Except ConversionError (Fields Value)
  | [] => .ok []
  | (name, t) :: rest =>
      let converted : Except ConversionError Value :=
        match Fields.get? name entries with
        | some v => (convert t v).mapError (ConversionError.under (.attribute name))
        | none => missingAttribute optional name t
      match converted with
      | .error e => .error e
      | .ok w => (convertAttributes optional entries rest).map ((name, w) :: ·)

end

end Value
end TypedConfig
