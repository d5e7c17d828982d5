import TypedConfig.Data.Basic
import TypedConfig.Decimal.Literal
import TypedConfig.Depth
import TypedConfig.Path
import TypedConfig.Value.Collection

/-!
# Typing generic data

Generic data is read as a value of a wanted type.  A null is a null of that
type.  Where the type is dynamic the data decides: mappings become objects and
sequences become tuples.  Objects need exactly their attributes, and numbers
have to be exact.

Data may nest up to a limit, and no further than it is visited.  A failure
names the first node, in the order of visiting, that does not fit.  At a number
whose reading leaves the range of 64-bit integers there is no failure to report:
nothing is returned.
-/

namespace TypedConfig

/-- Why data is not of the wanted type. -/
inductive TypingCause where
  | mismatch (wanted : Ty) (actual : String)
  | missingAttribute (name : String)
  | unexpectedAttribute (name : String)
  | tupleLength (wanted actual : Nat)
  | nonStringKey (kind : String)
  | inexactNumber (literal : String)
  /-- Nothing is returned, since a literal is read out of the range. -/
  | overflow (literal : String)
  | depthExceeded
  deriving Inhabited

/-- The wording of a cause. -/
def TypingCause.message : TypingCause → String
  | .mismatch wanted actual => wanted.kind ++ " required, but got " ++ actual
  | .missingAttribute name => "missing attribute \"" ++ name ++ "\""
  | .unexpectedAttribute name => "unexpected attribute \"" ++ name ++ "\""
  | .tupleLength wanted actual =>
      "tuple with " ++ toString wanted ++ " elements required, but got " ++ toString actual
  | .nonStringKey kind => "mapping keys must be strings, but got " ++ kind
  | .inexactNumber literal => "number `" ++ literal ++ "` cannot be represented exactly"
  | .overflow _ => outOfRange
  | .depthExceeded => "data nested deeper than " ++ toString maxDepth ++ " levels"

/-- The node that is not of the wanted type, and why. -/
structure TypingError where
  path : Path
  cause : TypingCause

namespace TypingError

/-- A failure at the root. -/
def here (cause : TypingCause) : TypingError :=
  ⟨[], cause⟩

/-- A failure in a part, seen from the whole. -/
def under (step : PathStep) (e : TypingError) : TypingError :=
  { e with path := step :: e.path }

/-- The text of the place; the root is a dollar sign. -/
def pathText (e : TypingError) : String :=
  Path.text "$" e.path

/-- The full text of the failure. -/
def text (e : TypingError) : String :=
  e.pathText ++ ": " ++ e.cause.message

end TypingError

namespace Value

/-- The number that a literal writes. -/
def ofLiteral (literal : String) : Except TypingError Value :=
  match Decimal.parse literal with
  | .ok n => .ok (.number n)
  | .error (.invalid _) => .error (.here (.inexactNumber literal))
  | .error (.overflow _) => .error (.here (.overflow literal))

/-- The object of the entries of a mapping; the first attribute that none of
them sets is missing. -/
def objectOfEntries (wants : Fields Ty) (entries : Fields Value) : Except TypingError Value :=
  match (Fields.names wants).find? fun name => !Fields.contains name entries with
  | some name => .error (.here (.missingAttribute name))
  | none => .ok (.object entries)

/-- What a node gives, unless it is too deep to be visited. -/
@[macro_inline]
def within (depth : Nat) (result : Except TypingError Value) : Except TypingError Value :=
  if maxDepth < depth then .error (.here .depthExceeded) else result

/-- Reads a truth value. -/
def ofBool (want : Ty) (b : Bool) : Except TypingError Value :=
  match want with
  | .bool | .dynamic => .ok (.bool b)
  | want => .error (.here (.mismatch want "bool"))

/-- Reads a number. -/
def ofNumber (want : Ty) (literal : String) : Except TypingError Value :=
  match want with
  | .number | .dynamic => ofLiteral literal
  | want => .error (.here (.mismatch want "number"))

/-- Reads a string. -/
def ofString (want : Ty) (s : String) : Except TypingError Value :=
  match want with
  | .string | .dynamic => .ok (.string s)
  | want => .error (.here (.mismatch want "string"))

mutual

/-- Reads a node at a depth as a value of a type. -/
def ofDataAt (depth : Nat) (want : Ty) : Data → Except TypingError Value
  | .null => within depth (.ok (.null want))
  | .bool b => within depth (ofBool want b)
  | .number literal => within depth (ofNumber want literal)
  | .string s => within depth (ofString want s)
  | .sequence items =>
      within depth <|
        match want with
        | .list e => (ofItems (depth + 1) e 0 items).map (.list e)
        | .set e => (ofItems (depth + 1) e 0 items).map (setOf e)
        | .tuple types =>
            if items.length = types.length then
              (ofTupleItems (depth + 1) 0 types items).map .tuple
            else
              .error (.here (.tupleLength types.length items.length))
        | .dynamic => (ofItems (depth + 1) .dynamic 0 items).map .tuple
        | want => .error (.here (.mismatch want "sequence"))
  | .mapping entries =>
      within depth <|
        match want with
        | .map e => (ofEntries (depth + 1) .key e [] entries).map (.map e)
        | .object wants _ =>
            match ofAttributes (depth + 1) wants [] entries with
            | .error e => .error e
            | .ok read => objectOfEntries wants read
        | .dynamic => (ofEntries (depth + 1) .attribute .dynamic [] entries).map .object
        | want => .error (.here (.mismatch want "mapping"))

/-- Reads the items of a sequence, counted from a number on, as values of one
type. -/
def ofItems (depth : Nat) (want : Ty) (i : Nat) : List Data → Except TypingError (List Value)
  | [] => .ok []
  | item :: rest =>
      match ofDataAt depth want item with
      | .error e => .error (e.under (.index i))
      | .ok v => (ofItems depth want (i + 1) rest).map (v :: ·)

/-- Reads the items of a sequence, counted from a number on, each as a value of
its own type. -/
def ofTupleItems (depth : Nat) (i : Nat) :
    List Ty → List Data → Except TypingError (List Value)
  | want :: wants, item :: rest =>
      match ofDataAt depth want item with
      | .error e => .error (e.under (.index i))
      | .ok v => (ofTupleItems depth (i + 1) wants rest).map (v :: ·)
  | _, _ => .ok []

/-- Reads the entries of a mapping as values of one type and adds them to those
read before; a step leads to each. -/
def ofEntries (depth : Nat) (step : String → PathStep) (want : Ty) (read : Fields Value) :
    List (Key × Data) → Except TypingError (Fields Value)
  | [] => .ok read
  | (.other kind, _) :: _ => .error (.here (.nonStringKey kind))
  | (.string name, item) :: rest =>
      match ofDataAt depth want item with
      | .error e => .error (e.under (step name))
      | .ok v => ofEntries depth step want (Fields.insert name v read) rest

/-- Reads the entries of a mapping as attributes of an object and adds them to
those read before. -/
def ofAttributes (depth : Nat) (wants : Fields Ty) (read : Fields Value) :
    List (Key × Data) → Except TypingError (Fields Value)
  | [] => .ok read
  | (.other kind, _) :: _ => .error (.here (.nonStringKey kind))
  | (.string name, item) :: rest =>
      match Fields.get? name wants with
      | none => .error (.here (.unexpectedAttribute name))
      | some want =>
          match ofDataAt depth want item with
          | .error e => .error (e.under (.attribute name))
          | .ok v => ofAttributes depth wants (Fields.insert name v read) rest

end

/-- Reads data as a value of a type. -/
def ofData (want : Ty) (d : Data) : Except TypingError Value :=
  ofDataAt 0 want d

end Value
end TypedConfig
