import TypedConfig.Decimal.Basic
import TypedConfig.Ty.Basic

/-!
# Values

Every value knows its type: collections record the type of their elements, so
that empty ones are typed too, while tuples and objects take theirs from their
parts.  A value may be null, or unknown so far, of a given type.  There is also
the absence of a value, which is not a null.

Maps and objects list their entries by name.  The elements of a set are in the
order of values, each once; that order is in the module about it.
-/

namespace TypedConfig

/-- A typed value. -/
inductive Value where
  /-- No value, of a known type. -/
  | null (type : Ty)
  /-- A value of a known type that cannot be determined yet. -/
  | unknown (type : Ty)
  /-- The absence of a value, of no particular type. -/
  | noValue
  | bool (b : Bool)
  | number (n : Decimal)
  | string (s : String)
  | list (element : Ty) (elements : List Value)
  | set (element : Ty) (elements : List Value)
  | map (element : Ty) (entries : List (String × Value))
  | tuple (elements : List Value)
  | object (attributes : List (String × Value))
  deriving Inhabited

namespace Value

/-- The tuple without elements. -/
def emptyTuple : Value := .tuple []

/-- The object without attributes. -/
def emptyObject : Value := .object []

/-- An integer as a value. -/
def ofInt (i : Int) : Value := .number (Decimal.ofInt i)

mutual

/-- The type of a value. -/
def type : Value → Ty
  | .null t => t
  | .unknown t => t
  | .noValue => .dynamic
  | .bool _ => .bool
  | .number _ => .number
  | .string _ => .string
  | .list e _ => .list e
  | .set e _ => .set e
  | .map e _ => .map e
  | .tuple elements => .tuple (types elements)
  | .object attributes => .object (attributeTypes attributes) []

/-- The types of elements. -/
def types : List Value → List Ty
  | [] => []
  | v :: rest => v.type :: types rest

/-- The types of attributes. -/
def attributeTypes : List (String × Value) → List (String × Ty)
  | [] => []
  | (name, v) :: rest => (name, v.type) :: attributeTypes rest

end

/-- Whether the value is null. -/
def isNull : Value → Bool
  | .null _ => true
  | _ => false

/-- Whether the value itself is unknown. -/
def isUnknown : Value → Bool
  | .unknown _ => true
  | _ => false

/-- Whether there is no value. -/
def isNoValue : Value → Bool
  | .noValue => true
  | _ => false

/-- An object cannot hold the absence of a value; it holds a null of the
dynamic type in its place. -/
def orNull : Value → Value
  | .noValue => .null .dynamic
  | v => v

mutual

/-- Whether neither a value nor any of its parts is unknown. -/
def isWhollyKnown : Value → Bool
  | .unknown _ => false
  | .list _ elements | .set _ elements | .tuple elements => allWhollyKnown elements
  | .map _ entries | .object entries => entriesWhollyKnown entries
  | _ => true

/-- Whether all elements are wholly known. -/
def allWhollyKnown : List Value → Bool
  | [] => true
  | v :: rest => v.isWhollyKnown && allWhollyKnown rest

/-- Whether all entries are wholly known. -/
def entriesWhollyKnown : List (String × Value) → Bool
  | [] => true
  | (_, v) :: rest => v.isWhollyKnown && entriesWhollyKnown rest

end

/-- The elements of a list or tuple. -/
def elements? : Value → Option (List Value)
  | .list _ elements | .tuple elements => some elements
  | _ => none

/-- The elements of a set. -/
def setElements? : Value → Option (List Value)
  | .set _ elements => some elements
  | _ => none

/-- The entries of a map or object. -/
def entries? : Value → Option (Fields Value)
  | .map _ entries | .object entries => some entries
  | _ => none

/-- The number of elements of a collection, tuple or object. -/
def size? : Value → Option Nat
  | .list _ elements | .set _ elements | .tuple elements => some elements.length
  | .map _ entries | .object entries => some entries.length
  | _ => none

/-- What a value was expected to be. -/
inductive Form where
  | bool
  | string
  | number
  | listOrTuple
  | set
  | mapOrObject
  deriving DecidableEq

/-- The complaint about a value of another form. -/
def Form.complaint : Form → String
  | .bool => "not a bool"
  | .string => "not a string"
  | .number => "not a number"
  | .listOrTuple => "not a list or tuple"
  | .set => "not a set"
  | .mapOrObject => "not a map or object"

/-- The truth value that a value holds. -/
def asBool : Value → Except Form Bool
  | .bool b => .ok b
  | _ => .error .bool

/-- The string that a value holds. -/
def asString : Value → Except Form String
  | .string s => .ok s
  | _ => .error .string

/-- The number that a value holds. -/
def asNumber : Value → Except Form Decimal
  | .number n => .ok n
  | _ => .error .number

/-- The elements of a value that is a list or tuple. -/
def asElements (v : Value) : Except Form (List Value) :=
  match v.elements? with
  | some elements => .ok elements
  | none => .error .listOrTuple

/-- The elements of a value that is a set. -/
def asSet (v : Value) : Except Form (List Value) :=
  match v.setElements? with
  | some elements => .ok elements
  | none => .error .set

/-- The entries of a value that is a map or object. -/
def asEntries (v : Value) : Except Form (Fields Value) :=
  match v.entries? with
  | some entries => .ok entries
  | none => .error .mapOrObject

/-- The element of a list or tuple at a place, or the absence of a value. -/
def getIndex (v : Value) (i : Nat) : Value :=
  match v.elements? with
  | some elements => elements.getD i .noValue
  | none => .noValue

/-- The entry of a map or object at a name, or the absence of a value. -/
def getName (v : Value) (name : String) : Value :=
  match v.entries? with
  | some entries => (Fields.get? name entries).getD .noValue
  | none => .noValue

theorem types_eq_map
    (elements : List Value) :
    types elements = elements.map type := by
  induction elements with
  | nil => rfl
  | cons v rest ih => simp [types, ih]

theorem attributeTypes_eq_mapValues
    (attributes : Fields Value) :
    attributeTypes attributes = Fields.mapValues type attributes := by
  induction attributes with
  | nil => rfl
  | cons a rest ih => simpa [attributeTypes, Fields.mapValues] using ih

theorem allWhollyKnown_eq_all
    (elements : List Value) :
    allWhollyKnown elements = elements.all isWhollyKnown := by
  induction elements with
  | nil => rfl
  | cons v rest ih => simp [allWhollyKnown, ih]

theorem entriesWhollyKnown_eq_all
    (entries : Fields Value) :
    entriesWhollyKnown entries = entries.all fun entry => entry.2.isWhollyKnown := by
  induction entries with
  | nil => rfl
  | cons entry rest ih => simp [entriesWhollyKnown, ih]

end Value
end TypedConfig
