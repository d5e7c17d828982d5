import TypedConfig.Json.Basic

/-!
# JSON texts taken apart

A JSON text is taken apart before it is decided what it is read as.  Members of
an object are kept as they come, with those of a name that is there already.
A string that is no text has a place as well, since parts of a document that
are passed over may hold such strings.

Every JSON tree is such a source.
-/

namespace TypedConfig
namespace Json

/-- A JSON text taken apart.  A string or name is missing where it is well
written but no text. -/
inductive Source where
  | null
  | bool (b : Bool)
  | number (literal : String)
  | string (s : Option String)
  | array (items : List Source)
  | object (members : List (Option String × Source))
  deriving Inhabited

/-- Whether the source is an array. -/
def Source.isArray : Source → Bool
  | .array _ => true
  | _ => false

/-- Whether the source is an object. -/
def Source.isObject : Source → Bool
  | .object _ => true
  | _ => false

mutual

/-- A tree as what its text is taken apart into. -/
def source : Json → Source
  | .null => .null
  | .bool b => .bool b
  | .number literal => .number literal
  | .string s => .string (some s)
  | .array items => .array (itemSources items)
  | .object members => .object (memberSources members)

/-- The items of an array as sources. -/
def itemSources : List Json → List Source
  | [] => []
  | item :: rest => item.source :: itemSources rest

/-- The members of an object as members of a source. -/
def memberSources : List (String × Json) → List (Option String × Source)
  | [] => []
  | (name, item) :: rest => (some name, item.source) :: memberSources rest

end

theorem itemSources_eq_map
    (items : List Json) :
    itemSources items = items.map source := by
  induction items with
  | nil => rfl
  | cons item rest ih => simp [itemSources, ih]

theorem memberSources_eq_map
    (members : List (String × Json)) :
    memberSources members = members.map fun member => (some member.1, member.2.source) := by
  induction members with
  | nil => rfl
  | cons member rest ih => simp [memberSources, ih]

end Json
end TypedConfig
