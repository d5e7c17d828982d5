import TypedConfig.Json.Basic

/-!
# Generic data

Generic data is what a parser yields that does not know any types: scalars,
sequences and mappings.  Numbers are literals, as written.  The keys of a
mapping need not be strings; of those that are not, only the kind is known.

JSON and YAML trees are generic data in their own notations.  A repeated key of
a YAML mapping keeps its first place and takes the later content, and tags are
passed over.
-/

namespace TypedConfig

/-- A key of a generic mapping. -/
inductive Key where
  | string (s : String)
  /-- A key of another kind. -/
  | other (kind : String)
  deriving DecidableEq

/-- A tree of generic data. -/
inductive Data where
  | null
  | bool (b : Bool)
  | number (literal : String)
  | string (s : String)
  | sequence (items : List Data)
  | mapping (entries : List (Key × Data))
  deriving Inhabited

/-- A YAML tree. -/
inductive Yaml where
  | null
  | bool (b : Bool)
  | number (literal : String)
  | string (s : String)
  | sequence (items : List Yaml)
  | mapping (entries : List (Yaml × Yaml))
  | tagged (tag : String) (node : Yaml)
  deriving Inhabited

namespace Data

/-- The kind of a node. -/
def kind : Data → String
  | .null => "null"
  | .bool _ => "bool"
  | .number _ => "number"
  | .string _ => "string"
  | .sequence _ => "sequence"
  | .mapping _ => "mapping"

mutual

/-- A JSON tree as generic data. -/
def ofJson : Json → Data
  | .null => .null
  | .bool b => .bool b
  | .number literal => .number literal
  | .string s => .string s
  | .array items => .sequence (ofJsonItems items)
  | .object members => .mapping (ofJsonMembers members)

/-- The items of an array as generic data. -/
def ofJsonItems : List Json → List Data
  | [] => []
  | item :: rest => ofJson item :: ofJsonItems rest

/-- The members of an object as entries of a mapping. -/
def ofJsonMembers : List (String × Json) → List (Key × Data)
  | [] => []
  | (name, item) :: rest => (.string name, ofJson item) :: ofJsonMembers rest

end

/-- A YAML node as a key. -/
def keyOfYaml : Yaml → Key
  | .string s => .string s
  | .null => .other "null"
  | .bool _ => .other "bool"
  | .number _ => .other "number"
  | .sequence _ => .other "sequence"
  | .mapping _ => .other "mapping"
  | .tagged _ _ => .other "tagged value"

/-- Puts an entry at the end, or in the place of the first entry of the same
string key. -/
def putEntry (key : Key) (d : Data) : List (Key × Data) → List (Key × Data)
  | [] => [(key, d)]
  | (other, e) :: rest =>
      match key with
      | .string _ => if other = key then (other, d) :: rest else (other, e) :: putEntry key d rest
      | .other _ => (other, e) :: putEntry key d rest

/-- Entries put in one after another. -/
def distinctEntries (entries : List (Key × Data)) : List (Key × Data) :=
  entries.foldl (fun acc entry => putEntry entry.1 entry.2 acc) []

mutual

/-- A YAML tree as generic data. -/
def ofYaml : Yaml → Data
  | .null => .null
  | .bool b => .bool b
  | .number literal => .number literal
  | .string s => .string s
  | .sequence items => .sequence (ofYamlItems items)
  | .mapping entries => .mapping (distinctEntries (ofYamlEntries entries))
  | .tagged _ node => ofYaml node

/-- The items of a sequence as generic data. -/
def ofYamlItems : List Yaml → List Data
  | [] => []
  | item :: rest => ofYaml item :: ofYamlItems rest

/-- The entries of a mapping as generic entries. -/
def ofYamlEntries : List (Yaml × Yaml) → List (Key × Data)
  | [] => []
  | (key, item) :: rest => (keyOfYaml key, ofYaml item) :: ofYamlEntries rest

end

theorem ofJsonItems_eq_map
    (items : List Json) :
    ofJsonItems items = items.map ofJson := by
  induction items with
  | nil => rfl
  | cons item rest ih => simp [ofJsonItems, ih]

theorem ofJsonMembers_eq_map
    (members : List (String × Json)) :
    ofJsonMembers members = members.map fun member => (.string member.1, ofJson member.2) := by
  induction members with
  | nil => rfl
  | cons member rest ih => simp [ofJsonMembers, ih]

end Data
end TypedConfig
