import TypedConfig.Fields

/-!
# JSON trees

A JSON tree keeps the literal of each number and the order in which the members
of an object are put down.  Its canonical form has the members of every object
in the order of their names, the last of several members of one name taken;
that is the form of generic data.

The module holds the tree, its depth, its canonical form and its compact text.
Texts escape the quote, the backslash and the control characters below the
space, and nothing else.
-/

namespace TypedConfig

/-- A JSON tree. -/
inductive Json where
  | null
  | bool (b : Bool)
  | number (literal : String)
  | string (s : String)
  | array (items : List Json)
  | object (members : List (String × Json))
  deriving Inhabited

namespace Json

mutual

/-- The number of arrays and objects around the deepest node, its own
included. -/
def depth : Json → Nat
  | .array items => depthItems items + 1
  | .object members => depthMembers members + 1
  | _ => 0

/-- The depth of the deepest of the items of an array. -/
def depthItems : List Json → Nat
  | [] => 0
  | item :: rest => max item.depth (depthItems rest)

/-- The depth of the deepest of the members of an object. -/
def depthMembers : List (String × Json) → Nat
  | [] => 0
  | (_, item) :: rest => max item.depth (depthMembers rest)

end

mutual

/-- The tree with the members of every object by name, the last of equal names
taken. -/
def canonical : Json → Json
  | .array items => .array (canonicalItems items)
  | .object members => .object (Fields.ofList (canonicalMembers members))
  | j => j

/-- The items of an array, each in canonical form. -/
def canonicalItems : List Json → List Json
  | [] => []
  | item :: rest => item.canonical :: canonicalItems rest

/-- The members of an object, each in canonical form. -/
def canonicalMembers : List (String × Json) → List (String × Json)
  | [] => []
  | (name, item) :: rest => (name, item.canonical) :: canonicalMembers rest

end

mutual

/-- Whether the members of every object are in the order of their names, no
name twice. -/
def Canonical : Json → Prop
  | .array items => ItemsCanonical items
  | .object members => Fields.Sorted members ∧ MembersCanonical members
  | _ => True

/-- Whether all items are canonical. -/
def ItemsCanonical : List Json → Prop
  | [] => True
  | item :: rest => item.Canonical ∧ ItemsCanonical rest

/-- Whether all members are canonical. -/
def MembersCanonical : List (String × Json) → Prop
  | [] => True
  | (_, item) :: rest => item.Canonical ∧ MembersCanonical rest

end

/-- The digit of a number below sixteen. -/
def hexDigit (n : Nat) : Char :=
  "0123456789abcdef".toList.getD n '0'

/-- The text of one character inside a string. -/
def escapeChar (c : Char) : List Char :=
  match c with
  | '"' => ['\\', '"']
  | '\\' => ['\\', '\\']
  | '\x08' => ['\\', 'b']
  | '\x09' => ['\\', 't']
  | '\x0a' => ['\\', 'n']
  | '\x0c' => ['\\', 'f']
  | '\x0d' => ['\\', 'r']
  | c =>
      if c.toNat < 32 then
        ['\\', 'u', '0', '0', hexDigit (c.toNat / 16), hexDigit (c.toNat % 16)]
      else
        [c]

/-- A string between quotes. -/
def quote (s : String) : String :=
  "\"" ++ String.ofList (s.toList.flatMap escapeChar) ++ "\""

mutual

/-- The compact text of a tree. -/
def text : Json → String
  | .null => "null"
  | .bool true => "true"
  | .bool false => "false"
  | .number literal => literal
  | .string s => quote s
  | .array items => "[" ++ itemsText true items ++ "]"
  | .object members => "\x7b" ++ membersText true members ++ "\x7d"

/-- The texts of items, each but the first after a comma. -/
def itemsText (first : Bool) : List Json → String
  | [] => ""
  | item :: rest => (if first then "" else ",") ++ item.text ++ itemsText false rest

/-- The texts of members, each but the first after a comma. -/
def membersText (first : Bool) : List (String × Json) → String
  | [] => ""
  | (name, item) :: rest =>
      (if first then "" else ",") ++ quote name ++ ":" ++ item.text ++ membersText false rest

end

/-- The first member of a name, if the tree is an object that has one. -/
def member? (name : String) : Json → Option Json
  | .object members => Fields.get? name members
  | _ => none

theorem canonicalItems_eq_map
    (items : List Json) :
    canonicalItems items = items.map canonical := by
  induction items with
  | nil => rfl
  | cons item rest ih => simp [canonicalItems, ih]

theorem canonicalMembers_eq_map
    (members : List (String × Json)) :
    canonicalMembers members = members.map fun member => (member.1, member.2.canonical) := by
  induction members with
  | nil => rfl
  | cons member rest ih => simp [canonicalMembers, ih]

theorem membersCanonical_iff
    (members : List (String × Json)) :
    MembersCanonical members ↔ ∀ member ∈ members, member.2.Canonical := by
  induction members with
  | nil => simp [MembersCanonical]
  | cons member rest ih => simp [MembersCanonical, ih]

theorem depth_le_of_mem_members
    {name : String} {item : Json} {members : List (String × Json)}
    (h : (name, item) ∈ members) :
    item.depth ≤ depthMembers members := by
  induction members with
  | nil => simp at h
  | cons first rest ih =>
      rcases List.mem_cons.1 h with rfl | h
      · simp only [depthMembers]
        omega
      · have := ih h
        obtain ⟨key, other⟩ := first
        simp only [depthMembers]
        omega

end Json
end TypedConfig
