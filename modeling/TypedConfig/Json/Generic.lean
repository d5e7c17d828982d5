import TypedConfig.Json.Parser

/-!
# Generic data in JSON texts

Where a document has no structure of its own, its source is read as a JSON
tree.  The members of an object are put in the order of their names, the last
of equal names being taken; all strings have to be text, and arrays and objects
may nest to a limit.

An object whose first member has a reserved name stands for a number.  Its
content is a string that holds the literal and nothing else, and there is no
second member.

The main statements say that what is read is canonical, and that every canonical
tree in which the reserved name does not come first is read as itself.
-/

namespace TypedConfig

/-- Why a text is not a document of the expected structure. -/
inductive DocumentError where
  /-- The text is not well formed, or nests too deep. -/
  | malformed
  /-- The text is well formed but has another structure. -/
  | mismatch
  deriving DecidableEq

namespace Json

/-- The number of levels of arrays and objects that a text may have. -/
def maxLevels : Nat := 127

/-- The reserved name of the member that holds the literal of a number. -/
def numberName : String := "$serde_json::private::Number"

/-- The literal of a number that is a whole text. -/
def wholeLiteral? (text : String) : Option String :=
  match numberLiteral text.toList with
  | some (literal, []) => some (String.ofList literal)
  | _ => none

namespace Source

/-- What is wrong with a source of another form than is expected: a string has
to be text, whatever is expected. -/
def unfit : Source → DocumentError
  | .string none => .malformed
  | _ => .mismatch

/-- The content of the first member of an object and whether it is the only one,
if its name is the reserved one. -/
def reserved? : List (Option String × Source) → Option (Source × Bool)
  | (some name, item) :: rest =>
      if name = numberName then some (item, rest.isEmpty) else none
  | _ => none

/-- Reads the content of the reserved member as a number. -/
def readReserved (item : Source) (alone : Bool) : Except DocumentError Json :=
  match item with
  | .string (some text) =>
      match wholeLiteral? text with
      | none => .error .mismatch
      | some literal => if alone then .ok (.number literal) else .error .malformed
  | item => .error item.unfit

mutual

/-- Reads generic data, entering a number of levels at most. -/
def generic : Nat → Source → Except DocumentError Json
  | _, .null => .ok .null
  | _, .bool b => .ok (.bool b)
  | _, .number literal => .ok (.number literal)
  | _, .string (some s) => .ok (.string s)
  | _, .string none => .error .malformed
  | 0, .array _ => .error .malformed
  | 0, .object _ => .error .malformed
  | levels + 1, .array items => (genericItems levels items).map .array
  | levels + 1, .object members =>
      match reserved? members with
      | some (item, alone) => readReserved item alone
      | none => (genericMembers levels members).map fun read => .object (Fields.ofList read)

/-- Reads the items of an array as generic data. -/
def genericItems (levels : Nat) : List Source → Except DocumentError (List Json)
  | [] => .ok []
  | item :: rest =>
      match generic levels item with
      | .error e => .error e
      | .ok j => (genericItems levels rest).map (j :: ·)

/-- Reads the members of an object as generic data. -/
def genericMembers (levels : Nat) :
    List (Option String × Source) → Except DocumentError (List (String × Json))
  | [] => .ok []
  | (none, _) :: _ => .error .malformed
  | (some name, item) :: rest =>
      match generic levels item with
      | .error e => .error e
      | .ok j => (genericMembers levels rest).map ((name, j) :: ·)

end

end Source

/-- Reads a text as generic data. -/
def ofText (text : String) : Except DocumentError Json :=
  match parse? text with
  | none => .error .malformed
  | some j => j.generic maxLevels

mutual

/-- Whether in no object the reserved name comes first. -/
def Unreserved : Json → Prop
  | .array items => ItemsUnreserved items
  | .object members =>
      (∀ member ∈ members.head?, member.1 ≠ numberName) ∧ MembersUnreserved members
  | _ => True

/-- Whether that holds of all items of an array. -/
def ItemsUnreserved : List Json → Prop
  | [] => True
  | item :: rest => item.Unreserved ∧ ItemsUnreserved rest

/-- Whether that holds of all members of an object. -/
def MembersUnreserved : List (String × Json) → Prop
  | [] => True
  | (_, item) :: rest => item.Unreserved ∧ MembersUnreserved rest

end

namespace Source

theorem canonical_of_readReserved
    {item : Source} {alone : Bool} {j : Json} (h : readReserved item alone = .ok j) :
    j.Canonical := by
  unfold readReserved at h
  split at h
  · split at h
    · cases h
    · split at h
      · cases h
        trivial
      · cases h
  · cases h

mutual

/-- What is read as generic data is canonical. -/
theorem canonical_of_generic :
    ∀ (levels : Nat) (s : Source) {j : Json}, s.generic levels = .ok j → j.Canonical
  | _, .null, _, h | _, .bool _, _, h | _, .number _, _, h | _, .string (some _), _, h => by
      simp only [generic, Except.ok.injEq] at h
      subst h
      trivial
  | _, .string none, _, h => by simp [generic] at h
  | 0, .array _, _, h | 0, .object _, _, h => by simp [generic] at h
  | levels + 1, .array items, _, h => by
      simp only [generic] at h
      cases hitems : genericItems levels items with
      | error e =>
          rw [hitems] at h
          cases h
      | ok read =>
          rw [hitems] at h
          cases h
          exact canonical_of_genericItems levels items hitems
  | levels + 1, .object members, _, h => by
      simp only [generic] at h
      split at h
      · exact canonical_of_readReserved h
      · cases hmembers : genericMembers levels members with
        | error e =>
            rw [hmembers] at h
            cases h
        | ok read =>
            rw [hmembers] at h
            cases h
            have hread := canonical_of_genericMembers levels members hmembers
            refine ⟨Fields.sorted_ofList _, (membersCanonical_iff _).2 ?_⟩
            intro member hmem
            exact (membersCanonical_iff _).1 hread member (Fields.mem_of_mem_ofList hmem)

theorem canonical_of_genericItems :
    ∀ (levels : Nat) (items : List Source) {read : List Json},
      genericItems levels items = .ok read → ItemsCanonical read
  | _, [], _, h => by
      cases h
      trivial
  | levels, item :: rest, _, h => by
      simp only [genericItems] at h
      split at h
      · cases h
      · rename_i j hj
        cases hrest : genericItems levels rest with
        | error e =>
            rw [hrest] at h
            cases h
        | ok read =>
            rw [hrest] at h
            cases h
            exact ⟨canonical_of_generic levels item hj, canonical_of_genericItems levels rest hrest⟩

theorem canonical_of_genericMembers :
    ∀ (levels : Nat) (members : List (Option String × Source)) {read : List (String × Json)},
      genericMembers levels members = .ok read → MembersCanonical read
  | _, [], _, h => by
      cases h
      trivial
  | _, (none, _) :: _, _, h => by cases h
  | levels, (some name, item) :: rest, _, h => by
      simp only [genericMembers] at h
      split at h
      · cases h
      · rename_i j hj
        cases hrest : genericMembers levels rest with
        | error e =>
            rw [hrest] at h
            cases h
        | ok read =>
            rw [hrest] at h
            cases h
            exact ⟨canonical_of_generic levels item hj,
              canonical_of_genericMembers levels rest hrest⟩

end

theorem reserved?_memberSources
    {members : List (String × Json)} (h : ∀ member ∈ members.head?, member.1 ≠ numberName) :
    reserved? (memberSources members) = none := by
  cases members with
  | nil => rfl
  | cons member rest =>
      obtain ⟨name, item⟩ := member
      have hname : name ≠ numberName := h (name, item) rfl
      simp [memberSources, reserved?, hname]

mutual

/-- A canonical tree in which the reserved name does not come first is read as
itself. -/
theorem generic_source :
    ∀ (levels : Nat) (j : Json), j.Canonical → j.Unreserved → j.depth ≤ levels →
      j.source.generic levels = .ok j
  | _, .null, _, _, _ | _, .bool _, _, _, _ | _, .number _, _, _, _ | _, .string _, _, _, _ => by
      simp [source, generic]
  | 0, .array _, _, _, hd | 0, .object _, _, _, hd => by simp [depth] at hd
  | levels + 1, .array items, hc, hu, hd => by
      have hitems := genericItems_itemSources levels items hc hu (Nat.le_of_succ_le_succ hd)
      simp only [source, generic, hitems]
      rfl
  | levels + 1, .object members, hc, hu, hd => by
      have hmembers :=
        genericMembers_memberSources levels members hc.2 hu.2 (Nat.le_of_succ_le_succ hd)
      simp only [source, generic, reserved?_memberSources hu.1, hmembers]
      rw [Except.map, Fields.ofList_eq_self hc.1]

theorem genericItems_itemSources :
    ∀ (levels : Nat) (items : List Json), ItemsCanonical items → ItemsUnreserved items →
      depthItems items ≤ levels → genericItems levels (itemSources items) = .ok items
  | _, [], _, _, _ => rfl
  | levels, item :: rest, hc, hu, hd => by
      have hmax := Nat.max_le.1 hd
      have hitem := generic_source levels item hc.1 hu.1 hmax.1
      have hrest := genericItems_itemSources levels rest hc.2 hu.2 hmax.2
      simp only [itemSources, genericItems, hitem, hrest]
      rfl

theorem genericMembers_memberSources :
    ∀ (levels : Nat) (members : List (String × Json)), MembersCanonical members →
      MembersUnreserved members → depthMembers members ≤ levels →
      genericMembers levels (memberSources members) = .ok members
  | _, [], _, _, _ => rfl
  | levels, (name, item) :: rest, hc, hu, hd => by
      have hmax := Nat.max_le.1 hd
      have hitem := generic_source levels item hc.1 hu.1 hmax.1
      have hrest := genericMembers_memberSources levels rest hc.2 hu.2 hmax.2
      simp only [memberSources, genericMembers, hitem, hrest]
      rfl

end

end Source

/-- A text that is read as generic data is read as a canonical tree. -/
theorem canonical_of_ofText
    {text : String} {j : Json} (h : ofText text = .ok j) :
    j.Canonical := by
  unfold ofText at h
  split at h
  · cases h
  · rename_i s _
    exact Source.canonical_of_generic maxLevels s h

end Json
end TypedConfig
