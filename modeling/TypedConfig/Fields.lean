/-!
# Fields in the order of their names

Objects, maps and schemas keep their members as a list of names and contents,
ascending by name, with no name twice.  Names are ordered by code point.  The
operations below keep that order; reading a list of members into fields lets
the later of two members of one name win.

The main statements say that insertion keeps the order, which contents a name
has after it, and that members in order are read as they are.
-/

namespace TypedConfig

/-- Members by name. -/
abbrev Fields (α : Type) := List (String × α)

namespace Fields

variable {α β : Type}

/-- The contents of the first member of a name. -/
def get? (name : String) : Fields α → Option α
  | [] => none
  | (key, a) :: rest => if key = name then some a else get? name rest

/-- Whether there is a member of a name. -/
def contains (name : String) (fields : Fields α) : Bool :=
  (get? name fields).isSome

/-- Puts a member at its place; a member of the same name is replaced. -/
def insert (name : String) (a : α) : Fields α → Fields α
  | [] => [(name, a)]
  | (key, b) :: rest =>
      match compare name key with
      | .lt => (name, a) :: (key, b) :: rest
      | .eq => (name, a) :: rest
      | .gt => (key, b) :: insert name a rest

/-- Puts a name at its place in an ordered list of names, unless it is there. -/
def insertName (name : String) : List String → List String
  | [] => [name]
  | key :: rest =>
      match compare name key with
      | .lt => name :: key :: rest
      | .eq => key :: rest
      | .gt => key :: insertName name rest

/-- Puts members one after another, the later of two of one name winning. -/
def insertAll (fields : Fields α) (members : List (String × α)) : Fields α :=
  members.foldl (fun acc member => insert member.1 member.2 acc) fields

/-- The fields that hold the given members. -/
def ofList (members : List (String × α)) : Fields α :=
  insertAll [] members

/-- The names, in order. -/
def names (fields : Fields α) : List String :=
  fields.map Prod.fst

/-- The same names with other contents. -/
def mapValues (f : α → β) (fields : Fields α) : Fields β :=
  fields.map fun member => (member.1, f member.2)

/-- Each name is less than every later one. -/
def Sorted (fields : Fields α) : Prop :=
  fields.Pairwise fun a b => compare a.1 b.1 = .lt

@[simp] theorem get?_nil
    (name : String) :
    get? name ([] : Fields α) = none :=
  rfl

@[simp] theorem get?_cons_self
    (name : String) (a : α) (rest : Fields α) :
    get? name ((name, a) :: rest) = some a := by
  simp [get?]

theorem get?_cons_of_ne
    {key name : String} (h : key ≠ name) (a : α) (rest : Fields α) :
    get? name ((key, a) :: rest) = get? name rest := by
  simp [get?, h]

@[simp] theorem names_mapValues
    (f : α → β) (fields : Fields α) :
    names (mapValues f fields) = names fields := by
  simp [names, mapValues]

@[simp] theorem get?_mapValues
    (f : α → β) (name : String) (fields : Fields α) :
    get? name (mapValues f fields) = (get? name fields).map f := by
  induction fields with
  | nil => rfl
  | cons member rest ih =>
      by_cases h : member.1 = name
      · simp [mapValues, get?, h]
      · simpa [mapValues, get?, h] using ih

theorem get?_isSome_iff
    (name : String) (fields : Fields α) :
    (get? name fields).isSome = true ↔ name ∈ names fields := by
  induction fields with
  | nil => simp [names]
  | cons member rest ih =>
      by_cases h : member.1 = name
      · simp [get?, names, h]
      · have h' : ¬ name = member.1 := fun heq => h heq.symm
        simpa [get?, names, h, h'] using ih

/-- After an insertion the name has the new contents and every other name
what it had. -/
theorem get?_insert
    (name key : String) (a : α) (fields : Fields α) :
    get? name (insert key a fields) =
      if key = name then some a else get? name fields := by
  induction fields with
  | nil => simp [insert, get?]
  | cons member rest ih =>
      obtain ⟨k, b⟩ := member
      simp only [insert]
      split
      · simp [get?]
      · rename_i hcmp
        have hk : key = k := Std.LawfulEqOrd.eq_of_compare hcmp
        subst hk
        by_cases h : key = name <;> simp [get?, h]
      · by_cases h : k = name
        · subst h
          have hne : key ≠ k := by
            rintro rfl
            simp_all [Std.ReflOrd.compare_self]
          simp [get?, hne]
        · simp [get?, h, ih]

theorem mem_names_insert
    (name key : String) (a : α) (fields : Fields α) :
    name ∈ names (insert key a fields) ↔ name = key ∨ name ∈ names fields := by
  rw [← get?_isSome_iff, ← get?_isSome_iff, get?_insert]
  by_cases h : key = name
  · simp [h]
  · have h' : ¬ name = key := fun heq => h heq.symm
    simp [h, h']

theorem mem_insertName
    (name key : String) (names : List String) :
    name ∈ insertName key names ↔ name = key ∨ name ∈ names := by
  induction names with
  | nil => simp [insertName]
  | cons other rest ih =>
      simp only [insertName]
      split
      · simp
      · rename_i hcmp
        have hk : key = other := Std.LawfulEqOrd.eq_of_compare hcmp
        simp [hk]
      · simp only [List.mem_cons, ih]
        exact or_left_comm

theorem mem_of_mem_insert
    {name : String} {a : α} {member : String × α} {fields : Fields α}
    (h : member ∈ insert name a fields) :
    member = (name, a) ∨ member ∈ fields := by
  induction fields with
  | nil =>
      left
      simpa [insert] using h
  | cons first rest ih =>
      simp only [insert] at h
      split at h
      · simpa using h
      · rcases List.mem_cons.1 h with h | h
        · exact Or.inl h
        · exact Or.inr (List.mem_cons_of_mem _ h)
      · rcases List.mem_cons.1 h with rfl | h
        · exact Or.inr List.mem_cons_self
        · rcases ih h with h | h
          · exact Or.inl h
          · exact Or.inr (List.mem_cons_of_mem _ h)

theorem mem_of_mem_insertAll
    {member : String × α} {fields : Fields α} {members : List (String × α)}
    (h : member ∈ insertAll fields members) :
    member ∈ fields ∨ member ∈ members := by
  induction members generalizing fields with
  | nil => exact Or.inl h
  | cons first rest ih =>
      rcases ih h with h | h
      · rcases mem_of_mem_insert h with rfl | h
        · exact Or.inr List.mem_cons_self
        · exact Or.inl h
      · exact Or.inr (List.mem_cons_of_mem _ h)

/-- Fields hold only members that they were made of. -/
theorem mem_of_mem_ofList
    {member : String × α} {members : List (String × α)} (h : member ∈ ofList members) :
    member ∈ members := by
  rcases mem_of_mem_insertAll h with h | h
  · cases h
  · exact h

/-- Insertion keeps the names ascending. -/
theorem sorted_insert
    (name : String) (a : α) {fields : Fields α} (h : Sorted fields) :
    Sorted (insert name a fields) := by
  induction fields with
  | nil => simp [insert, Sorted]
  | cons member rest ih =>
      obtain ⟨key, b⟩ := member
      have hrest : Sorted rest := (List.pairwise_cons.1 h).2
      have hhead := (List.pairwise_cons.1 h).1
      simp only [insert]
      split
      · rename_i hcmp
        refine List.pairwise_cons.2 ⟨?_, h⟩
        intro other hother
        rcases List.mem_cons.1 hother with rfl | hother
        · exact hcmp
        · exact Std.TransCmp.lt_trans hcmp (hhead other hother)
      · rename_i hcmp
        have hk : name = key := Std.LawfulEqOrd.eq_of_compare hcmp
        subst hk
        exact List.pairwise_cons.2 ⟨hhead, hrest⟩
      · rename_i hcmp
        refine List.pairwise_cons.2 ⟨?_, ih hrest⟩
        intro other hother
        have hname : other.1 ∈ names (insert name a rest) :=
          List.mem_map.2 ⟨other, hother, rfl⟩
        rcases (mem_names_insert _ _ _ _).1 hname with heq | hmem
        · rw [heq]
          exact Std.OrientedCmp.lt_of_gt hcmp
        · obtain ⟨found, hfound, hfst⟩ := List.mem_map.1 hmem
          rw [← hfst]
          exact hhead found hfound

theorem sorted_insertAll
    (members : List (String × α)) {fields : Fields α} (h : Sorted fields) :
    Sorted (insertAll fields members) := by
  induction members generalizing fields with
  | nil => exact h
  | cons member rest ih => exact ih (sorted_insert _ _ h)

/-- Fields read from any members are in order. -/
theorem sorted_ofList
    (members : List (String × α)) :
    Sorted (ofList members) :=
  sorted_insertAll members List.Pairwise.nil

/-- A name behind all others is put at the end. -/
theorem insert_eq_append
    {name : String} (a : α) {fields : Fields α}
    (h : ∀ member ∈ fields, compare member.1 name = .lt) :
    insert name a fields = fields ++ [(name, a)] := by
  induction fields with
  | nil => rfl
  | cons member rest ih =>
      obtain ⟨key, b⟩ := member
      have hgt : compare name key = .gt :=
        Std.OrientedCmp.gt_of_lt (h (key, b) List.mem_cons_self)
      have hrest := ih fun other hother => h other (List.mem_cons_of_mem _ hother)
      simp [insert, hgt, hrest]

theorem insertAll_eq_append
    {fields : Fields α} {members : List (String × α)} (h : Sorted (fields ++ members)) :
    insertAll fields members = fields ++ members := by
  induction members generalizing fields with
  | nil => simp [insertAll]
  | cons member rest ih =>
      have hlast : ∀ other ∈ fields, compare other.1 member.1 = .lt := fun other hother =>
        (List.pairwise_append.1 h).2.2 other hother member List.mem_cons_self
      have happend : fields ++ member :: rest = (fields ++ [member]) ++ rest := by simp
      rw [happend] at h ⊢
      rw [← ih h]
      simp [insertAll, insert_eq_append _ hlast]

/-- Members that are in order already are the fields that hold them. -/
theorem ofList_eq_self
    {members : List (String × α)} (h : Sorted members) :
    ofList members = members := by
  simpa [ofList] using insertAll_eq_append (show Sorted ([] ++ members) from h)

end Fields
end TypedConfig
