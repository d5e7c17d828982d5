import TypedConfig.Value.Order

/-!
# Sets, maps and objects from their parts

A set keeps its elements in the order of values, each once, so that it does not
matter in which order and how often they were put in.  Maps and objects keep
their entries in the order of names; of two entries at one name the later one
is kept.

The main statements say that a set has the elements that it was made of, in
ascending order, and that ascending elements are kept as they are.  A value is
well formed if all its parts are kept in this way.
-/

namespace TypedConfig
namespace Value

/-- Puts an element at its place in an ordered list, unless it is there. -/
def insertElement (v : Value) : List Value → List Value
  | [] => [v]
  | w :: rest =>
      match v.compare w with
      | .lt => v :: w :: rest
      | .eq => w :: rest
      | .gt => w :: insertElement v rest

/-- The elements in order, each once. -/
def setElements (elements : List Value) : List Value :=
  elements.foldl (fun acc v => insertElement v acc) []

/-- The set of the given elements. -/
def setOf (element : Ty) (elements : List Value) : Value :=
  .set element (setElements elements)

/-- The map of the given entries, the later of two at one name winning. -/
def mapOf (element : Ty) (entries : List (String × Value)) : Value :=
  .map element (Fields.ofList entries)

/-- The object of the given attributes, the later of two of one name winning. -/
def objectOf (attributes : List (String × Value)) : Value :=
  .object (Fields.ofList attributes)

/-- A set has the elements that were put in. -/
theorem mem_insertElement
    (v w : Value) (elements : List Value) :
    w ∈ insertElement v elements ↔ w = v ∨ w ∈ elements := by
  induction elements with
  | nil => simp [insertElement]
  | cons x rest ih =>
      simp only [insertElement]
      split
      · simp
      · rename_i hcmp
        have hvx : v = x := (compare_eq_iff v x).1 hcmp
        simp [hvx]
      · simp only [List.mem_cons, ih]
        exact or_left_comm

theorem mem_foldl_insertElement
    (w : Value) (elements acc : List Value) :
    w ∈ elements.foldl (fun acc v => insertElement v acc) acc ↔ w ∈ acc ∨ w ∈ elements := by
  induction elements generalizing acc with
  | nil => simp
  | cons v rest ih =>
      simp only [List.foldl_cons, ih, mem_insertElement, List.mem_cons]
      constructor
      · rintro ((h | h) | h)
        · exact Or.inr (Or.inl h)
        · exact Or.inl h
        · exact Or.inr (Or.inr h)
      · rintro (h | h | h)
        · exact Or.inl (Or.inr h)
        · exact Or.inl (Or.inl h)
        · exact Or.inr h

/-- The elements of a set are those it was made of. -/
theorem mem_setElements
    (w : Value) (elements : List Value) :
    w ∈ setElements elements ↔ w ∈ elements := by
  simp [setElements, mem_foldl_insertElement]

/-- Elements in order, each once. -/
def Ascending (elements : List Value) : Prop :=
  elements.Pairwise fun a b => a.compare b = .lt

theorem ascending_insertElement
    (v : Value) {elements : List Value} (h : Ascending elements) :
    Ascending (insertElement v elements) := by
  induction elements with
  | nil => simp [insertElement, Ascending]
  | cons x rest ih =>
      have hrest : Ascending rest := (List.pairwise_cons.1 h).2
      have hhead := (List.pairwise_cons.1 h).1
      simp only [insertElement]
      split
      · rename_i hcmp
        refine List.pairwise_cons.2 ⟨?_, h⟩
        intro w hw
        rcases List.mem_cons.1 hw with rfl | hw
        · exact hcmp
        · exact compare_lt_trans _ _ _ hcmp (hhead w hw)
      · exact h
      · rename_i hcmp
        refine List.pairwise_cons.2 ⟨?_, ih hrest⟩
        intro w hw
        rcases (mem_insertElement v w rest).1 hw with rfl | hw
        · rw [compare_eq_swap, hcmp]
          rfl
        · exact hhead w hw

theorem ascending_setElements
    (elements : List Value) :
    Ascending (setElements elements) := by
  have hfold : ∀ acc, Ascending acc →
      Ascending (elements.foldl (fun acc v => insertElement v acc) acc) := by
    induction elements with
    | nil => exact fun acc h => h
    | cons v rest ih => exact fun acc h => ih _ (ascending_insertElement v h)
  exact hfold [] List.Pairwise.nil

/-- An element behind all others is put at the end. -/
theorem insertElement_eq_append
    {v : Value} {elements : List Value} (h : ∀ w ∈ elements, w.compare v = .lt) :
    insertElement v elements = elements ++ [v] := by
  induction elements with
  | nil => rfl
  | cons w rest ih =>
      have hgt : v.compare w = .gt := by
        rw [compare_eq_swap, h w List.mem_cons_self]
        rfl
      have hrest := ih fun x hx => h x (List.mem_cons_of_mem _ hx)
      simp [insertElement, hgt, hrest]

theorem foldl_insertElement_eq_append
    {acc elements : List Value} (h : Ascending (acc ++ elements)) :
    elements.foldl (fun acc v => insertElement v acc) acc = acc ++ elements := by
  induction elements generalizing acc with
  | nil => simp
  | cons v rest ih =>
      have hlast : ∀ w ∈ acc, w.compare v = .lt := fun w hw =>
        (List.pairwise_append.1 h).2.2 w hw v List.mem_cons_self
      have happend : acc ++ v :: rest = (acc ++ [v]) ++ rest := by simp
      rw [happend] at h ⊢
      rw [List.foldl_cons, insertElement_eq_append hlast, ih h]

/-- Elements that are in order already are the elements of their set. -/
theorem setElements_eq_self
    {elements : List Value} (h : Ascending elements) :
    setElements elements = elements :=
  foldl_insertElement_eq_append (show Ascending ([] ++ elements) from h)

mutual

/-- Whether in all parts of a value sets are ascending, entries are in the order
of their names and types are well formed. -/
def WellFormed : Value → Prop
  | .null t => t.WellFormed
  | .unknown t => t.WellFormed
  | .noValue | .bool _ | .number _ | .string _ => True
  | .list e elements => e.WellFormed ∧ AllWellFormed elements
  | .set e elements => e.WellFormed ∧ Ascending elements ∧ AllWellFormed elements
  | .map e entries => e.WellFormed ∧ Fields.Sorted entries ∧ EntriesWellFormed entries
  | .tuple elements => AllWellFormed elements
  | .object attributes => Fields.Sorted attributes ∧ EntriesWellFormed attributes

/-- Whether all elements are well formed. -/
def AllWellFormed : List Value → Prop
  | [] => True
  | v :: rest => v.WellFormed ∧ AllWellFormed rest

/-- Whether all entries are well formed. -/
def EntriesWellFormed : List (String × Value) → Prop
  | [] => True
  | (_, v) :: rest => v.WellFormed ∧ EntriesWellFormed rest

end

end Value
end TypedConfig
