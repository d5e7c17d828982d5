import TypedConfig.Proofs.Data.Inhabitation
import TypedConfig.Proofs.Decimal.Numeral

/-!
# The failures of reading

A node is read by reading its parts in order.  It fails with the failure of the
first part that fails or else, when all the parts that are visited have been read,
because it does not fit by itself.  The main statement follows a failure down: its
path leads to a node that is at fault, and whatever was completed before inhabits
its type.  A number whose reading leaves the range of 64-bit integers is a fault of its
own, for which nothing is returned.
-/

namespace TypedConfig

namespace Ty

/-- The types that are wanted of the items of a sequence, where a sequence of the
length is wanted. -/
def itemTypes (want : Ty) (length : Nat) : List Ty :=
  match want with
  | .list e | .set e => List.replicate length e
  | .tuple types => if length = types.length then types else []
  | .dynamic => List.replicate length .dynamic
  | _ => []

/-- The step to the content of an entry of a mapping, and the type that is wanted
there, where an entry of the key is wanted. -/
def wantedAt? (want : Ty) (key : Key) : Option (PathStep × Ty) :=
  match key with
  | .other _ => none
  | .string name =>
      match want with
      | .map e => some (.key name, e)
      | .object wants _ => (Fields.get? name wants).map fun t => (.attribute name, t)
      | .dynamic => some (.attribute name, .dynamic)
      | _ => none

/-- Whether data of the kind may be of the type. -/
def Takes (want : Ty) : Data → Prop
  | .null => True
  | .bool _ => want = .bool ∨ want = .dynamic
  | .number _ => want = .number ∨ want = .dynamic
  | .string _ => want = .string ∨ want = .dynamic
  | .sequence _ =>
      (∃ e, want = .list e ∨ want = .set e) ∨ (∃ types, want = .tuple types) ∨ want = .dynamic
  | .mapping _ =>
      (∃ e, want = .map e) ∨ (∃ wants optional, want = .object wants optional) ∨ want = .dynamic

end Ty

/-- What is wrong with a key that is not wanted. -/
def Key.rejection : Key → TypingCause
  | .string name => .unexpectedAttribute name
  | .other kind => .nonStringKey kind

/-- Whether data is not of a type by itself, whatever its parts are. -/
inductive Data.Misfit : Ty → Data → TypingCause → Prop where
  | mismatch {want : Ty} {d : Data} (hkind : ¬ want.Takes d) :
      Misfit want d (.mismatch want d.kind)
  | inexactNumber {want : Ty} {literal : String} (hkind : want.Takes (.number literal))
      (hparse : ∀ n, Decimal.parse literal ≠ .ok n)
      (hexponent : ¬ Decimal.HasLeastExponent literal) :
      Misfit want (.number literal) (.inexactNumber literal)
  | overflow {want : Ty} {literal : String} (hkind : want.Takes (.number literal))
      (hexponent : Decimal.HasLeastExponent literal) :
      Misfit want (.number literal) (.overflow literal)
  | tupleLength {types : List Ty} {items : List Data} (hlength : items.length ≠ types.length) :
      Misfit (.tuple types) (.sequence items) (.tupleLength types.length items.length)
  | unwantedKey {want : Ty} {before after : List (Key × Data)} {key : Key} {item : Data}
      (hkind : want.Takes (.mapping (before ++ (key, item) :: after)))
      (hbefore : ∀ entry ∈ before, want.wantedAt? entry.1 ≠ none)
      (hkey : want.wantedAt? key = none) :
      Misfit want (.mapping (before ++ (key, item) :: after)) key.rejection
  /-- All keys are wanted, and this is the first of the names that none of them is. -/
  | missingAttribute {wants : Fields Ty} {optional : List String} {entries : List (Key × Data)}
      {before after : List String} {name : String}
      (hkeys : ∀ entry ∈ entries, (Ty.object wants optional).wantedAt? entry.1 ≠ none)
      (hnames : Fields.names wants = before ++ name :: after)
      (hbefore : ∀ other ∈ before, ∃ entry ∈ entries, entry.1 = .string other)
      (hmissing : ∀ entry ∈ entries, entry.1 ≠ .string name) :
      Misfit (.object wants optional) (.mapping entries) (.missingAttribute name)

/-- A node of data that is visited: where it stands, and what is wanted there. -/
structure Visit where
  depth : Nat
  want : Ty
  data : Data

namespace Visit

/-- The items of a sequence, counted from a number on, each to be visited as its own
type. -/
def ofItems (depth : Nat) : Nat → List Ty → List Data → List (PathStep × Visit)
  | i, want :: wants, item :: items =>
      (.index i, ⟨depth, want, item⟩) :: ofItems depth (i + 1) wants items
  | _, _, _ => []

/-- The contents of the entries of a mapping up to the first key that is not wanted. -/
def ofEntries (depth : Nat) (wantedAt? : Key → Option (PathStep × Ty)) :
    List (Key × Data) → List (PathStep × Visit)
  | [] => []
  | (key, item) :: rest =>
      match wantedAt? key with
      | none => []
      | some (step, want) => (step, ⟨depth, want, item⟩) :: ofEntries depth wantedAt? rest

/-- The parts of a node in the order in which they are visited, with the steps that
lead to them.  A node that is too deep is not looked into. -/
def parts (node : Visit) : List (PathStep × Visit) :=
  if maxDepth < node.depth then
    []
  else
    match node.data with
    | .sequence items => ofItems (node.depth + 1) 0 (node.want.itemTypes items.length) items
    | .mapping entries => ofEntries (node.depth + 1) node.want.wantedAt? entries
    | _ => []

/-- What a node is read as. -/
def outcome (node : Visit) : Except TypingError Value :=
  Value.ofDataAt node.depth node.want node.data

/-- Whether a node itself is the cause of a failure. -/
inductive Fault (node : Visit) : TypingCause → Prop where
  | depthExceeded (hdepth : maxDepth < node.depth) : Fault node .depthExceeded
  | misfit {cause : TypingCause} (hdepth : node.depth ≤ maxDepth)
      (hmisfit : Data.Misfit node.want node.data cause) : Fault node cause

/-- A path leads from a node down to another one.  The visits of the listed nodes are
completed when the latter is found at fault. -/
inductive LeadsTo : Visit → Path → Visit → List Visit → Prop where
  | here {node : Visit} : LeadsTo node [] node (node.parts.map Prod.snd)
  | inside {node part target : Visit} {step : PathStep} {before after : List (PathStep × Visit)}
      {path : Path} {completed : List Visit}
      (hparts : node.parts = before ++ (step, part) :: after)
      (hrest : LeadsTo part path target completed) :
      LeadsTo node (step :: path) target (before.map Prod.snd ++ completed)

-- The equations are derived here once, before the proofs that all unfold them.
attribute [local simp] Value.ofDataAt

section FirstFailure

/-- The failure of the first part that fails, seen from the whole. -/
def firstFailure (parts : List (PathStep × Visit)) : Option TypingError :=
  parts.findSome? fun part =>
    match part.2.outcome with
    | .error e => some (e.under part.1)
    | .ok _ => none

variable {parts : List (PathStep × Visit)}

@[simp] theorem firstFailure_nil :
    firstFailure [] = none :=
  rfl

theorem firstFailure_cons_of_error
    {step : PathStep} {depth : Nat} {want : Ty} {d : Data} {e : TypingError}
    (h : Value.ofDataAt depth want d = .error e) :
    firstFailure ((step, ⟨depth, want, d⟩) :: parts) = some (e.under step) := by
  simp [firstFailure, outcome, h]

theorem firstFailure_cons_of_ok
    {step : PathStep} {depth : Nat} {want : Ty} {d : Data} {v : Value}
    (h : Value.ofDataAt depth want d = .ok v) :
    firstFailure ((step, ⟨depth, want, d⟩) :: parts) = firstFailure parts := by
  simp [firstFailure, outcome, h]

theorem firstFailure_eq_none_iff :
    firstFailure parts = none ↔ ∀ part ∈ parts, ∃ v, part.2.outcome = .ok v := by
  rw [firstFailure, List.findSome?_eq_none_iff]
  refine forall₂_congr fun part _ => ?_
  cases part.2.outcome <;> simp

theorem firstFailure_eq_some_iff
    {e : TypingError} :
    firstFailure parts = some e ↔
      ∃ before step part after e', parts = before ++ (step, part) :: after ∧
        (∀ other ∈ before, ∃ v, other.2.outcome = .ok v) ∧
          part.outcome = .error e' ∧ e'.under step = e := by
  simp only [← firstFailure_eq_none_iff]
  rw [firstFailure, List.findSome?_eq_some_iff]
  constructor
  · rintro ⟨before, ⟨step, part⟩, after, hsplit, hpart, hbefore⟩
    cases houtcome : part.outcome with
    | ok v => simp [houtcome] at hpart
    | error e' =>
        simp only [houtcome, Option.some.injEq] at hpart
        exact ⟨before, step, part, after, e', hsplit, List.findSome?_eq_none_iff.2 hbefore,
          houtcome, hpart⟩
  · rintro ⟨before, step, part, after, e', hsplit, hbefore, houtcome, rfl⟩
    refine ⟨before, (step, part), after, hsplit, ?_, List.findSome?_eq_none_iff.1 hbefore⟩
    simp [houtcome]

end FirstFailure

section Traversals

variable {depth : Nat} {e : TypingError}

theorem ofTupleItems_eq_error_iff
    {types : List Ty} {i : Nat} {items : List Data} :
    Value.ofTupleItems depth i types items = .error e ↔
      firstFailure (ofItems depth i types items) = some e := by
  induction types generalizing i items with
  | nil => simp [Value.ofTupleItems, ofItems]
  | cons want wants ih =>
      cases items with
      | nil => simp [Value.ofTupleItems, ofItems]
      | cons item items =>
          rw [Value.ofTupleItems, ofItems]
          cases hitem : Value.ofDataAt depth want item with
          | error e' => simp [firstFailure_cons_of_error hitem]
          | ok v =>
              rw [firstFailure_cons_of_ok hitem, ← ih]
              exact map_eq_error_iff

/-- Items of one type are read as those of a tuple in which it is repeated. -/
theorem ofItems_eq_ofTupleItems
    (want : Ty) (i : Nat) (items : List Data) :
    Value.ofItems depth want i items =
      Value.ofTupleItems depth i (List.replicate items.length want) items := by
  induction items generalizing i with
  | nil => rfl
  | cons item items ih =>
      rw [Value.ofItems, List.length_cons, List.replicate_succ, Value.ofTupleItems, ih]

theorem ofItems_eq_error_iff
    {want : Ty} {i : Nat} {items : List Data} :
    Value.ofItems depth want i items = .error e ↔
      firstFailure (ofItems depth i (List.replicate items.length want) items) = some e := by
  rw [ofItems_eq_ofTupleItems, ofTupleItems_eq_error_iff]

/-- The failure of reading entries one after the other: that of the first content
that fails, or else that of the first key that is not wanted. -/
def entriesFailure? (depth : Nat) (wantedAt? : Key → Option (PathStep × Ty))
    (entries : List (Key × Data)) : Option TypingError :=
  (firstFailure (ofEntries depth wantedAt? entries)).or
    ((entries.find? fun entry => (wantedAt? entry.1).isNone).map fun entry =>
      .here entry.1.rejection)

variable {wantedAt? : Key → Option (PathStep × Ty)} {entries rest : List (Key × Data)} {key : Key}
  {item : Data}

theorem ofEntries_eq_nil
    (h : ∀ key, wantedAt? key = none) :
    ofEntries depth wantedAt? entries = [] := by
  cases entries with
  | nil => rfl
  | cons entry rest => rw [ofEntries, h]

theorem entriesFailure?_cons_of_unwanted
    (hkey : wantedAt? key = none) :
    entriesFailure? depth wantedAt? ((key, item) :: rest) = some (.here key.rejection) := by
  simp [entriesFailure?, ofEntries, hkey]

theorem entriesFailure?_cons_of_error
    {step : PathStep} {want : Ty} (hkey : wantedAt? key = some (step, want))
    (hitem : Value.ofDataAt depth want item = .error e) :
    entriesFailure? depth wantedAt? ((key, item) :: rest) = some (e.under step) := by
  simp [entriesFailure?, ofEntries, hkey, firstFailure_cons_of_error hitem]

theorem entriesFailure?_cons_of_ok
    {step : PathStep} {want : Ty} {v : Value} (hkey : wantedAt? key = some (step, want))
    (hitem : Value.ofDataAt depth want item = .ok v) :
    entriesFailure? depth wantedAt? ((key, item) :: rest) =
      entriesFailure? depth wantedAt? rest := by
  simp [entriesFailure?, ofEntries, hkey, firstFailure_cons_of_ok hitem]

theorem entriesFailure?_eq_some_iff :
    entriesFailure? depth wantedAt? entries = some e ↔
      firstFailure (ofEntries depth wantedAt? entries) = some e ∨
        firstFailure (ofEntries depth wantedAt? entries) = none ∧
          ∃ entry, (entries.find? fun entry => (wantedAt? entry.1).isNone) = some entry ∧
            .here entry.1.rejection = e := by
  rw [entriesFailure?, Option.or_eq_some_iff, Option.map_eq_some_iff]

theorem ofEntries_eq_error_iff
    {step : String → PathStep} {want : Ty} {read : Fields Value}
    (hstring : ∀ name, wantedAt? (.string name) = some (step name, want))
    (hother : ∀ kind, wantedAt? (.other kind) = none) :
    Value.ofEntries depth step want read entries = .error e ↔
      entriesFailure? depth wantedAt? entries = some e := by
  induction entries generalizing read with
  | nil => simp [Value.ofEntries, entriesFailure?, ofEntries]
  | cons entry rest ih =>
      obtain ⟨key, item⟩ := entry
      cases key with
      | other kind =>
          rw [Value.ofEntries, entriesFailure?_cons_of_unwanted (hother kind)]
          simp [Key.rejection]
      | string name =>
          rw [Value.ofEntries]
          cases hitem : Value.ofDataAt depth want item with
          | error e' => simp [entriesFailure?_cons_of_error (hstring name) hitem]
          | ok v => simp [entriesFailure?_cons_of_ok (hstring name) hitem, ih]

theorem ofAttributes_eq_error_iff
    {wants : Fields Ty} (optional : List String) {read : Fields Value} :
    Value.ofAttributes depth wants read entries = .error e ↔
      entriesFailure? depth (Ty.object wants optional).wantedAt? entries = some e := by
  induction entries generalizing read with
  | nil => simp [Value.ofAttributes, entriesFailure?, ofEntries]
  | cons entry rest ih =>
      obtain ⟨key, item⟩ := entry
      cases key with
      | other kind =>
          rw [Value.ofAttributes, entriesFailure?_cons_of_unwanted rfl]
          simp [Key.rejection]
      | string name =>
          rw [Value.ofAttributes]
          cases hwant : Fields.get? name wants with
          | none =>
              have hkey : (Ty.object wants optional).wantedAt? (.string name) = none := by
                simp [Ty.wantedAt?, hwant]
              rw [entriesFailure?_cons_of_unwanted hkey]
              simp [Key.rejection]
          | some want =>
              have hkey : (Ty.object wants optional).wantedAt? (.string name) =
                  some (.attribute name, want) := by
                simp [Ty.wantedAt?, hwant]
              cases hitem : Value.ofDataAt depth want item with
              | error e' => simp [hitem, entriesFailure?_cons_of_error hkey hitem]
              | ok v => simp [hitem, entriesFailure?_cons_of_ok hkey hitem, ih]

end Traversals

section Faults

open Data (Misfit)

variable {want : Ty} {cause : TypingCause}

theorem not_misfit_null :
    ¬ Misfit want .null cause := by
  rintro ⟨hkind⟩
  exact hkind trivial

theorem misfit_bool_iff
    {b : Bool} :
    Misfit want (.bool b) cause ↔
      ¬ want.Takes (.bool b) ∧ .mismatch want "bool" = cause := by
  constructor
  · rintro ⟨hkind⟩
    exact ⟨hkind, rfl⟩
  · rintro ⟨hkind, rfl⟩
    exact .mismatch hkind

theorem misfit_number_iff
    {literal : String} :
    Misfit want (.number literal) cause ↔
      ¬ want.Takes (.number literal) ∧ .mismatch want "number" = cause ∨
        want.Takes (.number literal) ∧
          ((∀ n, Decimal.parse literal ≠ .ok n) ∧ ¬ Decimal.HasLeastExponent literal ∧
              .inexactNumber literal = cause ∨
            Decimal.HasLeastExponent literal ∧ .overflow literal = cause) := by
  constructor
  · intro h
    cases h with
    | mismatch hkind => exact Or.inl ⟨hkind, rfl⟩
    | inexactNumber hkind hparse hexponent =>
        exact Or.inr ⟨hkind, Or.inl ⟨hparse, hexponent, rfl⟩⟩
    | overflow hkind hexponent => exact Or.inr ⟨hkind, Or.inr ⟨hexponent, rfl⟩⟩
  · rintro (⟨hkind, rfl⟩ | ⟨hkind, ⟨hparse, hexponent, rfl⟩ | ⟨hexponent, rfl⟩⟩)
    · exact .mismatch hkind
    · exact .inexactNumber hkind hparse hexponent
    · exact .overflow hkind hexponent

theorem misfit_string_iff
    {s : String} :
    Misfit want (.string s) cause ↔
      ¬ want.Takes (.string s) ∧ .mismatch want "string" = cause := by
  constructor
  · rintro ⟨hkind⟩
    exact ⟨hkind, rfl⟩
  · rintro ⟨hkind, rfl⟩
    exact .mismatch hkind

theorem misfit_sequence_iff
    {items : List Data} :
    Misfit want (.sequence items) cause ↔
      ¬ want.Takes (.sequence items) ∧ .mismatch want "sequence" = cause ∨
        ∃ types, want = .tuple types ∧ items.length ≠ types.length ∧
          .tupleLength types.length items.length = cause := by
  constructor
  · intro h
    cases h with
    | mismatch hkind => exact Or.inl ⟨hkind, rfl⟩
    | tupleLength hlength => exact Or.inr ⟨_, rfl, hlength, rfl⟩
  · rintro (⟨hkind, rfl⟩ | ⟨types, rfl, hlength, rfl⟩)
    · exact .mismatch hkind
    · exact .tupleLength hlength

/-- What makes a mapping a misfit: its kind, the first key that is not wanted, or
else the first name that it does not have. -/
theorem misfit_mapping_iff
    {entries : List (Key × Data)} :
    Misfit want (.mapping entries) cause ↔
      ¬ want.Takes (.mapping entries) ∧ .mismatch want "mapping" = cause ∨
        want.Takes (.mapping entries) ∧
          (∃ entry, (entries.find? fun entry => (want.wantedAt? entry.1).isNone) = some entry ∧
            entry.1.rejection = cause) ∨
        (entries.find? fun entry => (want.wantedAt? entry.1).isNone) = none ∧
          ∃ wants optional name, want = .object wants optional ∧
            ((Fields.names wants).find? fun name =>
              !entries.any fun entry => entry.1 = .string name) = some name ∧
            .missingAttribute name = cause := by
  constructor
  · intro h
    cases h with
    | mismatch hkind => exact Or.inl ⟨hkind, rfl⟩
    | @unwantedKey _ before after key item hkind hbefore hkey =>
        refine Or.inr (Or.inl ⟨hkind, (key, item), ?_, rfl⟩)
        rw [List.find?_eq_some_iff_append]
        exact ⟨by simp [hkey], before, after, rfl,
          by simpa [Option.isSome_iff_ne_none] using hbefore⟩
    | @missingAttribute wants optional _ before after name hkeys hnames hbefore hmissing =>
        refine Or.inr (Or.inr ⟨?_, wants, optional, name, rfl, ?_, rfl⟩)
        · simpa [Option.isSome_iff_ne_none] using hkeys
        · rw [List.find?_eq_some_iff_append]
          exact ⟨by simpa using hmissing, before, after, hnames, by simpa using hbefore⟩
  · rintro (⟨hkind, rfl⟩ | ⟨hkind, ⟨key, item⟩, hfind, rfl⟩ |
      ⟨hfind, wants, optional, name, rfl, hname, rfl⟩)
    · exact .mismatch hkind
    · obtain ⟨hkey, before, after, rfl, hbefore⟩ := List.find?_eq_some_iff_append.1 hfind
      exact .unwantedKey hkind (by simpa [Option.isSome_iff_ne_none] using hbefore)
        (by simpa using hkey)
    · obtain ⟨hmissing, before, after, hnames, hbefore⟩ := List.find?_eq_some_iff_append.1 hname
      refine .missingAttribute ?_ hnames (by simpa using hbefore) (by simpa using hmissing)
      simpa [Option.isSome_iff_ne_none] using hfind

end Faults

section Nodes

open Data (Misfit)

variable {depth : Nat} {want : Ty} {e : TypingError}

theorem within_eq_of_le
    (hdepth : depth ≤ maxDepth) (result : Except TypingError Value) :
    Value.within depth result = result :=
  if_neg (Nat.not_lt.2 hdepth)

theorem ofBool_eq_error_iff
    {b : Bool} :
    Value.ofBool want b = .error e ↔
      ∃ cause, Misfit want (.bool b) cause ∧ .here cause = e := by
  simp only [misfit_bool_iff]
  cases want <;> simp [Value.ofBool, Ty.Takes]

theorem ofString_eq_error_iff
    {s : String} :
    Value.ofString want s = .error e ↔
      ∃ cause, Misfit want (.string s) cause ∧ .here cause = e := by
  simp only [misfit_string_iff]
  cases want <;> simp [Value.ofString, Ty.Takes]

theorem ofLiteral_eq_error_iff
    {literal : String} :
    Value.ofLiteral literal = .error e ↔
      (∀ n, Decimal.parse literal ≠ .ok n) ∧ ¬ Decimal.HasLeastExponent literal ∧
          .here (.inexactNumber literal) = e ∨
        Decimal.HasLeastExponent literal ∧ .here (.overflow literal) = e := by
  unfold Value.ofLiteral
  rw [← Decimal.parse_eq_overflow_iff]
  rcases Decimal.parse_outcome literal with ⟨n, -, -, hparse⟩ | ⟨-, hparse⟩ | hparse
  · simp [hparse]
  · simp [hparse]
  · simp [hparse]

theorem ofNumber_eq_error_iff
    {literal : String} :
    Value.ofNumber want literal = .error e ↔
      ∃ cause, Misfit want (.number literal) cause ∧ .here cause = e := by
  simp only [misfit_number_iff]
  cases want <;>
    simp [Value.ofNumber, Ty.Takes, ofLiteral_eq_error_iff, or_and_right, exists_or, and_assoc]

/-- A sequence fails with its first item that fails, or else by itself. -/
theorem ofDataAt_sequence_eq_error_iff
    {items : List Data} (hdepth : depth ≤ maxDepth) :
    Value.ofDataAt depth want (.sequence items) = .error e ↔
      firstFailure (ofItems (depth + 1) 0 (want.itemTypes items.length) items) = some e ∨
        firstFailure (ofItems (depth + 1) 0 (want.itemTypes items.length) items) = none ∧
          ∃ cause, Misfit want (.sequence items) cause ∧ .here cause = e := by
  simp only [misfit_sequence_iff]
  cases want with
  | list t =>
      simp [within_eq_of_le hdepth, map_eq_error_iff, ofItems_eq_error_iff, Ty.itemTypes, Ty.Takes]
  | set t =>
      simp [within_eq_of_le hdepth, map_eq_error_iff, ofItems_eq_error_iff, Ty.itemTypes, Ty.Takes]
  | dynamic =>
      simp [within_eq_of_le hdepth, map_eq_error_iff, ofItems_eq_error_iff, Ty.itemTypes, Ty.Takes]
  | tuple types =>
      by_cases hlength : items.length = types.length
      · simp [within_eq_of_le hdepth, hlength, map_eq_error_iff, ofTupleItems_eq_error_iff,
          Ty.itemTypes, Ty.Takes]
      · simp [within_eq_of_le hdepth, hlength, ofItems, Ty.itemTypes, Ty.Takes]
  | _ => simp [within_eq_of_le hdepth, ofItems, Ty.itemTypes, Ty.Takes]

/-- The attributes that are read are those whose names are keys of entries. -/
theorem contains_of_ofAttributes
    {wants : Fields Ty} {entries : List (Key × Data)} {read : Fields Value}
    (h : Value.ofAttributes depth wants [] entries = .ok read) (name : String) :
    Fields.contains name read = entries.any fun entry => entry.1 = .string name := by
  obtain ⟨members, hmembers, rfl⟩ := Value.ofAttributes_eq_ok_iff.1 h
  rw [Bool.eq_iff_iff, Fields.contains, Fields.get?_isSome_iff,
    Value.mem_names_of_readAsMember_iff hmembers]
  simp

theorem objectOfEntries_eq_error_iff
    {wants : Fields Ty} {read : Fields Value} :
    Value.objectOfEntries wants read = .error e ↔
      ∃ name, ((Fields.names wants).find? fun name => !Fields.contains name read) = some name ∧
        .here (.missingAttribute name) = e := by
  unfold Value.objectOfEntries
  cases (Fields.names wants).find? fun name => !Fields.contains name read <;> simp

/-- An object fails with its attributes or else with the first name that is missing. -/
theorem ofDataAt_object_eq_error_iff
    {wants : Fields Ty} {optional : List String} {entries : List (Key × Data)}
    (hdepth : depth ≤ maxDepth) :
    Value.ofDataAt depth (.object wants optional) (.mapping entries) = .error e ↔
      entriesFailure? (depth + 1) (Ty.object wants optional).wantedAt? entries = some e ∨
        entriesFailure? (depth + 1) (Ty.object wants optional).wantedAt? entries = none ∧
          ∃ name, ((Fields.names wants).find? fun name =>
            !entries.any fun entry => entry.1 = .string name) = some name ∧
              .here (.missingAttribute name) = e := by
  simp only [Value.ofDataAt, within_eq_of_le hdepth]
  cases hread : Value.ofAttributes (depth + 1) wants [] entries with
  | error e' =>
      have hsome := (ofAttributes_eq_error_iff optional).1 hread
      simp [hsome]
  | ok read =>
      have hnone :
          entriesFailure? (depth + 1) (Ty.object wants optional).wantedAt? entries = none := by
        rw [Option.eq_none_iff_forall_ne_some]
        intro e' he'
        rw [← ofAttributes_eq_error_iff optional, hread] at he'
        cases he'
      simp [hnone, objectOfEntries_eq_error_iff, contains_of_ofAttributes hread]

/-- A mapping fails with its first content that fails before a key that is not
wanted, or else by itself. -/
theorem ofDataAt_mapping_eq_error_iff
    {entries : List (Key × Data)} (hdepth : depth ≤ maxDepth) :
    Value.ofDataAt depth want (.mapping entries) = .error e ↔
      firstFailure (ofEntries (depth + 1) want.wantedAt? entries) = some e ∨
        firstFailure (ofEntries (depth + 1) want.wantedAt? entries) = none ∧
          ∃ cause, Misfit want (.mapping entries) cause ∧ .here cause = e := by
  simp only [misfit_mapping_iff]
  cases want with
  | map t =>
      have hentries : Value.ofDataAt depth (.map t) (.mapping entries) = .error e ↔
          entriesFailure? (depth + 1) (Ty.map t).wantedAt? entries = some e := by
        simp only [Value.ofDataAt, within_eq_of_le hdepth, map_eq_error_iff]
        exact ofEntries_eq_error_iff (fun _ => rfl) fun _ => rfl
      rw [hentries, entriesFailure?_eq_some_iff]
      simp [Ty.Takes]
  | dynamic =>
      have hentries : Value.ofDataAt depth .dynamic (.mapping entries) = .error e ↔
          entriesFailure? (depth + 1) Ty.dynamic.wantedAt? entries = some e := by
        simp only [Value.ofDataAt, within_eq_of_le hdepth, map_eq_error_iff]
        exact ofEntries_eq_error_iff (fun _ => rfl) fun _ => rfl
      rw [hentries, entriesFailure?_eq_some_iff]
      simp [Ty.Takes]
  | object wants optional =>
      rw [ofDataAt_object_eq_error_iff hdepth, entriesFailure?]
      cases firstFailure (ofEntries (depth + 1) (Ty.object wants optional).wantedAt? entries) with
      | some e' => simp
      | none =>
          cases entries.find? fun entry => ((Ty.object wants optional).wantedAt? entry.1).isNone <;>
            simp [Ty.Takes]
  | _ =>
      rw [ofEntries_eq_nil fun key => by cases key <;> rfl]
      simp [within_eq_of_le hdepth, Ty.Takes]

theorem fault_iff_of_lt
    {node : Visit} (hdeep : maxDepth < node.depth) {cause : TypingCause} :
    node.Fault cause ↔ .depthExceeded = cause := by
  constructor
  · rintro (_ | ⟨hdepth, -⟩)
    · rfl
    · exact absurd hdepth (Nat.not_le.2 hdeep)
  · rintro rfl
    exact .depthExceeded hdeep

theorem fault_iff_of_le
    {node : Visit} (hdepth : node.depth ≤ maxDepth) {cause : TypingCause} :
    node.Fault cause ↔ Misfit node.want node.data cause := by
  constructor
  · rintro (hdeep | ⟨-, hmisfit⟩)
    · exact absurd hdepth (Nat.not_le.2 hdeep)
    · exact hmisfit
  · exact .misfit hdepth

theorem outcome_of_lt
    {node : Visit} (hdeep : maxDepth < node.depth) :
    node.outcome = .error (.here .depthExceeded) := by
  obtain ⟨depth, want, data⟩ := node
  cases data <;> exact if_pos hdeep

/-- A node fails with its first part that fails, or else by its own fault. -/
theorem outcome_eq_error_iff
    {node : Visit} :
    node.outcome = .error e ↔
      firstFailure node.parts = some e ∨
        firstFailure node.parts = none ∧ ∃ cause, node.Fault cause ∧ .here cause = e := by
  rcases Nat.lt_or_ge maxDepth node.depth with hdeep | hdepth
  · have hparts : node.parts = [] := if_pos hdeep
    simp [outcome_of_lt hdeep, fault_iff_of_lt hdeep, hparts]
  · obtain ⟨depth, want, data⟩ := node
    simp only [fault_iff_of_le hdepth, outcome, parts, if_neg (Nat.not_lt.2 hdepth)]
    cases data with
    | null => simp [within_eq_of_le hdepth, not_misfit_null]
    | bool b => simp [within_eq_of_le hdepth, ofBool_eq_error_iff]
    | number literal => simp [within_eq_of_le hdepth, ofNumber_eq_error_iff]
    | string s => simp [within_eq_of_le hdepth, ofString_eq_error_iff]
    | sequence items => exact ofDataAt_sequence_eq_error_iff hdepth
    | mapping entries => exact ofDataAt_mapping_eq_error_iff hdepth

end Nodes

section Descent

theorem data_mem_of_mem_ofItems
    {depth i : Nat} {types : List Ty} {items : List Data} {part : PathStep × Visit}
    (h : part ∈ ofItems depth i types items) :
    part.2.data ∈ items := by
  induction types generalizing i items with
  | nil => simp [ofItems] at h
  | cons want wants ih =>
      cases items with
      | nil => simp [ofItems] at h
      | cons item items =>
          rw [ofItems] at h
          rcases List.mem_cons.1 h with rfl | h
          · exact List.mem_cons_self
          · exact List.mem_cons_of_mem _ (ih h)

theorem exists_entry_of_mem_ofEntries
    {depth : Nat} {wantedAt? : Key → Option (PathStep × Ty)} {entries : List (Key × Data)}
    {part : PathStep × Visit} (h : part ∈ ofEntries depth wantedAt? entries) :
    ∃ entry ∈ entries, entry.2 = part.2.data := by
  induction entries with
  | nil => simp [ofEntries] at h
  | cons entry rest ih =>
      rw [List.exists_mem_cons_iff]
      rw [ofEntries] at h
      cases hkey : wantedAt? entry.1 with
      | none => simp [hkey] at h
      | some wanted =>
          simp only [hkey] at h
          rcases List.mem_cons.1 h with rfl | h
          · exact Or.inl rfl
          · exact Or.inr (ih h)

/-- Induction over nodes: a node may assume the property of its parts. -/
@[elab_as_elim]
theorem induction
    {motive : Visit → Prop}
    (step : ∀ node : Visit, (∀ part ∈ node.parts, motive part.2) → motive node) :
    ∀ node, motive node := by
  suffices h : ∀ d depth want, motive ⟨depth, want, d⟩ from fun node => h _ _ _
  intro d
  induction d using Data.induction with
  | sequence items ih =>
      intro depth want
      refine step _ fun part hpart => ?_
      rw [parts] at hpart
      split at hpart
      · cases hpart
      · exact ih part.2.data (data_mem_of_mem_ofItems hpart) part.2.depth part.2.want
  | mapping entries ih =>
      intro depth want
      refine step _ fun part hpart => ?_
      rw [parts] at hpart
      split at hpart
      · cases hpart
      · obtain ⟨entry, hentry, hdata⟩ := exists_entry_of_mem_ofEntries hpart
        have hmotive := ih entry hentry part.2.depth part.2.want
        rwa [hdata] at hmotive
  | _ =>
      intro depth want
      refine step _ fun part hpart => ?_
      rw [parts] at hpart
      split at hpart <;> cases hpart

theorem exists_outcome_iff
    {node : Visit} :
    (∃ v, node.outcome = .ok v) ↔ node.data.Inhabits node.depth node.want :=
  Value.readIffInhabits node.data node.depth node.want

/-- If a node inhabits its type, its parts inhabit the types that are wanted of them. -/
theorem inhabits_part
    {node : Visit} (h : node.data.Inhabits node.depth node.want) :
    ∀ part ∈ node.parts, part.2.data.Inhabits part.2.depth part.2.want := by
  obtain ⟨v, hv⟩ := exists_outcome_iff.2 h
  have hnone : firstFailure node.parts = none := by
    rw [Option.eq_none_iff_forall_ne_some]
    intro e he
    have herror := outcome_eq_error_iff.2 (Or.inl he)
    rw [hv] at herror
    cases herror
  exact fun part hpart => exists_outcome_iff.1 (firstFailure_eq_none_iff.1 hnone part hpart)

/-- A failure is followed down to the node that is at fault. -/
theorem outcome_eq_error_iff_leadsTo
    (node : Visit) (e : TypingError) :
    node.outcome = .error e ↔
      ∃ target completed, node.LeadsTo e.path target completed ∧ target.Fault e.cause ∧
        ∀ other ∈ completed, other.data.Inhabits other.depth other.want := by
  induction node using Visit.induction generalizing e with
  | step node ih =>
      rw [outcome_eq_error_iff, firstFailure_eq_some_iff, firstFailure_eq_none_iff]
      simp only [exists_outcome_iff]
      -- Either the first part that fails is followed further down, or the descent ends here.
      constructor
      · rintro (⟨before, step, part, after, e', hparts, hbefore, hpart, rfl⟩ |
          ⟨hparts, cause, hfault, rfl⟩)
        · have hmem : (step, part) ∈ node.parts := by simp [hparts]
          obtain ⟨target, completed, hpath, hfault, hcompleted⟩ := (ih _ hmem e').1 hpart
          exact ⟨target, before.map Prod.snd ++ completed, .inside hparts hpath, hfault,
            List.forall_mem_append.2 ⟨List.forall_mem_map.2 hbefore, hcompleted⟩⟩
        · exact ⟨node, node.parts.map Prod.snd, .here, hfault, List.forall_mem_map.2 hparts⟩
      · obtain ⟨path, cause⟩ := e
        rintro ⟨target, completed, hpath, hfault, hcompleted⟩
        cases hpath with
        | here => exact Or.inr ⟨List.forall_mem_map.1 hcompleted, cause, hfault, rfl⟩
        | @inside _ part _ step before after path completed hparts hrest =>
            have hmem : (step, part) ∈ node.parts := by simp [hparts]
            obtain ⟨hbefore, hinside⟩ := List.forall_mem_append.1 hcompleted
            have hpart := (ih _ hmem ⟨path, cause⟩).2 ⟨target, completed, hrest, hfault, hinside⟩
            exact Or.inl ⟨before, step, part, after, ⟨path, cause⟩, hparts,
              List.forall_mem_map.1 hbefore, hpart, rfl⟩

end Descent

end Visit

/-- Exactly the data of a type is read as a value of it.  Otherwise the path of the
failure leads to a node that is at fault for the reported cause, and every node that
was completed before inhabits its own type, as do all its parts (`inhabits_part`).
The fault of a number whose exponent is the least 64-bit integer is not reported:
there nothing is returned. -/
theorem Value.ofData_accepts_blames
    (want : Ty) (d : Data) :
    ((∃ v, ofData want d = .ok v) ↔ d.Inhabits 0 want) ∧
      ∀ e, ofData want d = .error e ↔
        ∃ node completed, Visit.LeadsTo ⟨0, want, d⟩ e.path node completed ∧
          node.Fault e.cause ∧
            ∀ other ∈ completed, other.data.Inhabits other.depth other.want :=
  ⟨readIffInhabits d 0 want, Visit.outcome_eq_error_iff_leadsTo ⟨0, want, d⟩⟩

/-- The later of two entries of one key counts as well. -/
example :
    Value.ofData (.map .bool)
        (.mapping [(.string "on", .bool true), (.string "on", .string "yes")]) =
      .error ⟨[.key "on"], .mismatch .bool "string"⟩ := by
  rfl

end TypedConfig
