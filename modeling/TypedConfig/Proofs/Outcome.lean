import TypedConfig.Proofs.Fields.Paired

/-!
# Outcomes that may fail

What is known of the parts of a computation when the whole has succeeded, or has
failed.  A computation that goes through a list and stops at the first failure
succeeds exactly if it does so for every member: `forall₂_of_steps` for lists and
`paired_of_steps` for fields.  Otherwise it fails with the first failure, by
`eq_error_iff_of_steps`.
-/

namespace TypedConfig

variable {ε δ α β γ : Type} {outcome : Except ε α}

theorem map_eq_ok_iff
    {f : α → β} {b : β} :
    outcome.map f = .ok b ↔ ∃ a, outcome = .ok a ∧ f a = b := by
  cases outcome <;> simp [Except.map]

theorem bind_eq_ok_iff
    {f : α → Except ε β} {b : β} :
    outcome >>= f = .ok b ↔ ∃ a, outcome = .ok a ∧ f a = .ok b := by
  cases outcome <;> simp [bind, Except.bind]

theorem mapError_eq_ok_iff
    {f : ε → δ} {a : α} :
    outcome.mapError f = .ok a ↔ outcome = .ok a := by
  cases outcome <;> simp [Except.mapError]

theorem map_eq_error_iff
    {f : α → β} {e : ε} :
    outcome.map f = .error e ↔ outcome = .error e := by
  cases outcome <;> simp [Except.map]

theorem bind_eq_error_iff
    {f : α → Except ε β} {e : ε} :
    outcome >>= f = .error e ↔ outcome = .error e ∨ ∃ a, outcome = .ok a ∧ f a = .error e := by
  cases outcome <;> simp [bind, Except.bind]

theorem mapError_eq_error_iff
    {f : ε → δ} {d : δ} :
    outcome.mapError f = .error d ↔ ∃ e, outcome = .error e ∧ f e = d := by
  cases outcome <;> simp [Except.mapError]

section Lists

/-- A computation goes through a list, its place being counted, if each step
takes the first member and puts its result before those of the rest. -/
theorem forall₂_of_countedSteps
    {R : α → β → Prop} {all : Nat → List α → Except ε (List β)}
    (hnil : ∀ i, all i [] = .ok [])
    (hcons : ∀ i a rest m, all i (a :: rest) = .ok m ↔
      ∃ b, R a b ∧ ∃ ms, all (i + 1) rest = .ok ms ∧ b :: ms = m)
    {i : Nat} {l : List α} {m : List β} :
    all i l = .ok m ↔ List.Forall₂ R l m := by
  induction l generalizing i m with
  | nil => rw [hnil, List.forall₂_nil_left_iff, Except.ok.injEq, eq_comm]
  | cons a rest ih =>
      rw [hcons, List.forall₂_cons_left_iff]
      constructor
      · rintro ⟨b, hb, ms, hms, rfl⟩
        exact ⟨b, ms, hb, ih.1 hms, rfl⟩
      · rintro ⟨b, ms, hb, hms, rfl⟩
        exact ⟨b, hb, ms, ih.2 hms, rfl⟩

theorem forall₂_of_steps
    {R : α → β → Prop} {all : List α → Except ε (List β)}
    (hnil : all [] = .ok [])
    (hcons : ∀ a rest m, all (a :: rest) = .ok m ↔
      ∃ b, R a b ∧ ∃ ms, all rest = .ok ms ∧ b :: ms = m)
    {l : List α} {m : List β} :
    all l = .ok m ↔ List.Forall₂ R l m :=
  @forall₂_of_countedSteps _ _ _ R (fun _ => all) (fun _ => hnil) (fun _ => hcons) 0 l m

/-- Such a computation fails with the failure of the first member that fails. -/
theorem eq_error_iff_of_steps
    {one : α → Except ε β} {all : List α → Except ε γ}
    (hnil : ∀ e, all [] ≠ .error e)
    (hcons : ∀ a rest e, all (a :: rest) = .error e ↔
      one a = .error e ∨ ∃ b, one a = .ok b ∧ all rest = .error e)
    {l : List α} {e : ε} :
    all l = .error e ↔ ∃ before a after, l = before ++ a :: after ∧
      (∀ b ∈ before, ∃ c, one b = .ok c) ∧ one a = .error e := by
  induction l with
  | nil =>
      refine iff_of_false (hnil e) ?_
      rintro ⟨before, a, after, hsplit, -⟩
      exact List.append_ne_nil_of_right_ne_nil before (List.cons_ne_nil a after) hsplit.symm
  | cons head rest ih =>
      rw [hcons, ih]
      constructor
      · rintro (hhead | ⟨b, hb, before, a, after, rfl, hbefore, ha⟩)
        · exact ⟨[], head, rest, rfl, List.forall_mem_nil _, hhead⟩
        · exact ⟨head :: before, a, after, rfl, List.forall_mem_cons.2 ⟨⟨b, hb⟩, hbefore⟩, ha⟩
      · rintro ⟨before, a, after, hsplit, hbefore, ha⟩
        cases before with
        | nil =>
            obtain ⟨rfl, -⟩ := List.cons.inj hsplit
            exact Or.inl ha
        | cons first before =>
            obtain ⟨rfl, rfl⟩ := List.cons.inj hsplit
            obtain ⟨⟨b, hb⟩, hrest⟩ := List.forall_mem_cons.1 hbefore
            exact Or.inr ⟨b, hb, before, a, after, rfl, hrest, ha⟩

/-- A computation may go through two lists together, to the end of the shorter
one. -/
theorem forall₂_zip_of_countedSteps
    {R : α × γ → β → Prop} {all : Nat → List α → List γ → Except ε (List β)}
    (hleft : ∀ i n, all i [] n = .ok []) (hright : ∀ i a l, all i (a :: l) [] = .ok [])
    (hcons : ∀ i a l c n m, all i (a :: l) (c :: n) = .ok m ↔
      ∃ b, R (a, c) b ∧ ∃ ms, all (i + 1) l n = .ok ms ∧ b :: ms = m)
    {i : Nat} {l : List α} {n : List γ} {m : List β} :
    all i l n = .ok m ↔ List.Forall₂ R (l.zip n) m := by
  induction l generalizing i n m with
  | nil =>
      rw [hleft, List.zip_nil_left, List.forall₂_nil_left_iff, Except.ok.injEq, eq_comm]
  | cons a l ih =>
      cases n with
      | nil =>
          rw [hright, List.zip_nil_right, List.forall₂_nil_left_iff, Except.ok.injEq, eq_comm]
      | cons c n =>
          rw [hcons, List.zip_cons_cons, List.forall₂_cons_left_iff]
          constructor
          · rintro ⟨b, hb, ms, hms, rfl⟩
            exact ⟨b, ms, hb, ih.1 hms, rfl⟩
          · rintro ⟨b, ms, hb, hms, rfl⟩
            exact ⟨b, hb, ms, ih.2 hms, rfl⟩

/-- Such a computation keeps the names of fields. -/
theorem paired_of_steps
    {R : α → β → Prop} {all : Fields α → Except ε (Fields β)}
    (hnil : all [] = .ok [])
    (hcons : ∀ name a rest m, all ((name, a) :: rest) = .ok m ↔
      ∃ b, R a b ∧ ∃ ms, all rest = .ok ms ∧ (name, b) :: ms = m)
    {fields : Fields α} {m : Fields β} :
    all fields = .ok m ↔ Fields.Paired R fields m := by
  refine forall₂_of_steps hnil ?_
  rintro ⟨name, a⟩ rest m
  rw [hcons]
  constructor
  · rintro ⟨b, hb, ms, hms, rfl⟩
    exact ⟨(name, b), ⟨rfl, hb⟩, ms, hms, rfl⟩
  · rintro ⟨⟨_, b⟩, ⟨rfl, hb⟩, ms, hms, rfl⟩
    exact ⟨b, hb, ms, hms, rfl⟩

end Lists

end TypedConfig
