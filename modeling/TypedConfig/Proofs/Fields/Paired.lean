import Mathlib.Data.List.Forall2
import TypedConfig.Fields

/-!
# Lists and fields that are related member by member

Two lists are related if the members at each place are.  Two fields are paired
by a relation if they have the same names, in the same order, and the contents
at each name are related.  Ordered fields are compared in this way name by name,
whatever way their look-ups go.

* `paired_iff_get?`: ordered fields are paired exactly when they have the same
  names and what they have at a name is related.
* `paired_insertAll_iff`: members that are put over others are paired exactly
  when they are related themselves and so are those that they do not cover.
-/

namespace TypedConfig

section Lists

variable {α β γ : Type} {R : α → β → Prop} {l : List α} {m : List β}

theorem forall_mem_of_forall₂
    {P : β → Prop} (h : List.Forall₂ R l m) (hP : ∀ a ∈ l, ∀ b, R a b → P b) :
    ∀ b ∈ m, P b := by
  induction h with
  | nil => exact List.forall_mem_nil _
  | cons hab _ ih =>
      rw [List.forall_mem_cons] at hP
      exact List.forall_mem_cons.2 ⟨hP.1 _ hab, ih hP.2⟩

/-- If every member of one list has a property and an image that its partner in
the other list has as well, so have the lists. -/
theorem forall_mem_and_map_eq_of_forall₂
    {P : β → Prop} {f : β → γ} {g : α → γ} (h : List.Forall₂ R l m)
    (hR : ∀ a ∈ l, ∀ b ∈ m, R a b → P b ∧ f b = g a) :
    (∀ b ∈ m, P b) ∧ m.map f = l.map g := by
  induction h with
  | nil => exact ⟨List.forall_mem_nil _, rfl⟩
  | @cons a b l m hab _ ih =>
      obtain ⟨hP, heq⟩ := hR a List.mem_cons_self b List.mem_cons_self hab
      obtain ⟨hrest, hmap⟩ := ih fun a ha b hb =>
        hR a (List.mem_cons_of_mem _ ha) b (List.mem_cons_of_mem _ hb)
      refine ⟨List.forall_mem_cons.2 ⟨hP, hrest⟩, ?_⟩
      rw [List.map_cons, List.map_cons, heq, hmap]

/-- Lists that are related member by member are so by another relation that it
implies for their members. -/
theorem forall₂_imp_of_mem
    {S : α → β → Prop} (h : List.Forall₂ R l m) (hS : ∀ a ∈ l, ∀ b ∈ m, R a b → S a b) :
    List.Forall₂ S l m := by
  obtain ⟨hlength, hparts⟩ := List.forall₂_iff_zip.1 h
  refine List.forall₂_iff_zip.2 ⟨hlength, ?_⟩
  intro a b hab
  obtain ⟨ha, hb⟩ := List.of_mem_zip hab
  exact hS a ha b hb (hparts hab)

theorem forall₂_congr_of_mem
    {S : α → β → Prop} (h : ∀ a ∈ l, ∀ b ∈ m, (R a b ↔ S a b)) :
    List.Forall₂ R l m ↔ List.Forall₂ S l m :=
  ⟨fun hR => forall₂_imp_of_mem hR fun a ha b hb => (h a ha b hb).1,
    fun hS => forall₂_imp_of_mem hS fun a ha b hb => (h a ha b hb).2⟩

/-- Lists with a common partner are related by what the two relations to it imply. -/
theorem forall₂_comp
    {S : β → γ → Prop} {T : α → γ → Prop} {n : List γ}
    (hR : List.Forall₂ R l m) (hS : List.Forall₂ S m n)
    (hT : ∀ a ∈ l, ∀ b ∈ m, ∀ c ∈ n, R a b → S b c → T a c) :
    List.Forall₂ T l n := by
  induction hR generalizing n with
  | nil =>
      cases hS
      exact .nil
  | @cons a b l m hab _ ih =>
      cases hS with
      | @cons _ c _ n hbc hrest =>
          refine .cons ?_ (ih hrest fun a ha b hb c hc => ?_)
          · exact hT a List.mem_cons_self b List.mem_cons_self c List.mem_cons_self hab hbc
          · exact hT a (List.mem_cons_of_mem _ ha) b (List.mem_cons_of_mem _ hb) c
              (List.mem_cons_of_mem _ hc)

/-- Partners that are related to the same are related to the same lists. -/
theorem forall₂_iff_of_forall₂
    {S : α → γ → Prop} {T : β → γ → Prop} {n : List γ} (hR : List.Forall₂ R l m)
    (hST : ∀ a ∈ l, ∀ b ∈ m, R a b → ∀ c, S a c ↔ T b c) :
    List.Forall₂ S l n ↔ List.Forall₂ T m n :=
  ⟨fun hS => forall₂_comp hR.flip hS fun b hb a ha c _ hab hac => (hST a ha b hb hab c).1 hac,
    fun hT => forall₂_comp hR hT fun a ha b hb c _ hab hbc => (hST a ha b hb hab c).2 hbc⟩

/-- What is equal at each place of two lists is so of the members that are related. -/
theorem forall₂_and_map_eq
    {f : α → γ} {g : β → γ} (h : List.Forall₂ R l m) (hmap : l.map f = m.map g) :
    List.Forall₂ (fun a b => f a = g b ∧ R a b) l m := by
  induction h with
  | nil => exact .nil
  | cons hab _ ih =>
      obtain ⟨hhead, hrest⟩ := List.cons.inj hmap
      exact .cons ⟨hhead, hab⟩ (ih hrest)

/-- Related lists stay so when each is taken together with a third. -/
theorem forall₂_zip_left
    (h : List.Forall₂ R l m) (n : List γ) :
    List.Forall₂ (fun a b => a.1 = b.1 ∧ R a.2 b.2) (n.zip l) (n.zip m) := by
  induction h generalizing n with
  | nil => simp
  | cons hab _ ih =>
      cases n with
      | nil => exact .nil
      | cons c n => exact .cons ⟨rfl, hab⟩ (ih n)

/-- A member may be replaced by another to which its partner is related as well. -/
theorem forall₂_replace
    {before after : List β} {b c : β} (h : List.Forall₂ R l (before ++ b :: after))
    (hbc : ∀ a ∈ l, R a b → R a c) :
    List.Forall₂ R l (before ++ c :: after) := by
  induction before generalizing l with
  | nil =>
      cases h with
      | cons hab hrest => exact .cons (hbc _ List.mem_cons_self hab) hrest
  | cons first before ih =>
      cases h with
      | cons hfirst hrest =>
          exact .cons hfirst (ih hrest fun a ha => hbc a (List.mem_cons_of_mem _ ha))

/-- There is a list of partners exactly if each member of a list has one. -/
theorem exists_forall₂_iff :
    (∃ m, List.Forall₂ R l m) ↔ ∀ a ∈ l, ∃ b, R a b := by
  induction l with
  | nil => exact ⟨fun _ => List.forall_mem_nil _, fun _ => ⟨[], .nil⟩⟩
  | cons a l ih =>
      rw [List.forall_mem_cons, ← ih]
      constructor
      · rintro ⟨_, h⟩
        cases h with
        | cons hb hm => exact ⟨⟨_, hb⟩, _, hm⟩
      · rintro ⟨⟨b, hb⟩, m, hm⟩
        exact ⟨b :: m, .cons hb hm⟩

/-- What comes of two lists of one length, taken together, is related to the
first of them. -/
theorem forall₂_of_forall₂_zip
    {R : α × β → γ → Prop} {S : γ → α → Prop} {n : List γ} (hlength : l.length = m.length)
    (h : List.Forall₂ R (l.zip m) n) (hS : ∀ a ∈ l, ∀ b ∈ m, ∀ c, R (a, b) c → S c a) :
    List.Forall₂ S n l := by
  have hparts : ∀ p ∈ l.zip m, p.1 ∈ l ∧ p.2 ∈ m := fun p hp => List.of_mem_zip hp
  have hboth := (List.forall₂_and_left _ _).2 ⟨hparts, h⟩
  have hfst : List.Forall₂ (fun p c => S c p.1) (l.zip m) n :=
    hboth.imp fun p c hc => hS p.1 hc.1.1 p.2 hc.1.2 c hc.2
  rw [← List.map_fst_zip (Nat.le_of_eq hlength), List.forall₂_map_right_iff]
  exact hfst.flip

/-- If each member of a list allows one partner of the member at its place, the
whole list allows one list of partners. -/
theorem forall₂_iff_map_eq
    {P : α → Prop} {f : α → γ} {Q : β → γ → Prop} (h : List.Forall₂ R l m)
    (hQ : ∀ a ∈ l, ∀ b, R a b → ∀ c, Q b c ↔ P a ∧ f a = c) {n : List γ} :
    List.Forall₂ Q m n ↔ (∀ a ∈ l, P a) ∧ l.map f = n := by
  induction h generalizing n with
  | nil =>
      rw [List.forall₂_nil_left_iff]
      constructor
      · rintro rfl
        exact ⟨List.forall_mem_nil _, rfl⟩
      · rintro ⟨-, rfl⟩
        rfl
  | @cons a b l m hab _ ih =>
      rw [List.forall_mem_cons] at hQ
      rw [List.forall₂_cons_left_iff, List.forall_mem_cons, List.map_cons]
      simp only [hQ.1 b hab, ih hQ.2]
      constructor
      · rintro ⟨_, _, ⟨ha, rfl⟩, ⟨hl, rfl⟩, rfl⟩
        exact ⟨⟨ha, hl⟩, rfl⟩
      · rintro ⟨⟨ha, hl⟩, rfl⟩
        exact ⟨f a, l.map f, ⟨ha, rfl⟩, ⟨hl, rfl⟩, rfl⟩

end Lists

namespace Fields

variable {α β γ δ : Type}

/-- The same names in the same order, with related contents. -/
def Paired (R : α → β → Prop) (fs : Fields α) (gs : Fields β) : Prop :=
  List.Forall₂ (fun a b => a.1 = b.1 ∧ R a.2 b.2) fs gs

section Lookup

theorem get?_eq_none_iff
    {name : String} {fields : Fields α} :
    get? name fields = none ↔ name ∉ names fields := by
  rw [← get?_isSome_iff]
  cases get? name fields <;> simp

theorem mem_of_get?
    {name : String} {a : α} {fields : Fields α} (h : get? name fields = some a) :
    (name, a) ∈ fields := by
  induction fields with
  | nil =>
      simp at h
  | cons member rest ih =>
      obtain ⟨key, b⟩ := member
      by_cases hkey : key = name
      · subst hkey
        rw [get?_cons_self] at h
        cases h
        exact List.mem_cons_self
      · rw [get?_cons_of_ne hkey] at h
        exact List.mem_cons_of_mem _ (ih h)

theorem mem_names_of_mem
    {member : String × α} {fields : Fields α} (h : member ∈ fields) :
    member.1 ∈ names fields :=
  List.mem_map.2 ⟨member, h, rfl⟩

theorem ne_of_compare_eq_lt
    {a b : String} (h : compare a b = .lt) :
    a ≠ b := by
  rintro rfl
  have hself : compare a a = .eq := Std.ReflOrd.compare_self
  rw [hself] at h
  cases h

theorem Sorted.nodup_names
    {fields : Fields α} (hs : Sorted fields) :
    (names fields).Nodup := by
  rw [List.Nodup, names, List.pairwise_map]
  exact hs.imp ne_of_compare_eq_lt

/-- Where no name stands twice, every member is the one that its name leads to. -/
theorem get?_eq_some_iff_of_nodup
    {name : String} {a : α} {fields : Fields α} (h : (names fields).Nodup) :
    get? name fields = some a ↔ (name, a) ∈ fields := by
  refine ⟨mem_of_get?, ?_⟩
  intro hmem
  induction fields with
  | nil => cases hmem
  | cons member rest ih =>
      obtain ⟨hhead, hrest⟩ := List.nodup_cons.1 h
      rcases List.mem_cons.1 hmem with rfl | hmem
      · exact get?_cons_self _ _ _
      · have hname : name ∈ names rest := mem_names_of_mem hmem
        have hne : member.1 ≠ name := by
          rintro rfl
          exact hhead hname
        exact (get?_cons_of_ne hne member.2 rest).trans (ih hrest hmem)

theorem Sorted.get?_eq_some_iff
    {name : String} {a : α} {fields : Fields α} (hs : Sorted fields) :
    get? name fields = some a ↔ (name, a) ∈ fields :=
  get?_eq_some_iff_of_nodup hs.nodup_names

/-- In ordered fields the members before one are those with lesser names. -/
theorem Sorted.mem_before_iff
    {before after : Fields α} {name : String} {a : α}
    (hs : Sorted (before ++ (name, a) :: after)) {member : String × α} :
    member ∈ before ↔
      member ∈ before ++ (name, a) :: after ∧ compare member.1 name = .lt := by
  obtain ⟨-, hafter, hbefore⟩ := List.pairwise_append.1 hs
  constructor
  · intro h
    exact ⟨List.mem_append_left _ h, hbefore member h _ List.mem_cons_self⟩
  · rintro ⟨hmem, hlt⟩
    rcases List.mem_append.1 hmem with hmem | hmem
    · exact hmem
    · exfalso
      rcases List.mem_cons.1 hmem with rfl | hmem
      · exact ne_of_compare_eq_lt hlt rfl
      · have hgt := (List.pairwise_cons.1 hafter).1 member hmem
        rw [Std.OrientedCmp.gt_of_lt hlt] at hgt
        cases hgt

/-- What lies on top is found first. -/
theorem get?_insertAll_of_nodup
    (name : String) (fields : Fields α) {members : Fields α} (h : (names members).Nodup) :
    get? name (insertAll fields members) =
      (get? name members).or (get? name fields) := by
  induction members generalizing fields with
  | nil =>
      simp [insertAll]
  | cons member rest ih =>
      obtain ⟨key, a⟩ := member
      obtain ⟨hhead, hrest⟩ := List.nodup_cons.1 h
      have hstep : get? name (insertAll fields ((key, a) :: rest)) =
          (get? name rest).or (get? name (insert key a fields)) :=
        ih (insert key a fields) hrest
      rw [hstep, get?_insert]
      by_cases hkey : key = name
      · subst hkey
        have hnone : get? key rest = none := get?_eq_none_iff.2 hhead
        simp [hnone]
      · simp [hkey, get?_cons_of_ne hkey]

theorem get?_insertAll
    (name : String) (fields : Fields α) {members : Fields α} (hs : Sorted members) :
    get? name (insertAll fields members) =
      (get? name members).or (get? name fields) :=
  get?_insertAll_of_nodup name fields hs.nodup_names

theorem get?_append
    (name : String) (lower upper : Fields α) :
    get? name (lower ++ upper) = (get? name lower).or (get? name upper) := by
  induction lower with
  | nil => simp
  | cons member rest ih =>
      obtain ⟨key, a⟩ := member
      by_cases hkey : key = name
      · subst hkey
        simp
      · simpa [get?_cons_of_ne hkey] using ih

/-- Members that are put over others take the places of those of their names. -/
theorem mem_insertAll_iff
    {member : String × α} {lower upper : Fields α} (hl : Sorted lower) (hu : Sorted upper) :
    member ∈ insertAll lower upper ↔
      (member ∈ lower ∧ member.1 ∉ names upper) ∨ member ∈ upper := by
  obtain ⟨name, a⟩ := member
  rw [← (sorted_insertAll upper hl).get?_eq_some_iff, ← hl.get?_eq_some_iff,
    ← hu.get?_eq_some_iff, get?_insertAll name lower hu, ← get?_eq_none_iff]
  cases get? name upper <;> simp

theorem forall_mem_insertAll_iff
    {P : String × α → Prop} {lower upper : Fields α} (hl : Sorted lower) (hu : Sorted upper) :
    (∀ member ∈ insertAll lower upper, P member) ↔
      (∀ member ∈ lower, member.1 ∉ names upper → P member) ∧ ∀ member ∈ upper, P member := by
  simp only [mem_insertAll_iff hl hu]
  constructor
  · intro h
    exact ⟨fun member hmem hname => h member (Or.inl ⟨hmem, hname⟩),
      fun member hmem => h member (Or.inr hmem)⟩
  · rintro ⟨hlower, hupper⟩ member (⟨hmem, hname⟩ | hmem)
    · exact hlower member hmem hname
    · exact hupper member hmem

theorem exists_mem_insertAll_iff
    {P : String × α → Prop} {lower upper : Fields α} (hl : Sorted lower) (hu : Sorted upper) :
    (∃ member ∈ insertAll lower upper, P member) ↔
      (∃ member ∈ lower, member.1 ∉ names upper ∧ P member) ∨ ∃ member ∈ upper, P member := by
  simp only [mem_insertAll_iff hl hu]
  constructor
  · rintro ⟨member, ⟨hmem, hname⟩ | hmem, hP⟩
    · exact Or.inl ⟨member, hmem, hname, hP⟩
    · exact Or.inr ⟨member, hmem, hP⟩
  · rintro (⟨member, hmem, hname, hP⟩ | ⟨member, hmem, hP⟩)
    · exact ⟨member, Or.inl ⟨hmem, hname⟩, hP⟩
    · exact ⟨member, Or.inr hmem, hP⟩

end Lookup

section MapValues

theorem mapValues_insert
    (f : α → β) (name : String) (a : α) (fields : Fields α) :
    mapValues f (insert name a fields) = insert name (f a) (mapValues f fields) := by
  induction fields with
  | nil =>
      rfl
  | cons member rest ih =>
      obtain ⟨key, b⟩ := member
      have hcons : mapValues f ((key, b) :: rest) = (key, f b) :: mapValues f rest := rfl
      rw [hcons]
      simp only [insert]
      cases compare name key with
      | lt => rfl
      | eq => rfl
      | gt => exact congrArg ((key, f b) :: ·) ih

/-- Contents may be changed before or after members are put together. -/
theorem mapValues_insertAll
    (f : α → β) (fields members : Fields α) :
    mapValues f (insertAll fields members) =
      insertAll (mapValues f fields) (mapValues f members) := by
  induction members generalizing fields with
  | nil =>
      rfl
  | cons member rest ih =>
      have hrest := ih (insert member.1 member.2 fields)
      rw [mapValues_insert] at hrest
      exact hrest

theorem sorted_mapValues
    (f : α → β) {fields : Fields α} (hs : Sorted fields) :
    Sorted (mapValues f fields) :=
  List.pairwise_map.2 hs

/-- Contents that are made from a name and what stands there leave the names as
they are. -/
theorem names_map
    (make : String → α → β) (fields : Fields α) :
    names (fields.map fun member => (member.1, make member.1 member.2)) = names fields := by
  rw [names, List.map_map]
  rfl

theorem sorted_map
    (make : String → α → β) {fields : Fields α} (hs : Sorted fields) :
    Sorted (fields.map fun member => (member.1, make member.1 member.2)) :=
  List.pairwise_map.2 hs

theorem mem_mapValues
    {f : α → β} {member : String × β} {fields : Fields α} :
    member ∈ mapValues f fields ↔ ∃ a ∈ fields, (a.1, f a.2) = member :=
  List.mem_map

theorem mapValues_mapValues
    (f : α → β) (g : β → γ) (fields : Fields α) :
    mapValues g (mapValues f fields) = mapValues (fun a => g (f a)) fields := by
  simp [mapValues]

theorem mapValues_congr
    {f g : α → β} {fields : Fields α} (h : ∀ member ∈ fields, f member.2 = g member.2) :
    mapValues f fields = mapValues g fields := by
  refine List.map_congr_left ?_
  intro member hmem
  rw [h member hmem]

/-- Such contents, seen through a function that does not depend on the name. -/
theorem mapValues_map
    {make : String → α → β} {f : β → γ} (g : α → γ) {fields : Fields α}
    (h : ∀ member ∈ fields, f (make member.1 member.2) = g member.2) :
    mapValues f (fields.map fun member => (member.1, make member.1 member.2)) =
      mapValues g fields := by
  unfold mapValues
  rw [List.map_map]
  refine List.map_congr_left ?_
  intro member hmember
  simp [h member hmember]

end MapValues

section Paired

variable {R : α → β → Prop} {S : γ → δ → Prop} {fs : Fields α} {gs : Fields β}

theorem Paired.names_eq
    (h : Paired R fs gs) :
    names fs = names gs := by
  induction h with
  | nil => rfl
  | cons hab _ ih =>
      simp only [names, List.map_cons] at ih ⊢
      rw [hab.1, ih]

/-- Fields are paired if they have the same names and their contents, taken alone,
are related place by place. -/
theorem paired_of_names_eq
    (hnames : names fs = names gs) (h : List.Forall₂ R (fs.map Prod.snd) (gs.map Prod.snd)) :
    Paired R fs gs := by
  rw [List.forall₂_map_left_iff, List.forall₂_map_right_iff] at h
  exact forall₂_and_map_eq h hnames

/-- What is made of related contents of one name is paired. -/
theorem Paired.map
    {f : String → α → γ} {g : String → β → δ} (h : Paired R fs gs)
    (hfg : ∀ name a b, R a b → S (f name a) (g name b)) :
    Paired S (fs.map fun member => (member.1, f member.1 member.2))
      (gs.map fun member => (member.1, g member.1 member.2)) := by
  rw [Paired, List.forall₂_map_left_iff, List.forall₂_map_right_iff]
  refine List.Forall₂.imp ?_ h
  rintro ⟨name, a⟩ ⟨_, b⟩ ⟨rfl, hab⟩
  exact ⟨rfl, hfg name a b hab⟩

theorem Paired.mapValues_eq
    {f : α → γ} {g : β → γ} (h : Paired R fs gs)
    (hfg : ∀ member ∈ fs, ∀ b, R member.2 b → f member.2 = g b) :
    mapValues f fs = mapValues g gs := by
  induction h with
  | nil => rfl
  | @cons first second _ _ hab _ ih =>
      obtain ⟨hfirst, hrest⟩ := List.forall_mem_cons.1 hfg
      have hmap := ih hrest
      simp only [mapValues, List.map_cons] at hmap ⊢
      rw [hab.1, hfirst second.2 hab.2, hmap]

/-- A choice that related contents share leaves the same names. -/
theorem Paired.names_filter_eq
    {p : α → Bool} {q : β → Bool} (h : Paired R fs gs) (hpq : ∀ a b, R a b → p a = q b) :
    names (fs.filter fun member => p member.2) = names (gs.filter fun member => q member.2) := by
  induction h with
  | nil => rfl
  | @cons first second _ _ hab _ ih =>
      simp only [names, List.filter_cons, hpq first.2 second.2 hab.2] at ih ⊢
      split
      · rw [List.map_cons, List.map_cons, hab.1, ih]
      · exact ih

theorem Paired.flip
    (h : Paired R fs gs) :
    Paired (fun b a => R a b) gs fs :=
  List.Forall₂.flip (List.Forall₂.imp (fun _ _ hab => ⟨hab.1.symm, hab.2⟩) h)

/-- Whether fields are in order is seen from their names. -/
theorem sorted_iff_names
    {fields : Fields α} :
    Sorted fields ↔ (names fields).Pairwise fun a b => compare a b = .lt := by
  rw [names, List.pairwise_map]
  rfl

theorem Paired.sorted_iff
    (h : Paired R fs gs) :
    Sorted fs ↔ Sorted gs := by
  rw [sorted_iff_names, sorted_iff_names, h.names_eq]

theorem paired_mapValues
    {S : β → γ → Prop} {f : α → β} {g : α → γ} {fields : Fields α}
    (h : ∀ member ∈ fields, S (f member.2) (g member.2)) :
    Paired S (mapValues f fields) (mapValues g fields) := by
  unfold Paired mapValues
  rw [List.forall₂_map_left_iff, List.forall₂_map_right_iff, List.forall₂_same]
  exact fun member hmem => ⟨rfl, h member hmem⟩

/-- Paired fields are two views of fields that hold the pairs. -/
theorem Paired.exists_parts
    (h : Paired R fs gs) :
    ∃ parts : Fields (α × β), mapValues Prod.fst parts = fs ∧ mapValues Prod.snd parts = gs ∧
      ∀ p ∈ parts, R p.2.1 p.2.2 := by
  induction h with
  | nil => exact ⟨[], rfl, rfl, List.forall_mem_nil _⟩
  | @cons a b _ _ hab _ ih =>
      obtain ⟨parts, hfst, hsnd, hparts⟩ := ih
      refine ⟨(a.1, a.2, b.2) :: parts, ?_, ?_, List.forall_mem_cons.2 ⟨hab.2, hparts⟩⟩
      · rw [← hfst]
        rfl
      · rw [← hsnd, hab.1]
        rfl

/-- What one side has at a name the other side has too, related to it. -/
theorem Paired.exists_get?
    (h : Paired R fs gs) {name : String} {a : α} (ha : get? name fs = some a) :
    ∃ b, get? name gs = some b ∧ R a b := by
  induction h with
  | nil =>
      simp at ha
  | @cons first second restf restg hab _ ih =>
      obtain ⟨key, a'⟩ := first
      obtain ⟨key', b'⟩ := second
      obtain ⟨rfl, hR⟩ := hab
      by_cases hkey : key = name
      · subst hkey
        rw [get?_cons_self] at ha
        cases ha
        exact ⟨b', get?_cons_self _ _ _, hR⟩
      · rw [get?_cons_of_ne hkey] at ha ⊢
        exact ih ha

theorem Paired.rel_of_get?
    (h : Paired R fs gs) {name : String} {a : α} {b : β}
    (ha : get? name fs = some a) (hb : get? name gs = some b) :
    R a b := by
  obtain ⟨b', hb', hR⟩ := h.exists_get? ha
  rw [hb] at hb'
  cases hb'
  exact hR

/-- Ordered lists with the same members begin alike: neither head may stand
behind the other. -/
theorem Sorted.head_eq
    {first : String × α} {second : String × β} {restf : Fields α} {restg : Fields β}
    (hf : Sorted (first :: restf)) (hg : Sorted (second :: restg))
    (hnames : ∀ name, name ∈ names (first :: restf) ↔ name ∈ names (second :: restg)) :
    first.1 = second.1 := by
  have hfg : first.1 ∈ names (second :: restg) := (hnames first.1).1 (by simp [names])
  have hgf : second.1 ∈ names (first :: restf) := (hnames second.1).2 (by simp [names])
  obtain ⟨other, hother, heq⟩ := List.mem_map.1 hfg
  obtain ⟨another, hanother, heq'⟩ := List.mem_map.1 hgf
  rcases List.mem_cons.1 hother with rfl | hother
  · exact heq.symm
  · rcases List.mem_cons.1 hanother with rfl | hanother
    · exact heq'
    · have hlt : compare second.1 first.1 = .lt := by
        rw [← heq]
        exact (List.pairwise_cons.1 hg).1 other hother
      have hgt : compare first.1 second.1 = .lt := by
        rw [← heq']
        exact (List.pairwise_cons.1 hf).1 another hanother
      rw [Std.OrientedCmp.gt_of_lt hlt] at hgt
      cases hgt

theorem not_mem_names_of_sorted_cons
    {member : String × α} {rest : Fields α} (hs : Sorted (member :: rest)) :
    member.1 ∉ names rest := by
  intro hmem
  obtain ⟨other, hother, heq⟩ := List.mem_map.1 hmem
  exact ne_of_compare_eq_lt ((List.pairwise_cons.1 hs).1 other hother) heq.symm

/-- Ordered fields with the same names whose contents are related name by name
are paired. -/
theorem paired_of_get?
    (hf : Sorted fs) (hg : Sorted gs)
    (hnames : ∀ name, name ∈ names fs ↔ name ∈ names gs)
    (hR : ∀ name a b, get? name fs = some a → get? name gs = some b → R a b) :
    Paired R fs gs := by
  induction fs generalizing gs with
  | nil =>
      cases gs with
      | nil => exact .nil
      | cons second restg => simpa [names] using (hnames second.1).2
  | cons first restf ih =>
      cases gs with
      | nil => simpa [names] using (hnames first.1).1
      | cons second restg =>
          have hkey : first.1 = second.1 := Sorted.head_eq hf hg hnames
          have hfirst := not_mem_names_of_sorted_cons hf
          have hsecond := not_mem_names_of_sorted_cons hg
          refine .cons ⟨hkey, ?_⟩ (ih (List.pairwise_cons.1 hf).2 (List.pairwise_cons.1 hg).2 ?_ ?_)
          · exact hR first.1 first.2 second.2 (get?_cons_self _ _ _)
              (by rw [hkey]; exact get?_cons_self _ _ _)
          · -- The heads have one name, which neither rest has.
            intro name
            have hname := hnames name
            simp only [names, List.map_cons, List.mem_cons] at hname hfirst hsecond ⊢
            constructor
            · intro hmem
              rcases hname.1 (Or.inr hmem) with rfl | h
              · exact absurd (hkey ▸ hmem) hfirst
              · exact h
            · intro hmem
              rcases hname.2 (Or.inr hmem) with rfl | h
              · exact absurd (hkey ▸ hmem) hsecond
              · exact h
          · intro name a b ha hb
            have hne : first.1 ≠ name := by
              rintro rfl
              rw [get?_eq_none_iff.2 hfirst] at ha
              cases ha
            refine hR name a b ?_ ?_
            · exact (get?_cons_of_ne hne _ _).trans ha
            · exact (get?_cons_of_ne (hkey ▸ hne) _ _).trans hb

theorem Paired.insert
    (h : Paired R fs gs) (name : String) {a : α} {b : β} (hab : R a b) :
    Paired R (insert name a fs) (insert name b gs) := by
  induction h with
  | nil => exact .cons ⟨rfl, hab⟩ .nil
  | @cons f g fs gs hfg hrest ih =>
      obtain ⟨key, c⟩ := f
      obtain ⟨_, d⟩ := g
      obtain ⟨rfl, hcd⟩ := hfg
      simp only [Fields.insert]
      cases compare name key with
      | lt => exact .cons ⟨rfl, hab⟩ (.cons ⟨rfl, hcd⟩ hrest)
      | eq => exact .cons ⟨rfl, hab⟩ hrest
      | gt => exact .cons ⟨rfl, hcd⟩ ih

/-- Members that are paired are so when they are put in, one over another. -/
theorem Paired.insertAll
    {members : Fields α} {others : Fields β} (h : Paired R fs gs) (hm : Paired R members others) :
    Paired R (insertAll fs members) (insertAll gs others) := by
  induction hm generalizing fs gs with
  | nil => exact h
  | @cons member other members others hhead _ ih =>
      obtain ⟨name, a⟩ := member
      obtain ⟨_, b⟩ := other
      obtain ⟨rfl, hab⟩ := hhead
      exact ih (h.insert name hab)

/-- Ordered fields with the same members are the same. -/
theorem Sorted.ext
    {fs gs : Fields α} (hf : Sorted fs) (hg : Sorted gs)
    (h : ∀ member, member ∈ fs ↔ member ∈ gs) :
    fs = gs := by
  have hnames : ∀ name, name ∈ names fs ↔ name ∈ names gs := by
    intro name
    simp only [names, List.mem_map, h]
  have hpaired : Paired (· = ·) fs gs := by
    refine paired_of_get? hf hg hnames ?_
    intro name a b ha hb
    have hmem := (h (name, a)).1 (mem_of_get? ha)
    rw [hg.get?_eq_some_iff.2 hmem] at hb
    exact Option.some.inj hb
  rw [← List.forall₂_eq_eq_eq]
  exact List.Forall₂.imp (fun a b hab => Prod.ext hab.1 hab.2) hpaired

/-- Ordered fields with the same contents at every name are the same. -/
theorem Sorted.ext_get?
    {fs gs : Fields α} (hf : Sorted fs) (hg : Sorted gs)
    (h : ∀ name, get? name fs = get? name gs) :
    fs = gs := by
  refine hf.ext hg ?_
  rintro ⟨name, a⟩
  rw [← hf.get?_eq_some_iff, ← hg.get?_eq_some_iff, h name]

/-- Ordered fields are paired exactly when they have the same names and what
they have at a name is related. -/
theorem paired_iff_get?
    (hf : Sorted fs) (hg : Sorted gs) :
    Paired R fs gs ↔
      (∀ name, name ∈ names fs ↔ name ∈ names gs) ∧
        ∀ name a b, get? name fs = some a → get? name gs = some b → R a b := by
  constructor
  · intro h
    refine ⟨fun name => ?_, fun name a b => h.rel_of_get?⟩
    rw [h.names_eq]
  · rintro ⟨hnames, hR⟩
    exact paired_of_get? hf hg hnames hR

end Paired

section Filter

variable {p : String × α → Bool} {fields : Fields α}

theorem Sorted.filter
    (hs : Sorted fields) :
    Sorted (fields.filter p) :=
  List.Pairwise.filter p hs

theorem get?_filter
    (name : String) (hs : Sorted fields) :
    get? name (fields.filter p) = (get? name fields).filter fun a => p (name, a) := by
  refine Option.ext fun a => ?_
  rw [hs.filter.get?_eq_some_iff, List.mem_filter, Option.filter_eq_some_iff,
    hs.get?_eq_some_iff]

/-- Of members that are put over others only those count that are not
covered. -/
theorem filter_insertAll
    {lower upper : Fields α} (hl : Sorted lower) (hu : Sorted upper) :
    (insertAll lower upper).filter (fun member => !contains member.1 upper) =
      lower.filter fun member => !contains member.1 upper := by
  refine Sorted.ext (sorted_insertAll _ hl).filter hl.filter ?_
  intro member
  have hcovered : contains member.1 upper = true ↔ member.1 ∈ names upper :=
    get?_isSome_iff member.1 upper
  rw [List.mem_filter, List.mem_filter, mem_insertAll_iff hl hu, Bool.not_eq_true',
    ← Bool.not_eq_true, hcovered]
  constructor
  · rintro ⟨⟨hmem, -⟩ | hmem, hname⟩
    · exact ⟨hmem, hname⟩
    · exact absurd (mem_names_of_mem hmem) hname
  · rintro ⟨hmem, hname⟩
    exact ⟨Or.inl ⟨hmem, hname⟩, hname⟩

end Filter

section InsertAll

variable {R : γ → δ → Prop} {f : α → γ} {f' : α → δ} {g : β → γ} {g' : β → δ}

/-- Putting members in, one over another, loses no name. -/
theorem mem_names_insertAll
    (name : String) (fields members : Fields α) :
    name ∈ names (insertAll fields members) ↔ name ∈ names members ∨ name ∈ names fields := by
  induction members generalizing fields with
  | nil => simp [insertAll, names]
  | cons member rest ih =>
      have hstep : name ∈ names (insertAll fields (member :: rest)) ↔
          name ∈ names rest ∨ name ∈ names (insert member.1 member.2 fields) :=
        ih (insert member.1 member.2 fields)
      have hcons : name ∈ names (member :: rest) ↔ name = member.1 ∨ name ∈ names rest :=
        List.mem_cons
      rw [hstep, mem_names_insert, hcons]
      exact or_left_comm.trans or_assoc.symm

/-- Of the members that are put in, the last of a name is found. -/
theorem get?_insertAll_eq_getLast?
    (name : String) (fields members : Fields α) :
    get? name (insertAll fields members) =
      ((members.filter fun member => member.1 == name).getLast?.map Prod.snd).or
        (get? name fields) := by
  induction members generalizing fields with
  | nil => simp [insertAll]
  | cons member rest ih =>
      have hstep : get? name (insertAll fields (member :: rest)) =
          ((rest.filter fun member => member.1 == name).getLast?.map Prod.snd).or
            (get? name (insert member.1 member.2 fields)) :=
        ih (insert member.1 member.2 fields)
      rw [hstep, get?_insert, List.filter_cons]
      by_cases hname : member.1 = name
      · rw [if_pos hname, if_pos (beq_iff_eq.2 hname), List.getLast?_cons]
        cases (rest.filter fun member => member.1 == name).getLast? <;> rfl
      · rw [if_neg hname, if_neg (mt beq_iff_eq.1 hname)]

/-- Only among the members of one name does the order matter. -/
theorem ofList_eq_of_filter_eq
    {members others : Fields α}
    (h : ∀ name, (members.filter fun member => member.1 == name) =
      others.filter fun member => member.1 == name) :
    ofList members = ofList others := by
  refine (sorted_ofList members).ext_get? (sorted_ofList others) fun name => ?_
  rw [ofList, ofList, get?_insertAll_eq_getLast?, get?_insertAll_eq_getLast?, h name]

/-- The order of members does not matter where no name stands twice. -/
theorem ofList_eq_of_perm
    {members others : Fields α} (hperm : members.Perm others) (h : (names members).Nodup) :
    ofList members = ofList others := by
  have hothers : (names others).Nodup := (hperm.map Prod.fst).nodup_iff.1 h
  refine (sorted_ofList members).ext_get? (sorted_ofList others) fun name => ?_
  rw [ofList, ofList, get?_insertAll_of_nodup name [] h, get?_insertAll_of_nodup name [] hothers]
  congr 1
  refine Option.ext fun a => ?_
  rw [get?_eq_some_iff_of_nodup h, get?_eq_some_iff_of_nodup hothers, hperm.mem_iff]

/-- Members that are put over others are paired exactly when they are related
themselves and so are those that they do not cover. -/
theorem paired_insertAll_iff
    {lower : Fields α} {upper : Fields β} (hu : Sorted lower) (ho : Sorted upper) :
    Paired R (insertAll (mapValues f lower) (mapValues g upper))
        (insertAll (mapValues f' lower) (mapValues g' upper)) ↔
      (∀ a ∈ lower, a.1 ∉ names upper → R (f a.2) (f' a.2)) ∧
        ∀ b ∈ upper, R (g b.2) (g' b.2) := by
  have hog := sorted_mapValues g ho
  have hog' := sorted_mapValues g' ho
  rw [paired_iff_get? (sorted_insertAll _ (sorted_mapValues f hu))
    (sorted_insertAll _ (sorted_mapValues f' hu))]
  constructor
  · rintro ⟨-, hR⟩
    constructor
    · rintro ⟨name, a⟩ ha hname
      have hget := hu.get?_eq_some_iff.2 ha
      have hupper : get? name upper = none := get?_eq_none_iff.2 hname
      refine hR name (f a) (f' a) ?_ ?_
      · simp [get?_insertAll _ _ hog, hget, hupper]
      · simp [get?_insertAll _ _ hog', hget, hupper]
    · rintro ⟨name, b⟩ hb
      have hget := ho.get?_eq_some_iff.2 hb
      refine hR name (g b) (g' b) ?_ ?_
      · simp [get?_insertAll _ _ hog, hget]
      · simp [get?_insertAll _ _ hog', hget]
  · rintro ⟨hlower, hupper⟩
    constructor
    · intro name
      rw [mem_names_insertAll, mem_names_insertAll]
      simp
    · intro name c d hc hd
      rw [get?_insertAll _ _ hog, get?_mapValues, get?_mapValues] at hc
      rw [get?_insertAll _ _ hog', get?_mapValues, get?_mapValues] at hd
      cases hb : get? name upper with
      | some b =>
          rw [hb] at hc hd
          cases hc
          cases hd
          exact hupper (name, b) (mem_of_get? hb)
      | none =>
          rw [hb] at hc hd
          cases ha : get? name lower with
          | none => simp [ha] at hc
          | some a =>
              rw [ha] at hc hd
              cases hc
              cases hd
              exact hlower (name, a) (mem_of_get? ha) (get?_eq_none_iff.1 hb)

end InsertAll

end Fields
end TypedConfig
