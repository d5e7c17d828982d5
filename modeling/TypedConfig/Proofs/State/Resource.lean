import TypedConfig.Proofs.Outcome
import TypedConfig.State.Basic

/-!
# Typing recorded resources

What a resource needs is said here of the recorded resource alone: its provider
and its type are found, its values are read as the type that its schema implies,
and so is its index, if it has one, as of any type.

The main statements say that a resource is typed exactly if it has what it needs,
and then has what is recorded of it and the values that are read.  Otherwise the
failure is that of the first it lacks, and nothing is returned if reading leaves the
range of 64-bit integers there.  Resources in a list are typed one by one, up to the
first that is not.
-/

namespace TypedConfig

variable {schemas : ProviderSchemas} {r : ResourceDocument} {schema : ResourceSchema}

section Schemas

/-- The schema of a recorded resource: its provider is found by name, and its type
among the resources of the provider if it is managed, and among the data sources
if not. -/
inductive ResourceDocument.HasSchema
    (schemas : ProviderSchemas) (r : ResourceDocument) (schema : ResourceSchema) : Prop
  | managed
      {provider : ProviderSchema}
      (hmode : r.mode = .managed)
      (hprovider : Fields.get? r.providerName schemas.schemas = some provider)
      (htype : Fields.get? r.type provider.resources = some schema)
  | data
      {provider : ProviderSchema}
      (hmode : r.mode = .data)
      (hprovider : Fields.get? r.providerName schemas.schemas = some provider)
      (htype : Fields.get? r.type provider.dataSources = some schema)

theorem ResourceDocument.hasSchema_iff :
    r.HasSchema schemas schema ↔
      ∃ provider, Fields.get? r.providerName schemas.schemas = some provider ∧
        Fields.get? r.type (provider.ofMode r.mode) = some schema := by
  constructor
  · rintro (⟨hmode, hprovider, htype⟩ | ⟨hmode, hprovider, htype⟩)
    · exact ⟨_, hprovider, by rw [hmode]; exact htype⟩
    · exact ⟨_, hprovider, by rw [hmode]; exact htype⟩
  · rintro ⟨provider, hprovider, htype⟩
    cases hmode : r.mode with
    | managed => exact .managed hmode hprovider (by rw [hmode] at htype; exact htype)
    | data => exact .data hmode hprovider (by rw [hmode] at htype; exact htype)

theorem ProviderSchemas.lookup_eq_ok_iff :
    schemas.lookup r = .ok schema ↔ r.HasSchema schemas schema := by
  rw [ResourceDocument.hasSchema_iff, ProviderSchemas.lookup]
  cases Fields.get? r.providerName schemas.schemas with
  | none => simp only [reduceCtorEq, false_and, exists_false]
  | some provider =>
      simp only [Option.some.injEq, exists_eq_left']
      cases Fields.get? r.type (provider.ofMode r.mode) with
      | none => simp only [reduceCtorEq]
      | some found => simp only [Except.ok.injEq, Option.some.injEq]

/-- Why a recorded resource has no schema. -/
inductive ResourceDocument.LacksSchema
    (schemas : ProviderSchemas) (r : ResourceDocument) : StateError → Prop
  | provider
      (hprovider : Fields.get? r.providerName schemas.schemas = none) :
      LacksSchema schemas r (.unknownProvider r.providerName r.address)
  | type
      {provider : ProviderSchema}
      (hprovider : Fields.get? r.providerName schemas.schemas = some provider)
      (htype : ∀ schema, ¬ r.HasSchema schemas schema) :
      LacksSchema schemas r (.unknownResourceType r.mode r.type r.providerName)

/-- Where the provider is found it is the type that decides. -/
theorem ProviderSchemas.lookup_eq_error_iff
    {e : StateError} :
    schemas.lookup r = .error e ↔ r.LacksSchema schemas e := by
  cases hprovider : Fields.get? r.providerName schemas.schemas with
  | none =>
      simp only [ProviderSchemas.lookup, hprovider, Except.error.injEq]
      constructor
      · rintro rfl
        exact .provider hprovider
      · rintro (- | ⟨hsome, -⟩)
        · rfl
        · cases hprovider.symm.trans hsome
  | some provider =>
      have hschema : ∀ schema, r.HasSchema schemas schema ↔
          Fields.get? r.type (provider.ofMode r.mode) = some schema := by
        intro schema
        simp only [ResourceDocument.hasSchema_iff, hprovider, Option.some.injEq, exists_eq_left']
      cases htype : Fields.get? r.type (provider.ofMode r.mode) with
      | none =>
          simp only [ProviderSchemas.lookup, hprovider, htype, Except.error.injEq]
          constructor
          · rintro rfl
            exact .type hprovider fun schema h => nomatch htype.symm.trans ((hschema schema).1 h)
          · rintro (hnone | -)
            · cases hprovider.symm.trans hnone
            · rfl
      | some schema =>
          simp only [ProviderSchemas.lookup, hprovider, htype]
          refine iff_of_false nofun ?_
          rintro (hnone | ⟨-, hlacks⟩)
          · cases hprovider.symm.trans hnone
          · exact hlacks schema ((hschema schema).2 htype)

end Schemas

section Typing

/-- What a typed resource has of a recorded one: all that is recorded besides its
values and its index, and these as they are read. -/
structure ResourceDocument.TypedAs
    (schemas : ProviderSchemas) (r : ResourceDocument) (s : Resource) : Prop where
  address : s.address = r.address
  mode : s.mode = r.mode
  type : s.type = r.type
  name : s.name = r.name
  providerName : s.providerName = r.providerName
  schemaVersion : s.schemaVersion = r.schemaVersion
  sensitiveValues : s.sensitiveValues = r.sensitiveValues
  dependsOn : s.dependsOn = r.dependsOn
  tainted : s.tainted = r.tainted
  deposedKey : s.deposedKey = r.deposedKey
  value : ∃ schema, r.HasSchema schemas schema ∧
    Value.ofData schema.block.impliedType (Data.ofJson r.values) = .ok s.value
  index : Option.Rel (fun j v => Value.ofData .dynamic (Data.ofJson j) = .ok v) r.index s.index

/-- Whether a recorded resource has what it needs to be typed. -/
structure ResourceDocument.Loadable (schemas : ProviderSchemas) (r : ResourceDocument) : Prop where
  values : ∃ schema value, r.HasSchema schemas schema ∧
    Value.ofData schema.block.impliedType (Data.ofJson r.values) = .ok value
  index : ∀ j, r.index = some j → ∃ value, Value.ofData .dynamic (Data.ofJson j) = .ok value

/-- Why a recorded resource is not typed: the first that it lacks. -/
inductive ResourceDocument.FailsWith
    (schemas : ProviderSchemas) (r : ResourceDocument) : StateError → Prop
  | lookup
      {e : StateError}
      (h : r.LacksSchema schemas e) :
      FailsWith schemas r e
  | values
      {schema : ResourceSchema} {source : TypingError}
      (hschema : r.HasSchema schemas schema)
      (h : Value.ofData schema.block.impliedType (Data.ofJson r.values) = .error source) :
      FailsWith schemas r (.ofTyping r.address source)
  | index
      {schema : ResourceSchema} {value : Value} {j : Json} {source : TypingError}
      (hschema : r.HasSchema schemas schema)
      (hvalue : Value.ofData schema.block.impliedType (Data.ofJson r.values) = .ok value)
      (hindex : r.index = some j)
      (h : Value.ofData .dynamic (Data.ofJson j) = .error source) :
      FailsWith schemas r (.ofTyping r.address source)

theorem typeData_eq_ok_iff
    {address : String} {want : Ty} {j : Json} {value : Value} :
    typeData address want j = .ok value ↔ Value.ofData want (Data.ofJson j) = .ok value :=
  mapError_eq_ok_iff

theorem typeData_eq_error_iff
    {address : String} {want : Ty} {j : Json} {e : StateError} :
    typeData address want j = .error e ↔
      ∃ source, Value.ofData want (Data.ofJson j) = .error source ∧ .ofTyping address source = e :=
  mapError_eq_error_iff

theorem typeIndex_eq_ok_iff
    {index : Option Value} :
    typeIndex r = .ok index ↔
      Option.Rel (fun j v => Value.ofData .dynamic (Data.ofJson j) = .ok v) r.index index := by
  rw [typeIndex]
  cases r.index with
  | none =>
      rw [Except.ok.injEq]
      constructor
      · rintro rfl
        exact .none
      · rintro ⟨⟩
        rfl
  | some j =>
      simp only [map_eq_ok_iff, typeData_eq_ok_iff]
      constructor
      · rintro ⟨value, hvalue, rfl⟩
        exact .some hvalue
      · rintro ⟨hvalue⟩
        exact ⟨_, hvalue, rfl⟩

theorem typeIndex_eq_error_iff
    {e : StateError} :
    typeIndex r = .error e ↔
      ∃ j source, r.index = some j ∧ Value.ofData .dynamic (Data.ofJson j) = .error source ∧
        .ofTyping r.address source = e := by
  rw [typeIndex]
  cases r.index with
  | none => simp only [reduceCtorEq, false_and, exists_false]
  | some j =>
      simp only [map_eq_error_iff, typeData_eq_error_iff, Option.some.injEq,
        exists_and_left, exists_eq_left']

theorem Resource.ofDocument_eq_ok_iff
    {s : Resource} :
    Resource.ofDocument schemas r = .ok s ↔ r.TypedAs schemas s := by
  simp only [Resource.ofDocument, bind_eq_ok_iff, ProviderSchemas.lookup_eq_ok_iff,
    typeData_eq_ok_iff, typeIndex_eq_ok_iff]
  constructor
  · rintro ⟨schema, hschema, value, hvalue, index, hindex, hs⟩
    obtain rfl := Except.ok.inj hs
    exact ⟨rfl, rfl, rfl, rfl, rfl, rfl, rfl, rfl, rfl, rfl, ⟨schema, hschema, hvalue⟩, hindex⟩
  · rintro ⟨haddress, hmode, htype, hname, hproviderName, hschemaVersion, hsensitiveValues,
      hdependsOn, htainted, hdeposedKey, ⟨schema, hschema, hvalue⟩, hindex⟩
    refine ⟨schema, hschema, s.value, hvalue, s.index, hindex, ?_⟩
    rw [← haddress, ← hmode, ← htype, ← hname, ← hproviderName, ← hschemaVersion,
      ← hsensitiveValues, ← hdependsOn, ← htainted, ← hdeposedKey]
    rfl

theorem Resource.ofDocument_eq_error_iff
    {e : StateError} :
    Resource.ofDocument schemas r = .error e ↔ r.FailsWith schemas e := by
  simp only [Resource.ofDocument, bind_eq_error_iff, ProviderSchemas.lookup_eq_ok_iff,
    ProviderSchemas.lookup_eq_error_iff, typeData_eq_ok_iff, typeData_eq_error_iff,
    typeIndex_eq_error_iff]
  constructor
  · rintro (hlacks | ⟨schema, hschema, ⟨source, hsource, rfl⟩ |
      ⟨value, hvalue, ⟨j, source, hindex, hsource, rfl⟩ | ⟨index, -, hok⟩⟩⟩)
    · exact .lookup hlacks
    · exact .values hschema hsource
    · exact .index hschema hvalue hindex hsource
    · -- With an index that is read the resource is typed.
      cases hok
  · rintro (hlacks | ⟨hschema, hsource⟩ | ⟨hschema, hvalue, hindex, hsource⟩)
    · exact Or.inl hlacks
    · exact Or.inr ⟨_, hschema, Or.inl ⟨_, hsource, rfl⟩⟩
    · exact Or.inr ⟨_, hschema, Or.inr ⟨_, hvalue, Or.inl ⟨_, _, hindex, hsource, rfl⟩⟩⟩

/-- What may be there has a partner exactly if it has one when it is there. -/
theorem exists_optionRel_iff
    {α β : Type} {R : α → β → Prop} {o : Option α} :
    (∃ p, Option.Rel R o p) ↔ ∀ a, o = some a → ∃ b, R a b := by
  constructor
  · rintro ⟨_, h⟩ a rfl
    cases h with
    | some hb => exact ⟨_, hb⟩
  · intro h
    cases o with
    | none => exact ⟨none, .none⟩
    | some a =>
        obtain ⟨b, hb⟩ := h a rfl
        exact ⟨some b, .some hb⟩

theorem ResourceDocument.exists_typedAs_iff :
    (∃ s, r.TypedAs schemas s) ↔ r.Loadable schemas := by
  constructor
  · rintro ⟨s, hs⟩
    obtain ⟨schema, hschema, hvalue⟩ := hs.value
    exact ⟨⟨schema, s.value, hschema, hvalue⟩, exists_optionRel_iff.1 ⟨s.index, hs.index⟩⟩
  · rintro ⟨⟨schema, value, hschema, hvalue⟩, hindex⟩
    obtain ⟨index, hrel⟩ := exists_optionRel_iff.2 hindex
    exact ⟨⟨r.address, r.mode, r.type, r.name, index, r.providerName, r.schemaVersion, value,
      r.sensitiveValues, r.dependsOn, r.tainted, r.deposedKey⟩,
      rfl, rfl, rfl, rfl, rfl, rfl, rfl, rfl, rfl, rfl, ⟨schema, hschema, hvalue⟩, hrel⟩

end Typing

section Lists

/-- Recorded resources are typed one by one. -/
theorem Resource.ofDocuments_eq_ok_iff
    {l : List ResourceDocument} {typed : List Resource} :
    Resource.ofDocuments schemas l = .ok typed ↔
      List.Forall₂ (ResourceDocument.TypedAs schemas) l typed := by
  refine forall₂_of_steps (by rfl) ?_
  intro r rest typed
  simp only [← Resource.ofDocument_eq_ok_iff]
  rw [Resource.ofDocuments]
  cases Resource.ofDocument schemas r <;> simp [map_eq_ok_iff]

theorem Resource.exists_ofDocuments_iff
    {l : List ResourceDocument} :
    (∃ typed, Resource.ofDocuments schemas l = .ok typed) ↔ ∀ r ∈ l, r.Loadable schemas := by
  simp only [Resource.ofDocuments_eq_ok_iff, exists_forall₂_iff,
    ResourceDocument.exists_typedAs_iff]

/-- If they are not typed it is for the first of them that is not. -/
theorem Resource.ofDocuments_eq_error_iff
    {l : List ResourceDocument} {e : StateError} :
    Resource.ofDocuments schemas l = .error e ↔ ∃ before r after, l = before ++ r :: after ∧
      (∀ earlier ∈ before, earlier.Loadable schemas) ∧ r.FailsWith schemas e := by
  simp only [← Resource.ofDocument_eq_error_iff, ← ResourceDocument.exists_typedAs_iff,
    ← Resource.ofDocument_eq_ok_iff]
  refine eq_error_iff_of_steps (by nofun) ?_
  intro r rest e
  rw [Resource.ofDocuments]
  cases Resource.ofDocument schemas r <;> simp [map_eq_error_iff]

/-- Resources are typed first those before, and then those after. -/
theorem Resource.ofDocuments_append
    (before after : List ResourceDocument) :
    Resource.ofDocuments schemas (before ++ after) =
      Resource.ofDocuments schemas before >>= fun typed =>
        (Resource.ofDocuments schemas after).map (typed ++ ·) := by
  induction before with
  | nil =>
      change _ = (Resource.ofDocuments schemas after).map ([] ++ ·)
      cases hafter : Resource.ofDocuments schemas after with
      | error e => exact hafter
      | ok typed => exact hafter
  | cons r before ih =>
      rw [List.cons_append, Resource.ofDocuments, Resource.ofDocuments, ih]
      cases Resource.ofDocument schemas r with
      | error e => rfl
      | ok head =>
          cases Resource.ofDocuments schemas before with
          | error e => rfl
          | ok typed =>
              cases Resource.ofDocuments schemas after with
              | error e => rfl
              | ok rest => rfl

end Lists

end TypedConfig
