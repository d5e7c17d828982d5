import TypedConfig.Proofs.State.Resource

/-!
# Loading a state

A state document is typed as a whole or not at all.

The main statement says that a state is loaded exactly if its format version is
one that is supported and all its resources and outputs have what they need.
Then its resources are the recorded ones, in the order of the module tree, each
with what is recorded of it and with the values that are read.  Otherwise the
failure is the first one, in the order of the version, the resources and the
outputs by name.
-/

namespace TypedConfig

section Versions

/-- Whether the part of a format version before its first point is zero or
one. -/
def SupportedVersion (version : String) : Prop :=
  ∃ major ∈ ["0", "1"], version = major ∨ ∃ rest, version = major ++ "." ++ rest

theorem majorVersion_eq_iff
    {version major : String} (hmajor : ∀ c ∈ major.toList, (c == '.') = false) :
    majorVersion version = major ↔ version = major ∨ ∃ rest, version = major ++ "." ++ rest := by
  constructor
  · rintro rfl
    rw [majorVersion]
    cases hrest : (Text.splitFirst (· == '.') version.toList).2 with
    | none =>
        left
        rw [Text.splitFirst_eq_none hrest, String.ofList_toList]
    | some rest =>
        right
        obtain ⟨mark, hmark, hversion⟩ := Text.splitFirst_eq_some hrest
        obtain rfl := beq_iff_eq.1 hmark
        refine ⟨String.ofList rest, String.toList_inj.1 ?_⟩
        rw [String.toList_append, String.toList_append, String.toList_ofList,
          String.toList_ofList, String.toList_ofList, List.append_assoc]
        exact hversion
  · rintro (rfl | ⟨rest, rfl⟩)
    · rw [majorVersion, Text.splitFirst_of_forall_not hmajor, String.ofList_toList]
    · have hsplit := Text.splitFirst_append hmajor (beq_self_eq_true '.') rest.toList
      rw [majorVersion, String.toList_append, String.toList_append, List.append_assoc]
      change String.ofList (Text.splitFirst (· == '.') (major.toList ++ '.' :: rest.toList)).1 = _
      rw [hsplit, String.ofList_toList]

theorem isSupportedVersion_iff
    {version : String} :
    isSupportedVersion version = true ↔ SupportedVersion version := by
  rw [isSupportedVersion, Bool.or_eq_true, beq_iff_eq, beq_iff_eq,
    majorVersion_eq_iff (by simp), majorVersion_eq_iff (by simp)]
  simp only [SupportedVersion, List.mem_cons, List.not_mem_nil, or_false, exists_eq_or_imp,
    exists_eq_left]

end Versions

section Outputs

variable {name : String} {o : OutputDocument}

/-- What a typed output has of a recorded one: its mark, and its value as it is
read, of any type if none is recorded. -/
structure OutputDocument.TypedAs (o : OutputDocument) (t : Output) : Prop where
  sensitive : t.sensitive = o.sensitive
  value : Value.ofData (o.type.getD .dynamic) (Data.ofJson o.value) = .ok t.value

/-- Whether the value of a recorded output is read. -/
def OutputDocument.Loadable (o : OutputDocument) : Prop :=
  ∃ value, Value.ofData (o.type.getD .dynamic) (Data.ofJson o.value) = .ok value

theorem Output.ofDocument_eq_ok_iff
    {t : Output} :
    Output.ofDocument name o = .ok t ↔ o.TypedAs t := by
  simp only [Output.ofDocument, map_eq_ok_iff, typeData_eq_ok_iff]
  constructor
  · rintro ⟨value, hvalue, rfl⟩
    exact ⟨rfl, hvalue⟩
  · rintro ⟨hsensitive, hvalue⟩
    exact ⟨t.value, hvalue, by rw [← hsensitive]⟩

theorem Output.ofDocument_eq_error_iff
    {e : StateError} :
    Output.ofDocument name o = .error e ↔
      ∃ source, Value.ofData (o.type.getD .dynamic) (Data.ofJson o.value) = .error source ∧
        .ofTyping ("output." ++ name) source = e := by
  rw [Output.ofDocument, map_eq_error_iff, typeData_eq_error_iff]

theorem OutputDocument.exists_typedAs_iff :
    (∃ t, o.TypedAs t) ↔ o.Loadable := by
  constructor
  · rintro ⟨t, ht⟩
    exact ⟨t.value, ht.value⟩
  · rintro ⟨value, hvalue⟩
    exact ⟨⟨o.sensitive, value⟩, rfl, hvalue⟩

/-- Recorded outputs are typed one by one, under their names. -/
theorem Output.ofDocuments_eq_ok_iff
    {outputs : Fields OutputDocument} {typed : Fields Output} :
    Output.ofDocuments outputs = .ok typed ↔
      Fields.Paired OutputDocument.TypedAs outputs typed := by
  refine paired_of_steps (by rfl) ?_
  intro name o rest typed
  simp only [← @Output.ofDocument_eq_ok_iff name]
  rw [Output.ofDocuments]
  cases Output.ofDocument name o <;> simp [map_eq_ok_iff]

theorem Output.exists_ofDocuments_iff
    {outputs : Fields OutputDocument} :
    (∃ typed, Output.ofDocuments outputs = .ok typed) ↔
      ∀ output ∈ outputs, output.2.Loadable := by
  simp only [Output.ofDocuments_eq_ok_iff, Fields.Paired, exists_forall₂_iff, Prod.exists,
    exists_eq_left', exists_and_left, OutputDocument.exists_typedAs_iff]

/-- If ordered outputs are not typed it is for the one of least name that is
not. -/
theorem Output.ofDocuments_eq_error_iff
    {outputs : Fields OutputDocument} (hs : Fields.Sorted outputs) {e : StateError} :
    Output.ofDocuments outputs = .error e ↔ ∃ name o, (name, o) ∈ outputs ∧
      (∀ earlier ∈ outputs, compare earlier.1 name = .lt → earlier.2.Loadable) ∧
        Output.ofDocument name o = .error e := by
  have hsteps : Output.ofDocuments outputs = .error e ↔
      ∃ before output after, outputs = before ++ output :: after ∧
        (∀ earlier ∈ before, ∃ t, Output.ofDocument earlier.1 earlier.2 = .ok t) ∧
          Output.ofDocument output.1 output.2 = .error e := by
    refine eq_error_iff_of_steps (by nofun) ?_
    rintro ⟨name, o⟩ rest e
    rw [Output.ofDocuments]
    cases Output.ofDocument name o <;> simp [map_eq_error_iff]
  simp only [hsteps, Output.ofDocument_eq_ok_iff, OutputDocument.exists_typedAs_iff]
  constructor
  · rintro ⟨before, ⟨name, o⟩, after, rfl, hbefore, he⟩
    exact ⟨name, o, List.mem_append_right _ List.mem_cons_self,
      fun earlier hmem hlt => hbefore earlier (hs.mem_before_iff.2 ⟨hmem, hlt⟩), he⟩
  · rintro ⟨name, o, hmem, hbefore, he⟩
    obtain ⟨before, after, rfl⟩ := List.append_of_mem hmem
    refine ⟨before, (name, o), after, rfl, ?_, he⟩
    intro earlier hearlier
    obtain ⟨hin, hlt⟩ := hs.mem_before_iff.1 hearlier
    exact hbefore earlier hin hlt

end Outputs

section Trees

mutual

/-- The recorded resources of a module and of the modules below it, its own
first. -/
def ModuleDocument.allResources : ModuleDocument → List ResourceDocument
  | ⟨_, resources, childModules⟩ => resources ++ allResourceDocumentsOf childModules

/-- The recorded resources of modules in order. -/
def allResourceDocumentsOf : List ModuleDocument → List ResourceDocument
  | [] => []
  | m :: rest => m.allResources ++ allResourceDocumentsOf rest

end

variable {schemas : ProviderSchemas}

mutual

/-- The resources of a module are typed one after another in the order of the
tree, and so are those of what the module is typed as. -/
theorem Module.map_allResources_ofDocument :
    ∀ m : ModuleDocument, (Module.ofDocument schemas m).map Module.allResources =
      Resource.ofDocuments schemas m.allResources
  | ⟨address, resources, childModules⟩ => by
      rw [Module.ofDocument, ModuleDocument.allResources, Resource.ofDocuments_append,
        ← Module.map_allResourcesOf_ofDocuments childModules]
      cases Resource.ofDocuments schemas resources with
      | error e => rfl
      | ok typed =>
          cases Module.ofDocuments schemas childModules with
          | error e => rfl
          | ok children => rfl

theorem Module.map_allResourcesOf_ofDocuments :
    ∀ modules : List ModuleDocument, (Module.ofDocuments schemas modules).map allResourcesOf =
      Resource.ofDocuments schemas (allResourceDocumentsOf modules)
  | [] => rfl
  | m :: rest => by
      rw [Module.ofDocuments, allResourceDocumentsOf, Resource.ofDocuments_append,
        ← Module.map_allResources_ofDocument m, ← Module.map_allResourcesOf_ofDocuments rest]
      cases Module.ofDocument schemas m with
      | error e => rfl
      | ok typed =>
          cases Module.ofDocuments schemas rest with
          | error e => rfl
          | ok others => rfl

end

/-- So are the resources of a root module, if there is one. -/
theorem Module.map_allResources_ofRoot
    (root : Option ModuleDocument) :
    (Module.ofRoot schemas root).map (·.elim [] Module.allResources) =
      Resource.ofDocuments schemas (root.elim [] ModuleDocument.allResources) := by
  cases root with
  | none => rfl
  | some m =>
      rw [Option.elim_some, ← Module.map_allResources_ofDocument, Module.ofRoot]
      cases Module.ofDocument schemas m with
      | error e => rfl
      | ok typed => rfl

end Trees

section Whole

variable {schemas : ProviderSchemas} {d : StateDocument}

/-- The recorded resources of the tree of modules of a state, those of a module
before those of the modules below it. -/
def StateDocument.resources (d : StateDocument) : List ResourceDocument :=
  (d.values.bind ValuesDocument.rootModule).elim [] ModuleDocument.allResources

/-- The recorded outputs of a state. -/
def StateDocument.outputs (d : StateDocument) : Fields OutputDocument :=
  d.values.elim [] ValuesDocument.outputs

/-- The outputs of a state. -/
def State.outputs (s : State) : Fields Output :=
  s.values.elim [] StateValues.outputs

/-- A state of a supported version is typed by its resources and its outputs, one
after another. -/
theorem State.map_parts_ofDocument
    (h : SupportedVersion d.formatVersion) :
    (State.ofDocument schemas d).map (fun s => (s.resources, s.outputs)) =
      Resource.ofDocuments schemas d.resources >>= fun typed =>
        (Output.ofDocuments d.outputs).map fun outputs => (typed, outputs) := by
  obtain ⟨formatVersion, terraformVersion, values⟩ := d
  rw [State.ofDocument, isSupportedVersion_iff.2 h]
  cases values with
  | none => rfl
  | some values =>
      obtain ⟨outputs, root⟩ := values
      change _ = Resource.ofDocuments schemas (root.elim [] ModuleDocument.allResources) >>= _
      rw [← Module.map_allResources_ofRoot]
      change ((StateValues.ofDocument schemas ⟨outputs, root⟩).map _).map _ = _
      rw [StateValues.ofDocument]
      cases Module.ofRoot schemas root with
      | error e => rfl
      | ok typed =>
          change ((Output.ofDocuments outputs >>= _).map _).map _ =
            (Output.ofDocuments outputs).map _
          cases Output.ofDocuments outputs with
          | error e => rfl
          | ok others => cases typed <;> rfl

theorem State.ofDocument_of_not_supportedVersion
    (h : ¬ SupportedVersion d.formatVersion) :
    State.ofDocument schemas d = .error (.unsupportedVersion d.formatVersion) := by
  have hversion : isSupportedVersion d.formatVersion = false := by
    rw [← Bool.not_eq_true, isSupportedVersion_iff]
    exact h
  rw [State.ofDocument, hversion]
  rfl

/-- Whether a recorded state has what it needs to be typed. -/
structure StateDocument.Loadable (schemas : ProviderSchemas) (d : StateDocument) : Prop where
  version : SupportedVersion d.formatVersion
  resources : ∀ r ∈ d.resources, r.Loadable schemas
  outputs : ∀ output ∈ d.outputs, output.2.Loadable

/-- Why a recorded state is not typed: its version, or the first resource in the
order of the tree that is not typed, or the output of least name that is not. -/
inductive StateDocument.FailsWith
    (schemas : ProviderSchemas) (d : StateDocument) : StateError → Prop
  | version
      (hversion : ¬ SupportedVersion d.formatVersion) :
      FailsWith schemas d (.unsupportedVersion d.formatVersion)
  | resource
      {before after : List ResourceDocument} {r : ResourceDocument} {e : StateError}
      (hversion : SupportedVersion d.formatVersion)
      (hsplit : d.resources = before ++ r :: after)
      (hbefore : ∀ earlier ∈ before, earlier.Loadable schemas)
      (h : r.FailsWith schemas e) :
      FailsWith schemas d e
  | output
      {name : String} {o : OutputDocument} {source : TypingError}
      (hversion : SupportedVersion d.formatVersion)
      (hresources : ∀ r ∈ d.resources, r.Loadable schemas)
      (hmem : (name, o) ∈ d.outputs)
      (hbefore : ∀ earlier ∈ d.outputs, compare earlier.1 name = .lt → earlier.2.Loadable)
      (h : Value.ofData (o.type.getD .dynamic) (Data.ofJson o.value) = .error source) :
      FailsWith schemas d (.ofTyping ("output." ++ name) source)

theorem State.ofDocument_eq_error_iff
    (hs : Fields.Sorted d.outputs) {e : StateError} :
    State.ofDocument schemas d = .error e ↔ d.FailsWith schemas e := by
  by_cases hversion : SupportedVersion d.formatVersion
  · rw [← map_eq_error_iff, State.map_parts_ofDocument hversion, bind_eq_error_iff]
    simp only [map_eq_error_iff, Resource.ofDocuments_eq_error_iff,
      Output.ofDocuments_eq_error_iff hs, Output.ofDocument_eq_error_iff]
    constructor
    · rintro (⟨before, r, after, hsplit, hbefore, he⟩ |
        ⟨typed, htyped, name, o, hmem, hbefore, source, hsource, rfl⟩)
      · exact .resource hversion hsplit hbefore he
      · exact .output hversion (Resource.exists_ofDocuments_iff.1 ⟨typed, htyped⟩) hmem hbefore
          hsource
    · rintro (hnot | ⟨-, hsplit, hbefore, he⟩ | ⟨-, hresources, hmem, hbefore, hsource⟩)
      · exact absurd hversion hnot
      · exact Or.inl ⟨_, _, _, hsplit, hbefore, he⟩
      · obtain ⟨typed, htyped⟩ := Resource.exists_ofDocuments_iff.2 hresources
        exact Or.inr ⟨typed, htyped, _, _, hmem, hbefore, _, hsource, rfl⟩
  · rw [State.ofDocument_of_not_supportedVersion hversion, Except.error.injEq]
    constructor
    · rintro rfl
      exact .version hversion
    · rintro (- | ⟨hnot, -⟩ | ⟨hnot, -⟩)
      · rfl
      · exact absurd hnot hversion
      · exact absurd hnot hversion

theorem State.exists_ofDocument_iff :
    (∃ s, State.ofDocument schemas d = .ok s) ↔ d.Loadable schemas := by
  by_cases hversion : SupportedVersion d.formatVersion
  · have hparts : (∃ s, State.ofDocument schemas d = .ok s) ↔
        ∃ parts, (State.ofDocument schemas d).map (fun s => (s.resources, s.outputs)) =
          .ok parts := by
      simp only [map_eq_ok_iff]
      constructor
      · rintro ⟨s, hs⟩
        exact ⟨_, s, hs, rfl⟩
      · rintro ⟨_, s, hs, -⟩
        exact ⟨s, hs⟩
    rw [hparts, State.map_parts_ofDocument hversion]
    simp only [bind_eq_ok_iff, map_eq_ok_iff]
    constructor
    · rintro ⟨_, typed, htyped, outputs, houtputs, -⟩
      exact ⟨hversion, Resource.exists_ofDocuments_iff.1 ⟨typed, htyped⟩,
        Output.exists_ofDocuments_iff.1 ⟨outputs, houtputs⟩⟩
    · rintro ⟨-, hresources, houtputs⟩
      obtain ⟨typed, htyped⟩ := Resource.exists_ofDocuments_iff.2 hresources
      obtain ⟨outputs, hread⟩ := Output.exists_ofDocuments_iff.2 houtputs
      exact ⟨_, typed, htyped, outputs, hread, rfl⟩
  · rw [State.ofDocument_of_not_supportedVersion hversion]
    refine iff_of_false ?_ fun h => hversion h.version
    rintro ⟨s, hs⟩
    cases hs

/-- The parts of a state that is typed are its recorded ones, typed in their
order. -/
theorem State.parts_of_ofDocument
    {s : State} (h : State.ofDocument schemas d = .ok s) :
    List.Forall₂ (ResourceDocument.TypedAs schemas) d.resources s.resources ∧
      Fields.Paired OutputDocument.TypedAs d.outputs s.outputs := by
  have hversion := (State.exists_ofDocument_iff.1 ⟨s, h⟩).version
  have hparts := @State.map_parts_ofDocument schemas d hversion
  rw [h] at hparts
  obtain ⟨typed, htyped, hrest⟩ := bind_eq_ok_iff.1 hparts.symm
  obtain ⟨outputs, houtputs, heq⟩ := map_eq_ok_iff.1 hrest
  obtain ⟨rfl, rfl⟩ := Prod.mk.inj heq
  exact ⟨Resource.ofDocuments_eq_ok_iff.1 htyped, Output.ofDocuments_eq_ok_iff.1 houtputs⟩

/-- A state is loaded exactly if its format version is supported and each resource
of its tree of modules and each output is typed.  Its resources then are the
recorded ones, one for one in the order of the tree, with what is recorded of them
and with their values and indices as they are read; and so are its outputs.
Otherwise the failure is the first one, in the order of the version, the resources
of the tree, and the outputs by name; where that is an overflow nothing is returned. -/
theorem State.loading_allOrNothing
    (schemas : ProviderSchemas) (d : StateDocument) (hs : Fields.Sorted d.outputs) :
    ((∃ s, State.ofDocument schemas d = .ok s) ↔ d.Loadable schemas) ∧
      (∀ s, State.ofDocument schemas d = .ok s →
        List.Forall₂ (ResourceDocument.TypedAs schemas) d.resources s.resources ∧
          Fields.Paired OutputDocument.TypedAs d.outputs s.outputs) ∧
      ∀ e, State.ofDocument schemas d = .error e ↔ d.FailsWith schemas e :=
  ⟨State.exists_ofDocument_iff, fun _ => State.parts_of_ofDocument,
    fun _ => State.ofDocument_eq_error_iff hs⟩

/-- A provider with one type of resource and one data source. -/
def cloudSchemas : ProviderSchemas :=
  { schemas :=
      [("cloud",
        { resources :=
            [("server", { block := { attributes := [("port", { type := some .number })] } })]
          dataSources :=
            [("image", { block := { attributes := [("id", { type := some .string })] } })] })] }

/-- A state with a server, and an image that a module below reads. -/
def cloudState : StateDocument :=
  { formatVersion := "1.0"
    values := some
      { outputs := [("host", { value := .string "a", type := some .string }), ("zone", {})]
        rootModule := some
          { resources :=
              [{ address := "server.a[0]", type := "server", name := "a"
                 index := some (.number "0"), providerName := "cloud"
                 values := .object [("port", .number "80")] }]
            childModules :=
              [{ address := "module.m"
                 resources :=
                  [{ address := "module.m.data.image.b", mode := .data, type := "image"
                     name := "b", providerName := "cloud"
                     values := .object [("id", .null)] }] }] } } }

theorem State.loading_allOrNothing_cloud :
    Fields.Sorted cloudState.outputs ∧ cloudState.Loadable cloudSchemas ∧
      ∃ s, State.ofDocument cloudSchemas cloudState = .ok s ∧
        s.resources.map Resource.address = ["server.a[0]", "module.m.data.image.b"] := by
  have hs : Fields.Sorted cloudState.outputs := by
    unfold Fields.Sorted
    decide
  obtain ⟨hloads, hparts, -⟩ := State.loading_allOrNothing cloudSchemas cloudState hs
  have hok : (State.ofDocument cloudSchemas cloudState).isOk = true := by
    decide +kernel
  cases hstate : State.ofDocument cloudSchemas cloudState with
  | error e =>
      rw [hstate] at hok
      cases hok
  | ok s =>
      have haddresses : s.resources.map Resource.address =
          cloudState.resources.map ResourceDocument.address :=
        (forall_mem_and_map_eq_of_forall₂ (hparts s hstate).1
          fun _ _ _ _ h => ⟨trivial, h.address⟩).2
      exact ⟨hs, hloads.1 ⟨s, hstate⟩, s, rfl, haddresses⟩

end Whole

end TypedConfig
