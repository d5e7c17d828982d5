import TypedConfig.Data.Typing
import TypedConfig.Schema.ImpliedType
import TypedConfig.State.Document
import TypedConfig.Text.Split

/-!
# Typed states

A state document is typed as a whole or not at all.  The values of each
resource are read against the type that the schema of its provider implies,
indices against the dynamic type, and outputs against their recorded type, or
the dynamic type if there is none.

The format version is looked at first, then the modules, a module's own
resources before those of its child modules, and the outputs at last.  The
first failure is the one that is reported, unless a number is met before it whose
reading leaves the range of 64-bit integers.
-/

namespace TypedConfig

/-- A resource with typed values. -/
structure Resource where
  address : String
  mode : ResourceMode
  type : String
  name : String
  index : Option Value
  providerName : String
  schemaVersion : Nat
  value : Value
  sensitiveValues : Option Json
  dependsOn : List String
  tainted : Bool
  deposedKey : Option String

/-- A module with typed resources. -/
structure Module where
  address : String
  resources : List Resource
  childModules : List Module

/-- An output with a typed value. -/
structure Output where
  sensitive : Bool
  value : Value

/-- The typed values of a state. -/
structure StateValues where
  rootModule : Option Module
  outputs : Fields Output

/-- A state with typed values. -/
structure State where
  formatVersion : String
  terraformVersion : Option String
  values : Option StateValues

/-- Why a state document cannot be typed. -/
inductive StateError where
  | unsupportedVersion (version : String)
  | unknownProvider (provider address : String)
  | unknownResourceType (mode : ResourceMode) (type provider : String)
  | typing (address : String) (source : TypingError)
  /-- Nothing is returned, since a literal is read out of the range. -/
  | overflow (literal : String)

/-- What resources of a mode are called. -/
def ResourceMode.noun : ResourceMode → String
  | .managed => "resource"
  | .data => "data source"

/-- The wording of a failure. -/
def StateError.message : StateError → String
  | .unsupportedVersion version =>
      "unsupported state format version `" ++ version ++
        "`; only major versions 0 and 1 are supported"
  | .unknownProvider provider address =>
      "no provider `" ++ provider ++ "` found in the provider schemas (resource " ++ address ++ ")"
  | .unknownResourceType mode type provider =>
      "no " ++ mode.noun ++ " type `" ++ type ++ "` found in the schema of provider `" ++
        provider ++ "`"
  | .typing address source => "converting " ++ address ++ ": " ++ source.text
  | .overflow _ => outOfRange

/-- What comes of data under an address that is not read. -/
def StateError.ofTyping (address : String) (source : TypingError) : StateError :=
  match source.cause with
  | .overflow literal => .overflow literal
  | _ => .typing address source

/-- The part of a version before its first point. -/
def majorVersion (version : String) : String :=
  String.ofList (Text.splitFirst (· == '.') version.toList).1

/-- Whether states of a format version can be typed. -/
def isSupportedVersion (version : String) : Bool :=
  majorVersion version == "0" || majorVersion version == "1"

/-- Reads generic data under an address. -/
def typeData (address : String) (want : Ty) (j : Json) : Except StateError Value :=
  (Value.ofData want (Data.ofJson j)).mapError (.ofTyping address)

namespace ProviderSchema

/-- The schemas of the resources of a mode. -/
def ofMode (mode : ResourceMode) (s : ProviderSchema) : Fields ResourceSchema :=
  match mode with
  | .managed => s.resources
  | .data => s.dataSources

end ProviderSchema

/-- The schema of a recorded resource. -/
def ProviderSchemas.lookup (schemas : ProviderSchemas) (r : ResourceDocument) :
    Except StateError ResourceSchema :=
  match Fields.get? r.providerName schemas.schemas with
  | none => .error (.unknownProvider r.providerName r.address)
  | some provider =>
      match Fields.get? r.type (provider.ofMode r.mode) with
      | none => .error (.unknownResourceType r.mode r.type r.providerName)
      | some schema => .ok schema

/-- Types the index of a recorded resource, if it has one. -/
def typeIndex (r : ResourceDocument) : Except StateError (Option Value) :=
  match r.index with
  | none => .ok none
  | some j => (typeData r.address .dynamic j).map some

/-- Types a recorded resource. -/
def Resource.ofDocument (schemas : ProviderSchemas) (r : ResourceDocument) :
    Except StateError Resource := do
  let schema ← schemas.lookup r
  let value ← typeData r.address schema.block.impliedType r.values
  let index ← typeIndex r
  return ⟨r.address, r.mode, r.type, r.name, index, r.providerName, r.schemaVersion, value,
    r.sensitiveValues, r.dependsOn, r.tainted, r.deposedKey⟩

/-- Types recorded resources in order. -/
def Resource.ofDocuments (schemas : ProviderSchemas) :
    List ResourceDocument → Except StateError (List Resource)
  | [] => .ok []
  | r :: rest =>
      match Resource.ofDocument schemas r with
      | .error e => .error e
      | .ok typed => (Resource.ofDocuments schemas rest).map (typed :: ·)

mutual

/-- Types a recorded module. -/
def Module.ofDocument (schemas : ProviderSchemas) : ModuleDocument → Except StateError Module
  | ⟨address, resources, childModules⟩ =>
      match Resource.ofDocuments schemas resources with
      | .error e => .error e
      | .ok typed => (Module.ofDocuments schemas childModules).map (⟨address, typed, ·⟩)

/-- Types recorded modules in order. -/
def Module.ofDocuments (schemas : ProviderSchemas) :
    List ModuleDocument → Except StateError (List Module)
  | [] => .ok []
  | m :: rest =>
      match Module.ofDocument schemas m with
      | .error e => .error e
      | .ok typed => (Module.ofDocuments schemas rest).map (typed :: ·)

end

/-- Types a recorded output. -/
def Output.ofDocument (name : String) (o : OutputDocument) : Except StateError Output :=
  (typeData ("output." ++ name) (o.type.getD .dynamic) o.value).map (⟨o.sensitive, ·⟩)

/-- Types recorded outputs in order. -/
def Output.ofDocuments : List (String × OutputDocument) → Except StateError (Fields Output)
  | [] => .ok []
  | (name, o) :: rest =>
      match Output.ofDocument name o with
      | .error e => .error e
      | .ok typed => (Output.ofDocuments rest).map ((name, typed) :: ·)

/-- Types the recorded root module, if there is one. -/
def Module.ofRoot (schemas : ProviderSchemas) :
    Option ModuleDocument → Except StateError (Option Module)
  | none => .ok none
  | some m => (Module.ofDocument schemas m).map some

/-- Types the recorded values of a state. -/
def StateValues.ofDocument (schemas : ProviderSchemas) (v : ValuesDocument) :
    Except StateError StateValues := do
  let rootModule ← Module.ofRoot schemas v.rootModule
  let outputs ← Output.ofDocuments v.outputs
  return ⟨rootModule, outputs⟩

namespace State

/-- Types a recorded state. -/
def ofDocument (schemas : ProviderSchemas) (d : StateDocument) : Except StateError State :=
  if !isSupportedVersion d.formatVersion then
    .error (.unsupportedVersion d.formatVersion)
  else
    match d.values with
    | none => .ok ⟨d.formatVersion, d.terraformVersion, none⟩
    | some values =>
        (StateValues.ofDocument schemas values).map fun typed =>
          ⟨d.formatVersion, d.terraformVersion, some typed⟩

end State

mutual

/-- The resources of a module and of the modules below it, its own first. -/
def Module.allResources : Module → List Resource
  | ⟨_, resources, childModules⟩ => resources ++ allResourcesOf childModules

/-- The resources of modules in order. -/
def allResourcesOf : List Module → List Resource
  | [] => []
  | m :: rest => m.allResources ++ allResourcesOf rest

end

/-- All resources of a state, those of a module before those of the modules
below it. -/
def State.resources (s : State) : List Resource :=
  match s.values with
  | some ⟨some m, _⟩ => m.allResources
  | _ => []

end TypedConfig
