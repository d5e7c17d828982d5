import TypedConfig.Schema.Document

/-!
# State documents and provider schemas

A state document records the resources of a tree of modules and the outputs of
the root module, their values as generic data.  The provider schemas hold the
schemas of the resources, by provider and type, apart for resources that are
managed and for data sources.
-/

namespace TypedConfig

/-- Whether a resource is managed or only read. -/
inductive ResourceMode where
  | managed
  | data
  deriving DecidableEq, Inhabited

/-- The name of a resource mode. -/
def ResourceMode.name : ResourceMode → String
  | .managed => "managed"
  | .data => "data"

/-- The resource mode of a name. -/
def ResourceMode.ofName? : String → Option ResourceMode
  | "managed" => some .managed
  | "data" => some .data
  | _ => none

/-- The schema of a type of resource. -/
structure ResourceSchema where
  version : Nat := 0
  block : Schema.Block := {}
  deriving Inhabited

/-- The schemas of one provider. -/
structure ProviderSchema where
  provider : Option ResourceSchema := none
  resources : Fields ResourceSchema := []
  dataSources : Fields ResourceSchema := []
  deriving Inhabited

/-- The schemas of all providers by address. -/
structure ProviderSchemas where
  formatVersion : Option String := none
  schemas : Fields ProviderSchema := []
  deriving Inhabited

/-- A resource as recorded. -/
structure ResourceDocument where
  address : String
  mode : ResourceMode := .managed
  type : String
  name : String
  index : Option Json := none
  providerName : String
  schemaVersion : Nat := 0
  values : Json := .null
  sensitiveValues : Option Json := none
  dependsOn : List String := []
  tainted : Bool := false
  deposedKey : Option String := none
  deriving Inhabited

/-- A module as recorded. -/
structure ModuleDocument where
  address : String := ""
  resources : List ResourceDocument := []
  childModules : List ModuleDocument := []
  deriving Inhabited

/-- An output as recorded, perhaps with its type. -/
structure OutputDocument where
  sensitive : Bool := false
  value : Json := .null
  type : Option Ty := none
  deriving Inhabited

/-- The values of a state as recorded. -/
structure ValuesDocument where
  outputs : Fields OutputDocument := []
  rootModule : Option ModuleDocument := none
  deriving Inhabited

/-- A state as recorded. -/
structure StateDocument where
  formatVersion : String
  terraformVersion : Option String := none
  values : Option ValuesDocument := none
  deriving Inhabited

open Json

namespace ResourceSchema

/-- The document of a resource schema. -/
def toJson (s : ResourceSchema) : Json :=
  .object [("version", Json.ofNat s.version), ("block", s.block.toJson)]

/-- Reads a resource schema. -/
def read : Nat → Source → Except DocumentError ResourceSchema
  | 0, j => atLastLevel j (j.isArray || j.isObject)
  | levels + 1, j => do
      let fields ← readRecord ["version", "block"] j
      let version ← defaultField fields "version" 0 readNat64
      let block ← defaultField fields "block" {} (Schema.Block.read levels)
      return ⟨version, block⟩

/-- Reads resource schemas by type. -/
def readAll : Nat → Source → Except DocumentError (Fields ResourceSchema)
  | 0, j => atLastLevel j j.isObject
  | levels + 1, j => readMap (read levels) j

end ResourceSchema

namespace ProviderSchema

/-- The document of the schemas of a provider. -/
def toJson (s : ProviderSchema) : Json :=
  .object (fieldOf? "provider" ResourceSchema.toJson s.provider ++
    [("resource_schemas", .object (Fields.mapValues ResourceSchema.toJson s.resources)),
      ("data_source_schemas", .object (Fields.mapValues ResourceSchema.toJson s.dataSources))])

/-- Reads the schemas of a provider. -/
def read : Nat → Source → Except DocumentError ProviderSchema
  | 0, j => atLastLevel j (j.isArray || j.isObject)
  | levels + 1, j => do
      let fields ← readRecord ["provider", "resource_schemas", "data_source_schemas"] j
      let provider ← optionalField fields "provider" (ResourceSchema.read levels)
      let resources ← defaultField fields "resource_schemas" [] (ResourceSchema.readAll levels)
      let dataSources ← defaultField fields "data_source_schemas" [] (ResourceSchema.readAll levels)
      return ⟨provider, resources, dataSources⟩

/-- Reads the schemas of providers by address. -/
def readAll : Nat → Source → Except DocumentError (Fields ProviderSchema)
  | 0, j => atLastLevel j j.isObject
  | levels + 1, j => readMap (read levels) j

end ProviderSchema

namespace ProviderSchemas

/-- The document of the schemas of all providers. -/
def toJson (s : ProviderSchemas) : Json :=
  .object (fieldOf? "format_version" Json.string s.formatVersion ++
    [("provider_schemas", .object (Fields.mapValues ProviderSchema.toJson s.schemas))])

/-- Reads the schemas of all providers. -/
def read : Nat → Source → Except DocumentError ProviderSchemas
  | 0, j => atLastLevel j (j.isArray || j.isObject)
  | levels + 1, j => do
      let fields ← readRecord ["format_version", "provider_schemas"] j
      let formatVersion ← optionalField fields "format_version" readString
      let schemas ← defaultField fields "provider_schemas" [] (ProviderSchema.readAll levels)
      return ⟨formatVersion, schemas⟩

/-- Reads the schemas of all providers from their text. -/
def ofText (text : String) : Except DocumentError ProviderSchemas :=
  Schema.readText read text

end ProviderSchemas

/-- Reads an array whose items are read with one level less. -/
def readItems {α : Type} (read : Nat → Source → Except DocumentError α) :
    Nat → Source → Except DocumentError (List α)
  | 0, j => atLastLevel j j.isArray
  | levels + 1, j => readList (read levels) j

/-- Reads a recorded resource. -/
def ResourceDocument.read : Nat → Source → Except DocumentError ResourceDocument
  | 0, j => atLastLevel j (j.isArray || j.isObject)
  | levels + 1, j => do
      let fields ← readRecord ["address", "mode", "type", "name", "index", "provider_name",
        "schema_version", "values", "sensitive_values", "depends_on", "tainted", "deposed_key"] j
      let address ← requiredField fields "address" readString
      let mode ← defaultField fields "mode" .managed (readChoice levels ResourceMode.ofName?)
      let type ← requiredField fields "type" readString
      let name ← requiredField fields "name" readString
      let index ← optionalField fields "index" (Source.generic levels)
      let providerName ← requiredField fields "provider_name" readString
      let schemaVersion ← defaultField fields "schema_version" 0 readNat64
      let values ← defaultField fields "values" .null (Source.generic levels)
      let sensitiveValues ← optionalField fields "sensitive_values" (Source.generic levels)
      let dependsOn ←
        defaultField fields "depends_on" [] (readItems (fun _ => readString) levels)
      let tainted ← defaultField fields "tainted" false readBool
      let deposedKey ← optionalField fields "deposed_key" readString
      return ⟨address, mode, type, name, index, providerName, schemaVersion, values,
        sensitiveValues, dependsOn, tainted, deposedKey⟩

mutual

/-- Reads a recorded module. -/
def ModuleDocument.read : Nat → Source → Except DocumentError ModuleDocument
  | 0, j => atLastLevel j (j.isArray || j.isObject)
  | levels + 1, j => do
      let fields ← readRecord ["address", "resources", "child_modules"] j
      let address ← defaultField fields "address" "" readString
      let resources ←
        defaultField fields "resources" [] (readItems ResourceDocument.read levels)
      let childModules ← defaultField fields "child_modules" [] (readModules levels)
      return ⟨address, resources, childModules⟩

/-- Reads an array of recorded modules. -/
def readModules : Nat → Source → Except DocumentError (List ModuleDocument)
  | 0, j => atLastLevel j j.isArray
  | levels + 1, j => readList (ModuleDocument.read levels) j

end

/-- Reads a recorded output. -/
def OutputDocument.read : Nat → Source → Except DocumentError OutputDocument
  | 0, j => atLastLevel j (j.isArray || j.isObject)
  | levels + 1, j => do
      let fields ← readRecord ["sensitive", "value", "type"] j
      let sensitive ← defaultField fields "sensitive" false readBool
      let value ← defaultField fields "value" .null (Source.generic levels)
      let type ← optionalField fields "type" (Ty.read levels)
      return ⟨sensitive, value, type⟩

/-- Reads recorded outputs by name. -/
def OutputDocument.readAll : Nat → Source → Except DocumentError (Fields OutputDocument)
  | 0, j => atLastLevel j j.isObject
  | levels + 1, j => readMap (OutputDocument.read levels) j

/-- Reads the recorded values of a state. -/
def ValuesDocument.read : Nat → Source → Except DocumentError ValuesDocument
  | 0, j => atLastLevel j (j.isArray || j.isObject)
  | levels + 1, j => do
      let fields ← readRecord ["outputs", "root_module"] j
      let outputs ← defaultField fields "outputs" [] (OutputDocument.readAll levels)
      let rootModule ← optionalField fields "root_module" (ModuleDocument.read levels)
      return ⟨outputs, rootModule⟩

/-- Reads a recorded state. -/
def StateDocument.read : Nat → Source → Except DocumentError StateDocument
  | 0, j => atLastLevel j (j.isArray || j.isObject)
  | levels + 1, j => do
      let fields ← readRecord ["format_version", "terraform_version", "values"] j
      let formatVersion ← requiredField fields "format_version" readString
      let terraformVersion ← optionalField fields "terraform_version" readString
      let values ← optionalField fields "values" (ValuesDocument.read levels)
      return ⟨formatVersion, terraformVersion, values⟩

/-- Reads a recorded state from its text. -/
def StateDocument.ofText (text : String) : Except DocumentError StateDocument :=
  Schema.readText StateDocument.read text

end TypedConfig
