import TypedConfig.Body

/-!
# Diagnostics

Decoding reports what is wrong with its input and goes on.  A diagnostic says
how grave the finding is, what was found, and where if that is known.
-/

namespace TypedConfig

/-- How grave a finding is. -/
inductive Severity where
  | error
  | warning
  deriving DecidableEq, Inhabited

/-- The name of a severity. -/
def Severity.text : Severity → String
  | .error => "error"
  | .warning => "warning"

/-- A finding about a body. -/
structure Diagnostic where
  severity : Severity
  summary : String
  detail : String
  subject : Option SourceRange
  deriving DecidableEq, Inhabited

namespace Diagnostic

/-- The text of a finding: its place, its severity, its summary and, if there
is any, its detail. -/
def text (d : Diagnostic) : String :=
  (match d.subject with
    | some range => range.text ++ ": "
    | none => "") ++
    d.severity.text ++ ": " ++ d.summary ++
    (if d.detail.isEmpty then "" else "; " ++ d.detail)

/-- The text of several findings, a line each. -/
def textOfAll (ds : List Diagnostic) : String :=
  "\n".intercalate (ds.map text)

/-- Whether there is an error among the findings. -/
def hasErrors (ds : List Diagnostic) : Bool :=
  ds.any fun d => d.severity == .error

/-- An attribute that is not read. -/
def unsupportedArgument (name : String) (range : Option SourceRange) : Diagnostic :=
  ⟨.error, "Unsupported argument",
    "An argument named \"" ++ name ++ "\" is not expected here.", range⟩

/-- A block whose type is not read. -/
def unsupportedBlock (type : String) (range : Option SourceRange) : Diagnostic :=
  ⟨.error, "Unsupported block type",
    "Blocks of type \"" ++ type ++ "\" are not expected here.", range⟩

/-- A required attribute that is missing. -/
def missingArgument (name : String) : Diagnostic :=
  ⟨.error, "Missing required argument",
    "The argument \"" ++ name ++ "\" is required, but no definition was found.", none⟩

/-- An attribute whose value cannot be converted. -/
def incorrectType (name problem : String) (range : Option SourceRange) : Diagnostic :=
  ⟨.error, "Incorrect attribute value type",
    "Inappropriate value for attribute \"" ++ name ++ "\": " ++ problem ++ ".", range⟩

/-- A required block that is missing. -/
def missingBlock (type : String) : Diagnostic :=
  ⟨.error, "Missing " ++ type ++ " block",
    "A block of type \"" ++ type ++ "\" is required here.", none⟩

/-- A further block of a type that may occur once. -/
def duplicateBlock (type : String) (range : Option SourceRange) : Diagnostic :=
  ⟨.error, "Duplicate " ++ type ++ " block",
    "Only one block of type \"" ++ type ++ "\" is allowed.", range⟩

/-- A block that has other labels than it needs. -/
def wrongLabels (type : String) (needed : List String) (given : Nat)
    (range : Option SourceRange) : Diagnostic :=
  ⟨.error, "Wrong number of labels for " ++ type ++ " block",
    "Blocks of type \"" ++ type ++ "\" need " ++ toString needed.length ++ " label(s) (" ++
      ", ".intercalate needed ++ "), but " ++ toString given ++ " were given.", range⟩

end Diagnostic
end TypedConfig
