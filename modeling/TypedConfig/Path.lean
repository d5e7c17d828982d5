/-!
# Paths into nested data

A path leads from a root to a part of it.  Reports show the text of the path,
in which names stand as they are.
-/

namespace TypedConfig

/-- One step from a whole to one of its parts. -/
inductive PathStep where
  /-- An element of a sequence. -/
  | index (i : Nat)
  /-- Every element of a collection. -/
  | anyElement
  /-- The entry of a map at a key. -/
  | key (name : String)
  /-- An attribute of an object. -/
  | attribute (name : String)
  deriving DecidableEq

/-- The steps from the root to a part. -/
abbrev Path := List PathStep

/-- The text of one step. -/
def PathStep.text : PathStep → String
  | .index i => "[" ++ toString i ++ "]"
  | .anyElement => "[*]"
  | .key name => "[\"" ++ name ++ "\"]"
  | .attribute name => "." ++ name

/-- The text of a path whose root is written in the given way. -/
def Path.text (root : String) : Path → String
  | [] => root
  | step :: rest => Path.text (root ++ step.text) rest

end TypedConfig
