import TypedConfig.Value.Collection

/-!
# Configuration bodies

A body is the content of a configuration file or of a block in it: attributes
whose expressions have values, and blocks in the order of the source, which
have labels and bodies of their own.  A body may be unknown: it then stands for
any number of blocks, such as a generator that is not expanded yet.

Parts of a body may know their place in the source.
-/

namespace TypedConfig

/-- A place in a source text. -/
structure Position where
  line : Nat
  column : Nat
  byte : Nat
  deriving DecidableEq, Inhabited

/-- A span of a source text. -/
structure SourceRange where
  file : String
  start : Position
  stop : Position
  deriving DecidableEq, Inhabited

/-- The text of a span; byte offsets are not shown. -/
def SourceRange.text (r : SourceRange) : String :=
  r.file ++ ":" ++ toString r.start.line ++ "," ++ toString r.start.column ++ "-" ++
    toString r.stop.line ++ "," ++ toString r.stop.column

/-- An attribute in a body. -/
structure BodyAttribute where
  value : Value
  /-- The span of the whole attribute. -/
  range : Option SourceRange := none
  /-- The span of the expression that gives the value. -/
  exprRange : Option SourceRange := none

mutual

/-- The content of a file or block. -/
structure Body where
  attributes : List (String × BodyAttribute) := []
  blocks : List BodyBlock := []
  /-- Whether the body stands for an unknown number of blocks. -/
  unknown : Bool := false

/-- A block in a body. -/
structure BodyBlock where
  type : String
  labels : List String := []
  body : Body
  range : Option SourceRange := none

end

instance : Inhabited Body := ⟨{}⟩

mutual

/-- Whether at every level the attributes are in the order of their names and
their values are well formed. -/
def Body.WellFormed : Body → Prop
  | ⟨attributes, blocks, _⟩ =>
      Fields.Sorted attributes ∧ (∀ a ∈ attributes, a.2.value.WellFormed) ∧
        BlocksWellFormed blocks

/-- Whether the bodies of all blocks are well formed. -/
def BlocksWellFormed : List BodyBlock → Prop
  | [] => True
  | ⟨_, _, body, _⟩ :: rest => body.WellFormed ∧ BlocksWellFormed rest

end

/-- The blocks of a type, in the order of the source. -/
def Body.blocksOf (type : String) (b : Body) : List BodyBlock :=
  b.blocks.filter fun block => block.type == type

end TypedConfig
