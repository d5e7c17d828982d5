/-!
# The limit of nesting

Schemas and data are walked down to a limit.  The root has depth zero; what
lies deeper than the limit is not looked at.
-/

namespace TypedConfig

/-- The depth of the deepest nodes that are looked at. -/
def maxDepth : Nat := 64

end TypedConfig
