import TypedConfig.Body
import TypedConfig.Data.Basic
import TypedConfig.Data.Typing
import TypedConfig.Decimal.Basic
import TypedConfig.Decimal.Binary64
import TypedConfig.Decimal.Canonical
import TypedConfig.Decimal.Literal
import TypedConfig.Decimal.Order
import TypedConfig.Decimal.Scaled
import TypedConfig.Decoder.Basic
import TypedConfig.Decoder.Decode
import TypedConfig.Depth
import TypedConfig.Diagnostic
import TypedConfig.Fields
import TypedConfig.Json.Basic
import TypedConfig.Json.Document
import TypedConfig.Json.Generic
import TypedConfig.Json.Parser
import TypedConfig.Json.Quoted
import TypedConfig.Json.Source
import TypedConfig.Json.Unsigned
import TypedConfig.Lexicographic
import TypedConfig.Path
import TypedConfig.Proofs.Data.Failure
import TypedConfig.Proofs.Data.Inhabitation
import TypedConfig.Proofs.Data.Reading
import TypedConfig.Proofs.Data.Rearrangement
import TypedConfig.Proofs.Data.RoundTrip
import TypedConfig.Proofs.Data.Typing
import TypedConfig.Proofs.Data.Widening
import TypedConfig.Proofs.Decimal.Canonical
import TypedConfig.Proofs.Decimal.Comparison
import TypedConfig.Proofs.Decimal.Denotation
import TypedConfig.Proofs.Decimal.Integers
import TypedConfig.Proofs.Decimal.LowestTerms
import TypedConfig.Proofs.Decimal.Numeral
import TypedConfig.Proofs.Decimal.Range
import TypedConfig.Proofs.Decimal.Rational
import TypedConfig.Proofs.Decimal.Reading
import TypedConfig.Proofs.Decoder.Content
import TypedConfig.Proofs.Decoder.Dependence
import TypedConfig.Proofs.Decoder.Diagnostics
import TypedConfig.Proofs.Decoder.Equivalence
import TypedConfig.Proofs.Decoder.Known
import TypedConfig.Proofs.Decoder.Range
import TypedConfig.Proofs.Decoder.Reordering
import TypedConfig.Proofs.Decoder.Stored
import TypedConfig.Proofs.Decoder.Yields
import TypedConfig.Proofs.Fields.Paired
import TypedConfig.Proofs.Json.Document
import TypedConfig.Proofs.Json.Parts
import TypedConfig.Proofs.Outcome
import TypedConfig.Proofs.Schema.Advice
import TypedConfig.Proofs.Schema.BlockOrder
import TypedConfig.Proofs.Schema.CutOff
import TypedConfig.Proofs.Schema.DecodedValue
import TypedConfig.Proofs.Schema.Decoding
import TypedConfig.Proofs.Schema.Document
import TypedConfig.Proofs.Schema.EmptyBody
import TypedConfig.Proofs.Schema.EmptyValue
import TypedConfig.Proofs.Schema.ImpliedType
import TypedConfig.Proofs.Schema.Independence
import TypedConfig.Proofs.Schema.KnownValue
import TypedConfig.Proofs.Schema.Marks
import TypedConfig.Proofs.Schema.Overflow
import TypedConfig.Proofs.Schema.Parts
import TypedConfig.Proofs.Schema.Reads
import TypedConfig.Proofs.Schema.StoredValue
import TypedConfig.Proofs.Schema.ValidBody
import TypedConfig.Proofs.State.Loading
import TypedConfig.Proofs.State.Resource
import TypedConfig.Proofs.Ty.Conformance
import TypedConfig.Proofs.Ty.Document
import TypedConfig.Proofs.Ty.Expression
import TypedConfig.Proofs.Ty.Parts
import TypedConfig.Proofs.Ty.Replacement
import TypedConfig.Proofs.Value.Conformance
import TypedConfig.Proofs.Value.Conversion
import TypedConfig.Proofs.Value.Form
import TypedConfig.Proofs.Value.Known
import TypedConfig.Proofs.Value.Order
import TypedConfig.Proofs.Value.Parts
import TypedConfig.Proofs.Value.Range
import TypedConfig.Proofs.Value.Settled
import TypedConfig.Proofs.Value.TypeConformance
import TypedConfig.Schema.Basic
import TypedConfig.Schema.Decoding
import TypedConfig.Schema.Document
import TypedConfig.Schema.EmptyValue
import TypedConfig.Schema.ImpliedType
import TypedConfig.State.Basic
import TypedConfig.State.Document
import TypedConfig.Text.Blank
import TypedConfig.Text.Split
import TypedConfig.Ty.Basic
import TypedConfig.Ty.Conformance
import TypedConfig.Ty.Expression
import TypedConfig.Ty.Order
import TypedConfig.Value.Basic
import TypedConfig.Value.Collection
import TypedConfig.Value.Conformance
import TypedConfig.Value.Conversion
import TypedConfig.Value.Generic
import TypedConfig.Value.Order
import TypedConfig.Value.ScaledOrder
