import TypedConfig.Decoder.Basic
import TypedConfig.Diagnostic
import TypedConfig.Value.Conversion

/-!
# Decoding bodies

A decoder is applied to a body and yields a value together with diagnostics, in
the order of their discovery.  It does not fail: what is missing becomes null,
and what cannot be converted becomes unknown, both of the type that is due.  But
where a conversion leaves the range of 64-bit integers nothing is returned.

Attributes and blocks that the decoder does not read are reported first.  Of
blocks of which one is unknown nothing is known, not even their number; they
are not looked into.
-/

namespace TypedConfig

/-- A result beside what was found on the way to it.  Where the range has been left
on the way, the result and the findings are not returned: the former only stands
in for what there is not. -/
structure Decoded (α : Type) where
  result : α
  diagnostics : List Diagnostic
  leavesRange : Bool

namespace Decoded

variable {α β : Type}

/-- A result and what was found. -/
def reporting (found : List Diagnostic) (a : α) : Decoded α :=
  ⟨a, found, false⟩

/-- A result without findings. -/
def clean (a : α) : Decoded α :=
  reporting [] a

/-- What stands in for a result where the range is left. -/
def stopped (a : α) : Decoded α :=
  ⟨a, [], true⟩

/-- Another result from the same findings. -/
def map (f : α → β) (d : Decoded α) : Decoded β :=
  ⟨f d.result, d.diagnostics, d.leavesRange⟩

/-- Findings before those of a result. -/
def after (found : List Diagnostic) (d : Decoded α) : Decoded α :=
  ⟨d.result, found ++ d.diagnostics, d.leavesRange⟩

/-- A result that comes after another one. -/
def following (d : Decoded α) (first : Decoded β) : Decoded α :=
  ⟨d.result, first.diagnostics ++ d.diagnostics, first.leavesRange || d.leavesRange⟩

/-- The result and the findings as they are returned. -/
def returned? (d : Decoded α) : Checked (α × List Diagnostic) :=
  if d.leavesRange then none else some (d.result, d.diagnostics)

end Decoded

namespace Decoder

/-- Attributes and blocks of a body that are not among what is read. -/
def extraneous (r : Reads) (b : Body) : List Diagnostic :=
  (b.attributes.filter fun a => !r.attributes.contains a.1).map
      (fun a => .unsupportedArgument a.1 a.2.range) ++
    (b.blocks.filter fun block => !Fields.contains block.type r.blocks).map
      (fun block => .unsupportedBlock block.type block.range)

/-- Decodes an attribute. -/
def decodeAttribute (name : String) (t : Ty) (required : Bool) (b : Body) : Decoded Value :=
  match Fields.get? name b.attributes with
  | none => .reporting (if required then [.missingArgument name] else []) (.null t.storage)
  | some a =>
      match Value.convert t a.value with
      | .ok v => .clean v
      | .error e =>
          if e.leavesRange then
            .stopped (.null t.storage)
          else
            .reporting [.incorrectType name e.text a.exprRange] (.unknown t.storage)

/-- Decodes each of the blocks in the same way. -/
def decodeEach (decode : Body → Decoded Value) : List BodyBlock → Decoded (List Value)
  | [] => .clean []
  | item :: rest =>
      let first := decode item.body
      ((decodeEach decode rest).map (first.result :: ·)).following first

/-- Decodes each of the blocks that has the one label that is needed, and adds
the values to those of earlier labels. -/
def decodeLabeled (type : String) (labels : List String) (decode : Body → Decoded Value)
    (entries : Fields Value) : List BodyBlock → Decoded (Fields Value)
  | [] => .clean entries
  | item :: rest =>
      match item.labels, labels with
      | [key], [_] =>
          let first := decode item.body
          (decodeLabeled type labels decode (Fields.insert key first.result entries)
            rest).following first
      | given, _ =>
          (decodeLabeled type labels decode entries rest).after
            [.wrongLabels type labels given.length item.range]

/-- Decodes the blocks of a type that may occur once. -/
def decodeSingle (type : String) (t : Ty) (required : Bool) (decode : Body → Decoded Value)
    (b : Body) : Decoded Value :=
  match b.blocksOf type with
  | [] => .reporting (if required then [.missingBlock type] else []) (.null t)
  | first :: others =>
      Decoded.after (others.map fun block => .duplicateBlock type block.range) <|
        if first.body.unknown then .clean (.unknown t) else decode first.body

/-- Decodes blocks together unless one of them is unknown. -/
def decodeKnown {α : Type} (blocks : List BodyBlock) (t : Ty) (wrap : α → Value)
    (decode : List BodyBlock → Decoded α) : Decoded Value :=
  if blocks.any fun block => block.body.unknown then
    .clean (.unknown t)
  else
    (decode blocks).map wrap

/-- Decodes a whole body: what is not read is reported, what is read decoded. -/
def decodeWhole (r : Reads) (content : Body → Decoded Value) (b : Body) : Decoded Value :=
  (content b).after (extraneous r b)

mutual

/-- Decodes what a decoder reads of a body. -/
def decodeContent : Decoder → Body → Decoded Value
  | .object parts, b => (decodeParts parts b).map .object
  | .attribute name t required, b => decodeAttribute name t required b
  | .block type nested required, b =>
      decodeSingle type nested.type required (decodeWhole nested.reads (decodeContent nested)) b
  | .blockList type nested _, b =>
      decodeKnown (b.blocksOf type) (.list nested.type) (.list nested.type)
        (decodeEach (decodeWhole nested.reads (decodeContent nested)))
  | .blockSet type nested _, b =>
      decodeKnown (b.blocksOf type) (.set nested.type) (Value.setOf nested.type)
        (decodeEach (decodeWhole nested.reads (decodeContent nested)))
  | .blockTuple type nested _, b =>
      decodeKnown (b.blocksOf type) .dynamic .tuple
        (decodeEach (decodeWhole nested.reads (decodeContent nested)))
  | .blockMap type labels nested, b =>
      decodeKnown (b.blocksOf type) (.map nested.type) (.map nested.type)
        (decodeLabeled type labels (decodeWhole nested.reads (decodeContent nested)) [])
  | .blockObject type labels nested, b =>
      decodeKnown (b.blocksOf type) .dynamic .object
        (decodeLabeled type labels (decodeWhole nested.reads (decodeContent nested)) [])
  | .withFallback primary fallback, b =>
      let first := decodeContent primary b
      if first.result.isNull then
        (decodeContent fallback b).following first
      else
        first
  | .literal v, _ => .clean v

/-- Decodes the parts of an object, by name. -/
def decodeParts : List (String × Decoder) → Body → Decoded (Fields Value)
  | [], _ => .clean []
  | (name, part) :: rest, b =>
      let first := decodeContent part b
      ((decodeParts rest b).map ((name, first.result.orNull) :: ·)).following first

end

/-- Decodes a body. -/
def decode (d : Decoder) (b : Body) : Decoded Value :=
  decodeWhole d.reads d.decodeContent b

end Decoder
end TypedConfig
