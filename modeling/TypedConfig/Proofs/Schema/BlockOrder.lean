import TypedConfig.Proofs.Decoder.Reordering
import TypedConfig.Proofs.Schema.Independence

/-!
# Where the order of blocks matters

Blocks of different types may be put in any order.  Among the blocks of one type
the order matters to lists, to tuples, and to blocks that may occur once, since
the first of them is decoded.  It matters to a map only among blocks with the
same labels, since the last of them is kept, and to a set not at all, unless the
set is a tuple since its blocks may differ in type.
-/

namespace TypedConfig
namespace Schema

/-- Whether the blocks of a type may differ in type: their decoder leaves types
to the data. -/
def NestedBlock.mayDiffer (n : NestedBlock) : Bool :=
  (optionalBlockDecoderAt 1 n.block).type.hasDynamic

/-- Whether blocks of one type stand in another order only where it does not
matter: those of a map among different labels, those of a set if they do not
differ in type, and no others. -/
def NestedBlock.OrderKept (n : NestedBlock) (blocks others : List BodyBlock) : Prop :=
  match n.mode with
  | .single | .group | .list => blocks = others
  | .set => n.mayDiffer = true → blocks = others
  | .map => ∀ labels, (blocks.filter fun block => block.labels == labels) =
      others.filter fun block => block.labels == labels

/-- Whether a body is another one with its blocks in an order that is as good. -/
structure Block.Reordered (b : Block) (body other : Body) : Prop where
  attributes : body.attributes = other.attributes
  blocks : body.blocks.Perm other.blocks
  kept : ∀ n ∈ b.blockTypes, n.2.OrderKept (body.blocksOf n.1) (other.blocksOf n.1)

section Parts

variable {body other : Body}

/-- Attributes are decoded without a look at blocks. -/
theorem Attribute.decodeContent_eq_of_attributes
    {depth : Nat} (a : Attribute) (hd : depth ≤ maxDepth) (name : String)
    (h : body.attributes = other.attributes) :
    (a.decoderAt depth name).decodeContent body = (a.decoderAt depth name).decodeContent other := by
  refine Decoder.decodeContent_congr ⟨fun name _ => by rw [h], ?_⟩
  rw [a.reads_decoderAt hd]
  split <;> exact List.forall_mem_nil _

theorem NestedBlock.alike_decodeContent
    (n : NestedBlock) (type : String) (hattributes : body.attributes = other.attributes)
    (hperm : body.blocks.Perm other.blocks)
    (h : n.OrderKept (body.blocksOf type) (other.blocksOf type)) :
    ((n.decoderAt 1 type).decodeContent body).Alike ((n.decoderAt 1 type).decodeContent other) := by
  have hblocks : (body.blocksOf type).Perm (other.blocksOf type) := hperm.filter _
  -- A block type sees no difference if its own blocks keep their order.
  have hsame : body.blocksOf type = other.blocksOf type →
      (n.decoderAt 1 type).decodeContent body = (n.decoderAt 1 type).decodeContent other := by
    refine fun heq => Decoder.decodeContent_congr ((n.onlyNamed_decoderAt type).agreeOn ?_ heq)
    rw [hattributes]
  unfold NestedBlock.OrderKept at h
  cases hmode : n.mode with
  | single | group | list =>
      rw [hmode] at h
      exact .of_eq (hsame h)
  | set =>
      rw [hmode] at h
      cases hdiffer : n.mayDiffer with
      | true => exact .of_eq (hsame (h hdiffer))
      | false =>
          rw [NestedBlock.mayDiffer] at hdiffer
          rw [NestedBlock.decoderAt, NestedBlock.collect, hmode, hdiffer]
          exact Decoder.alike_decodeKnown hblocks (Decoder.alike_setOf_decodeEach hblocks _)
  | map =>
      rw [hmode] at h
      rw [NestedBlock.decoderAt, NestedBlock.collect, hmode]
      simp only
      split <;>
        exact Decoder.alike_decodeKnown hblocks
          ((Decoder.alike_decodeLabeled hblocks h type [mapLabel]).map _)

theorem Block.alike_decode
    {b : Block} (h : b.Reordered body other) :
    (b.decoder.decode body).Alike (b.decoder.decode other) := by
  have hone : 1 ≤ maxDepth := by decide
  have hparts : (b.decoder.decodeContent body).Alike (b.decoder.decodeContent other) := by
    rw [b.decoder_eq, Decoder.decodeContent, Decoder.decodeContent]
    refine (Decoder.alike_decodeParts ?_).map _
    intro part hpart
    rcases Fields.mem_of_mem_insertAll hpart with hpart | hpart
    · obtain ⟨a, -, rfl⟩ := List.mem_map.1 hpart
      exact .of_eq (a.2.decodeContent_eq_of_attributes hone a.1 h.attributes)
    · obtain ⟨n, hn, rfl⟩ := List.mem_map.1 hpart
      exact n.2.alike_decodeContent n.1 h.attributes h.blocks (h.kept n hn)
  exact hparts.after (Decoder.perm_extraneous _ h.attributes h.blocks)

/-- Where nothing is cut off, blocks may differ in type if the type that their
schema implies has parts that do. -/
theorem Block.mayDiffer_eq_hasDynamic
    {b : Block} (hdepth : b.depth ≤ maxDepth) {n : String × NestedBlock} (hn : n ∈ b.blockTypes) :
    n.2.mayDiffer = (impliedTypeOfBlock n.2.block).hasDynamic := by
  have hdn : optionalBlockDepth n.2.block + 1 ≤ b.depth :=
    (Block.depth_le_iff.1 (Nat.le_refl b.depth)).2 n hn
  rw [NestedBlock.mayDiffer, type_optionalBlockDecoderAt_eq_impliedType n.2.block (by omega)]

end Parts

section Order

/-- A body whose blocks stand in another order where that does not matter is
decoded to the same value with the same findings, in some order, and leaves the range
exactly if the other one does. -/
theorem decode_reordered
    (b : Block) (body other : Body) (h : b.Reordered body other) :
    (b.decoder.decode body).result = (b.decoder.decode other).result ∧
      (b.decoder.decode body).diagnostics.Perm (b.decoder.decode other).diagnostics ∧
      (b.decoder.decode body).leavesRange = (b.decoder.decode other).leavesRange ∧
      (b.depth ≤ maxDepth → ∀ n ∈ b.blockTypes,
        n.2.mayDiffer = (impliedTypeOfBlock n.2.block).hasDynamic) := by
  obtain ⟨hresult, hdiagnostics, hrange⟩ := Block.alike_decode h
  exact ⟨hresult, hdiagnostics, hrange, fun hdepth n hn => Block.mayDiffer_eq_hasDynamic hdepth hn⟩

/-- A block with a set of filters and with targets by label. -/
def Block.pipeline : Block :=
  let named : Block := { attributes := [("name", .ofType .string .required)] }
  { blockTypes :=
      [("filter", { mode := .set, block := some named }),
        ("target", { mode := .map, block := some named })] }

/-- A body with two filters, of which one lacks its name, and two targets. -/
def pipelineBody : Body :=
  { blocks :=
      [{ type := "target", labels := ["b"], body := {} },
        { type := "filter", body := { attributes := [("name", { value := .string "x" })] } },
        { type := "target", labels := ["a"], body := {} },
        { type := "filter", body := {} },
        { type := "user", body := {} }] }

/-- The same from the last block to the first. -/
def pipelineReversed : Body :=
  { pipelineBody with blocks := pipelineBody.blocks.reverse }

theorem Block.reordered_pipeline :
    Block.pipeline.Reordered pipelineBody pipelineReversed where
  attributes := rfl
  blocks := (List.reverse_perm _).symm
  kept := by
    refine List.forall_mem_cons.2 ⟨fun hdiffer => ?_, List.forall_mem_singleton.2 fun labels => ?_⟩
    · cases hdiffer
    · -- Each target has a label of its own.
      by_cases ha : ["a"] = labels
      · rw [← ha]
        rfl
      · simp [pipelineReversed, pipelineBody, Body.blocksOf, List.filter_cons, ha]

theorem decode_reordered_pipeline :
    Block.pipeline.Reordered pipelineBody pipelineReversed ∧
      (Block.pipeline.decoder.decode pipelineBody).result =
        (Block.pipeline.decoder.decode pipelineReversed).result ∧
      (Block.pipeline.decoder.decode pipelineBody).diagnostics.Perm
        (Block.pipeline.decoder.decode pipelineReversed).diagnostics := by
  obtain ⟨hresult, hdiagnostics, -⟩ :=
    decode_reordered .pipeline pipelineBody pipelineReversed Block.reordered_pipeline
  exact ⟨Block.reordered_pipeline, hresult, hdiagnostics⟩

end Order

end Schema
end TypedConfig
