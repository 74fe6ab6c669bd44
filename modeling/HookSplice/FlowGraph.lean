import HookSplice.Body

/-!
# Control flow graphs

The basic blocks of a body and the edges between them.  A block starts at position 0, at a branch
target, behind an instruction that transfers control, or at a boundary of an exception region.
-/

namespace HookSplice

/-- A straight run of instructions: the positions from `start` on, `stop` excluded. -/
structure Block where
  start : Nat
  stop : Nat
  deriving DecidableEq

/-- How control reaches a block. -/
inductive EdgeKind where
  | fallthrough
  | branch
  /-- An exception enters the handler of the region with this index. -/
  | handler (region : Nat)
  deriving DecidableEq

/-- How messages show the kind of an edge. -/
def EdgeKind.display : EdgeKind → String
  | .fallthrough => "Fallthrough"
  | .branch => "Branch"
  | .handler region => "Handler(" ++ toString region ++ ")"

/-- An edge from one block to another. -/
structure Edge where
  source : Nat
  target : Nat
  kind : EdgeKind
  deriving DecidableEq

/-- The blocks by ascending position, and the edges in the order of their insertion. -/
structure FlowGraph where
  blocks : List Block
  edges : List Edge
  deriving DecidableEq

namespace FlowGraph

/-- The positions that branch operands resolve to. -/
def targets (body : Body) : List Nat :=
  body.code.filterMap body.targetOf?

/-- The positions behind instructions after which control does not simply go on. -/
def breaks (body : Body) : List Nat :=
  (body.code.zipIdx.filter fun (ins, _) => ins.opcode.flow != .next).map fun (_, i) => i + 1

/-- The boundaries of the exception regions. -/
def bounds (body : Body) : List Nat :=
  body.regions.flatMap fun r => [r.tryStart, r.tryEnd, r.handlerStart, r.handlerEnd]

/-- The positions at which a block starts, in ascending order. -/
def leaders (body : Body) : List Nat :=
  let starts := 0 :: (targets body ++ breaks body ++ bounds body)
  (List.range body.size).filter starts.contains

/-- The blocks between neighbouring leaders; the last one ends at `size`. -/
def blocksBetween (size : Nat) : List Nat → List Block
  | [] => []
  | [start] => [⟨start, size⟩]
  | start :: next :: rest => ⟨start, next⟩ :: blocksBetween size (next :: rest)

/-- The index of the block that contains a position. -/
def blockOf? (blocks : List Block) (i : Nat) : Option Nat :=
  blocks.findIdx? fun b => b.start ≤ i && i < b.stop

/-- The edges that the last instruction of a block gives rise to. -/
def exitEdges (body : Body) (blocks : List Block) (source : Nat) (block : Block) : List Edge :=
  match body.code[block.stop - 1]? with
  | none => []
  | some ins =>
      let branch : List Edge :=
        (((body.targetOf? ins).bind (blockOf? blocks)).map fun t => ⟨source, t, .branch⟩).toList
      let onward : List Edge :=
        ((blockOf? blocks block.stop).map fun t => ⟨source, t, .fallthrough⟩).toList
      match ins.opcode.flow with
      | .next => onward
      | .condBranch => branch ++ onward
      | .branch | .leave => branch
      | .exit | .throw | .endFinally => []

/-- The edges from a block to the handlers of the regions that protect it. -/
def handlerEdges (body : Body) (blocks : List Block) (source : Nat) (block : Block) : List Edge :=
  body.regions.zipIdx.filterMap fun (r, i) =>
    if r.protects block.start then
      (blockOf? blocks r.handlerStart).map fun t => ⟨source, t, .handler i⟩
    else none

/-- The graph of a body.  A branch whose label resolves to no position has no edge. -/
def ofBody (body : Body) : FlowGraph :=
  let blocks := blocksBetween body.size (leaders body)
  ⟨blocks, blocks.zipIdx.flatMap fun (b, i) =>
    exitEdges body blocks i b ++ handlerEdges body blocks i b⟩

/-- The edges out of a block, in the order of their insertion. -/
def edgesFrom (g : FlowGraph) (block : Nat) : List Edge :=
  g.edges.filter fun e => e.source == block

/-- Adds the blocks that can be reached from a work list to those seen.  `fuel` bounds the number
    of steps. -/
def reach (g : FlowGraph) : Nat → List Nat → List Nat → List Nat
  | 0, _, seen => seen
  | _, [], seen => seen
  | fuel + 1, block :: work, seen =>
      if seen.contains block then reach g fuel work seen
      else reach g fuel ((g.edgesFrom block).map Edge.target ++ work) (block :: seen)

/-- The blocks that can be reached from the first one. -/
def reachableBlocks (g : FlowGraph) : List Nat :=
  if g.blocks.isEmpty then [] else reach g (g.edges.length + 1) [0] []

/-- The positions that can be reached from the first instruction, in ascending order. -/
def reachable (g : FlowGraph) : List Nat :=
  let seen := g.reachableBlocks
  g.blocks.zipIdx.flatMap fun (b, i) =>
    if seen.contains i then List.range' b.start (b.stop - b.start) else []

end FlowGraph

end HookSplice
