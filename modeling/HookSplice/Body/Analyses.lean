import HookSplice.Body.Format
import HookSplice.FlowGraph
import HookSplice.RunEffect
import HookSplice.StackMap

/-!
# The JSON format of analyses

How stack effects, stack maps and flow graphs are written as JSON values.
-/

namespace HookSplice

/-- A stack effect as JSON: what is popped, what is pushed, and the difference. -/
def StackEffect.toJson (e : StackEffect) : Json :=
  .array [.nat e.pops, .nat e.pushes, .integer e.delta]

/-- The effect of a run as JSON. -/
def RunEffect.toJson (e : RunEffect) : Json :=
  .obj [("delta", .integer e.delta), ("needs", .nat e.needs),
    ("exits", .array (e.exits.map fun x =>
      .array [.nat x.offset, .nat x.label.number, .integer x.delta]))]

/-- A stack map as JSON. -/
def StackMap.toJson (m : StackMap) : Json :=
  .obj [("depths", .array (m.depths.map Json.ofNat?)), ("max_depth", .nat m.maxDepth),
    ("unreachable", .nat m.unreachable)]

/-- The flow graph of a body as JSON, with the block of every instruction and the reachable
    instructions.  A body in which a label stands twice has none. -/
def FlowGraph.jsonOf (b : Body) : Json :=
  if (Code.duplicate? b.code).isSome then .null
  else
    let g := ofBody b
    .obj [("blocks", .array (g.blocks.map fun k => .array [.nat k.start, .nat k.stop])),
      ("edges", .array (g.edges.map fun e =>
        .array [.nat e.source, .nat e.target, .str e.kind.display])),
      ("block_of", .array ((List.range b.size).map fun i => Json.ofNat? (blockOf? g.blocks i))),
      ("reachable", .array (g.reachable.map .nat))]

end HookSplice
