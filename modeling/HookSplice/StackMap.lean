import HookSplice.FlowGraph
import HookSplice.Order
import HookSplice.StackEffect

/-!
# Stack maps

The verifier.  It checks operands, labels and exception regions one by one, then carries stack
depths along the control flow graph.  Its result is the depth before every instruction that can be
reached, or the first violation.
-/

namespace HookSplice

/-- The stack depth before every instruction, missing where no path leads; and the largest depth
    behind any of them. -/
structure StackMap where
  depths : List (Option Nat)
  maxDepth : Nat
  deriving DecidableEq

namespace StackMap

/-- The limit on the depth unless another one is asked for. -/
def defaultLimit : Nat := 1024

/-- The depth before an instruction that can be reached. -/
def depthAt? (m : StackMap) (i : Nat) : Option Nat :=
  (m.depths[i]?).join

/-- The number of instructions that no path reaches. -/
def unreachable (m : StackMap) : Nat :=
  m.depths.countP Option.isNone

/-! ### Structural checks -/

/-- What is wrong with the operand of an instruction, if anything is. -/
def operandFault? (symbols : SymbolTable) (body : Body) (argCount : Nat) (i : Nat)
    (ins : Instruction) : Option Violation :=
  if !ins.operandFits then some (.operandMismatch (some i) ins.opcode)
  else
    match ins.operand with
    | .arg index =>
        if index.toNat < argCount then none else some (.argOutOfRange i index argCount)
    | .slot index =>
        if index.toNat < body.locals.length then none
        else some (.localOutOfRange i index body.locals.length)
    | .label l => if (body.position? l).isSome then none else some (.danglingLabel i l)
    | .field id =>
        match symbols.field? id with
        | none => some (.unknownSymbol (some i))
        | some f =>
            if f.isStatic == (ins.opcode == .ldsfld || ins.opcode == .stsfld) then none
            else some (.fieldKind i ins.opcode)
    | .method id =>
        if (symbols.method? id).isSome then none else some (.unknownSymbol (some i))
    | .type id => if symbols.hasType id then none else some (.unknownSymbol (some i))
    | .none | .int _ | .text _ => none

/-- Whether the ranges of a region are not empty and lie inside a body of the given size. -/
def inBounds (size : Nat) (r : Region) : Bool :=
  r.tryStart < r.tryEnd && r.handlerStart < r.handlerEnd && r.tryEnd ≤ size && r.handlerEnd ≤ size

/-- Whether a branch may lead from one position to another past a region.  `leave` may exit ranges
    but not enter them, other branches may do neither. -/
def mayBranch (op : Opcode) (source target : Nat) (r : Region) : Bool :=
  if op == .leave then
    (!r.protects target || r.protects source) && (!r.handles target || r.handles source)
  else r.protects source == r.protects target && r.handles source == r.handles target

/-- What is wrong with the way an instruction moves control across regions, if anything is. -/
def transferFault? (body : Body) (i : Nat) (ins : Instruction) : Option Violation :=
  if ins.opcode.fallsThrough && body.regions.any fun r => r.handlerStart == i + 1 then
    some (.fallsIntoHandler (i + 1))
  else
    match body.targetOf? ins with
    | none => none
    | some target =>
        if body.regions.all (mayBranch ins.opcode i target) then none
        else some (.branchAcrossRegion i target)

/-- The first structural violation of a body whose method takes `argCount` arguments. -/
def structuralFault? (symbols : SymbolTable) (body : Body) (argCount : Nat) : Option Violation :=
  ((Code.duplicate? body.code).map Violation.ofDuplicate).or <|
  (body.code.zipIdx.findSome? fun (ins, i) => operandFault? symbols body argCount i ins).or <|
  (body.regions.zipIdx.findSome? fun (r, i) =>
    if inBounds body.size r then none else some (.regionOutOfBounds i)).or <|
  body.code.zipIdx.findSome? fun (ins, i) => transferFault? body i ins

/-! ### Propagation of depths -/

/-- What running through a block gives: the depth before each instruction, the depth behind the
    last, and the largest depth in between. -/
structure BlockRun where
  depths : List (Nat × Nat)
  final : Nat
  peak : Nat

/-- The depth behind an instruction, before `leave` or `endfinally` empties the stack. -/
def depthAfter (symbols : SymbolTable) (enclosing : MethodDef) (limit i : Nat) (ins : Instruction)
    (depth : Nat) : Except Violation Nat := do
  let effect ← StackEffect.ofPosition symbols enclosing i ins
  if depth < effect.pops then throw (.stackUnderflow i depth effect.pops)
  else if ins.opcode = .ret ∧ depth ≠ effect.pops then throw (.returnDepth i depth effect.pops)
  else
    let after := depth - effect.pops + effect.pushes
    if limit < after then throw (.stackOverflow i after limit) else return after

/-- Whether an instruction empties the stack when control leaves it. -/
def emptiesStack (ins : Instruction) : Bool :=
  ins.opcode.flow == .leave || ins.opcode.flow == .endFinally

/-- Runs through instructions from a depth on. -/
def runBlock (symbols : SymbolTable) (enclosing : MethodDef) (limit : Nat) :
    List (Instruction × Nat) → Nat → Except Violation BlockRun
  | [], depth => .ok ⟨[], depth, 0⟩
  | (ins, i) :: rest, depth => do
      let after ← depthAfter symbols enclosing limit i ins depth
      let run ← runBlock symbols enclosing limit rest (if emptiesStack ins then 0 else after)
      return ⟨(i, depth) :: run.depths, run.final, max after run.peak⟩

/-- What is known while depths are carried along: the depth on entry to each block reached so far,
    the depths before the instructions of the blocks run through, and the largest depth. -/
structure Progress where
  entries : List (Nat × Nat)
  depths : List (Nat × Nat)
  peak : Nat

/-- The depth with which an edge enters its target when its source ends with depth `final`. -/
def incoming (body : Body) (final : Nat) (e : Edge) : Nat :=
  match e.kind with
  | .handler region => (body.regions[region]?.map Region.entryDepth).getD 0
  | _ => final

/-- Passes a depth on along edges: a block reached for the first time joins the work list, one
    that was reached before must have been reached with the same depth. -/
def passOn (body : Body) (g : FlowGraph) (final : Nat) :
    List Edge → List (Nat × Nat) → List Nat → Except Violation (List (Nat × Nat) × List Nat)
  | [], entries, work => .ok (entries, work)
  | e :: rest, entries, work =>
      let depth := incoming body final e
      match entries.lookup e.target with
      | some expected =>
          if expected = depth then passOn body g final rest entries work
          else
            .error (.depthMismatch ((g.blocks[e.target]?.map Block.start).getD 0) expected depth)
      | none => passOn body g final rest ((e.target, depth) :: entries) (work ++ [e.target])

/-- The edges out of a block in the order in which they are followed: by the position of the
    target, and of two edges to one target the one added last first. -/
def followed (g : FlowGraph) (block : Nat) : List Edge :=
  Order.sortBy (fun e => (g.blocks[e.target]?.map Block.start).getD 0) (g.edgesFrom block).reverse

/-- The violation of a block whose last instruction lets control run off the end of the body. -/
def openEnd? (body : Body) (block : Block) : Option Violation :=
  match body.code[block.stop - 1]? with
  | some ins =>
      if ins.opcode.fallsThrough && block.stop == body.size then
        some (.fallsOffEnd (block.stop - 1))
      else none
  | none => none

/-- Runs through the blocks of the work list until it is empty.  `fuel` bounds the number of
    blocks. -/
def propagate (symbols : SymbolTable) (enclosing : MethodDef) (limit : Nat) (body : Body)
    (g : FlowGraph) : Nat → List Nat → Progress → Except Violation Progress
  | 0, _, p => .ok p
  | _, [], p => .ok p
  | fuel + 1, index :: work, p =>
      match g.blocks[index]?, p.entries.lookup index with
      | some block, some depth => do
          let positions := (body.code.zipIdx.drop block.start).take (block.stop - block.start)
          let run ← runBlock symbols enclosing limit positions depth
          match openEnd? body block with
          | some v => throw v
          | none =>
              let (entries, work) ← passOn body g run.final (followed g index) p.entries work
              propagate symbols enclosing limit body g fuel work
                ⟨entries, run.depths ++ p.depths, max p.peak run.peak⟩
      | _, _ => propagate symbols enclosing limit body g fuel work p

/-- The stack map that propagation ends with. -/
def ofProgress (body : Body) (p : Progress) : StackMap :=
  ⟨(List.range body.size).map fun i => p.depths.lookup i, p.peak⟩

/-- Runs every check on a body and gives its stack map or the first violation. -/
def analyze (symbols : SymbolTable) (body : Body) (limit : Nat) : Except Violation StackMap :=
  if body.code.isEmpty then .error .emptyBody
  else
    match symbols.method? body.method with
    | none => .error (.unknownSymbol none)
    | some enclosing =>
        match structuralFault? symbols body enclosing.argCount with
        | some v => .error v
        | none => do
            let g := FlowGraph.ofBody body
            let p ← propagate symbols enclosing limit body g g.blocks.length [0] ⟨[(0, 0)], [], 0⟩
            return ofProgress body p

end StackMap

/-- A body that fails verification, with the identity of its method. -/
structure VerifyError where
  method : String
  violation : Violation
  deriving DecidableEq

/-- The wording of a failed verification. -/
def VerifyError.message (e : VerifyError) : String :=
  e.method ++ ": " ++ e.violation.message

/-- Verifies a body against a limit on the stack depth. -/
def Body.verify (symbols : SymbolTable) (body : Body) (limit : Nat) :
    Except VerifyError StackMap :=
  (StackMap.analyze symbols body limit).mapError fun v => ⟨symbols.methodName body.method, v⟩

end HookSplice
