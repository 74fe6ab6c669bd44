import HookSplice.Order
import HookSplice.StackEffect

/-!
# Effects of runs

The stack behaviour of a run of instructions that is to be inserted into a larger body.  Depths are
relative to the depth on entry.  Branches to labels inside the run are followed, all others leave
the run.
-/

namespace HookSplice

/-- A branch from a run to a label outside it, with the relative depth on that edge. -/
structure RunExit where
  offset : Nat
  label : Label
  delta : Int
  deriving DecidableEq

/-- What a run does to the stack: the change when control reaches its end, how many values have to
    stand on the stack on entry, and the branches that leave it. -/
structure RunEffect where
  delta : Int
  needs : Nat
  exits : List RunExit
  deriving DecidableEq

namespace RunEffect

/-- What is known while the run is explored: the relative depths of the offsets reached so far, the
    lowest depth touched, and the exits found. -/
structure Exploration where
  depths : List (Nat × Int)
  lowest : Int
  exits : List RunExit

/-- The exploration before anything is reached. -/
def Exploration.start : Exploration := ⟨[], 0, []⟩

/-- The offsets that control reaches next, with the relative depth `after` there, the last one to
    be explored first; and the exit, if the branch leaves the run. -/
def successors (code : List Instruction) (offset : Nat) (ins : Instruction) (after : Int) :
    Except Violation (List (Nat × Int) × List RunExit) :=
  let onward := if ins.opcode.fallsThrough then [(offset + 1, after)] else []
  match ins.opcode.flow with
  | .branch | .condBranch =>
      match ins.target? with
      | none => .error (.operandMismatch (some offset) ins.opcode)
      | some l =>
          match Code.position? code l with
          | some target => .ok (onward ++ [(target, after)], [])
          | none => .ok (onward, [⟨offset, l, after⟩])
  | .leave | .endFinally => .error (.notInRun offset ins.opcode)
  | .next | .exit | .throw => .ok (onward, [])

/-- Explores the offset at the top of the work list until the list is empty.  `fuel` bounds the
    number of steps. -/
def explore (symbols : SymbolTable) (enclosing : MethodDef) (code : List Instruction) :
    Nat → List (Nat × Int) → Exploration → Except Violation Exploration
  | 0, _, seen => .ok seen
  | _, [], seen => .ok seen
  | fuel + 1, (offset, depth) :: work, seen =>
      match seen.depths.lookup offset with
      | some expected =>
          if expected = depth then explore symbols enclosing code fuel work seen
          else .error (.runDepthMismatch offset expected depth)
      | none =>
          let depths := (offset, depth) :: seen.depths
          match code[offset]? with
          | none => explore symbols enclosing code fuel work { seen with depths := depths }
          | some ins => do
              let effect ← StackEffect.ofPosition symbols enclosing offset ins
              let lowest := min seen.lowest (depth - effect.pops)
              let (next, exits) ← successors code offset ins (depth + effect.delta)
              explore symbols enclosing code fuel (next ++ work)
                ⟨depths, lowest, seen.exits ++ exits⟩

/-- A bound for the number of steps: each instruction adds at most two entries to the work
    list. -/
def fuelFor (code : List Instruction) : Nat :=
  2 * code.length + 1

/-- The effect of a run inside a method with the signature `enclosing`. -/
def ofRun (symbols : SymbolTable) (enclosing : MethodDef) (code : List Instruction) :
    Except Violation RunEffect := do
  match Code.duplicate? code with
  | some d => throw (.ofDuplicate d)
  | none =>
      let seen ← explore symbols enclosing code (fuelFor code) [(0, 0)] .start
      match seen.depths.lookup code.length with
      | none => throw .runNeverExits
      | some delta =>
          return ⟨delta, (-seen.lowest).toNat, Order.sortBy RunExit.offset seen.exits⟩

end RunEffect

end HookSplice
