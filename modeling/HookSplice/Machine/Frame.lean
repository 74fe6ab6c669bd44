import HookSplice.Host
import HookSplice.Machine.Heap
import HookSplice.Machine.Trap
import HookSplice.Order

/-!
# Frames

The activation of one method, and how exceptions and `leave` move control through its handlers.
Handlers of inner regions come first; of two regions with equally long protected ranges, the one
declared first.
-/

namespace HookSplice

/-- What is to be done when the running finally handler ends. -/
inductive Pending where
  /-- Goes on leaving for a position, through the handlers of the remaining regions. -/
  | leave (target : Nat) (rest : List Nat)
  /-- Goes on unwinding through the remaining regions. -/
  | throw (value : Value) (rest : List Nat)
  deriving DecidableEq

/-- The activation of a method.  The top of the stack comes first, and so does what was put off
    last. -/
structure Frame where
  body : Body
  args : List Value
  locals : List Value
  stack : List Value
  pc : Nat
  pending : List Pending
  deriving DecidableEq

namespace Frame

/-- Whether a value is an instance of a type.  Numbers and texts are instances of the types named
    `int`, `bool` and `string`; everything but null is one of `object`. -/
def isInstance (symbols : SymbolTable) (heap : Heap) (type : TypeId) : Value → Bool
  | .null => false
  | .int _ => ["int", "bool", "object"].contains (symbols.typeName type)
  | .text _ => ["string", "object"].contains (symbols.typeName type)
  | .object id =>
      symbols.typeName type == "object" || (heap.object? id).any fun o => o.type == type

/-- The value of a local that was not written yet. -/
def initial (symbols : SymbolTable) (type : TypeId) : Value :=
  if ["int", "bool"].contains (symbols.typeName type) then .int 0 else .null

/-- The frame of a call. -/
def enter (symbols : SymbolTable) (body : Body) (args : List Value) : Frame :=
  ⟨body, args, body.locals.map (initial symbols), [], 0, []⟩

/-- The indices of the regions that satisfy a condition, inner ones first. -/
def innermostFirst (body : Body) (keep : Region → Bool) : List Nat :=
  let kept := body.regions.zipIdx.filter fun (r, _) => keep r
  (Order.sortBy (fun (r, _) => r.span) kept).map Prod.snd

/-- The regions to which an exception at a position is offered. -/
def candidates (body : Body) (position : Nat) : List Nat :=
  innermostFirst body fun r => r.protects position

/-- The regions whose finally handlers run when control leaves a position for another. -/
def exited (body : Body) (position target : Nat) : List Nat :=
  innermostFirst body fun r =>
    r.kind == .finalizing && r.protects position && !r.protects target

/-- Hands an exception to the first of the given regions that takes it: a finally handler, or a
    handler for its type.  Gives nothing when no region does. -/
def throwThrough? (symbols : SymbolTable) (heap : Heap) (f : Frame) (value : Value) :
    List Nat → Option Frame
  | [] => none
  | i :: rest =>
      match f.body.regions[i]? with
      | none => throwThrough? symbols heap f value rest
      | some r =>
          match r.kind with
          | .catching type =>
              if isInstance symbols heap type value then
                some { f with stack := [value], pc := r.handlerStart }
              else throwThrough? symbols heap f value rest
          | .finalizing =>
              some { f with
                stack := [], pc := r.handlerStart, pending := .throw value rest :: f.pending }

/-- Leaves for a position through the finally handlers of the given regions. -/
def continueLeave (f : Frame) (target : Nat) : List Nat → Frame
  | [] => { f with stack := [], pc := target }
  | i :: rest =>
      let start := (f.body.regions[i]?.map Region.handlerStart).getD target
      { f with stack := [], pc := start, pending := .leave target rest :: f.pending }

/-- The frame with a value on top of its stack. -/
def push (f : Frame) (v : Value) : Frame :=
  { f with stack := v :: f.stack }

end Frame

end HookSplice
