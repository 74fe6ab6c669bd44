import HookSplice.Host
import HookSplice.Machine.Action

/-!
# The machine

Runs the bodies of a host one instruction at a time.  A configuration is the running frame, the
frames that wait for it, the heap, and the world of the native code.  Methods that are bound to
native code run that instead of a body.  A run ends with a result, with an exception that nothing
caught, or with a trap; the heap and the world it leaves behind count in each case.
-/

namespace HookSplice

/-- What native code gives, and the heap and the world behind it. -/
structure NativeOutcome (σ : Type) where
  result : Except Trap (Option Value)
  heap : Heap
  world : σ

/-- Native code: works on the heap, a world of its own, and the arguments of the call. -/
abbrev Native (σ : Type) := Heap → σ → List Value → NativeOutcome σ

/-- A host with native bindings, of which the newest for a method counts, and the limits of its
    runs. -/
structure Machine (σ : Type) where
  host : Host
  natives : List (MethodId × Native σ)
  stepLimit : Nat
  maxDepth : Nat

/-- A frame that waits for the end of a call, and the object that the call makes, if it makes
    one. -/
structure Caller where
  frame : Frame
  created : Option ObjectId
  deriving DecidableEq

/-- The state of a run; the innermost caller comes first. -/
structure Config (σ : Type) where
  frame : Frame
  callers : List Caller
  heap : Heap
  world : σ

/-- How the outermost call ends, if no trap ends it. -/
inductive Result where
  | returned (value : Option Value)
  | threw (value : Value)
  deriving DecidableEq

/-- A run that goes on, or the end of it. -/
inductive Progress (σ : Type) where
  | running (c : Config σ)
  | ended (result : Except Trap Result) (heap : Heap) (world : σ)

/-- What a call gives, the heap and the world behind it, and the number of instructions that were
    fetched. -/
structure CallOutcome (σ : Type) where
  result : Except Trap (Option Value)
  heap : Heap
  world : σ
  steps : Nat

/-- What runs when a method is called. -/
inductive Implementation (σ : Type) where
  | native (code : Native σ)
  | body (b : Body)

/-- The frame with the outcome of the call that it waited for. -/
def Caller.resume (c : Caller) (result : Option Value) : Frame :=
  match c.created, result with
  | some object, _ => c.frame.push (.object object)
  | none, some v => c.frame.push v
  | none, none => c.frame

/-- Offers an exception to waiting frames from the innermost one on, in each at the instruction that
    the frame waits at.  Gives the frame that takes it and the callers of that frame. -/
def unwind (symbols : SymbolTable) (heap : Heap) (value : Value) :
    List Caller → Option (Frame × List Caller)
  | [] => none
  | c :: rest =>
      let candidates := Frame.candidates c.frame.body (c.frame.pc - 1)
      match c.frame.throwThrough? symbols heap value candidates with
      | some f => some (f, rest)
      | none => unwind symbols heap value rest

namespace Machine

variable {σ : Type}

/-- How many instructions a run may fetch, unless another limit is given. -/
def defaultStepLimit : Nat := 1000000

/-- How many calls may run inside each other. -/
def defaultMaxDepth : Nat := 256

/-- A machine for a host, without native bindings. -/
def ofHost (host : Host) : Machine σ :=
  ⟨host, [], defaultStepLimit, defaultMaxDepth⟩

/-- Binds a method to native code. -/
def bind (m : Machine σ) (method : MethodId) (code : Native σ) : Machine σ :=
  { m with natives := (method, code) :: m.natives }

/-- Finds what runs when a method is called with a number of arguments inside of `depth` other
    calls. -/
def implementation (m : Machine σ) (method : MethodId) (argCount depth : Nat) :
    Except Trap (Implementation σ) :=
  if m.maxDepth ≤ depth then .error (.callDepth m.maxDepth)
  else
    let name := m.host.methodName method
    match m.host.symbols.method? method with
    | none => .error (.unknownMethod method.inspect)
    | some signature =>
        if argCount ≠ signature.argCount then .error (.arity name signature.argCount argCount)
        else
          match m.natives.lookup method with
          | some code => .ok (.native code)
          | none =>
              match m.host.body? method with
              | none => .error (.noImplementation name)
              | some b =>
                  match Code.duplicate? b.code with
                  | some d => .error (.fault (m.host.methodName b.method) 0 (.duplicateLabel d))
                  | none => .ok (.body b)

/-- Returns to the innermost caller, or ends the run. -/
def giveBack (result : Option Value) (callers : List Caller) (heap : Heap) (world : σ) :
    Progress σ :=
  match callers with
  | [] => .ended (.ok (.returned result)) heap world
  | c :: rest => .running ⟨c.resume result, rest, heap, world⟩

/-- Unwinds an exception through waiting frames, or ends the run. -/
def throwTo (m : Machine σ) (value : Value) (callers : List Caller) (heap : Heap) (world : σ) :
    Progress σ :=
  match unwind m.host.symbols heap value callers with
  | some (f, rest) => .running ⟨f, rest, heap, world⟩
  | none => .ended (.ok (.threw value)) heap world

/-- Calls a method on behalf of the innermost caller. -/
def enter (m : Machine σ) (method : MethodId) (args : List Value) (callers : List Caller)
    (heap : Heap) (world : σ) : Progress σ :=
  match m.implementation method args.length callers.length with
  | .error trap => .ended (.error trap) heap world
  | .ok (.body b) => .running ⟨Frame.enter m.host.symbols b args, callers, heap, world⟩
  | .ok (.native code) =>
      let out := code heap world args
      match out.result with
      | .error trap => .ended (.error trap) out.heap out.world
      | .ok result => giveBack result callers out.heap out.world

/-- Follows an action. -/
def follow (m : Machine σ) (action : Action) (callers : List Caller) (heap : Heap) (world : σ) :
    Progress σ :=
  match action with
  | .next f heap => .running ⟨f, callers, heap, world⟩
  | .exit result => giveBack result callers heap world
  | .raised f v => m.throwTo v (⟨f, none⟩ :: callers) heap world
  | .escaped v => m.throwTo v callers heap world
  | .call f callee args created heap => m.enter callee args (⟨f, created⟩ :: callers) heap world

/-- Fetches and executes one instruction. -/
def step (m : Machine σ) (c : Config σ) : Progress σ :=
  let name := m.host.methodName c.frame.body.method
  let position := c.frame.pc
  match c.frame.body.code[position]? with
  | none => .ended (.error (.fellOffEnd name)) c.heap c.world
  | some ins =>
      let f := { c.frame with pc := position + 1 }
      match Action.ofInstruction m.host.symbols c.heap position f ins with
      | .error mishap => .ended (.error (mishap.toTrap name position)) c.heap c.world
      | .ok action => m.follow action c.callers c.heap c.world

/-- Runs on with a budget of instructions, `steps` of them having been fetched before.  Gives the
    end of the run and the number of all instructions fetched; the one that exceeds the budget is
    counted too. -/
def runFrom (m : Machine σ) :
    (budget steps : Nat) → Config σ → Except Trap Result × Heap × σ × Nat
  | 0, steps, c => (.error (.stepLimit m.stepLimit), c.heap, c.world, steps + 1)
  | budget + 1, steps, c =>
      match m.step c with
      | .ended result heap world => (result, heap, world, steps + 1)
      | .running c => m.runFrom budget (steps + 1) c

/-- The result of the outermost call; an exception that nothing caught is a trap. -/
def resultOf (m : Machine σ) (method : MethodId) : Except Trap Result → Except Trap (Option Value)
  | .ok (.returned v) => .ok v
  | .ok (.threw v) => .error (.unhandled (m.host.methodName method) v)
  | .error trap => .error trap

/-- Calls a method. -/
def call (m : Machine σ) (method : MethodId) (args : List Value) (heap : Heap) (world : σ) :
    CallOutcome σ :=
  match m.enter method args [] heap world with
  | .ended result heap world => ⟨m.resultOf method result, heap, world, 0⟩
  | .running c =>
      let (result, heap, world, steps) := m.runFrom m.stepLimit 0 c
      ⟨m.resultOf method result, heap, world, steps⟩

/-- Calls the method with an identity, if there is one. -/
def callNamed? (m : Machine σ) (identity : String) (args : List Value) (heap : Heap) (world : σ) :
    Option (CallOutcome σ) :=
  (m.host.symbols.methodId? identity).map fun method => m.call method args heap world

end Machine

end HookSplice
