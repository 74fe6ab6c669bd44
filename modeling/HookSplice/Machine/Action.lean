import HookSplice.Machine.Frame

/-!
# Executing one instruction

What an instruction does to the frame that executes it and to the heap.  Whatever reaches beyond
the frame (a call, a return, an exception) is only named here, as the action that is to follow.
-/

namespace HookSplice

/-- What is to follow an instruction. -/
inductive Action where
  /-- The frame goes on. -/
  | next (f : Frame) (heap : Heap)
  /-- The method returns. -/
  | exit (result : Option Value)
  /-- An exception is raised at the instruction. -/
  | raised (f : Frame) (value : Value)
  /-- An exception has passed all regions of the frame. -/
  | escaped (value : Value)
  /-- A method is called; the frame waits for the end of it.  A call that makes an object gives
      the object instead of a result. -/
  | call (f : Frame) (callee : MethodId) (args : List Value) (created : Option ObjectId)
      (heap : Heap)

namespace Instruction

/-- The mishap of an instruction whose operand has the wrong shape. -/
def badOperand (ins : Instruction) : Mishap :=
  .fault (.badOperand ins.opcode ins.operand)

/-- The argument index of an instruction. -/
def argument (ins : Instruction) : Except Mishap UInt16 :=
  match ins.operand with
  | .arg i => .ok i
  | _ => .error ins.badOperand

/-- The index of the local slot of an instruction. -/
def localSlot (ins : Instruction) : Except Mishap UInt16 :=
  match ins.operand with
  | .slot i => .ok i
  | _ => .error ins.badOperand

/-- The number of an instruction. -/
def number (ins : Instruction) : Except Mishap Int64 :=
  match ins.operand with
  | .int n => .ok n
  | _ => .error ins.badOperand

/-- The text of an instruction. -/
def text (ins : Instruction) : Except Mishap String :=
  match ins.operand with
  | .text s => .ok s
  | _ => .error ins.badOperand

/-- The field of an instruction. -/
def field (ins : Instruction) : Except Mishap FieldId :=
  match ins.operand with
  | .field id => .ok id
  | _ => .error ins.badOperand

/-- The type of an instruction. -/
def type (ins : Instruction) : Except Mishap TypeId :=
  match ins.operand with
  | .type id => .ok id
  | _ => .error ins.badOperand

/-- The method of an instruction with its signature. -/
def callee (symbols : SymbolTable) (ins : Instruction) : Except Mishap (MethodId × MethodDef) :=
  match ins.operand with
  | .method id =>
      match symbols.method? id with
      | some signature => .ok (id, signature)
      | none => .error (.fault (.symbol (.unknownMethod id)))
  | _ => .error ins.badOperand

end Instruction

namespace Frame

/-- Takes the top of the stack. -/
def pop (f : Frame) : Except Mishap (Value × Frame) :=
  match f.stack with
  | [] => .error (.fault .stackUnderflow)
  | v :: rest => .ok (v, { f with stack := rest })

/-- The number that a value is. -/
def intOf (v : Value) : Except Mishap Int64 :=
  match v with
  | .int n => .ok n
  | _ => .error (.fault (.notAnInt v))

/-- The object that a value refers to. -/
def objectOf (v : Value) : Except Mishap ObjectId :=
  match v with
  | .object id => .ok id
  | .null => .error .nullReference
  | _ => .error (.fault (.notAnObject v))

/-- Takes a number from the top of the stack. -/
def popInt (f : Frame) : Except Mishap (Int64 × Frame) := do
  let (v, f) ← f.pop
  return (← intOf v, f)

/-- Takes a reference to an object from the top of the stack. -/
def popObject (f : Frame) : Except Mishap (ObjectId × Frame) := do
  let (v, f) ← f.pop
  return (← objectOf v, f)

/-- Takes `n` values from the stack, the one pushed first in front. -/
def popMany (f : Frame) (n : Nat) : Except Mishap (List Value × Frame) :=
  if f.stack.length < n then .error (.fault .stackUnderflow)
  else .ok ((f.stack.take n).reverse, { f with stack := f.stack.drop n })

/-- The value of an argument. -/
def loadArg (f : Frame) (i : UInt16) : Except Mishap Value :=
  match f.args[i.toNat]? with
  | some v => .ok v
  | none => .error (.fault (.noArgument i))

/-- Writes an argument. -/
def storeArg (f : Frame) (i : UInt16) (v : Value) : Except Mishap Frame :=
  if i.toNat < f.args.length then .ok { f with args := f.args.set i.toNat v }
  else .error (.fault (.noArgument i))

/-- The value of a local. -/
def loadLocal (f : Frame) (i : UInt16) : Except Mishap Value :=
  match f.locals[i.toNat]? with
  | some v => .ok v
  | none => .error (.fault (.noLocal i))

/-- Writes a local. -/
def storeLocal (f : Frame) (i : UInt16) (v : Value) : Except Mishap Frame :=
  if i.toNat < f.locals.length then .ok { f with locals := f.locals.set i.toNat v }
  else .error (.fault (.noLocal i))

/-- The position that an instruction branches to. -/
def targetOf (f : Frame) (ins : Instruction) : Except Mishap Nat :=
  match f.body.targetOf? ins with
  | some target => .ok target
  | none => .error (.fault .badTarget)

/-- The frame at the target of an instruction, if the branch is taken. -/
def branchIf (f : Frame) (taken : Bool) (ins : Instruction) : Except Mishap Frame :=
  if taken then return { f with pc := ← f.targetOf ins } else return f

end Frame

/-- The result of an operation on two numbers, which wraps around at 64 bits.  Quotients are
    rounded toward zero. -/
def Opcode.binary (op : Opcode) (a b : Int64) : Except Mishap Int64 :=
  match op with
  | .add => .ok (a + b)
  | .sub => .ok (a - b)
  | .mul => .ok (a * b)
  | .div => if b = 0 then .error .divideByZero else .ok (a / b)
  | .rem => if b = 0 then .error .divideByZero else .ok (a % b)
  | .and => .ok (a &&& b)
  | .or => .ok (a ||| b)
  | .xor => .ok (a ^^^ b)
  | .cgt => .ok (if b < a then 1 else 0)
  | _ => .ok (if a < b then 1 else 0)

namespace Action

/-- The frame goes on, and the heap stays as it is. -/
def going (heap : Heap) (f : Except Mishap Frame) : Except Mishap Action :=
  f.map fun f => next f heap

/-- Executes an operation on the two numbers on top of the stack. -/
def arithmetic (op : Opcode) (f : Frame) : Except Mishap Frame := do
  let (b, f) ← f.popInt
  let (a, f) ← f.popInt
  return f.push (.int (← op.binary a b))

/-- Executes an operation on the number on top of the stack. -/
def negation (op : Int64 → Int64) (f : Frame) : Except Mishap Frame := do
  let (a, f) ← f.popInt
  return f.push (.int (op a))

/-- Takes two values and gives whether they are equal. -/
def popEqual (f : Frame) : Except Mishap (Bool × Frame) := do
  let (b, f) ← f.pop
  let (a, f) ← f.pop
  return (a == b, f)

/-- Branches if the top of the stack is as true as asked for. -/
def branchOnTruth (wanted : Bool) (ins : Instruction) (f : Frame) : Except Mishap Frame := do
  let (v, f) ← f.pop
  f.branchIf (v.isTruthy == wanted) ins

/-- Branches if the two values on top of the stack are equal, or if they are not. -/
def branchOnEqual (wanted : Bool) (ins : Instruction) (f : Frame) : Except Mishap Frame := do
  let (equal, f) ← popEqual f
  f.branchIf (equal == wanted) ins

/-- Branches if the two numbers on top of the stack are in order. -/
def branchOnOrder (inOrder : Int64 → Int64 → Bool) (ins : Instruction) (f : Frame) :
    Except Mishap Frame := do
  let (b, f) ← f.popInt
  let (a, f) ← f.popInt
  f.branchIf (inOrder a b) ins

/-- Calls a method with the values on top of the stack. -/
def callMethod (symbols : SymbolTable) (heap : Heap) (needsReceiver : Bool) (ins : Instruction)
    (f : Frame) : Except Mishap Action := do
  let (id, signature) ← ins.callee symbols
  let (args, f) ← f.popMany signature.argCount
  if needsReceiver && args.head? == some .null then throw .nullReference
  else return call f id args none heap

/-- Makes an object and calls a constructor on it. -/
def construct (symbols : SymbolTable) (heap : Heap) (ins : Instruction) (f : Frame) :
    Except Mishap Action := do
  let (id, signature) ← ins.callee symbols
  let (args, f) ← f.popMany signature.params.length
  let (object, heap) := heap.alloc signature.owner
  return call f id (.object object :: args) (some object) heap

/-- Reads a field of the object on top of the stack. -/
def loadField (heap : Heap) (ins : Instruction) (f : Frame) : Except Mishap Frame := do
  let field ← ins.field
  let (object, f) ← f.popObject
  match heap.loadField? object field with
  | some v => return f.push v
  | none => throw (.unknownObject object)

/-- Writes a field of the object below the top of the stack. -/
def storeField (heap : Heap) (ins : Instruction) (f : Frame) : Except Mishap Action := do
  let field ← ins.field
  let (v, f) ← f.pop
  let (object, f) ← f.popObject
  match heap.storeField? object field v with
  | some heap => return next f heap
  | none => throw (.unknownObject object)

/-- Keeps the top of the stack if it is an instance of a type, and replaces it by null if not. -/
def testInstance (symbols : SymbolTable) (heap : Heap) (ins : Instruction) (f : Frame) :
    Except Mishap Frame := do
  let type ← ins.type
  let (v, f) ← f.pop
  return f.push (if Frame.isInstance symbols heap type v then v else .null)

/-- Returns from the method of the frame. -/
def ret (symbols : SymbolTable) (f : Frame) : Except Mishap Action :=
  match symbols.method? f.body.method with
  | none => .error (.fault (.symbol (.unknownMethod f.body.method)))
  | some signature =>
      if signature.ret.isSome then f.pop.map fun (v, _) => exit (some v)
      else .ok (exit none)

/-- Raises the value on top of the stack. -/
def raise (f : Frame) : Except Mishap Action := do
  let (v, f) ← f.pop
  if v = .null then throw .nullReference else return raised f v

/-- Leaves the protected ranges around a position for the target of an instruction. -/
def leave (heap : Heap) (position : Nat) (ins : Instruction) (f : Frame) :
    Except Mishap Action := do
  let target ← f.targetOf ins
  return next (f.continueLeave target (Frame.exited f.body position target)) heap

/-- Goes on with what was put off last. -/
def endFinally (symbols : SymbolTable) (heap : Heap) (f : Frame) : Except Mishap Action :=
  match f.pending with
  | [] => .error (.fault .endFinallyOutside)
  | .leave target rest :: pending =>
      .ok (next (Frame.continueLeave { f with pending := pending } target rest) heap)
  | .throw v rest :: pending =>
      match Frame.throwThrough? symbols heap { f with pending := pending } v rest with
      | some f => .ok (next f heap)
      | none => .ok (escaped v)

/-- Executes an instruction at a position; the frame stands behind it already. -/
def ofInstruction (symbols : SymbolTable) (heap : Heap) (position : Nat) (f : Frame)
    (ins : Instruction) : Except Mishap Action :=
  match ins.opcode with
  | .nop => .ok (next f heap)
  | .ldarg => going heap do return f.push (← f.loadArg (← ins.argument))
  | .starg => going heap do
      let i ← ins.argument
      let (v, f) ← f.pop
      f.storeArg i v
  | .ldloc => going heap do return f.push (← f.loadLocal (← ins.localSlot))
  | .stloc => going heap do
      let i ← ins.localSlot
      let (v, f) ← f.pop
      f.storeLocal i v
  | .ldc => going heap do return f.push (.int (← ins.number))
  | .ldstr => going heap do return f.push (.text (← ins.text))
  | .ldnull => .ok (next (f.push .null) heap)
  | .dup => going heap do
      let (v, f) ← f.pop
      return (f.push v).push v
  | .pop => going heap do return (← f.pop).2
  | .add | .sub | .mul | .div | .rem | .and | .or | .xor | .cgt | .clt =>
      going heap (arithmetic ins.opcode f)
  | .neg => going heap (negation (fun a => -a) f)
  | .not => going heap (negation (fun a => ~~~a) f)
  | .ceq => going heap do
      let (equal, f) ← popEqual f
      return f.push (.ofBool equal)
  | .br => going heap (f.branchIf true ins)
  | .brtrue => going heap (branchOnTruth true ins f)
  | .brfalse => going heap (branchOnTruth false ins f)
  | .beq => going heap (branchOnEqual true ins f)
  | .bne => going heap (branchOnEqual false ins f)
  | .bgt => going heap (branchOnOrder (fun a b => b < a) ins f)
  | .blt => going heap (branchOnOrder (fun a b => a < b) ins f)
  | .call => callMethod symbols heap false ins f
  | .callvirt => callMethod symbols heap true ins f
  | .newobj => construct symbols heap ins f
  | .ldfld => going heap (loadField heap ins f)
  | .stfld => storeField heap ins f
  | .ldsfld => going heap do return f.push (heap.loadStatic (← ins.field))
  | .stsfld => do
      let field ← ins.field
      let (v, f) ← f.pop
      return next f (heap.storeStatic field v)
  | .isinst => going heap (testInstance symbols heap ins f)
  | .ret => ret symbols f
  | .throw => raise f
  | .leave => leave heap position ins f
  | .endfinally => endFinally symbols heap f

end Action

end HookSplice
