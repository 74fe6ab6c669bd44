import HookSplice.Violation

/-!
# Stack effects

How many values an instruction takes from the operand stack and how many it puts there.  The effect
of a call depends on the signature of the callee, that of a return on the enclosing method.
-/

namespace HookSplice

/-- The number of values that an instruction pops and then pushes. -/
structure StackEffect where
  pops : Nat
  pushes : Nat
  deriving DecidableEq

namespace StackEffect

/-- The net change in depth. -/
def delta (e : StackEffect) : Int :=
  (e.pushes : Int) - (e.pops : Int)

/-- How many values a method leaves to its caller. -/
def results (ret : Option TypeId) : Nat :=
  if ret.isSome then 1 else 0

/-- The effect of a call or of a construction. -/
def ofCall (symbols : SymbolTable) (ins : Instruction) : Except Violation StackEffect :=
  match ins.operand with
  | .method id =>
      match symbols.method? id with
      | none => .error (.unknownSymbol none)
      | some callee =>
          if ins.opcode = .newobj then
            if callee.isConstructor then .ok ⟨callee.params.length, 1⟩
            else .error (.notAConstructor none)
          else if ins.opcode = .callvirt ∧ callee.isStatic then .error (.staticCallvirt none)
          else .ok ⟨callee.argCount, results callee.ret⟩
  | _ => .error (.operandMismatch none ins.opcode)

/-- The effect of an instruction in a method with the signature `enclosing`.  `leave` and
    `endfinally` empty the stack; they count as popping nothing here. -/
def ofInstruction (symbols : SymbolTable) (enclosing : MethodDef) (ins : Instruction) :
    Except Violation StackEffect :=
  match ins.opcode with
  | .nop | .br | .leave | .endfinally => .ok ⟨0, 0⟩
  | .ldarg | .ldloc | .ldc | .ldstr | .ldnull | .ldsfld => .ok ⟨0, 1⟩
  | .starg | .stloc | .pop | .stsfld => .ok ⟨1, 0⟩
  | .dup => .ok ⟨1, 2⟩
  | .add | .sub | .mul | .div | .rem | .and | .or | .xor | .ceq | .cgt | .clt => .ok ⟨2, 1⟩
  | .neg | .not | .ldfld | .isinst => .ok ⟨1, 1⟩
  | .brtrue | .brfalse | .throw => .ok ⟨1, 0⟩
  | .beq | .bne | .bgt | .blt | .stfld => .ok ⟨2, 0⟩
  | .call | .callvirt | .newobj => ofCall symbols ins
  | .ret => .ok ⟨results enclosing.ret, 0⟩

/-- The effect of the instruction at a position, at which its violation is then reported. -/
def ofPosition (symbols : SymbolTable) (enclosing : MethodDef) (i : Nat) (ins : Instruction) :
    Except Violation StackEffect :=
  (ofInstruction symbols enclosing ins).mapError (Violation.locatedAt i)

end StackEffect

end HookSplice
