/-!
# Opcodes

The operations of the typed stack machine that host methods are compiled for.  An opcode fixes the
shape of its operand and how control leaves the instruction.
-/

namespace HookSplice

/-- The operations of the host machine, in the order of its table. -/
inductive Opcode where
  | nop | ldarg | starg | ldloc | stloc | ldc | ldstr | ldnull | dup | pop
  | add | sub | mul | div | rem | neg | and | or | xor | not | ceq | cgt | clt
  | br | brtrue | brfalse | beq | bne | bgt | blt
  | call | callvirt | newobj | ldfld | stfld | ldsfld | stsfld | isinst
  | ret | throw | leave | endfinally
  deriving DecidableEq

/-- The shapes an operand can have. -/
inductive OperandKind where
  | none | int | text | arg | slot | label | field | method | type
  deriving DecidableEq

/-- How control leaves an instruction. -/
inductive Flow where
  /-- To the next instruction. -/
  | next
  /-- To the label operand. -/
  | branch
  /-- To the label operand or to the next instruction. -/
  | condBranch
  /-- Out of the method. -/
  | exit
  /-- Raises the value on top of the stack. -/
  | throw
  /-- Out of a protected region, emptying the stack. -/
  | leave
  /-- Out of a finally handler. -/
  | endFinally
  deriving DecidableEq

/-- The name of an operand shape. -/
def OperandKind.name : OperandKind → String
  | none => "None" | int => "Int" | text => "Str" | arg => "Arg" | slot => "Local"
  | label => "Label" | field => "Field" | method => "Method" | type => "Type"

/-- The name of a way of leaving an instruction. -/
def Flow.name : Flow → String
  | next => "Next" | branch => "Branch" | condBranch => "CondBranch" | exit => "Return"
  | throw => "Throw" | leave => "Leave" | endFinally => "EndFinally"

namespace Opcode

/-- Every opcode, in table order. -/
def all : List Opcode :=
  [.nop, .ldarg, .starg, .ldloc, .stloc, .ldc, .ldstr, .ldnull, .dup, .pop,
   .add, .sub, .mul, .div, .rem, .neg, .and, .or, .xor, .not, .ceq, .cgt, .clt,
   .br, .brtrue, .brfalse, .beq, .bne, .bgt, .blt,
   .call, .callvirt, .newobj, .ldfld, .stfld, .ldsfld, .stsfld, .isinst,
   .ret, .throw, .leave, .endfinally]

/-- The name of an opcode in a host image. -/
def mnemonic : Opcode → String
  | nop => "nop" | ldarg => "ldarg" | starg => "starg" | ldloc => "ldloc" | stloc => "stloc"
  | ldc => "ldc" | ldstr => "ldstr" | ldnull => "ldnull" | dup => "dup" | pop => "pop"
  | add => "add" | sub => "sub" | mul => "mul" | div => "div" | rem => "rem" | neg => "neg"
  | and => "and" | or => "or" | xor => "xor" | not => "not"
  | ceq => "ceq" | cgt => "cgt" | clt => "clt"
  | br => "br" | brtrue => "brtrue" | brfalse => "brfalse"
  | beq => "beq" | bne => "bne" | bgt => "bgt" | blt => "blt"
  | call => "call" | callvirt => "callvirt" | newobj => "newobj"
  | ldfld => "ldfld" | stfld => "stfld" | ldsfld => "ldsfld" | stsfld => "stsfld"
  | isinst => "isinst" | ret => "ret" | throw => "throw" | leave => "leave"
  | endfinally => "endfinally"

/-- The opcode with a mnemonic in exactly this spelling. -/
def ofName? (name : String) : Option Opcode :=
  all.find? fun op => op.mnemonic == name

/-- The opcode with a mnemonic; ASCII letters may be written in either case. -/
def ofMnemonic? (name : String) : Option Opcode :=
  ofName? (String.ofList (name.toList.map Char.toLower))

/-- The shape of the operand that an opcode requires. -/
def operandKind : Opcode → OperandKind
  | ldarg | starg => .arg
  | ldloc | stloc => .slot
  | ldc => .int
  | ldstr => .text
  | br | brtrue | brfalse | beq | bne | bgt | blt | leave => .label
  | call | callvirt | newobj => .method
  | ldfld | stfld | ldsfld | stsfld => .field
  | isinst => .type
  | _ => .none

/-- How control leaves an instruction with this opcode. -/
def flow : Opcode → Flow
  | br => .branch
  | brtrue | brfalse | beq | bne | bgt | blt => .condBranch
  | ret => .exit
  | throw => .throw
  | leave => .leave
  | endfinally => .endFinally
  | _ => .next

/-- Whether control may go on to the next instruction. -/
def fallsThrough (op : Opcode) : Bool :=
  match op.flow with
  | .next | .condBranch => true
  | _ => false

/-- Whether control never goes on to the next instruction. -/
def isTerminator (op : Opcode) : Bool :=
  !op.fallsThrough

/-- Whether the opcode is a conditional branch. -/
def isConditionalBranch (op : Opcode) : Bool :=
  op.flow == .condBranch

/-- Whether the operand is a label. -/
def isBranch (op : Opcode) : Bool :=
  op.operandKind == .label

end Opcode

end HookSplice
