import HookSplice.Opcode
import HookSplice.Symbols
import HookSplice.Text.Inspect

/-!
# Instructions

An instruction is an opcode, an operand and the labels attached to its position.  Branches name
labels, so that code can be inserted without touching them.
-/

namespace HookSplice

/-- A jump target of one method body.  Labels are told apart by numbers of 32 bits. -/
structure Label where
  raw : UInt32
  deriving DecidableEq

namespace Label

/-- The number of a label. -/
def number (l : Label) : Nat :=
  l.raw.toNat

/-- The label with a number that has 32 bits. -/
def ofNat (n : Nat) : Label :=
  ⟨UInt32.ofNat n⟩

theorem number_lt (l : Label) : l.number < UInt32.size :=
  l.raw.toNat_lt

theorem number_inj {l k : Label} (same : l.number = k.number) : l = k :=
  congrArg mk (UInt32.toNat_inj.mp same)

theorem number_ofNat {n : Nat} (small : n < UInt32.size) : (ofNat n).number = n :=
  UInt32.toNat_ofNat_of_lt' small

theorem ofNat_number (l : Label) : ofNat l.number = l :=
  number_inj (number_ofNat l.number_lt)

/-- How messages show a label. -/
def display (l : Label) : String :=
  "L" ++ toString l.number

end Label

/-- The operand of an instruction: an immediate, or the handle of a symbol. -/
inductive Operand where
  | none
  | int (n : Int64)
  | text (s : String)
  | arg (i : UInt16)
  | slot (i : UInt16)
  | label (l : Label)
  | field (id : FieldId)
  | method (id : MethodId)
  | type (id : TypeId)
  deriving DecidableEq

namespace Operand

/-- The shape of an operand. -/
def kind : Operand → OperandKind
  | none => .none
  | int _ => .int
  | text _ => .text
  | arg _ => .arg
  | slot _ => .slot
  | label _ => .label
  | field _ => .field
  | method _ => .method
  | type _ => .type

/-- The inspected form of an operand, with the name of its kind. -/
def inspect : Operand → String
  | none => "None"
  | int n => "Int(" ++ toString n.toInt ++ ")"
  | text s => "Str(" ++ Text.inspect s ++ ")"
  | arg i => "Arg(" ++ toString i.toNat ++ ")"
  | slot i => "Local(" ++ toString i.toNat ++ ")"
  | label l => "Label(Label(" ++ toString l.number ++ "))"
  | field id => "Field(FieldId(" ++ toString id.index ++ "))"
  | method id => "Method(" ++ id.inspect ++ ")"
  | type id => "Type(TypeId(" ++ toString id.index ++ "))"

end Operand

/-- One instruction, with the labels attached to its position. -/
structure Instruction where
  opcode : Opcode
  operand : Operand
  labels : List Label
  deriving DecidableEq

namespace Instruction

/-- An instruction to which no label is attached. -/
def of (opcode : Opcode) (operand : Operand) : Instruction :=
  ⟨opcode, operand, []⟩

/-- An instruction without an operand and without labels. -/
def plain (opcode : Opcode) : Instruction :=
  of opcode .none

/-- The label that the operand names. -/
def target? (ins : Instruction) : Option Label :=
  match ins.operand with
  | .label l => some l
  | _ => none

/-- Equality of opcode and operand; the attached labels do not count. -/
def sameShape (a b : Instruction) : Bool :=
  a.opcode == b.opcode && a.operand == b.operand

/-- Whether the operand has the shape that the opcode requires. -/
def operandFits (ins : Instruction) : Bool :=
  ins.opcode.operandKind == ins.operand.kind

/-- The instruction with labels attached behind those it has. -/
def attach (ins : Instruction) (labels : List Label) : Instruction :=
  { ins with labels := ins.labels ++ labels }

end Instruction

end HookSplice
