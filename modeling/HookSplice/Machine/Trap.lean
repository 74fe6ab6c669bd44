import HookSplice.Body
import HookSplice.Value

/-!
# Traps

What stops the execution of a host method for good.  Exceptions of the host are no traps: they
unwind through handlers, and only become one when nothing catches them.
-/

namespace HookSplice

/-- What goes wrong with an instruction that the verifier would refuse, or with its operands. -/
inductive MachineFault where
  | stackUnderflow
  | notAnInt (found : Value)
  | notAnObject (found : Value)
  | badTarget
  | noArgument (i : UInt16)
  | noLocal (i : UInt16)
  | symbol (e : SymbolError)
  | duplicateLabel (d : DuplicateLabel)
  | endFinallyOutside
  | badOperand (opcode : Opcode) (operand : Operand)
  deriving DecidableEq

/-- The wording of a machine fault. -/
def MachineFault.message : MachineFault → String
  | stackUnderflow => "evaluation stack underflow"
  | notAnInt found => "expected an int, found " ++ found.display
  | notAnObject found => "expected an object, found " ++ found.display
  | badTarget => "branch target is not in the body"
  | noArgument i => "no argument " ++ toString i.toNat
  | noLocal i => "no local " ++ toString i.toNat
  | symbol e => e.message
  | duplicateLabel d => d.message
  | endFinallyOutside => "endfinally outside a finally handler"
  | badOperand opcode operand => opcode.mnemonic ++ " cannot take operand " ++ operand.inspect

/-- What stops an instruction. -/
inductive Mishap where
  | fault (cause : MachineFault)
  | nullReference
  | divideByZero
  | unknownObject (id : ObjectId)
  deriving DecidableEq

/-- Why execution stops.  Methods are given by their identities. -/
inductive Trap where
  | unknownMethod (spelling : String)
  | noImplementation (method : String)
  | arity (method : String) (expected found : Nat)
  | fault (method : String) (position : Nat) (cause : MachineFault)
  | nullReference (method : String) (position : Nat)
  | divideByZero (method : String) (position : Nat)
  | unknownObject (id : ObjectId)
  | fellOffEnd (method : String)
  | unhandled (method : String) (value : Value)
  | stepLimit (limit : Nat)
  | callDepth (limit : Nat)
  /-- Raised by native code. -/
  | native (method : String) (reason : String)
  /-- No trap that stops a machine, and so without a text and a tag: native code had not come back
      when it was followed no further, and the run goes on. -/
  | unreturned
  deriving DecidableEq

/-- The wording of a trap. -/
def Trap.message : Trap → String
  | unknownMethod spelling => "unknown method \x60" ++ spelling ++ "\x60"
  | noImplementation method => method ++ " has neither a body nor a native binding"
  | arity method expected found =>
      method ++ " takes " ++ toString expected ++ " argument(s), " ++ toString found ++ " given"
  | fault method position cause => method ++ "[" ++ toString position ++ "]: " ++ cause.message
  | nullReference method position => method ++ "[" ++ toString position ++ "]: null reference"
  | divideByZero method position => method ++ "[" ++ toString position ++ "]: division by zero"
  | unknownObject id => "unknown object " ++ id.inspect
  | fellOffEnd method => "control ran past the end of " ++ method
  | unhandled method value =>
      "unhandled exception " ++ value.display ++ " thrown out of " ++ method
  | stepLimit limit => "step limit of " ++ toString limit ++ " instructions exceeded"
  | callDepth limit => "call depth limit of " ++ toString limit ++ " exceeded"
  | native method reason => "native " ++ method ++ ": " ++ reason
  | unreturned => ""

/-- The tag by which reports tell traps apart. -/
def Trap.tag : Trap → String
  | unknownMethod .. => "UnknownMethod"
  | noImplementation .. => "NoImplementation"
  | arity .. => "Arity"
  | fault .. => "Fault"
  | nullReference .. => "NullReference"
  | divideByZero .. => "DivideByZero"
  | unknownObject .. => "UnknownObject"
  | fellOffEnd .. => "FellOffEnd"
  | unhandled .. => "Unhandled"
  | stepLimit .. => "StepLimit"
  | callDepth .. => "CallDepth"
  | native .. => "Native"
  | unreturned => ""

/-- The trap of a mishap at a position of a method. -/
def Mishap.toTrap (method : String) (position : Nat) : Mishap → Trap
  | fault cause => .fault method position cause
  | nullReference => .nullReference method position
  | divideByZero => .divideByZero method position
  | unknownObject id => .unknownObject id

end HookSplice
