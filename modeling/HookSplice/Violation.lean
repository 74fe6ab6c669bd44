import HookSplice.Body
import HookSplice.Text.Numeral

/-!
# Violations

The first problem that the verifier finds in a body, or the analysis of an inserted run in the run.
-/

namespace HookSplice

/-- What is wrong with a body or with a run of instructions.  A position is missing while it is
    not yet known where the instruction will stand. -/
inductive Violation where
  | notAConstructor (position : Option Nat)
  | argOutOfRange (position : Nat) (index : UInt16) (count : Nat)
  | branchAcrossRegion (position target : Nat)
  | danglingLabel (position : Nat) (label : Label)
  | depthMismatch (position expected found : Nat)
  | duplicateLabel (label : Label) (first second : Nat)
  | emptyBody
  | fallsOffEnd (position : Nat)
  | fallsIntoHandler (position : Nat)
  | fieldKind (position : Nat) (opcode : Opcode)
  | localOutOfRange (position : Nat) (index : UInt16) (count : Nat)
  | operandMismatch (position : Option Nat) (opcode : Opcode)
  | regionOutOfBounds (region : Nat)
  | returnDepth (position depth expected : Nat)
  | staticCallvirt (position : Option Nat)
  | stackOverflow (position depth limit : Nat)
  | stackUnderflow (position depth needs : Nat)
  | runDepthMismatch (offset : Nat) (expected found : Int)
  | runNeverExits
  | notInRun (offset : Nat) (opcode : Opcode)
  | unknownSymbol (position : Option Nat)
  deriving DecidableEq

namespace Violation

/-- The violation of a label that is attached twice. -/
def ofDuplicate (d : DuplicateLabel) : Violation :=
  duplicateLabel d.label d.first d.second

/-- Fills in the position of a violation that was found before it was known. -/
def locatedAt (i : Nat) : Violation → Violation
  | notAConstructor none => notAConstructor (some i)
  | operandMismatch none opcode => operandMismatch (some i) opcode
  | staticCallvirt none => staticCallvirt (some i)
  | unknownSymbol none => unknownSymbol (some i)
  | v => v

/-- How a position is worded that may still be missing. -/
def place : Option Nat → String
  | some i => "at " ++ toString i
  | none => "in template"

/-- The wording of a violation. -/
def message : Violation → String
  | notAConstructor position => "newobj " ++ place position ++ " does not name a constructor"
  | argOutOfRange position index count =>
      "argument " ++ toString index.toNat ++ " at " ++ toString position ++ " is out of range (" ++
        toString count ++ " arguments)"
  | branchAcrossRegion position target =>
      "branch at " ++ toString position ++ " to " ++ toString target ++
        " crosses an exception region boundary"
  | danglingLabel position label =>
      "branch at " ++ toString position ++ " targets " ++ label.display ++
        ", which is attached to no instruction"
  | depthMismatch position expected found =>
      "stack depth mismatch at " ++ toString position ++ ": " ++ toString expected ++
        " on one path, " ++ toString found ++ " on another"
  | duplicateLabel label first second =>
      "label " ++ label.display ++ " attached at " ++ toString first ++ " and " ++ toString second
  | emptyBody => "method body is empty"
  | fallsOffEnd position =>
      "control falls off the end of the body after " ++ toString position
  | fallsIntoHandler position => "control falls through into a handler at " ++ toString position
  | fieldKind position opcode =>
      opcode.mnemonic ++ " at " ++ toString position ++ " used with a field of the wrong kind"
  | localOutOfRange position index count =>
      "local " ++ toString index.toNat ++ " at " ++ toString position ++ " is out of range (" ++
        toString count ++ " locals)"
  | operandMismatch position opcode =>
      opcode.mnemonic ++ " " ++ place position ++ " has an operand of the wrong kind"
  | regionOutOfBounds region => "exception region " ++ toString region ++ " has invalid bounds"
  | returnDepth position depth expected =>
      "ret at " ++ toString position ++ " with stack depth " ++ toString depth ++ ", expected " ++
        toString expected
  | staticCallvirt position => "callvirt " ++ place position ++ " targets a static method"
  | stackOverflow position depth limit =>
      "stack depth " ++ toString depth ++ " at " ++ toString position ++ " exceeds limit " ++
        toString limit
  | stackUnderflow position depth needs =>
      "stack underflow at " ++ toString position ++ ": depth " ++ toString depth ++ ", needs " ++
        toString needs
  | runDepthMismatch offset expected found =>
      "run offset " ++ toString offset ++ " is reached with relative depths " ++
        Text.withSign expected ++ " and " ++ Text.withSign found
  | runNeverExits => "no path through the run reaches its end"
  | notInRun offset opcode =>
      opcode.mnemonic ++ " at " ++ toString offset ++ " cannot appear in a spliced run"
  | unknownSymbol position => "operand " ++ place position ++ " references an unknown symbol"

/-- The tag by which reports tell violations apart. -/
def tag : Violation → String
  | notAConstructor .. => "NotAConstructor"
  | argOutOfRange .. => "ArgOutOfRange"
  | branchAcrossRegion .. => "BranchAcrossRegion"
  | danglingLabel .. => "DanglingLabel"
  | depthMismatch .. => "DepthMismatch"
  | duplicateLabel .. => "DuplicateLabel"
  | emptyBody => "EmptyBody"
  | fallsOffEnd .. => "FallsOffEnd"
  | fallsIntoHandler .. => "FallsIntoHandler"
  | fieldKind .. => "FieldKind"
  | localOutOfRange .. => "LocalOutOfRange"
  | operandMismatch .. => "OperandMismatch"
  | regionOutOfBounds .. => "RegionOutOfBounds"
  | returnDepth .. => "ReturnDepth"
  | staticCallvirt .. => "StaticCallvirt"
  | stackOverflow .. => "StackOverflow"
  | stackUnderflow .. => "StackUnderflow"
  | runDepthMismatch .. => "RunDepthMismatch"
  | runNeverExits => "RunNeverExits"
  | notInRun .. => "NotInRun"
  | unknownSymbol .. => "UnknownSymbol"

end Violation

end HookSplice
