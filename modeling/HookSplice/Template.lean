import HookSplice.Anchor

/-!
# Splice templates

A template is a recipe for a run of instructions, made once and expanded for every body it is
inserted into.  Its branches name markers in place of labels.  A valid template ends with a
conditional branch to the deny target.
-/

namespace HookSplice

/-- A branch target inside a template. -/
inductive Marker where
  /-- Where control goes when the event is denied. -/
  | deny
  /-- A place in the template itself. -/
  | fresh (n : Nat)
  deriving DecidableEq

/-- One step of a template. -/
inductive Step where
  /-- An instruction as it is; no branch. -/
  | emit (ins : Instruction)
  /-- Loads a scratch local. -/
  | loadScratch (n : Nat)
  /-- Stores into a scratch local. -/
  | storeScratch (n : Nat)
  | branch (opcode : Opcode) (target : Marker)
  /-- Places a marker in front of the next instruction. -/
  | mark (n : Nat)
  deriving DecidableEq

/-- What a method returns early. -/
inductive ReturnValue where
  | void
  | null
  | int (n : Int64)
  | text (s : String)
  | arg (i : UInt16)
  deriving DecidableEq

namespace ReturnValue

/-- The instruction that loads the value, if there is one. -/
def load : ReturnValue → List Instruction
  | void => []
  | null => [.plain .ldnull]
  | int n => [.of .ldc (.int n)]
  | text s => [.of .ldstr (.text s)]
  | arg i => [.of .ldarg (.arg i)]

/-- Whether a method with a signature can return the value. -/
def fits (m : MethodDef) : ReturnValue → Bool
  | void => m.ret.isNone
  | arg i => m.ret.isSome && i.toNat < m.argCount
  | _ => m.ret.isSome

/-- The inspected form of a return value. -/
def inspect : ReturnValue → String
  | void => "Void"
  | null => "Null"
  | int n => "Int(" ++ toString n.toInt ++ ")"
  | text s => "Str(" ++ Text.inspect s ++ ")"
  | arg i => "Arg(" ++ toString i.toNat ++ ")"

end ReturnValue

/-- Where control goes when the event is denied. -/
inductive DenyTarget where
  /-- An instruction behind the splice point that carries this label. -/
  | label (l : Label)
  /-- An instruction behind the splice point that an anchor selects. -/
  | anchor (a : Anchor)
  /-- A stub at the end of the body that empties the stack and returns. -/
  | returning (v : ReturnValue)

/-- What is wrong with the shape of a template. -/
inductive TemplateFault where
  | noFinalBranch
  | rawBranch
  | operandMismatch (opcode : Opcode)
  | labelled
  | unknownScratch (n : Nat)
  | notABranch (opcode : Opcode)
  | secondMark (n : Nat)
  | openMark
  | missingMark (n : Nat)
  /-- An event with too many or too few captures. -/
  | captureCount (kind : String) (expected found : Nat)
  /-- An event without the field that is to be read back. -/
  | noEventField (kind field : String)
  | noAllowedField
  deriving DecidableEq

/-- The wording of a template fault. -/
def TemplateFault.message : TemplateFault → String
  | noFinalBranch => "template must end with a conditional branch to the deny target"
  | rawBranch => "branches must use Step::Branch"
  | operandMismatch opcode => opcode.mnemonic ++ " has an operand of the wrong kind"
  | labelled => "emitted instructions may not carry labels"
  | unknownScratch n => "scratch local " ++ toString n ++ " is not declared"
  | notABranch opcode => opcode.mnemonic ++ " is not a plain branch"
  | secondMark n => "marker " ++ toString n ++ " placed twice"
  | openMark => "marker placed after the last instruction"
  | missingMark n => "marker " ++ toString n ++ " is branched to but never placed"
  | captureCount kind expected found =>
      kind ++ " events capture " ++ toString expected ++ " values, " ++ toString found ++ " given"
  | noEventField kind field => kind ++ " events have no " ++ field ++ " field"
  | noAllowedField => "event class lacks Allowed"

/-- A recipe for a run: its steps, the types of its scratch locals, the change in stack depth that
    it declares, and where it goes on denial. -/
structure Template where
  steps : List Step
  scratch : List TypeId
  delta : Int64
  deny : DenyTarget

namespace Step

/-- Whether a step becomes an instruction. -/
def isInstruction : Step → Bool
  | mark _ => false
  | _ => true

/-- The marker that a step places. -/
def placed? : Step → Option Nat
  | mark n => some n
  | _ => none

/-- The marker of the template that a step branches to. -/
def used? : Step → Option Nat
  | branch _ (.fresh n) => some n
  | _ => none

end Step

namespace Template

/-- What is wrong with a step of a template with `scratch` scratch locals, when the markers
    `placed` stand before it. -/
def stepFault? (scratch : Nat) (placed : List Nat) : Step → Option TemplateFault
  | .emit ins =>
      if ins.opcode.isBranch || ins.target?.isSome then some .rawBranch
      else if !ins.operandFits then some (.operandMismatch ins.opcode)
      else if !ins.labels.isEmpty then some .labelled
      else none
  | .loadScratch n | .storeScratch n => if n < scratch then none else some (.unknownScratch n)
  | .branch opcode _ =>
      if !opcode.isBranch || opcode == .leave then some (.notABranch opcode) else none
  | .mark n => if placed.contains n then some (.secondMark n) else none

/-- What is wrong with the first faulty step of a list, `placed` being the markers before it. -/
def stepsFault? (scratch : Nat) : List Nat → List Step → Option TemplateFault
  | _, [] => none
  | placed, step :: rest =>
      match stepFault? scratch placed step with
      | some fault => some fault
      | none => stepsFault? scratch (step.placed?.toList ++ placed) rest

/-- Whether a step is a conditional branch to the deny target. -/
def isFinal : Step → Bool
  | .branch opcode .deny => opcode.isConditionalBranch
  | _ => false

/-- What is wrong with the shape of a template, if anything is. -/
def fault? (t : Template) : Option TemplateFault :=
  if !t.steps.getLast?.any isFinal then some .noFinalBranch
  else
    let placed := t.steps.filterMap Step.placed?
    (stepsFault? t.scratch.length [] t.steps).or
      (((t.steps.filterMap Step.used?).find? fun n => !placed.contains n).map .missingMark)

/-- The number of instructions that a template expands to. -/
def count (t : Template) : Nat :=
  t.steps.countP Step.isInstruction

/-- Declares the scratch locals of a template in a body; fails with the body that has no slot
    left. -/
def declareScratch : List TypeId → Body → Except Body (List UInt16 × Body)
  | [], body => .ok ([], body)
  | type :: rest, body =>
      match body.declareLocal? type with
      | none => .error body
      | some (slot, body) => do
          let (slots, body) ← declareScratch rest body
          return (slot :: slots, body)

/-- Allocates a label for every marker that the steps place, if the build gets past them. -/
def freshLabels (overflow : Overflow) : List Step → Body → Option (List (Nat × Label) × Body)
  | [], body => some ([], body)
  | step :: rest, body =>
      match step.placed? with
      | none => freshLabels overflow rest body
      | some n => do
          let (label, body) ← body.freshLabel? overflow
          let (labels, body) ← freshLabels overflow rest body
          return ((n, label) :: labels, body)

/-- The instruction that a step becomes. -/
def instructionOf? (slots : List UInt16) (labels : List (Nat × Label)) (deny : Label) :
    Step → Option Instruction
  | .emit ins => some ins
  | .loadScratch n => some (.of .ldloc (.slot (slots.getD n 0)))
  | .storeScratch n => some (.of .stloc (.slot (slots.getD n 0)))
  | .branch opcode .deny => some (.of opcode (.label deny))
  | .branch opcode (.fresh n) => some (.of opcode (.label ((labels.lookup n).getD deny)))
  | .mark _ => none

/-- The instructions of the steps; `pending` are the labels placed since the last one. -/
def expand (slots : List UInt16) (labels : List (Nat × Label)) (deny : Label) :
    List Label → List Step → List Instruction
  | _, [] => []
  | pending, step :: rest =>
      match instructionOf? slots labels deny step with
      | some ins => ins.attach pending :: expand slots labels deny [] rest
      | none =>
          let here := step.placed?.bind fun n => labels.lookup n
          expand slots labels deny (pending ++ here.toList) rest

end Template

end HookSplice
