import HookSplice.Body
import HookSplice.Text.Numeral

/-!
# Anchors

An anchor locates a splice point in a body.  A matcher is tried at every position, an occurrence
chooses one of the matches, and an offset leads from there to the point.
-/

namespace HookSplice

/-- Matches one instruction by opcode and operand; a missing part matches anything. -/
structure Pattern where
  opcode : Option Opcode
  operand : Option Operand
  deriving DecidableEq

namespace Pattern

/-- Matches the opcode and operand of an instruction, whatever labels are attached. -/
def exactly (ins : Instruction) : Pattern :=
  ⟨some ins.opcode, some ins.operand⟩

/-- Whether an instruction matches. -/
def accepts (p : Pattern) (ins : Instruction) : Bool :=
  p.opcode.all (· == ins.opcode) && p.operand.all (· == ins.operand)

/-- How messages show the operand of a pattern. -/
def operandText : Operand → String
  | .none => "<none>"
  | .int n => toString n.toInt
  | .text s => Text.inspect s
  | .arg i => "arg" ++ toString i.toNat
  | .slot i => "loc" ++ toString i.toNat
  | .label l => l.display
  | .field id => "field#" ++ toString id.index
  | .method id => "method#" ++ toString id.index
  | .type id => "type#" ++ toString id.index

/-- How messages show a pattern. -/
def display (p : Pattern) : String :=
  (p.opcode.map Opcode.mnemonic).getD "*" ++
    match p.operand with
    | none => ""
    | some operand => " " ++ operandText operand

end Pattern

/-- A test that is applied at one position of a body. -/
inductive Matcher where
  /-- The instruction there matches. -/
  | instruction (pattern : Pattern)
  /-- A nonempty run of instructions from there on matches, one pattern each. -/
  | sequence (patterns : List Pattern)
  /-- The instruction there and its position satisfy a condition, which has a description. -/
  | condition (description : String) (test : Instruction → Nat → Bool)

namespace Matcher

/-- Whether the code from a position on starts with a run that matches. -/
def acceptsRun : List Pattern → List Instruction → Bool
  | [], _ => true
  | _ :: _, [] => false
  | p :: ps, ins :: rest => p.accepts ins && acceptsRun ps rest

/-- Whether a position of the code matches. -/
def accepts (m : Matcher) (code : List Instruction) (i : Nat) : Bool :=
  match m with
  | instruction pattern => (code[i]?).any pattern.accepts
  | sequence patterns => !patterns.isEmpty && acceptsRun patterns (code.drop i)
  | condition _ test => (code[i]?).any fun ins => test ins i

/-- How messages show a matcher. -/
def display : Matcher → String
  | instruction pattern => pattern.display
  | sequence patterns => "[" ++ String.intercalate "; " (patterns.map Pattern.display) ++ "]"
  | condition description _ => description

end Matcher

/-- Which of several matches is meant. -/
inductive Occurrence where
  /-- The only one; there may be no other. -/
  | only
  | first
  | last
  /-- The one with this index, counted from zero. -/
  | nth (n : UInt64)
  deriving DecidableEq

/-- How messages show an occurrence. -/
def Occurrence.display : Occurrence → String
  | only => "only"
  | first => "first"
  | last => "last"
  | nth n => "#" ++ toString n.toNat

/-- The match that an occurrence singles out, if it singles out one. -/
def Occurrence.choose? (occurrence : Occurrence) (found : List Nat) : Option Nat :=
  match occurrence with
  | only => if found.length = 1 then found.head? else none
  | first => found.head?
  | last => found.getLast?
  | nth n => found[n.toNat]?

/-- Why an anchor does not resolve. -/
inductive AnchorError where
  | notFound (pattern : String)
  | ambiguous (pattern : String) (occurrence : Occurrence) (found : Nat)
  | offsetOutOfRange (pattern : String) (matched : Nat) (offset : Int64) (size : Nat)
  deriving DecidableEq

/-- The wording of an anchor error. -/
def AnchorError.message : AnchorError → String
  | notFound pattern => "anchor not found: no instruction matches " ++ pattern
  | ambiguous pattern occurrence found =>
      "anchor ambiguous: " ++ pattern ++ " matched " ++ toString found ++ " times, occurrence " ++
        occurrence.display ++ " requested"
  | offsetOutOfRange pattern matched offset size =>
      "anchor offset " ++ toString offset.toInt ++ " from match at " ++ toString matched ++
        " leaves the body (" ++ toString size ++ " instructions) for " ++ pattern

/-- The tag by which reports tell anchor errors apart. -/
def AnchorError.tag : AnchorError → String
  | notFound .. => "NotFound"
  | ambiguous .. => "Ambiguous"
  | offsetOutOfRange .. => "OffsetOutOfRange"

/-- An anchor that has been resolved: every match, the one chosen, and the splice point. -/
structure AnchorMatch where
  found : List Nat
  matched : Nat
  point : Nat
  deriving DecidableEq

/-- A matcher with an occurrence and an offset. -/
structure Anchor where
  matcher : Matcher
  occurrence : Occurrence
  offset : Int64

namespace Anchor

/-- How messages show an anchor. -/
def display (a : Anchor) : String :=
  a.matcher.display ++
    (if a.occurrence = .only then "" else " (" ++ a.occurrence.display ++ ")") ++
    (if a.offset = 0 then "" else " " ++ Text.withSign a.offset.toInt)

/-- The positions that the matcher accepts, in ascending order. -/
def locateAll (a : Anchor) (code : List Instruction) : List Nat :=
  (List.range code.length).filter fun i => a.matcher.accepts code i

/-- The splice point at an offset from a match, if it is a position of the code. -/
def pointAt? (size matched : Nat) (offset : Int64) : Option Nat :=
  let point := (matched : Int) + offset.toInt
  if 0 ≤ point ∧ point < size then some point.toNat else none

/-- Resolves an anchor in a list of instructions. -/
def resolve (a : Anchor) (code : List Instruction) : Except AnchorError AnchorMatch :=
  let found := a.locateAll code
  if found.isEmpty then .error (.notFound a.display)
  else
    match a.occurrence.choose? found with
    | none => .error (.ambiguous a.display a.occurrence found.length)
    | some matched =>
        match pointAt? code.length matched a.offset with
        | none => .error (.offsetOutOfRange a.display matched a.offset code.length)
        | some point => .ok ⟨found, matched, point⟩

/-- The splice point that an anchor selects. -/
def locate (a : Anchor) (code : List Instruction) : Except AnchorError Nat :=
  (a.resolve code).map AnchorMatch.point

end Anchor

end HookSplice
