import HookSplice.Instruction

/-!
# Method bodies

A body is a list of instructions with its local slots and exception regions.  Regions are pairs of
half-open ranges of positions; labels are attached to instructions and resolve to the position of
the first one that carries them.  A body hands out fresh labels by counting, and the count has as
many bits as a label: what lies behind the last number depends on how the program is built.
-/

namespace HookSplice

/-- What an exception handler does. -/
inductive HandlerKind where
  /-- Entered with the thrown value on the stack, when it is an instance of the type. -/
  | catching (type : TypeId)
  /-- Runs whenever control leaves the protected range. -/
  | finalizing
  deriving DecidableEq

/-- A protected range and the range of its handler, ends excluded. -/
structure Region where
  kind : HandlerKind
  tryStart : Nat
  tryEnd : Nat
  handlerStart : Nat
  handlerEnd : Nat
  deriving DecidableEq

namespace Region

/-- Whether a position lies in the protected range. -/
def protects (r : Region) (i : Nat) : Bool :=
  r.tryStart ≤ i && i < r.tryEnd

/-- Whether a position lies in the handler. -/
def handles (r : Region) (i : Nat) : Bool :=
  r.handlerStart ≤ i && i < r.handlerEnd

/-- A boundary after `count` positions have been inserted at `point`.  A boundary at `point`
    stays, and so does one before it. -/
def shiftBound (point count bound : Nat) : Nat :=
  if point < bound then bound + count else bound

/-- The region after `count` positions have been inserted at `point`. -/
def shiftAfter (r : Region) (point count : Nat) : Region :=
  { kind := r.kind
    tryStart := shiftBound point count r.tryStart
    tryEnd := shiftBound point count r.tryEnd
    handlerStart := shiftBound point count r.handlerStart
    handlerEnd := shiftBound point count r.handlerEnd }

/-- The length of the protected range; of two regions the shorter one is the inner one. -/
def span (r : Region) : Nat :=
  r.tryEnd - r.tryStart

/-- How many values stand on the stack when the handler is entered. -/
def entryDepth (r : Region) : Nat :=
  match r.kind with
  | .catching _ => 1
  | .finalizing => 0

end Region

/-- A label that two positions carry. -/
structure DuplicateLabel where
  label : Label
  first : Nat
  second : Nat
  deriving DecidableEq

/-- The wording of a duplicate label. -/
def DuplicateLabel.message (d : DuplicateLabel) : String :=
  "label " ++ d.label.display ++ " attached twice (at " ++ toString d.first ++ " and " ++
    toString d.second ++ ")"

namespace Code

/-- Every attached label with its position, in the order of the code. -/
def attached (code : List Instruction) : List (Label × Nat) :=
  code.zipIdx.flatMap fun (ins, i) => ins.labels.map fun l => (l, i)

/-- The first position that carries a label. -/
def position? (code : List Instruction) (l : Label) : Option Nat :=
  code.findIdx? fun ins => ins.labels.contains l

/-- The first label in a list that occurred before, `seen` being those already passed. -/
def repeatIn (seen : List (Label × Nat)) : List (Label × Nat) → Option DuplicateLabel
  | [] => none
  | (l, i) :: rest =>
      match seen.lookup l with
      | some first => some ⟨l, first, i⟩
      | none => repeatIn ((l, i) :: seen) rest

/-- The first label that is attached a second time. -/
def duplicate? (code : List Instruction) : Option DuplicateLabel :=
  repeatIn [] (attached code)

/-- The labels that operands name, with the positions of the instructions. -/
def referenced (code : List Instruction) : List (Nat × Label) :=
  code.zipIdx.filterMap fun (ins, i) => ins.target?.map fun l => (i, l)

/-- The labels that an instruction carries, and the one that its operand names. -/
def mentioned (ins : Instruction) : List Label :=
  ins.labels ++ ins.target?.toList

/-- The greatest number behind that of a label attached or named in a list of instructions.  The
    number behind the last one is zero. -/
def labelBound : List Instruction → UInt32
  | [] => 0
  | ins :: rest => (mentioned ins).foldl (fun bound l => max bound (l.raw + 1)) (labelBound rest)

/-- Whether a label with the last number is attached or named. -/
def mentionsLast (code : List Instruction) : Bool :=
  code.any fun ins => (mentioned ins).any fun l => l.raw + 1 == 0

end Code

/-- What a build of the program does when the count of labels leaves its range: a checked build
    stops, another one starts over from zero. -/
inductive Overflow where
  | stops
  | wraps
  deriving DecidableEq

/-- The compiled body of one method.  `nextLabel` is the number of the next fresh label. -/
structure Body where
  method : MethodId
  code : List Instruction
  locals : List TypeId
  regions : List Region
  nextLabel : UInt32
  deriving DecidableEq

namespace Body

/-- How many local slots a body can have. -/
def slotLimit : Nat := UInt16.size

/-- The body without instructions. -/
def empty (method : MethodId) : Body :=
  ⟨method, [], [], [], 0⟩

/-- A body whose fresh labels lie above every label in use, as long as none has the last number. -/
def ofParts (method : MethodId) (code : List Instruction) (locals : List TypeId)
    (regions : List Region) : Body :=
  ⟨method, code, locals, regions, Code.labelBound code⟩

/-- The body of some parts, if the build gets past their labels. -/
def ofParts? (overflow : Overflow) (method : MethodId) (code : List Instruction)
    (locals : List TypeId) (regions : List Region) : Option Body :=
  if overflow = .stops ∧ Code.mentionsLast code then none
  else some (ofParts method code locals regions)

/-- The number of instructions. -/
def size (b : Body) : Nat :=
  b.code.length

/-- The next label of this body, and the body that has handed it out. -/
def freshLabel (b : Body) : Label × Body :=
  (⟨b.nextLabel⟩, { b with nextLabel := b.nextLabel + 1 })

/-- The next label, if the build gets past it. -/
def freshLabel? (overflow : Overflow) (b : Body) : Option (Label × Body) :=
  if overflow = .stops ∧ b.nextLabel + 1 = 0 then none else some b.freshLabel

/-- Adds a local slot and gives its index; fails when every index is taken. -/
def declareLocal? (b : Body) (type : TypeId) : Option (UInt16 × Body) :=
  if b.locals.length < slotLimit then
    some (UInt16.ofNat b.locals.length, { b with locals := b.locals ++ [type] })
  else none

/-- The message of a body that has no slot left. -/
def noSlotMessage (b : Body) : String :=
  "method body already declares " ++ toString b.locals.length ++ " locals"

/-- The position that a label resolves to. -/
def position? (b : Body) (l : Label) : Option Nat :=
  Code.position? b.code l

/-- The position that the operand of an instruction resolves to. -/
def targetOf? (b : Body) (ins : Instruction) : Option Nat :=
  ins.target?.bind b.position?

end Body

end HookSplice
