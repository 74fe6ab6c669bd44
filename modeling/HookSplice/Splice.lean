import HookSplice.RunEffect
import HookSplice.StackMap
import HookSplice.Template

/-!
# Splicing

Inserts a template into a body.  The labels attached at the splice point move to the first inserted
instruction, so that branches to the old position run the template first.  The stack effect of the
template is checked against the depth at the splice point, that of its deny branches against the
depth at the deny target, and on request the new body is verified as a whole.
-/

namespace HookSplice

/-- Why a template cannot be spliced into a body. -/
inductive SpliceError where
  | anchorOutOfRange (point size : Nat)
  | hostUnverifiable (v : Violation)
  | unreachable (point : Nat)
  | stackImbalance (declared computed : Int)
  | stackUnderflow (point depth needs : Nat)
  | templateEffect (v : Violation)
  | denyDepth (expected : Nat) (found : Int)
  | denyEdgeMismatch (first second : Int)
  | tooManyLocals (count : Nat)
  /-- The build stops because no label number is left. -/
  | labelsExhausted
  | unknownLabel (l : Label)
  | denyBeforeAnchor (target point : Nat)
  | denyAnchor (e : AnchorError)
  | returnMismatch (v : ReturnValue)
  | openEnd
  | malformedTemplate (fault : TemplateFault)
  | unverifiable (v : Violation)
  deriving DecidableEq

/-- The wording of a splice error. -/
def SpliceError.message : SpliceError → String
  | anchorOutOfRange point size =>
      "splice point " ++ toString point ++ " is outside the body (" ++ toString size ++
        " instructions)"
  | hostUnverifiable v => "original body does not verify: " ++ v.message
  | unreachable point => "splice point " ++ toString point ++ " is unreachable"
  | stackImbalance declared computed =>
      "stack imbalance: template declares " ++ Text.withSign declared ++
        ", its instructions compute " ++ Text.withSign computed
  | stackUnderflow point depth needs =>
      "template needs " ++ toString needs ++ " operands on entry but the stack holds " ++
        toString depth ++ " at " ++ toString point
  | templateEffect v => "template instruction is invalid: " ++ v.message
  | denyDepth expected found =>
      "deny branch arrives with stack depth " ++ toString found ++ ", target expects " ++
        toString expected
  | denyEdgeMismatch first second =>
      "deny branches carry relative depths " ++ Text.withSign first ++ " and " ++
        Text.withSign second
  | tooManyLocals count =>
      "no local slot left for scratch local (" ++ toString count ++ " declared)"
  | labelsExhausted => "no label number left"
  | unknownLabel l => "deny target " ++ l.display ++ " is attached to no instruction"
  | denyBeforeAnchor target point =>
      "deny target at " ++ toString target ++ " does not follow the splice point " ++
        toString point
  | denyAnchor e => "deny target: " ++ e.message
  | returnMismatch v => "early return " ++ v.inspect ++ " does not fit the method signature"
  | openEnd => "cannot append a return stub: the body's last instruction falls through"
  | malformedTemplate fault => "malformed template: " ++ fault.message
  | unverifiable v => "rewritten body does not verify: " ++ v.message

/-- The tag by which reports tell splice errors apart; that of a cause follows a point. -/
def SpliceError.tag : SpliceError → String
  | anchorOutOfRange .. => "AnchorOutOfRange"
  | hostUnverifiable v => "OriginalUnverifiable." ++ v.tag
  | unreachable .. => "Unreachable"
  | stackImbalance .. => "StackImbalance"
  | stackUnderflow .. => "StackUnderflow"
  | templateEffect v => "TemplateEffect." ++ v.tag
  | denyDepth .. => "DenyDepth"
  | denyEdgeMismatch .. => "DenyEdgeMismatch"
  | tooManyLocals .. => "TooManyLocals"
  | labelsExhausted => "LabelsExhausted"
  | unknownLabel .. => "UnknownLabel"
  | denyBeforeAnchor .. => "DenyBeforeAnchor"
  | denyAnchor e => "DenyAnchor." ++ e.tag
  | returnMismatch .. => "ReturnMismatch"
  | openEnd => "OpenEnd"
  | malformedTemplate .. => "MalformedTemplate"
  | unverifiable v => "Unverifiable." ++ v.tag

/-- Whether the new body is verified as a whole, the limit on the stack depth, and what the build
    does when label numbers run out. -/
structure SpliceOptions where
  verify : Bool
  maxStack : Nat
  overflow : Overflow
  deriving DecidableEq

/-- Verification is on, under the default limit, and the build is a checked one. -/
def SpliceOptions.default : SpliceOptions := ⟨true, StackMap.defaultLimit, .stops⟩

/-- A new body, and what the splice did: `count` instructions were inserted at `point`, to the
    first of which the labels `rehomed` have moved. -/
structure Spliced where
  body : Body
  point : Nat
  count : Nat
  rehomed : List Label
  denyLabel : Label
  denyPosition : Nat
  delta : Int
  depth : Nat
  deriving DecidableEq

/-- Expands a template for a body, in which it declares its scratch locals and labels. -/
def Template.materialize (overflow : Overflow) (t : Template) (body : Body) (deny : Label) :
    Except SpliceError (List Instruction × Body) :=
  match declareScratch t.scratch body with
  | .error full => .error (.tooManyLocals full.locals.length)
  | .ok (slots, body) =>
      match freshLabels overflow t.steps body with
      | none => .error .labelsExhausted
      | some (labels, body) => .ok (expand slots labels deny [] t.steps, body)

namespace Splice

/-- The deny label, its position if the body before the splice has it, and the body in which the
    label is known. -/
structure DenySite where
  label : Label
  target : Option Nat
  body : Body

/-- The code with labels attached at a position. -/
def attachAt (code : List Instruction) (i : Nat) (labels : List Label) : List Instruction :=
  code.modify i fun ins => ins.attach labels

/-- Whether control can run off the end of a body. -/
def endsOpen (body : Body) : Bool :=
  body.code.getLast?.any fun ins => ins.opcode.fallsThrough

/-- Finds the deny target of a splice at a point. -/
def denySite (overflow : Overflow) (body : Body) (signature : MethodDef) (point : Nat) :
    DenyTarget → Except SpliceError DenySite
  | .label l =>
      match body.position? l with
      | none => .error (.unknownLabel l)
      | some target =>
          if target ≤ point then .error (.denyBeforeAnchor target point)
          else .ok ⟨l, some target, body⟩
  | .anchor a =>
      match a.locate body.code with
      | .error e => .error (.denyAnchor e)
      | .ok target =>
          if target ≤ point then .error (.denyBeforeAnchor target point)
          else
            match body.freshLabel? overflow with
            | none => .error .labelsExhausted
            | some (label, body) =>
                .ok ⟨label, some target, { body with code := attachAt body.code target [label] }⟩
  | .returning v =>
      if !v.fits signature then .error (.returnMismatch v)
      else if endsOpen body then .error .openEnd
      else
        match body.freshLabel? overflow with
        | none => .error .labelsExhausted
        | some (label, body) => .ok ⟨label, none, body⟩

/-- The relative depth that all branches to the deny label carry. -/
def denyDelta (run : RunEffect) (deny : Label) : Except SpliceError Int :=
  match run.exits.filter fun e => e.label == deny with
  | [] => .ok run.delta
  | first :: others =>
      match others.find? fun e => e.delta != first.delta with
      | some other => .error (.denyEdgeMismatch first.delta other.delta)
      | none => .ok first.delta

/-- A run with labels in front of those of its first instruction. -/
def withLabels (labels : List Label) : List Instruction → List Instruction
  | [] => []
  | first :: rest => { first with labels := labels ++ first.labels } :: rest

/-- The code with a run inserted at a point.  The labels of the instruction there move to the first
    inserted one. -/
def insertRun (code : List Instruction) (point : Nat) (run : List Instruction) :
    List Instruction :=
  match code.drop point with
  | [] => code.take point ++ run
  | here :: rest =>
      code.take point ++ withLabels here.labels run ++ { here with labels := [] } :: rest

/-- The labels of the instruction at a point. -/
def labelsAt (code : List Instruction) (point : Nat) : List Label :=
  (code[point]?.map Instruction.labels).getD []

/-- The stub that pops `depth` values and returns early; the deny label stands at its start. -/
def returnStub (depth : Nat) (v : ReturnValue) (deny : Label) : List Instruction :=
  withLabels [deny] (List.replicate depth (.plain .pop) ++ v.load ++ [.plain .ret])

/-- The body with a run inserted at a point and, if there is one, a stub at its end. -/
def insertInto (body : Body) (point : Nat) (run stub : List Instruction) : Body :=
  { body with
    code := insertRun body.code point run ++ stub
    regions := body.regions.map fun r => r.shiftAfter point run.length }

/-- The stub of a splice, if its deny target asks for one. -/
def stubFor (deny : DenyTarget) (depth : Nat) (delta : Int) (label : Label) : List Instruction :=
  match deny with
  | .returning v => returnStub ((depth : Int) + delta).toNat v label
  | _ => []

/-- The first deny branch that crosses the boundary of an exception region. -/
def crossing? (regions : List Region) (point : Nat) (run : RunEffect) (deny : Label)
    (denyPosition : Nat) : Option Violation :=
  (run.exits.filter fun e => e.label == deny).findSome? fun e =>
    let branch := point + e.offset
    if regions.any fun r => r.protects branch != r.protects denyPosition ||
        r.handles branch != r.handles denyPosition then
      some (.branchAcrossRegion branch denyPosition)
    else none

/-- The checks of the template's stack effect; gives the relative depth of the deny branches. -/
def checkRun (t : Template) (run : RunEffect) (point depth : Nat) (map : StackMap)
    (site : DenySite) : Except SpliceError Int := do
  if run.delta ≠ t.delta.toInt then throw (.stackImbalance t.delta.toInt run.delta)
  else if depth < run.needs then throw (.stackUnderflow point depth run.needs)
  else
    let delta ← denyDelta run site.label
    match site.target.bind map.depthAt? with
    | none => return delta
    | some expected =>
        if (depth : Int) + delta = expected then return delta
        else throw (.denyDepth expected ((depth : Int) + delta))

/-- Verifies a new body as a whole, if that is asked for. -/
def checkWhole (symbols : SymbolTable) (options : SpliceOptions) (body : Body) :
    Except SpliceError Unit :=
  if options.verify then
    match StackMap.analyze symbols body options.maxStack with
    | .error v => .error (.unverifiable v)
    | .ok _ => .ok ()
  else .ok ()

end Splice

/-- Inserts a template into a body at a point. -/
def splice (symbols : SymbolTable) (options : SpliceOptions) (body : Body) (point : Nat)
    (t : Template) : Except SpliceError Spliced := do
  match t.fault? with
  | some fault => throw (.malformedTemplate fault)
  | none =>
  if body.size ≤ point then throw (.anchorOutOfRange point body.size)
  else
  match symbols.method? body.method with
  | none => throw (.hostUnverifiable (.unknownSymbol none))
  | some signature =>
      let map ← (StackMap.analyze symbols body options.maxStack).mapError .hostUnverifiable
      match map.depthAt? point with
      | none => throw (.unreachable point)
      | some depth =>
          let site ← Splice.denySite options.overflow body signature point t.deny
          let (run, wide) ← t.materialize options.overflow site.body site.label
          let effect ← (RunEffect.ofRun symbols signature run).mapError .templateEffect
          let delta ← Splice.checkRun t effect point depth map site
          let stub := Splice.stubFor t.deny depth delta site.label
          let result := Splice.insertInto wide point run stub
          let denyPosition := match site.target with
            | some target => target + run.length
            | none => body.size + run.length
          match Splice.crossing? result.regions point effect site.label denyPosition with
          | some v => throw (.unverifiable v)
          | none =>
              Splice.checkWhole symbols options result
              return {
                body := result
                point := point
                count := run.length
                rehomed := Splice.labelsAt site.body.code point
                denyLabel := site.label
                denyPosition := denyPosition
                delta := effect.delta
                depth := depth }

end HookSplice
