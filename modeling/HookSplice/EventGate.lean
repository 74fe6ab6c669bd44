import HookSplice.EventContract
import HookSplice.Install

/-!
# Event gates

Templates that raise a cancellable event: they load the captured values, construct the event, hand
it to the bus, store the fields that are to be read back, and branch to the deny target when the
event has been denied.  A gate leaves the stack as it found it.
-/

namespace HookSplice

open Event (PayloadKind PayloadField)

/-- A live value that is passed to the constructor of the event. -/
inductive Capture where
  | arg (i : UInt16)
  | slot (i : UInt16)
  | int (n : Int64)
  | text (s : String)
  | null
  /-- An instance field of an argument. -/
  | argField (i : UInt16) (field : FieldId)
  /-- An instance field of a local. -/
  | slotField (i : UInt16) (field : FieldId)
  | staticField (field : FieldId)
  deriving DecidableEq

/-- The instructions that load a captured value. -/
def Capture.load : Capture → List Instruction
  | arg i => [.of .ldarg (.arg i)]
  | slot i => [.of .ldloc (.slot i)]
  | int n => [.of .ldc (.int n)]
  | text s => [.of .ldstr (.text s)]
  | null => [.plain .ldnull]
  | argField i field => [.of .ldarg (.arg i), .of .ldfld (.field field)]
  | slotField i field => [.of .ldloc (.slot i), .of .ldfld (.field field)]
  | staticField field => [.of .ldsfld (.field field)]

/-- Where the value of a field is stored after dispatch. -/
inductive Slot where
  | arg (i : UInt16)
  | slot (i : UInt16)
  deriving DecidableEq

/-- The instruction that stores into a slot. -/
def Slot.store : Slot → Instruction
  | arg i => .of .starg (.arg i)
  | slot i => .of .stloc (.slot i)

/-- Why a descriptor cannot be made or registered, or a manifest not be resolved. -/
inductive PatchError where
  | splice (e : SpliceError)
  | symbol (e : SymbolError)
  | duplicateHook (hook : String)
  | registryFrozen (hook : String)
  /-- An entry of a manifest does not resolve against the host. -/
  | manifest (hook : String) (fault : String)

/-- The wording of a patch error. -/
def PatchError.message : PatchError → String
  | splice e => e.message
  | symbol e => e.message
  | duplicateHook hook => "hook \x60" ++ hook ++ "\x60 is already registered"
  | registryFrozen hook =>
      "patch registry is frozen; \x60" ++ hook ++ "\x60 was registered after installation"
  | manifest hook fault => "manifest hook \x60" ++ hook ++ "\x60: " ++ fault

/-- The tag by which reports tell patch errors apart; that of a cause follows a point. -/
def PatchError.tag : PatchError → String
  | splice e => "Splice." ++ e.tag
  | symbol e => e.tag
  | duplicateHook .. => "DuplicateHook"
  | registryFrozen .. => "RegistryFrozen"
  | manifest .. => "Manifest"

/-- An event gate: the hook, the kind of its payload, the captured values, the fields to be read
    back, and the deny target. -/
structure EventGate where
  hook : String
  kind : PayloadKind
  captures : List Capture
  readBack : List (PayloadField × Slot)
  deny : DenyTarget

namespace EventGate

/-- Steps that emit instructions. -/
def emitAll (code : List Instruction) : List Step :=
  code.map Step.emit

/-- The steps that store a field of the event into a slot. -/
def readBackSteps (kind : PayloadKind) (c : EventClass) (field : PayloadField) (slot : Slot) :
    Except TemplateFault (List Step) :=
  match c.field? field with
  | none => .error (.noEventField kind.display field.name)
  | some id => .ok [.loadScratch 0, .emit (.of .ldfld (.field id)), .emit slot.store]

/-- The template of a gate over a declared contract, before it is checked. -/
def templateOver (g : EventGate) (contract : EventContract) : Except TemplateFault Template := do
  let c := contract.eventClass g.kind
  match c.field? .allowed with
  | none => throw .noAllowedField
  | some allowed =>
      let readBack ← g.readBack.mapM fun (field, slot) => readBackSteps g.kind c field slot
      return {
        steps :=
          emitAll (g.captures.flatMap Capture.load) ++
          [.emit (.of .newobj (.method c.constructor)), .storeScratch 0,
           .emit (.of .ldstr (.text g.hook)), .loadScratch 0,
           .emit (.of .call (.method contract.dispatch))] ++
          readBack.flatten ++
          [.loadScratch 0, .emit (.of .ldfld (.field allowed)), .branch .brfalse .deny]
        scratch := [c.type]
        delta := 0
        deny := g.deny }

/-- Checks the shape of a template. -/
def checked (t : Template) : Except TemplateFault Template :=
  match t.fault? with
  | some fault => .error fault
  | none => .ok t

/-- Declares the event contract and builds the template of a gate. -/
def build (g : EventGate) : Declaring PatchError Template := do
  let expected := g.kind.constructorFields.length
  if g.captures.length ≠ expected then
    throw (.splice (.malformedTemplate
      (.captureCount g.kind.display expected g.captures.length)))
  else
    let contract ← ExceptT.adapt PatchError.symbol EventContract.declare
    match g.templateOver contract >>= checked with
    | .ok t => return t
    | .error fault => throw (.splice (.malformedTemplate fault))

end EventGate

end HookSplice
