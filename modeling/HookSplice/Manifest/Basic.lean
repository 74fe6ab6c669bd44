import HookSplice.EventGate

/-!
# Hook manifests

A manifest lists event hooks by the names of symbols, so that they can be written without code.
Resolving it against a host gives one descriptor per hook and declares the event contract.
-/

namespace HookSplice

open Event (PayloadKind PayloadField)

/-- A pattern for one instruction with symbols by name; at most one operand may be present. -/
structure InstructionSpec where
  opcode : Option Opcode
  int : Option Int64
  text : Option String
  arg : Option UInt16
  slot : Option UInt16
  field : Option String
  method : Option String
  type : Option String
  deriving DecidableEq

/-- The pattern without any constraint. -/
def InstructionSpec.empty : InstructionSpec :=
  ⟨none, none, none, none, none, none, none, none⟩

/-- An anchor: one pattern per consecutive instruction, an occurrence and an offset. -/
structure AnchorSpec where
  patterns : List InstructionSpec
  occurrence : Occurrence
  offset : Int64
  deriving DecidableEq

/-- A captured value with fields by name. -/
inductive CaptureSpec where
  | arg (i : UInt16)
  | slot (i : UInt16)
  | int (n : Int64)
  | text (s : String)
  | null
  | argField (i : UInt16) (field : String)
  | slotField (i : UInt16) (field : String)
  | staticField (field : String)
  deriving DecidableEq

/-- Where control goes on denial. -/
inductive DenySpec where
  | returning (v : ReturnValue)
  | anchor (a : AnchorSpec)
  deriving DecidableEq

/-- The event that a hook raises. -/
structure EventSpec where
  kind : PayloadKind
  captures : List CaptureSpec
  readBack : List (PayloadField × Slot)
  deny : DenySpec
  deriving DecidableEq

/-- One hook of a manifest; the target is the identity of a method. -/
structure HookSpec where
  name : String
  target : String
  fingerprint : Option Fingerprint
  anchor : AnchorSpec
  event : EventSpec
  deriving DecidableEq

/-- A manifest. -/
structure Manifest where
  config : InstallConfig
  hooks : List HookSpec
  deriving DecidableEq

/-- The fault of a name that does not resolve: what it should name, and the name. -/
def unknownFault (what name : String) : String :=
  "unknown " ++ what ++ " \x60" ++ name ++ "\x60"

/-- Looks a name up, if there is one. -/
def lookUp {α : Type} (what : String) (find? : String → Option α) :
    Option String → Except String (Option α)
  | none => .ok none
  | some name =>
      match find? name with
      | some a => .ok (some a)
      | none => .error (unknownFault what name)

namespace InstructionSpec

/-- The pattern over the symbols of a host. -/
def resolve (s : SymbolTable) (spec : InstructionSpec) : Except String Pattern := do
  let field ← lookUp "field" s.fieldId? spec.field
  let method ← lookUp "method" s.methodId? spec.method
  let type ← lookUp "type" s.typeId? spec.type
  let operands : List Operand :=
    (spec.int.map Operand.int).toList ++ (spec.text.map Operand.text).toList ++
    (spec.arg.map Operand.arg).toList ++ (spec.slot.map Operand.slot).toList ++
    (field.map Operand.field).toList ++ (method.map Operand.method).toList ++
    (type.map Operand.type).toList
  if 1 < operands.length then throw "instruction pattern names more than one operand"
  else return ⟨spec.opcode, operands.head?⟩

end InstructionSpec

namespace AnchorSpec

/-- The anchor over the symbols of a host. -/
def resolve (s : SymbolTable) (spec : AnchorSpec) : Except String Anchor := do
  if spec.patterns.isEmpty then throw "anchor matches no instructions"
  else
    let patterns ← spec.patterns.mapM (InstructionSpec.resolve s)
    let matcher : Matcher :=
      match patterns with
      | [single] => .instruction single
      | _ => .sequence patterns
    return ⟨matcher, spec.occurrence, spec.offset⟩

end AnchorSpec

namespace CaptureSpec

/-- The field of a capture. -/
def fieldIn (s : SymbolTable) (path : String) : Except String FieldId :=
  match s.fieldId? path with
  | some id => .ok id
  | none => .error (unknownFault "field" path)

/-- The capture over the symbols of a host. -/
def resolve (s : SymbolTable) : CaptureSpec → Except String Capture
  | arg i => .ok (.arg i)
  | slot i => .ok (.slot i)
  | int n => .ok (.int n)
  | text t => .ok (.text t)
  | null => .ok .null
  | argField i path => (fieldIn s path).map (.argField i)
  | slotField i path => (fieldIn s path).map (.slotField i)
  | staticField path => (fieldIn s path).map .staticField

end CaptureSpec

/-- The deny target over the symbols of a host. -/
def DenySpec.resolve (s : SymbolTable) : DenySpec → Except String DenyTarget
  | returning v => .ok (.returning v)
  | anchor a => (a.resolve s).map .anchor

namespace HookSpec

/-- The target, the anchor and the gate of a hook over the symbols of a host. -/
def parts (s : SymbolTable) (h : HookSpec) : Except String (MethodId × Anchor × EventGate) := do
  match s.methodId? h.target with
  | none => throw (unknownFault "target method" h.target)
  | some target =>
      let anchor ← h.anchor.resolve s
      let captures ← h.event.captures.mapM (CaptureSpec.resolve s)
      let deny ← h.event.deny.resolve s
      return (target, anchor, ⟨h.name, h.event.kind, captures, h.event.readBack, deny⟩)

/-- The descriptor of a hook; declares the event contract. -/
def resolve (h : HookSpec) : Declaring PatchError Descriptor := do
  match h.parts (← get) with
  | .error fault => throw (.manifest h.name fault)
  | .ok (target, anchor, gate) =>
      let template ← gate.build
      return ⟨h.name, target, anchor, template, h.fingerprint⟩

end HookSpec

/-- One descriptor per hook, in the order of the manifest. -/
def Manifest.resolve (m : Manifest) : Declaring PatchError (List Descriptor) :=
  m.hooks.mapM HookSpec.resolve

end HookSplice
