import HookSplice.Event.Format
import HookSplice.Json.Printer
import HookSplice.Json.Reader
import HookSplice.Manifest.Basic
import HookSplice.Template.Format

/-!
# The JSON format of manifests

How the parts of a manifest are written as JSON values, and how they are found in one.  Fields that
have a default may be missing.  A key that is no field of its record is refused, except in the
configuration and in captures of instance fields, where it is ignored.
-/

namespace HookSplice

open Event (PayloadKind PayloadField)

namespace InstallConfig

/-- The fields of a configuration. -/
def fieldNames : List String := ["verify_bodies", "require_fingerprints", "max_stack"]

/-- A configuration as JSON. -/
def toJson (c : InstallConfig) : Json :=
  .obj [("verify_bodies", .bool c.verifyBodies),
    ("require_fingerprints", .bool c.requireFingerprints), ("max_stack", .nat c.maxStack.toNat)]

/-- The configuration in a JSON value; every field has a default. -/
def ofJson? (j : Json) : Option InstallConfig := do
  match ← j.record? false fieldNames with
  | [verify, require, limit] =>
      return {
        verifyBodies := ← Json.orElse? default.verifyBodies Json.bool? verify
        requireFingerprints := ← Json.orElse? default.requireFingerprints Json.bool? require
        maxStack := ← Json.orElse? default.maxStack Json.uint32? limit }
  | _ => none

end InstallConfig

namespace InstructionSpec

/-- The fields of a pattern. -/
def fieldNames : List String :=
  ["opcode", "int", "str", "arg", "local", "field", "method", "type"]

/-- The member for a part that may be missing. -/
def member {α : Type} (key : String) (encode : α → Json) : Option α → List (String × Json)
  | some a => [(key, encode a)]
  | none => []

/-- A pattern as JSON. -/
def toJson (s : InstructionSpec) : Json :=
  .obj (member "opcode" (fun op => .str op.mnemonic) s.opcode ++
    member "int" (fun n => .integer n.toInt) s.int ++ member "str" .str s.text ++
    member "arg" (fun i => .nat i.toNat) s.arg ++ member "local" (fun i => .nat i.toNat) s.slot ++
    member "field" .str s.field ++ member "method" .str s.method ++ member "type" .str s.type)

/-- A part of a pattern: missing and null mean the same. -/
def part? {α : Type} (decode : Json → Option α) : Option Json → Option (Option α) :=
  Json.orElse? none (Json.optional? decode)

/-- The pattern in a JSON value. -/
def ofJson? (j : Json) : Option InstructionSpec := do
  match ← j.record? true fieldNames with
  | [opcode, int, text, arg, slot, field, method, type] =>
      return {
        opcode := ← part? Opcode.ofJson? opcode
        int := ← part? Json.int64? int
        text := ← part? Json.text? text
        arg := ← part? Json.uint16? arg
        slot := ← part? Json.uint16? slot
        field := ← part? Json.text? field
        method := ← part? Json.text? method
        type := ← part? Json.text? type }
  | _ => none

end InstructionSpec

namespace AnchorSpec

/-- The fields of an anchor. -/
def fieldNames : List String := ["match", "occurrence", "offset"]

/-- An anchor as JSON. -/
def toJson (a : AnchorSpec) : Json :=
  .obj [("match", .array (a.patterns.map InstructionSpec.toJson)),
    ("occurrence", a.occurrence.toJson), ("offset", .integer a.offset.toInt)]

/-- The anchor in a JSON value. -/
def ofJson? (j : Json) : Option AnchorSpec := do
  match ← j.record? true fieldNames with
  | [patterns, occurrence, offset] =>
      return {
        patterns := ← Json.required? (Json.list? InstructionSpec.ofJson?) patterns
        occurrence := ← Json.orElse? .only Occurrence.ofJson? occurrence
        offset := ← Json.orElse? 0 Json.int64? offset }
  | _ => none

end AnchorSpec

namespace CaptureSpec

/-- A capture of an instance field as JSON: the index under the given key, and the field. -/
def fieldJson (key : String) (i : UInt16) (field : String) : Json :=
  .obj [(key, .nat i.toNat), ("field", .str field)]

/-- A capture as JSON. -/
def toJson : CaptureSpec → Json
  | arg i => .obj [("arg", .nat i.toNat)]
  | slot i => .obj [("local", .nat i.toNat)]
  | int n => .obj [("int", .integer n.toInt)]
  | text s => .obj [("str", .str s)]
  | null => .str "null"
  | argField i field => .obj [("arg_field", fieldJson "arg" i field)]
  | slotField i field => .obj [("local_field", fieldJson "local" i field)]
  | staticField field => .obj [("static_field", .str field)]

/-- The index and the field of a capture of an instance field. -/
def fieldOfJson? (key : String) (j : Json) : Option (UInt16 × String) := do
  match ← j.record? false [key, "field"] with
  | [i, field] => return (← Json.required? Json.uint16? i, ← Json.required? Json.text? field)
  | _ => none

/-- The capture in a JSON value. -/
def ofJson? (j : Json) : Option CaptureSpec :=
  match j.variant? with
  | some ("arg", some v) => v.uint16?.map arg
  | some ("local", some v) => v.uint16?.map slot
  | some ("int", some v) => v.int64?.map int
  | some ("str", some v) => v.text?.map text
  | some ("arg_field", some v) => (fieldOfJson? "arg" v).map fun (i, field) => argField i field
  | some ("local_field", some v) => (fieldOfJson? "local" v).map fun (i, field) => slotField i field
  | some ("static_field", some v) => v.text?.map staticField
  | _ => if j.unit? = some "null" then some null else none

end CaptureSpec

namespace Slot

/-- A slot as JSON. -/
def toJson : Slot → Json
  | arg i => .obj [("arg", .nat i.toNat)]
  | slot i => .obj [("local", .nat i.toNat)]

/-- The slot in a JSON value. -/
def ofJson? (j : Json) : Option Slot :=
  match j.variant? with
  | some ("arg", some v) => v.uint16?.map arg
  | some ("local", some v) => v.uint16?.map slot
  | _ => none

end Slot

namespace DenySpec

/-- A deny target as JSON. -/
def toJson : DenySpec → Json
  | returning v => .obj [("return", v.toJson)]
  | anchor a => .obj [("anchor", a.toJson)]

/-- The deny target in a JSON value. -/
def ofJson? (j : Json) : Option DenySpec :=
  match j.variant? with
  | some ("return", some v) => (ReturnValue.ofJson? v).map returning
  | some ("anchor", some v) => (AnchorSpec.ofJson? v).map anchor
  | _ => none

end DenySpec

namespace EventSpec

/-- The fields of an event. -/
def fieldNames : List String := ["kind", "captures", "read_back", "deny"]

/-- A field that is read back, as JSON. -/
def readBackJson : PayloadField × Slot → Json
  | (field, slot) => .obj [("field", .str field.jsonName), ("into", slot.toJson)]

/-- The field that is read back in a JSON value. -/
def readBackOfJson? (j : Json) : Option (PayloadField × Slot) := do
  match ← j.record? true ["field", "into"] with
  | [field, slot] =>
      return (← Json.required? PayloadField.ofJson? field, ← Json.required? Slot.ofJson? slot)
  | _ => none

/-- An event as JSON. -/
def toJson (e : EventSpec) : Json :=
  .obj ([("kind", .str e.kind.display), ("captures", .array (e.captures.map CaptureSpec.toJson))] ++
    (if e.readBack.isEmpty then [] else [("read_back", .array (e.readBack.map readBackJson))]) ++
    [("deny", e.deny.toJson)])

/-- The event in a JSON value. -/
def ofJson? (j : Json) : Option EventSpec := do
  match ← j.record? true fieldNames with
  | [kind, captures, readBack, deny] =>
      return {
        kind := ← Json.required? PayloadKind.ofJson? kind
        captures := ← Json.required? (Json.list? CaptureSpec.ofJson?) captures
        readBack := ← Json.orElse? [] (Json.list? readBackOfJson?) readBack
        deny := ← Json.orElse? (.returning .void) DenySpec.ofJson? deny }
  | _ => none

end EventSpec

namespace HookSpec

/-- The fields of a hook. -/
def fieldNames : List String := ["name", "target", "fingerprint", "anchor", "event"]

/-- The fingerprint in a JSON value. -/
def fingerprintOfJson? (j : Json) : Option Fingerprint :=
  j.text?.bind fun text => (Fingerprint.parse text).toOption

/-- A hook as JSON. -/
def toJson (h : HookSpec) : Json :=
  .obj ([("name", .str h.name), ("target", .str h.target)] ++
    InstructionSpec.member "fingerprint" (fun f => .str f.display) h.fingerprint ++
    [("anchor", h.anchor.toJson), ("event", h.event.toJson)])

/-- The hook in a JSON value. -/
def ofJson? (j : Json) : Option HookSpec := do
  match ← j.record? true fieldNames with
  | [name, target, fingerprint, anchor, event] =>
      return {
        name := ← Json.required? Json.text? name
        target := ← Json.required? Json.text? target
        fingerprint := ← InstructionSpec.part? fingerprintOfJson? fingerprint
        anchor := ← Json.required? AnchorSpec.ofJson? anchor
        event := ← Json.required? EventSpec.ofJson? event }
  | _ => none

end HookSpec

namespace Manifest

/-- The fields of a manifest. -/
def fieldNames : List String := ["config", "hooks"]

/-- A manifest as JSON. -/
def toJson (m : Manifest) : Json :=
  .obj [("config", m.config.toJson), ("hooks", .array (m.hooks.map HookSpec.toJson))]

/-- The manifest in a JSON value. -/
def ofJson? (j : Json) : Option Manifest := do
  match ← j.record? true fieldNames with
  | [config, hooks] =>
      return {
        config := ← Json.orElse? .default InstallConfig.ofJson? config
        hooks := ← Json.required? (Json.list? HookSpec.ofJson?) hooks }
  | _ => none

/-- The text of a manifest. -/
def print (m : Manifest) : String :=
  m.toJson.pretty

/-- Reads a manifest. -/
def parse? (text : String) : Option Manifest :=
  (Json.parse? text).bind ofJson?

end Manifest

/-- The record of an applied hook as JSON. -/
def AppliedPatch.toJson (a : AppliedPatch) : Json :=
  .obj [("hook", .str a.hook), ("method", .str a.method), ("anchor", .nat a.point),
    ("matches", .array (a.found.map .nat)), ("inserted", .nat a.inserted),
    ("rehomed_labels", .nat a.rehomedLabels), ("deny_position", .nat a.denyPosition),
    ("fingerprint_before", .str a.fingerprintBefore.display),
    ("fingerprint_after", .str a.fingerprintAfter.display)]

/-- An install report as JSON. -/
def InstallReport.toJson (r : InstallReport) : Json :=
  .obj [("applied", .array (r.applied.map AppliedPatch.toJson))]

/-- A descriptor that failed, as JSON. -/
def InstallError.toJson (e : InstallError) : Json :=
  .obj [("hook", .str e.hook), ("method", .str e.method), ("error", .str e.fault.tag),
    ("message", .str e.fault.message)]

end HookSplice
