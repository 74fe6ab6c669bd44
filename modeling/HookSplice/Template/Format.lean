import HookSplice.Body.Format
import HookSplice.Event.Format
import HookSplice.EventGate
import HookSplice.Image.Printer

/-!
# The JSON format of templates

How anchors, templates, event gates and descriptors are found in JSON values, and how templates and
descriptors are shown as JSON: instructions as in an image, anchors as in messages.
-/

namespace HookSplice

open Event (PayloadKind PayloadField)

namespace Occurrence

/-- An occurrence as JSON. -/
def toJson : Occurrence → Json
  | only => .str "only"
  | first => .str "first"
  | last => .str "last"
  | nth n => .obj [("nth", .nat n.toNat)]

/-- The occurrence in a JSON value. -/
def ofJson? (j : Json) : Option Occurrence :=
  match j.variant? with
  | some ("nth", some n) => n.uint64?.map nth
  | _ =>
      match j.unit? with
      | some "only" => some only
      | some "first" => some first
      | some "last" => some last
      | _ => none

end Occurrence

namespace ReturnValue

/-- A return value as JSON. -/
def toJson : ReturnValue → Json
  | void => .str "void"
  | null => .str "null"
  | int n => .obj [("int", .integer n.toInt)]
  | text s => .obj [("str", .str s)]
  | arg i => .obj [("arg", .nat i.toNat)]

/-- The return value in a JSON value. -/
def ofJson? (j : Json) : Option ReturnValue :=
  match j.variant? with
  | some ("int", some v) => v.int64?.map int
  | some ("str", some v) => v.text?.map text
  | some ("arg", some v) => v.uint16?.map arg
  | _ =>
      match j.unit? with
      | some "void" => some void
      | some "null" => some null
      | _ => none

end ReturnValue

/-- The pattern in a JSON value: an opcode and an operand, either of which may be missing, or an
    instruction that is matched exactly. -/
def Pattern.ofJson? (s : SymbolTable) (j : Json) : Option Pattern :=
  match j.given? "exact" with
  | some ins => (Instruction.ofJson? s ins).map exactly
  | none => do
      return {
        opcode := ← j.memberOr? none (fun v => (Opcode.ofJson? v).map some) "opcode"
        operand := ← j.memberOr? none (fun v => (Operand.ofJson? s v).map some) "operand" }

/-- The condition in a JSON value: an opcode and the least position. -/
def Matcher.conditionOfJson? (j : Json) : Option Matcher := do
  let description ← (j.member "description").text?
  let opcode ← Opcode.ofJson? (j.member "opcode")
  let least ← (j.member "min_at").natural?
  return condition description fun ins i => ins.opcode == opcode && least ≤ i

/-- The matcher in a JSON value. -/
def Matcher.ofJson? (s : SymbolTable) (j : Json) : Option Matcher :=
  match j.given? "instruction", j.given? "sequence", j.given? "when" with
  | some pattern, _, _ => (Pattern.ofJson? s pattern).map instruction
  | none, some patterns, _ => (patterns.list? (Pattern.ofJson? s)).map sequence
  | none, none, some test => conditionOfJson? test
  | none, none, none => none

/-- The anchor in a JSON value. -/
def Anchor.ofJson? (s : SymbolTable) (j : Json) : Option Anchor := do
  return {
    matcher := ← Matcher.ofJson? s j
    occurrence := ← j.memberOr? .only Occurrence.ofJson? "occurrence"
    offset := ← j.memberOr? 0 Json.int64? "offset" }

namespace DenyTarget

/-- A deny target as JSON. -/
def toJson : DenyTarget → Json
  | label l => .obj [("label", .nat l.number)]
  | anchor a => .obj [("anchor", .str a.display)]
  | returning v => .obj [("return", .str v.inspect)]

/-- The deny target in a JSON value; without one, the method returns nothing. -/
def ofJson? (s : SymbolTable) (j : Json) : Option DenyTarget :=
  match j.given? "label", j.given? "anchor", j.given? "return" with
  | some l, _, _ => (Label.ofJson? l).map label
  | none, some a, _ => (Anchor.ofJson? s a).map anchor
  | none, none, some v => (ReturnValue.ofJson? v).map returning
  | none, none, none => some (returning .void)

end DenyTarget

/-- The marker in a JSON value. -/
def Marker.ofJson? : Json → Option Marker
  | .text (some "deny") => some deny
  | j => j.natural?.map fresh

namespace Step

/-- A step as JSON. -/
def toJson (s : SymbolTable) : Step → Json
  | emit ins => .obj [("emit", .str (Image.renderInstruction s ins))]
  | loadScratch n => .obj [("load_scratch", .nat n)]
  | storeScratch n => .obj [("store_scratch", .nat n)]
  | branch op .deny => .obj [("branch", .array [.str op.mnemonic, .str "deny"])]
  | branch op (.fresh n) => .obj [("branch", .array [.str op.mnemonic, .nat n])]
  | mark n => .obj [("mark", .nat n)]

/-- The steps that a JSON value stands for. -/
def listOfJson? (s : SymbolTable) (j : Json) : Option (List Step) :=
  match j.variant? with
  | some ("emit", some v) => (Instruction.ofJson? s v).map fun ins => [emit ins]
  | some ("emit_all", some v) => (v.list? (Instruction.ofJson? s)).map fun code => code.map emit
  | some ("load_scratch", some v) => v.natural?.map fun n => [loadScratch n]
  | some ("store_scratch", some v) => v.natural?.map fun n => [storeScratch n]
  | some ("mark", some v) => v.natural?.map fun n => [mark n]
  | some ("branch", some (.array [op, marker])) => do
      return [branch (← Opcode.ofJson? op) (← Marker.ofJson? marker)]
  | some ("deny", some op) => (Opcode.ofJson? op).map fun op => [branch op .deny]
  | _ => none

end Step

namespace Template

/-- A template as JSON, with the number of its instructions. -/
def toJson (s : SymbolTable) (t : Template) : Json :=
  .obj [("steps", .array (t.steps.map (Step.toJson s))),
    ("scratch", .array (t.scratch.map fun id => .str (s.typeName id))),
    ("delta", .integer t.delta.toInt), ("count", .nat t.count), ("deny", t.deny.toJson)]

/-- The types of scratch locals in JSON values; those given by name are added. -/
def scratchOfJson? (s : SymbolTable) : List Json → Option (List TypeId × SymbolTable)
  | [] => some ([], s)
  | j :: rest => do
      let (id, s) ← match j with
        | .text (some name) => some (s.internType name)
        | _ => j.natural?.map fun n => (⟨n⟩, s)
      let (ids, s) ← scratchOfJson? s rest
      return (id :: ids, s)

/-- The template in a JSON value, and the symbols with the types of its scratch locals.  Its shape
    is not checked. -/
def ofJson? (s : SymbolTable) (j : Json) : Option (Template × SymbolTable) := do
  let (scratch, s) ← scratchOfJson? s (← j.memberOr? [] (Json.list? some) "scratch")
  let steps ← j.memberOr? [] (Json.list? (Step.listOfJson? s)) "steps"
  let delta ← j.memberOr? 0 Json.int64? "delta"
  let deny ← DenyTarget.ofJson? s (j.member "deny")
  return (⟨steps.flatten, scratch, delta, deny⟩, s)

end Template

/-- The capture in a JSON value. -/
def Capture.ofJson? (s : SymbolTable) : Json → Option Capture
  | .array [.text (some "arg"), i] => i.uint16?.map arg
  | .array [.text (some "local"), i] => i.uint16?.map slot
  | .array [.text (some "int"), n] => n.int64?.map int
  | .array [.text (some "str"), t] => t.text?.map text
  | .array [.text (some "null")] => some null
  | .array [.text (some "arg_field"), i, f] => do
      return argField (← i.uint16?) (← s.fieldOfJson? f)
  | .array [.text (some "local_field"), i, f] => do
      return slotField (← i.uint16?) (← s.fieldOfJson? f)
  | .array [.text (some "static_field"), f] => (s.fieldOfJson? f).map staticField
  | _ => none

namespace EventGate

/-- The field that is read back, and the slot it goes to, in a JSON value. -/
def readBackOfJson? : Json → Option (PayloadField × Slot)
  | .array [f, .text (some "arg"), i] => do
      return (← PayloadField.ofJson? f, .arg (← i.uint16?))
  | .array [f, .text (some "local"), i] => do
      return (← PayloadField.ofJson? f, .slot (← i.uint16?))
  | _ => none

/-- The event gate in a JSON value. -/
def ofJson? (s : SymbolTable) (j : Json) : Option EventGate := do
  return {
    hook := ← (j.member "hook").text?
    kind := ← PayloadKind.ofJson? (j.member "kind")
    captures := ← j.memberOr? [] (Json.list? (Capture.ofJson? s)) "captures"
    readBack := ← j.memberOr? [] (Json.list? readBackOfJson?) "read_back"
    deny := ← DenyTarget.ofJson? s (j.member "deny") }

end EventGate

/-- What a splice did, as members of a JSON object. -/
def Spliced.members (r : Spliced) : List (String × Json) :=
  [("at", .nat r.point), ("inserted", .array [.nat r.point, .nat (r.point + r.count)]),
    ("rehomed", Label.listJson r.rehomed), ("deny_label", .nat r.denyLabel.number),
    ("deny_position", .nat r.denyPosition), ("delta", .integer r.delta), ("depth", .nat r.depth)]

/-- A descriptor as JSON. -/
def Descriptor.toJson (s : SymbolTable) (d : Descriptor) : Json :=
  .obj [("hook", .str d.hook), ("target", .str (s.methodName d.target)),
    ("anchor", .str d.anchor.display), ("template", d.template.toJson s),
    ("fingerprint", .ofText? (d.fingerprint.map Fingerprint.display))]

end HookSplice
