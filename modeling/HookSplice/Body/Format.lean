import HookSplice.Body
import HookSplice.Symbols.Format

/-!
# The JSON format of code

How instructions, regions and bodies are written as JSON values, and how they are found in one.
-/

namespace HookSplice

/-- The opcode in a JSON value. -/
def Opcode.ofJson? (j : Json) : Option Opcode :=
  j.unit?.bind Opcode.ofName?

/-- What is known of an opcode, as JSON. -/
def Opcode.toJson (op : Opcode) : Json :=
  .obj [("mnemonic", .str op.mnemonic), ("operand", .str op.operandKind.name),
    ("flow", .str op.flow.name), ("terminator", .bool op.isTerminator),
    ("conditional", .bool op.isConditionalBranch), ("branch", .bool op.isBranch)]

/-- The label in a JSON value. -/
def Label.ofJson? (j : Json) : Option Label :=
  j.uint32?.map Label.mk

/-- Labels as JSON. -/
def Label.listJson (labels : List Label) : Json :=
  .array (labels.map fun l => .nat l.number)

namespace Operand

/-- An operand as JSON. -/
def toJson : Operand → Json
  | none => .str "none"
  | int n => .obj [("int", .integer n.toInt)]
  | text s => .obj [("str", .str s)]
  | arg i => .obj [("arg", .nat i.toNat)]
  | slot i => .obj [("local", .nat i.toNat)]
  | label l => .obj [("label", .nat l.number)]
  | field id => .obj [("field", .nat id.index)]
  | method id => .obj [("method", .nat id.index)]
  | type id => .obj [("type", .nat id.index)]

/-- The operand in a JSON value; null stands for none. -/
def ofJson? (s : SymbolTable) (j : Json) : Option Operand :=
  match j.variant? with
  | some ("int", some v) => v.int64?.map int
  | some ("str", some v) => v.text?.map text
  | some ("arg", some v) => v.uint16?.map arg
  | some ("local", some v) => v.uint16?.map slot
  | some ("label", some v) => (Label.ofJson? v).map label
  | some ("field", some v) => (s.fieldOfJson? v).map field
  | some ("method", some v) => (s.methodOfJson? v).map method
  | some ("type", some v) => (s.typeOfJson? v).map type
  | _ =>
      match j, j.unit? with
      | .null, _ => some none
      | _, some "none" => some none
      | _, _ => Option.none

end Operand

namespace Instruction

/-- An instruction as JSON; labels are left out if there are none. -/
def toJson (ins : Instruction) : Json :=
  .obj ([("opcode", .str ins.opcode.mnemonic), ("operand", ins.operand.toJson)] ++
    if ins.labels.isEmpty then [] else [("labels", Label.listJson ins.labels)])

/-- The instruction in a JSON value. -/
def ofJson? (s : SymbolTable) (j : Json) : Option Instruction := do
  return {
    opcode := ← Opcode.ofJson? (j.member "opcode")
    operand := ← Operand.ofJson? s (j.member "operand")
    labels := ← j.memberOr? [] (Json.list? Label.ofJson?) "labels" }

end Instruction

namespace Region

/-- A region as JSON. -/
def toJson (r : Region) : Json :=
  let kind := match r.kind with
    | .catching type => Json.obj [("Catch", .nat type.index)]
    | .finalizing => .str "Finally"
  .obj [("kind", kind), ("try_start", .nat r.tryStart), ("try_end", .nat r.tryEnd),
    ("handler_start", .nat r.handlerStart), ("handler_end", .nat r.handlerEnd)]

/-- The ranges of a region as JSON, and for each of some positions whether it is protected and
    whether it lies in the handler. -/
def rangesJson (r : Region) (positions : List Nat) : Json :=
  .obj [("protected", .array [.nat r.tryStart, .nat r.tryEnd]),
    ("handler", .array [.nat r.handlerStart, .nat r.handlerEnd]), ("span", .nat r.span),
    ("probe", .array (positions.map fun i =>
      .array [.bool (r.protects i), .bool (r.handles i)]))]

/-- The kind of a handler in a JSON value. -/
def kindOfJson? (s : SymbolTable) (j : Json) : Option HandlerKind :=
  match j.variant? with
  | some ("Catch", some v) => (s.typeOfJson? v).map .catching
  | some ("Finally", _) => some .finalizing
  | _ => none

/-- The region in a JSON value. -/
def ofJson? (s : SymbolTable) (j : Json) : Option Region := do
  return {
    kind := ← kindOfJson? s (j.member "kind")
    tryStart := ← (j.member "try_start").natural?
    tryEnd := ← (j.member "try_end").natural?
    handlerStart := ← (j.member "handler_start").natural?
    handlerEnd := ← (j.member "handler_end").natural? }

end Region

namespace Body

/-- A body as JSON. -/
def toJson (b : Body) : Json :=
  .obj [("method", .nat b.method.index), ("instructions", .array (b.code.map Instruction.toJson)),
    ("locals", .array (b.locals.map fun t => .nat t.index)),
    ("regions", .array (b.regions.map Region.toJson)), ("next_label", .nat b.nextLabel.toNat)]

/-- The body that the parts in a JSON value make up; all but the method may be missing. -/
def ofJson? (s : SymbolTable) (j : Json) : Option Body := do
  let method ← s.methodOfJson? (j.member "method")
  let code ← j.memberOr? [] (Json.list? (Instruction.ofJson? s)) "instructions"
  let locals ← j.memberOr? [] (Json.list? s.typeOfJson?) "locals"
  let regions ← j.memberOr? [] (Json.list? (Region.ofJson? s)) "regions"
  return ofParts method code locals regions

end Body

end HookSplice
