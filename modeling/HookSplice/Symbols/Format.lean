import HookSplice.Json.Decode
import HookSplice.Symbols

/-!
# The JSON format of symbols

A symbol is written as the index of its handle; it is read from the index or from its name.
-/

namespace HookSplice

namespace SymbolTable

/-- The index in a JSON value: a number, or a name that is looked up. -/
def indexOfJson? (find? : String → Option Nat) : Json → Option Nat
  | .text (some name) => find? name
  | j => j.natural?

/-- The handle of a type in a JSON value. -/
def typeOfJson? (s : SymbolTable) (j : Json) : Option TypeId :=
  (indexOfJson? (fun name => (s.typeId? name).map TypeId.index) j).map TypeId.mk

/-- The handle of a field in a JSON value. -/
def fieldOfJson? (s : SymbolTable) (j : Json) : Option FieldId :=
  (indexOfJson? (fun path => (s.fieldId? path).map FieldId.index) j).map FieldId.mk

/-- The handle of a method in a JSON value. -/
def methodOfJson? (s : SymbolTable) (j : Json) : Option MethodId :=
  (indexOfJson? (fun identity => (s.methodId? identity).map MethodId.index) j).map MethodId.mk

end SymbolTable

/-- A field as JSON. -/
def FieldDef.toJson (d : FieldDef) : Json :=
  .obj [("owner", .nat d.owner.index), ("name", .str d.name), ("type", .nat d.type.index),
    ("static", .bool d.isStatic)]

/-- The signature of a method as JSON, with the number of arguments that a call passes. -/
def MethodDef.toJson (d : MethodDef) : Json :=
  .obj [("owner", .nat d.owner.index), ("name", .str d.name),
    ("params", .array (d.params.map fun t => .nat t.index)),
    ("ret", .ofNat? (d.ret.map TypeId.index)), ("static", .bool d.isStatic),
    ("args", .nat d.argCount), ("ctor", .bool d.isConstructor)]

/-- A type as JSON: its name, and for each of its fields the handle, the path, the name of its type
    and whether it is static. -/
def SymbolTable.typeJson (s : SymbolTable) (id : TypeId) : Json :=
  .array [.str (s.typeName id), .array ((s.fieldsOf id).map fun f =>
    match s.field? f with
    | some d => .array [.nat f.index, .str (s.fieldName f), .str (s.typeName d.type),
        .bool d.isStatic]
    | none => .null)]

end HookSplice
