import HookSplice.Text.Blank

/-!
# Symbols

The types, fields and methods that a host image names.  A handle is a position in one of the three
arenas of the symbol table; two operands name the same member exactly when their handles are equal.
The table only grows: declaring a member again gives its old handle, or fails when the shapes
differ.
-/

namespace HookSplice

/-- Handle of a type. -/
structure TypeId where
  index : Nat
  deriving DecidableEq

/-- Handle of a field. -/
structure FieldId where
  index : Nat
  deriving DecidableEq

/-- Handle of a method. -/
structure MethodId where
  index : Nat
  deriving DecidableEq

/-- The inspected form of a method handle. -/
def MethodId.inspect (id : MethodId) : String :=
  "MethodId(" ++ toString id.index ++ ")"

/-- A field of a host type. -/
structure FieldDef where
  owner : TypeId
  name : String
  type : TypeId
  isStatic : Bool
  deriving DecidableEq

/-- The signature of a method; `ret` is absent when it returns nothing. -/
structure MethodDef where
  owner : TypeId
  name : String
  params : List TypeId
  ret : Option TypeId
  isStatic : Bool
  deriving DecidableEq

/-- How many arguments a call passes: the parameters, and the receiver of an instance method. -/
def MethodDef.argCount (m : MethodDef) : Nat :=
  m.params.length + if m.isStatic then 0 else 1

/-- Constructors are the methods named `.ctor`. -/
def MethodDef.isConstructor (m : MethodDef) : Bool :=
  m.name == ".ctor"

/-- A declared method, with the key it is found by: its identity without blanks between the
    parameters, as the types were named when it was declared. -/
structure MethodEntry where
  signature : MethodDef
  key : String
  deriving DecidableEq

/-- The arenas of types, fields and methods. -/
structure SymbolTable where
  typeNames : List String
  fields : List FieldDef
  methods : List MethodEntry
  deriving DecidableEq

/-- Why a symbol cannot be declared or does not resolve. -/
inductive SymbolError where
  /-- The owner has a field of that name with another type or staticness. -/
  | fieldConflict (owner name : String)
  /-- A method with that key returns something else or differs in staticness. -/
  | methodConflict (key : String)
  | unknownType (id : TypeId)
  | unknownField (id : FieldId)
  | unknownMethod (id : MethodId)
  /-- No symbol is spelled like that. -/
  | unknownName (spelling : String)
  deriving DecidableEq

/-- The wording of a symbol error. -/
def SymbolError.message : SymbolError → String
  | fieldConflict owner name =>
      "symbol conflict: field " ++ owner ++ "::" ++ name ++ " redeclared with a different shape"
  | methodConflict key =>
      "symbol conflict: method " ++ key ++ " redeclared with a different shape"
  | unknownType id => "unknown symbol: type #" ++ toString id.index
  | unknownField id => "unknown symbol: field #" ++ toString id.index
  | unknownMethod id => "unknown symbol: method #" ++ toString id.index
  | unknownName spelling => "unknown symbol: " ++ spelling

/-- The tag by which reports tell symbol errors apart. -/
def SymbolError.tag : SymbolError → String
  | fieldConflict .. | methodConflict .. => "SymbolConflict"
  | _ => "UnknownSymbol"

namespace SymbolTable

/-- The table without symbols. -/
def empty : SymbolTable := ⟨[], [], []⟩

/-- The handle of a type. -/
def typeId? (s : SymbolTable) (name : String) : Option TypeId :=
  (s.typeNames.findIdx? (· == name)).map TypeId.mk

/-- The name of a type, or a stand-in for a handle of another table. -/
def typeName (s : SymbolTable) (id : TypeId) : String :=
  (s.typeNames[id.index]?).getD "<unknown type>"

/-- Whether a handle names a type of this table. -/
def hasType (s : SymbolTable) (id : TypeId) : Bool :=
  id.index < s.typeNames.length

/-- The handle of a type, which is added when it is new. -/
def internType (s : SymbolTable) (name : String) : TypeId × SymbolTable :=
  match s.typeId? name with
  | some id => (id, s)
  | none => (⟨s.typeNames.length⟩, { s with typeNames := s.typeNames ++ [name] })

/-- Adds types from left to right and gives their handles. -/
def internTypes (s : SymbolTable) : List String → List TypeId × SymbolTable
  | [] => ([], s)
  | name :: rest =>
      let (id, s) := s.internType name
      let (ids, s) := s.internTypes rest
      (id :: ids, s)

/-- The definition of a field. -/
def field? (s : SymbolTable) (id : FieldId) : Option FieldDef :=
  s.fields[id.index]?

/-- The fields declared on a type, in the order of their declaration. -/
def fieldsOf (s : SymbolTable) (owner : TypeId) : List FieldId :=
  (s.fields.zipIdx.filter fun (f, _) => f.owner == owner).map fun (_, i) => ⟨i⟩

/-- The handle of the field of a type. -/
def fieldOf? (s : SymbolTable) (owner : TypeId) (name : String) : Option FieldId :=
  (s.fields.findIdx? fun f => f.owner == owner && f.name == name).map FieldId.mk

/-- The handle of the field spelled `Owner::Name`, blanks around both parts aside. -/
def fieldId? (s : SymbolTable) (path : String) : Option FieldId :=
  match Text.splitLastColons (Text.trim path.toList) with
  | none => none
  | some (owner, name) =>
      match s.typeId? (String.ofList (Text.trim owner)) with
      | none => none
      | some owner => s.fieldOf? owner (String.ofList (Text.trim name))

/-- The `Owner::Name` spelling of a field. -/
def fieldName (s : SymbolTable) (id : FieldId) : String :=
  match s.field? id with
  | some f => s.typeName f.owner ++ "::" ++ f.name
  | none => "<unknown field #" ++ toString id.index ++ ">"

/-- Declares a field.  The same field again gives its handle. -/
def declareField (s : SymbolTable) (field : FieldDef) :
    Except SymbolError (FieldId × SymbolTable) :=
  match s.fieldOf? field.owner field.name with
  | some id =>
      if s.field? id = some field then .ok (id, s)
      else .error (.fieldConflict (s.typeName field.owner) field.name)
  | none =>
      if s.hasType field.owner then
        .ok (⟨s.fields.length⟩, { s with fields := s.fields ++ [field] })
      else .error (.unknownType field.owner)

/-- `Owner::Name(P1<separator>P2)`. -/
def identity (s : SymbolTable) (separator : String) (m : MethodDef) : String :=
  s.typeName m.owner ++ "::" ++ m.name ++ "(" ++
    String.intercalate separator (m.params.map s.typeName) ++ ")"

/-- The signature of a method. -/
def method? (s : SymbolTable) (id : MethodId) : Option MethodDef :=
  (s.methods[id.index]?).map MethodEntry.signature

/-- The method found by a key. -/
def methodOfKey? (s : SymbolTable) (key : String) : Option MethodId :=
  (s.methods.findIdx? fun m => m.key == key).map MethodId.mk

/-- The method with an identity such as `Owner::Name(P1, P2)`; blanks are ignored. -/
def methodId? (s : SymbolTable) (spelling : String) : Option MethodId :=
  s.methodOfKey? (String.ofList (spelling.toList.filter fun c => !Text.isBlank c))

/-- The identity `Owner::Name(P1, P2)` of a method. -/
def methodName (s : SymbolTable) (id : MethodId) : String :=
  match s.method? id with
  | some m => s.identity ", " m
  | none => "<unknown method #" ++ toString id.index ++ ">"

/-- Declares a method.  The same signature again gives its handle. -/
def declareMethod (s : SymbolTable) (m : MethodDef) :
    Except SymbolError (MethodId × SymbolTable) :=
  if s.hasType m.owner then
    let key := s.identity "," m
    match s.methodOfKey? key with
    | some id =>
        match s.method? id with
        | some old =>
            if old.ret = m.ret ∧ old.isStatic = m.isStatic then .ok (id, s)
            else .error (.methodConflict key)
        | none => .error (.methodConflict key)
    | none => .ok (⟨s.methods.length⟩, { s with methods := s.methods ++ [⟨m, key⟩] })
  else .error (.unknownType m.owner)

/-- `[static] <ret> Owner::Name(P1, P2)`, the header of a method in a host image. -/
def signature (s : SymbolTable) (id : MethodId) : String :=
  match s.method? id with
  | none => s.methodName id
  | some m =>
      (if m.isStatic then "static " else "") ++ (m.ret.map s.typeName).getD "void" ++ " " ++
        s.methodName id

/-- The handles of all methods, in the order of their declaration. -/
def methodIds (s : SymbolTable) : List MethodId :=
  (List.range s.methods.length).map MethodId.mk

/-- The handles of all types, in the order of their first mention. -/
def typeIds (s : SymbolTable) : List TypeId :=
  (List.range s.typeNames.length).map TypeId.mk

end SymbolTable

/-- Steps that may extend a symbol table and may fail; what was declared before a failure
    stays. -/
abbrev Declaring (ε : Type) := ExceptT ε (StateM SymbolTable)

namespace Declaring

variable {ε α : Type}

/-- Adds a type. -/
def type (name : String) : Declaring ε TypeId := do
  let (id, s) := (← get).internType name
  set s
  return id

/-- Adds types from left to right. -/
def types (names : List String) : Declaring ε (List TypeId) := do
  let (ids, s) := (← get).internTypes names
  set s
  return ids

/-- Takes over the table of a declaration that succeeds. -/
def lift (wrap : SymbolError → ε)
    (declare : SymbolTable → Except SymbolError (α × SymbolTable)) : Declaring ε α := do
  match declare (← get) with
  | .ok (a, s) => set s; return a
  | .error e => throw (wrap e)

/-- What a step gives, and the table after it. -/
def runOn (step : Declaring ε α) (s : SymbolTable) : Except ε α × SymbolTable :=
  (step.run).run s

end Declaring

end HookSplice
