import HookSplice.Event.Payload
import HookSplice.Symbols

/-!
# The event contract

What a host has to declare so that inserted code can raise events: one class per payload kind with
its fields and its constructor, and the method through which events are dispatched.  Declaring the
contract twice gives the same handles.
-/

namespace HookSplice

open Event (PayloadKind PayloadField)

/-- The class of one payload kind as declared in a host; the fields are in the kind's order. -/
structure EventClass where
  kind : PayloadKind
  type : TypeId
  constructor : MethodId
  fields : List (PayloadField × FieldId)
  deriving DecidableEq

/-- The handle of a field of an event class. -/
def EventClass.field? (c : EventClass) (f : PayloadField) : Option FieldId :=
  c.fields.lookup f

/-- The contract as declared in a host: one class per payload kind, the class of the bus, and the
    dispatch method. -/
structure EventContract where
  action : EventClass
  targeted : EventClass
  amount : EventClass
  substitute : EventClass
  bus : TypeId
  dispatch : MethodId
  deriving DecidableEq

namespace EventContract

/-- The class of the bus. -/
def busName : String := "Hookwright.EventBus"

/-- The name of the dispatch method. -/
def dispatchName : String := "Dispatch"

/-- The class of a payload kind. -/
def eventClass (c : EventContract) : PayloadKind → EventClass
  | .action => c.action
  | .targeted => c.targeted
  | .amount => c.amount
  | .substitute => c.substitute

/-- All classes, in the order of the kinds. -/
def classes (c : EventContract) : List EventClass :=
  PayloadKind.all.map c.eventClass

/-- The class that a constructor belongs to. -/
def classOfConstructor? (c : EventContract) (constructor : MethodId) : Option EventClass :=
  c.classes.find? fun k => k.constructor == constructor

/-- The class that a type is. -/
def classOfType? (c : EventContract) (type : TypeId) : Option EventClass :=
  c.classes.find? fun k => k.type == type

/-- Declares a field of an event class. -/
def declareField (owner : TypeId) (f : PayloadField) :
    Declaring SymbolError (PayloadField × FieldId) := do
  let type ← Declaring.type f.typeName
  let id ← Declaring.lift id fun s => s.declareField ⟨owner, f.name, type, false⟩
  return (f, id)

/-- Declares the class of a payload kind. -/
def declareClass (kind : PayloadKind) : Declaring SymbolError EventClass := do
  let type ← Declaring.type kind.className
  let fields ← kind.fields.mapM (declareField type)
  let params ← Declaring.types (kind.constructorFields.map PayloadField.typeName)
  let constructor ← Declaring.lift id fun s =>
    s.declareMethod ⟨type, ".ctor", params, none, false⟩
  return ⟨kind, type, constructor, fields⟩

/-- Declares the contract. -/
def declare : Declaring SymbolError EventContract := do
  let string ← Declaring.type "string"
  let object ← Declaring.type "object"
  let action ← declareClass .action
  let targeted ← declareClass .targeted
  let amount ← declareClass .amount
  let substitute ← declareClass .substitute
  let bus ← Declaring.type busName
  let dispatch ← Declaring.lift id fun s =>
    s.declareMethod ⟨bus, dispatchName, [string, object], none, true⟩
  return ⟨action, targeted, amount, substitute, bus, dispatch⟩

/-- The identity of a method of a class, parameters given by the names of their types. -/
def identityOf (owner name : String) (params : List String) : String :=
  owner ++ "::" ++ name ++ "(" ++ String.intercalate "," params ++ ")"

/-- Finds a field of an event class by its spelling. -/
def resolveField? (s : SymbolTable) (kind : PayloadKind) (f : PayloadField) :
    Option (PayloadField × FieldId) :=
  (s.fieldId? (kind.className ++ "::" ++ f.name)).map fun id => (f, id)

/-- Finds the class of a payload kind. -/
def resolveClass? (s : SymbolTable) (kind : PayloadKind) : Option EventClass := do
  let type ← s.typeId? kind.className
  let constructor ← s.methodId? <|
    identityOf kind.className ".ctor" (kind.constructorFields.map PayloadField.typeName)
  let fields ← kind.fields.mapM (resolveField? s kind)
  return ⟨kind, type, constructor, fields⟩

/-- Finds a contract that has been declared before, as in an image that was patched, printed and
    read back. -/
def resolve? (s : SymbolTable) : Option EventContract := do
  let action ← resolveClass? s .action
  let targeted ← resolveClass? s .targeted
  let amount ← resolveClass? s .amount
  let substitute ← resolveClass? s .substitute
  let bus ← s.typeId? busName
  let dispatch ← s.methodId? (identityOf busName dispatchName ["string", "object"])
  return ⟨action, targeted, amount, substitute, bus, dispatch⟩

end EventContract

end HookSplice
