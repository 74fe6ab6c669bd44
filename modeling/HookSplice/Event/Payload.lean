import HookSplice.Value

/-!
# Event payloads

Every hook carries a payload from a closed set of shapes.  All of them have a subject and a flag
that starts out as allowed and that subscribers may clear; some have a field more.
-/

namespace HookSplice.Event

/-- What became of an event. -/
inductive Verdict where
  | allowed
  | denied
  deriving DecidableEq

/-- The verdict that the flag of a payload stands for. -/
def Verdict.ofAllowed (allowed : Bool) : Verdict :=
  if allowed then .allowed else .denied

/-- How a verdict is written. -/
def Verdict.display : Verdict → String
  | allowed => "allowed"
  | denied => "denied"

/-- The shapes of payloads. -/
inductive PayloadKind where
  /-- The subject attempts an action. -/
  | action
  /-- The subject acts on a target. -/
  | targeted
  /-- The subject acts with an amount that subscribers may change. -/
  | amount
  /-- The subject produces a value that subscribers may replace. -/
  | substitute
  deriving DecidableEq

/-- The fields that payloads can have. -/
inductive PayloadField where
  | subject
  | target
  | amount
  | value
  | allowed
  deriving DecidableEq

namespace PayloadField

/-- Every field. -/
def all : List PayloadField := [.subject, .target, .amount, .value, .allowed]

/-- The name of a field in the host class. -/
def name : PayloadField → String
  | subject => "Subject"
  | target => "Target"
  | amount => "Amount"
  | value => "Value"
  | allowed => "Allowed"

/-- The host type of a field. -/
def typeName : PayloadField → String
  | amount => "int"
  | allowed => "bool"
  | _ => "object"

/-- Whether subscribers may write a field. -/
def isMutable : PayloadField → Bool
  | amount | value | allowed => true
  | _ => false

/-- The field with a name. -/
def ofName? (name : String) : Option PayloadField :=
  all.find? fun f => f.name == name

end PayloadField

namespace PayloadKind

/-- Every kind. -/
def all : List PayloadKind := [.action, .targeted, .amount, .substitute]

/-- The fields that the constructor of a kind takes, in order. -/
def constructorFields : PayloadKind → List PayloadField
  | action => [.subject]
  | targeted => [.subject, .target]
  | amount => [.subject, .amount]
  | substitute => [.subject, .value]

/-- All fields of a kind in order; the flag is the last one. -/
def fields (k : PayloadKind) : List PayloadField :=
  k.constructorFields ++ [.allowed]

/-- Whether a kind has a field. -/
def hasField (k : PayloadKind) (f : PayloadField) : Bool :=
  k.fields.contains f

/-- The host class of a kind. -/
def className : PayloadKind → String
  | action => "Hookwright.Events.ActionEvent"
  | targeted => "Hookwright.Events.TargetedEvent"
  | amount => "Hookwright.Events.AmountEvent"
  | substitute => "Hookwright.Events.SubstituteEvent"

/-- The kind whose host class has a name. -/
def ofClassName? (name : String) : Option PayloadKind :=
  all.find? fun k => k.className == name

/-- How a kind is written. -/
def display : PayloadKind → String
  | action => "action"
  | targeted => "targeted"
  | amount => "amount"
  | substitute => "substitute"

end PayloadKind

/-- Why a payload cannot be built or changed. -/
inductive PayloadError where
  | noSuchField (kind : PayloadKind) (field : PayloadField)
  | readOnlyField (kind : PayloadKind) (field : PayloadField)
  /-- A field that holds a number was given something else. -/
  | notANumber (field : PayloadField) (found : Value)
  | arity (kind : PayloadKind) (expected found : Nat)
  deriving DecidableEq

/-- The wording of a payload error. -/
def PayloadError.message : PayloadError → String
  | noSuchField kind field => kind.display ++ " payloads have no " ++ field.name ++ " field"
  | readOnlyField kind field => field.name ++ " is read-only on " ++ kind.display ++ " payloads"
  | notANumber field found => field.name ++ " expects int, got " ++ found.display
  | arity kind expected found =>
      kind.display ++ " payloads take " ++ toString expected ++ " constructor values, got " ++
        toString found

/-- The tag by which reports tell payload errors apart. -/
def PayloadError.tag : PayloadError → String
  | noSuchField .. => "NoSuchField"
  | readOnlyField .. => "ReadOnlyField"
  | notANumber .. => "FieldType"
  | arity .. => "Arity"

/-- The payload of one event. -/
inductive Payload where
  | action (subject : Value) (allowed : Bool)
  | targeted (subject target : Value) (allowed : Bool)
  | amount (subject : Value) (amount : Int64) (allowed : Bool)
  | substitute (subject value : Value) (allowed : Bool)
  deriving DecidableEq

namespace Payload

/-- The number in a value that is written to a field. -/
def numberFor (field : PayloadField) (v : Value) : Except PayloadError Int64 :=
  match v with
  | .int n => .ok n
  | _ => .error (.notANumber field v)

/-- Builds a payload of a kind from the values of its constructor fields; it starts out
    allowed. -/
def ofValues (kind : PayloadKind) (values : List Value) : Except PayloadError Payload :=
  match kind, values with
  | .action, [s] => .ok (action s true)
  | .targeted, [s, t] => .ok (targeted s t true)
  | .amount, [s, v] => (numberFor .amount v).map fun n => amount s n true
  | .substitute, [s, v] => .ok (substitute s v true)
  | _, _ => .error (.arity kind kind.constructorFields.length values.length)

/-- The kind of a payload. -/
def kind : Payload → PayloadKind
  | action .. => .action
  | targeted .. => .targeted
  | amount .. => .amount
  | substitute .. => .substitute

/-- The subject of a payload. -/
def subject : Payload → Value
  | action s _ => s
  | targeted s _ _ => s
  | amount s _ _ => s
  | substitute s _ _ => s

/-- Whether the event is still allowed. -/
def isAllowed : Payload → Bool
  | action _ a => a
  | targeted _ _ a => a
  | amount _ _ a => a
  | substitute _ _ a => a

/-- The payload with its flag set. -/
def setAllowed (allowed : Bool) : Payload → Payload
  | action s _ => action s allowed
  | targeted s t _ => targeted s t allowed
  | amount s n _ => amount s n allowed
  | substitute s v _ => substitute s v allowed

/-- The payload with its flag cleared. -/
def deny (p : Payload) : Payload :=
  p.setAllowed false

/-- The verdict that the flag stands for. -/
def verdict (p : Payload) : Verdict :=
  .ofAllowed p.isAllowed

/-- The value of a field, if payloads of this kind have it. -/
def field? (p : Payload) : PayloadField → Option Value
  | .allowed => some (.ofBool p.isAllowed)
  | .subject => some p.subject
  | .target =>
      match p with
      | targeted _ t _ => some t
      | _ => none
  | .amount =>
      match p with
      | amount _ n _ => some (.int n)
      | _ => none
  | .value =>
      match p with
      | substitute _ v _ => some v
      | _ => none

/-- The amount, if payloads of this kind have one. -/
def amount? : Payload → Option Int64
  | amount _ n _ => some n
  | _ => none

/-- The payload with a field written, if the field exists, may be written, and takes the value. -/
def setField (p : Payload) (field : PayloadField) (v : Value) : Except PayloadError Payload :=
  if !p.kind.hasField field then .error (.noSuchField p.kind field)
  else if !field.isMutable then .error (.readOnlyField p.kind field)
  else
    match field, p with
    | .allowed, p => (numberFor .allowed v).map fun n => p.setAllowed (n != 0)
    | .amount, amount s _ a => (numberFor .amount v).map fun n => amount s n a
    | .value, substitute s _ a => .ok (substitute s v a)
    | _, _ => .error (.noSuchField p.kind field)

/-- The values of all fields, in the order of the kind's fields. -/
def values (p : Payload) : List Value :=
  p.kind.fields.filterMap p.field?

end Payload

end HookSplice.Event
