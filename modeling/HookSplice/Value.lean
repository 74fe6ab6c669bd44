import HookSplice.Text.Inspect

/-!
# Values

What stands on the operand stack of a host method, in its locals, and in the fields of events.
-/

namespace HookSplice

/-- Handle of an object on the heap. -/
structure ObjectId where
  index : Nat
  deriving DecidableEq

/-- The inspected form of an object handle. -/
def ObjectId.inspect (id : ObjectId) : String :=
  "ObjectId(" ++ toString id.index ++ ")"

/-- A value of the host machine. -/
inductive Value where
  | null
  | int (n : Int64)
  | text (s : String)
  | object (id : ObjectId)
  deriving DecidableEq

namespace Value

/-- What a conditional branch takes for true: anything but null, zero and the empty text. -/
def isTruthy : Value → Bool
  | null => false
  | int n => n != 0
  | text s => !s.isEmpty
  | object _ => true

/-- The number, when the value is one. -/
def int? : Value → Option Int64
  | int n => some n
  | _ => none

/-- The object, when the value is a reference. -/
def object? : Value → Option ObjectId
  | object id => some id
  | _ => none

/-- The number that stands for a truth value. -/
def ofBool (b : Bool) : Value :=
  int (if b then 1 else 0)

/-- How messages show a value. -/
def display : Value → String
  | null => "null"
  | int n => toString n.toInt
  | text s => Text.inspect s
  | object id => "obj#" ++ toString id.index

/-- The inspected form of a value, with the name of its kind. -/
def inspect : Value → String
  | null => "Null"
  | int n => "Int(" ++ toString n.toInt ++ ")"
  | text s => "Str(" ++ Text.inspect s ++ ")"
  | object id => "Ref(" ++ id.inspect ++ ")"

end Value

end HookSplice
