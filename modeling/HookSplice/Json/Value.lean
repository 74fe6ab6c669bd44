/-!
# JSON values

Values as a JSON text denotes them: members keep their order, and a key may occur twice.  A string
literal with an unpaired surrogate escape is well-formed but denotes no text; it reads as `none`.
Of numbers only integers of up to 64 bits are kept apart, since no other number is ever accepted.
-/

namespace HookSplice

/-- A JSON value. -/
inductive Json where
  | null
  | bool (b : Bool)
  | integer (n : Int)
  /-- A number with a fraction or an exponent, minus zero, or an integer beyond 64 bits. -/
  | real
  | text (s : Option String)
  | array (items : List Json)
  | object (members : List (Option String × Json))

namespace Json

/-- The string value of a text. -/
def str (s : String) : Json := text (some s)

/-- The integer value of a natural number. -/
def nat (n : Nat) : Json := integer n

/-- The value of a number that may be missing. -/
def ofNat? : Option Nat → Json
  | some n => nat n
  | none => null

/-- The value of a text that may be missing. -/
def ofText? : Option String → Json
  | some s => str s
  | none => null

/-- The object with the given members. -/
def obj (members : List (String × Json)) : Json :=
  object (members.map fun (key, value) => (some key, value))

/-- The value of the first member with a key. -/
def member? (key : String) : Json → Option Json
  | object members => members.lookup (some key)
  | _ => none

end Json

end HookSplice
