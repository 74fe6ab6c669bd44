import HookSplice.Json.Value

/-!
# Decoding JSON

How values of a format are found in a JSON value.  A record is an object with its fields as keys,
none of them twice, or an array of its fields in order, of which trailing ones may be missing.  A
variant is an object with its name as the only key, or just the name if it carries nothing.
-/

namespace HookSplice.Json

variable {α : Type}

/-- The integer, if it lies between two bounds, both included. -/
def between? (least greatest : Int) : Json → Option Int
  | integer n => if least ≤ n ∧ n ≤ greatest then some n else none
  | _ => none

/-- A signed integer of 64 bits. -/
def int64? (j : Json) : Option Int64 :=
  (j.between? Int64.minValue.toInt Int64.maxValue.toInt).map Int64.ofInt

/-- An unsigned integer of 64 bits. -/
def uint64? (j : Json) : Option UInt64 :=
  (j.between? 0 (UInt64.size - 1)).map fun n => UInt64.ofNat n.toNat

/-- An unsigned integer of 32 bits. -/
def uint32? (j : Json) : Option UInt32 :=
  (j.between? 0 (UInt32.size - 1)).map fun n => UInt32.ofNat n.toNat

/-- An unsigned integer of 16 bits. -/
def uint16? (j : Json) : Option UInt16 :=
  (j.between? 0 (UInt16.size - 1)).map fun n => UInt16.ofNat n.toNat

/-- A number that is not negative. -/
def natural? : Json → Option Nat
  | integer n => if 0 ≤ n then some n.toNat else none
  | _ => none

/-- A truth value. -/
def bool? : Json → Option Bool
  | bool b => some b
  | _ => none

/-- A text. -/
def text? : Json → Option String
  | text s => s
  | _ => none

/-- A list of values. -/
def list? (decode : Json → Option α) : Json → Option (List α)
  | array items => items.mapM decode
  | _ => none

/-- An optional value; null stands for none. -/
def optional? (decode : Json → Option α) : Json → Option (Option α)
  | null => some none
  | j => (decode j).map some

/-- Whether keys fit a record: all are texts, none of the fields occurs twice, and no other key
    occurs if the record is strict. -/
def keysFit (strict : Bool) (fields : List String) : List (Option String) → Bool
  | [] => true
  | none :: _ => false
  | some key :: rest =>
      (if fields.contains key then !rest.contains (some key) else !strict) &&
        keysFit strict fields rest

/-- The values of the fields of a record, in the order of the fields; a missing one is `none`. -/
def record? (strict : Bool) (fields : List String) : Json → Option (List (Option Json))
  | array items =>
      if items.length ≤ fields.length then
        some (items.map some ++ List.replicate (fields.length - items.length) none)
      else none
  | object members =>
      if keysFit strict fields (members.map Prod.fst) then
        some (fields.map fun field => members.lookup (some field))
      else none
  | _ => none

/-- A field that has to be there. -/
def required? (decode : Json → Option α) (value : Option Json) : Option α :=
  value.bind decode

/-- A field that may be missing. -/
def orElse? (otherwise : α) (decode : Json → Option α) : Option Json → Option α
  | some j => decode j
  | none => some otherwise

/-- The name of a variant and the value that it carries. -/
def variant? : Json → Option (String × Option Json)
  | text (some name) => some (name, none)
  | object [(some name, value)] => some (name, some value)
  | _ => none

/-- The name of a variant that carries nothing. -/
def unit? (j : Json) : Option String :=
  match j.variant? with
  | some (name, none) => some name
  | some (name, some null) => some name
  | _ => none

/-- The value of a member; a missing one reads as null. -/
def member (key : String) (j : Json) : Json :=
  (j.member? key).getD null

/-- The value of a member, unless it is missing or null. -/
def given? (key : String) (j : Json) : Option Json :=
  match j.member? key with
  | some null => none
  | value => value

/-- The value that a member decodes to, or another one if the member is missing or null. -/
def memberOr? (otherwise : α) (decode : Json → Option α) (key : String) (j : Json) : Option α :=
  orElse? otherwise decode (j.given? key)

end HookSplice.Json
