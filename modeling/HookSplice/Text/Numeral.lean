/-!
# Numerals

Reading of integers written in decimal or hexadecimal, with an optional sign in front, and within
the range of the word that is to hold them.
-/

namespace HookSplice.Text

/-- The value of a digit in a base up to sixteen. -/
def digitValue? (base : Nat) (c : Char) : Option Nat :=
  let value? :=
    if '0' ≤ c ∧ c ≤ '9' then some (c.toNat - '0'.toNat)
    else if 'a' ≤ c ∧ c ≤ 'f' then some (c.toNat - 'a'.toNat + 10)
    else if 'A' ≤ c ∧ c ≤ 'F' then some (c.toNat - 'A'.toNat + 10)
    else none
  value?.filter (· < base)

/-- The number that a run of digits continues, `value` being the number read so far. -/
def digitsFrom? (base : Nat) (value : Nat) : List Char → Option Nat
  | [] => some value
  | c :: rest =>
      match digitValue? base c with
      | some digit => digitsFrom? base (value * base + digit) rest
      | none => none

/-- The number that a nonempty run of digits denotes. -/
def digits? (base : Nat) : List Char → Option Nat
  | [] => none
  | text => digitsFrom? base 0 text

/-- A number with an optional plus sign. -/
def unsigned? (base : Nat) : List Char → Option Nat
  | '+' :: rest => digits? base rest
  | text => digits? base text

/-- A number with an optional sign. -/
def signed? (base : Nat) : List Char → Option Int
  | '-' :: rest => (digits? base rest).map fun n => -(n : Int)
  | text => (unsigned? base text).map fun n => (n : Int)

/-- An integer of 64 bits, sign included, when `n` is one. -/
def int64OfInt? (n : Int) : Option Int64 :=
  if Int64.minValue.toInt ≤ n ∧ n ≤ Int64.maxValue.toInt then some (Int64.ofInt n) else none

/-- A signed number of 64 bits. -/
def int64? (base : Nat) (text : List Char) : Option Int64 :=
  (signed? base text).bind int64OfInt?

/-- An unsigned decimal number of 16 bits. -/
def uint16? (text : List Char) : Option UInt16 :=
  (unsigned? 10 text).bind fun n => if n < UInt16.size then some (UInt16.ofNat n) else none

/-- A number with its sign, a plus sign included. -/
def withSign (n : Int) : String :=
  if n < 0 then toString n else "+" ++ toString n

end HookSplice.Text
