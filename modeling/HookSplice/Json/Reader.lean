import HookSplice.Json.Value
import HookSplice.Text.Numeral

/-!
# Reading JSON

Reads a text as one JSON value.  The grammar is the strict one: no comments, no trailing commas, no
leading zeros, and only blanks around the value.
-/

namespace HookSplice.Json

/-- The blanks between the tokens of a JSON text. -/
def isBlank (c : Char) : Bool :=
  c == ' ' || c == '\n' || c == '\t' || c == '\r'

/-- The text behind its leading blanks. -/
def skip (cs : List Char) : List Char :=
  cs.dropWhile isBlank

/-- The number that four hexadecimal digits denote. -/
def codeUnit? (a b c d : Char) : Option Nat :=
  Text.digits? 16 [a, b, c, d]

/-- Whether a code unit is the first half of a surrogate pair. -/
def isHigh (unit : Nat) : Bool :=
  0xD800 ≤ unit && unit < 0xDC00

/-- Whether a code unit is the second half of a surrogate pair. -/
def isLow (unit : Nat) : Bool :=
  0xDC00 ≤ unit && unit < 0xE000

/-- The character of a surrogate pair. -/
def pairChar (high low : Nat) : Char :=
  Char.ofNat (0x10000 + (high - 0xD800) * 0x400 + (low - 0xDC00))

/-- The character that a backslash and `c` stand for. -/
def unescape? : Char → Option Char
  | '"' => some '"'
  | '\\' => some '\\'
  | '/' => some '/'
  | 'b' => some '\x08'
  | 'f' => some '\x0c'
  | 'n' => some '\n'
  | 'r' => some '\r'
  | 't' => some '\t'
  | _ => none

/-- A part of a string literal: a character, or one half of a surrogate pair. -/
inductive Piece where
  | char (c : Char)
  | half (unit : Nat)
  deriving DecidableEq

/-- The part that a code unit is. -/
def Piece.ofUnit (unit : Nat) : Piece :=
  if isHigh unit || isLow unit then half unit else char (Char.ofNat unit)

/-- The text that parts denote: none if a half of a surrogate pair stands alone. -/
def joinPieces : List Piece → Option (List Char)
  | [] => some []
  | .char c :: rest => (joinPieces rest).map (c :: ·)
  | .half high :: .half low :: rest =>
      if isHigh high && isLow low then (joinPieces rest).map (pairChar high low :: ·) else none
  | .half _ :: _ => none

/-- The parts of a literal with one more in front, and the text behind the literal. -/
def prepend (piece : Piece) : List Piece × List Char → List Piece × List Char
  | (pieces, rest) => (piece :: pieces, rest)

/-- Reads a string literal from behind its opening quote. -/
def readPieces : List Char → Option (List Piece × List Char)
  | [] => none
  | '"' :: rest => some ([], rest)
  | '\\' :: 'u' :: a :: b :: c :: d :: rest =>
      match codeUnit? a b c d with
      | some unit => (readPieces rest).map (prepend (.ofUnit unit))
      | none => none
  | '\\' :: c :: rest =>
      match unescape? c with
      | some u => (readPieces rest).map (prepend (.char u))
      | none => none
  | c :: rest =>
      if c.toNat < 0x20 || c == '\\' then none else (readPieces rest).map (prepend (.char c))

/-- Reads a string literal from behind its opening quote, and gives the text that it denotes. -/
def readText (cs : List Char) : Option (Option String × List Char) :=
  (readPieces cs).map fun (pieces, rest) => ((joinPieces pieces).map String.ofList, rest)

/-- Digits at the front of a text, at least one, and the text behind them. -/
def readDigits (cs : List Char) : Option (List Char × List Char) :=
  match cs.takeWhile Char.isDigit with
  | [] => none
  | digits => some (digits, cs.dropWhile Char.isDigit)

/-- The text behind an optional fraction, and whether there was one. -/
def skipFraction : List Char → Option (Bool × List Char)
  | '.' :: rest => (readDigits rest).map fun (_, rest) => (true, rest)
  | rest => some (false, rest)

/-- The text behind an optional exponent, and whether there was one. -/
def skipExponent : List Char → Option (Bool × List Char)
  | 'e' :: rest | 'E' :: rest =>
      let unsigned := match rest with
        | '+' :: rest => rest
        | '-' :: rest => rest
        | rest => rest
      (readDigits unsigned).map fun (_, rest) => (true, rest)
  | rest => some (false, rest)

/-- The value of an integer literal: of up to 64 bits, and not minus zero. -/
def ofInteger (negative : Bool) (magnitude : Nat) : Json :=
  if negative then
    if magnitude = 0 ∨ Int64.minValue.toInt.natAbs < magnitude then real
    else integer (-(magnitude : Int))
  else if UInt64.size ≤ magnitude then real
  else integer magnitude

/-- Reads a number from behind its sign. -/
def readNumber (negative : Bool) (cs : List Char) : Option (Json × List Char) := do
  let (digits, rest) ← readDigits cs
  if digits.head? = some '0' ∧ digits.length ≠ 1 then none
  else
    let (hasFraction, rest) ← skipFraction rest
    let (hasExponent, rest) ← skipExponent rest
    if hasFraction || hasExponent then return (real, rest)
    else return (ofInteger negative (← Text.digits? 10 digits), rest)

mutual

/-- Reads a value.  `fuel` bounds the number of nested calls. -/
def readValue : Nat → List Char → Option (Json × List Char)
  | 0, _ => none
  | fuel + 1, cs =>
      match skip cs with
      | 'n' :: 'u' :: 'l' :: 'l' :: rest => some (null, rest)
      | 't' :: 'r' :: 'u' :: 'e' :: rest => some (bool true, rest)
      | 'f' :: 'a' :: 'l' :: 's' :: 'e' :: rest => some (bool false, rest)
      | '"' :: rest => (readText rest).map fun (content, rest) => (text content, rest)
      | '[' :: rest =>
          match skip rest with
          | ']' :: rest => some (array [], rest)
          | rest => (readItems fuel rest).map fun (items, rest) => (array items, rest)
      | '\x7b' :: rest =>
          match skip rest with
          | '\x7d' :: rest => some (object [], rest)
          | rest => (readMembers fuel rest).map fun (members, rest) => (object members, rest)
      | '-' :: rest => readNumber true rest
      | rest => readNumber false rest

/-- Reads the items of an array up to its closing bracket. -/
def readItems : Nat → List Char → Option (List Json × List Char)
  | 0, _ => none
  | fuel + 1, cs =>
      match readValue fuel cs with
      | none => none
      | some (item, rest) =>
          match skip rest with
          | ']' :: rest => some ([item], rest)
          | ',' :: rest => (readItems fuel rest).map fun (items, rest) => (item :: items, rest)
          | _ => none

/-- Reads the members of an object up to its closing brace. -/
def readMembers : Nat → List Char → Option (List (Option String × Json) × List Char)
  | 0, _ => none
  | fuel + 1, cs =>
      match skip cs with
      | '"' :: rest =>
          match readText rest with
          | none => none
          | some (content, rest) =>
              match skip rest with
              | ':' :: rest =>
                  match readValue fuel rest with
                  | none => none
                  | some (value, rest) =>
                      let entry := (content, value)
                      match skip rest with
                      | '\x7d' :: rest => some ([entry], rest)
                      | ',' :: rest =>
                          (readMembers fuel rest).map fun (members, rest) =>
                            (entry :: members, rest)
                      | _ => none
              | _ => none
      | _ => none

end

/-- Reads a text that consists of one value and blanks around it. -/
def parse? (source : String) : Option Json :=
  let cs := source.toList
  match readValue (2 * cs.length + 3) cs with
  | some (value, rest) => if (skip rest).isEmpty then some value else none
  | none => none

end HookSplice.Json
