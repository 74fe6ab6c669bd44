import HookSplice.Json.Value

/-!
# Printing JSON

The text of a value, on one line or with one member to a line.  Characters outside of ASCII stand
for themselves; control characters are escaped.
-/

namespace HookSplice.Json

/-- The four hexadecimal digits of a number below 2 ^ 16. -/
def fourDigits (n : Nat) : List Char :=
  [Nat.digitChar (n / 4096 % 16), Nat.digitChar (n / 256 % 16), Nat.digitChar (n / 16 % 16),
   Nat.digitChar (n % 16)]

/-- The characters that stand for `c` in a string literal. -/
def escapeChar (c : Char) : List Char :=
  if c = '"' then ['\\', '"']
  else if c = '\\' then ['\\', '\\']
  else if c = '\n' then ['\\', 'n']
  else if c = '\r' then ['\\', 'r']
  else if c = '\t' then ['\\', 't']
  else if c = '\x08' then ['\\', 'b']
  else if c = '\x0c' then ['\\', 'f']
  else if c.toNat < 0x20 then '\\' :: 'u' :: fourDigits c.toNat
  else [c]

/-- The literal of a text; one that denotes no text is an unpaired surrogate. -/
def literal : Option String → String
  | none => "\"\\ud800\""
  | some s => String.ofList ('"' :: (s.toList.flatMap escapeChar ++ ['"']))

/-- The number zero stands for every number that is not kept apart. -/
def realText : String := "0.0"

mutual

/-- The text of a value on one line. -/
def compact : Json → String
  | null => "null"
  | bool b => if b then "true" else "false"
  | integer n => toString n
  | real => realText
  | text s => literal s
  | array items => "[" ++ String.intercalate "," (compactItems items) ++ "]"
  | object members => "\x7b" ++ String.intercalate "," (compactMembers members) ++ "\x7d"

/-- The texts of the items of an array. -/
def compactItems : List Json → List String
  | [] => []
  | item :: rest => compact item :: compactItems rest

/-- The texts of the members of an object. -/
def compactMembers : List (Option String × Json) → List String
  | [] => []
  | (key, value) :: rest => (literal key ++ ":" ++ compact value) :: compactMembers rest

end

/-- A line break and the blanks in front of a line at a depth. -/
def newline (depth : Nat) : String :=
  "\n" ++ String.ofList (List.replicate (2 * depth) ' ')

/-- Brackets around lines at a depth, or with nothing between them. -/
def bracketed (opening closing : String) (depth : Nat) (lines : List String) : String :=
  match lines with
  | [] => opening ++ closing
  | _ =>
      opening ++ newline (depth + 1) ++ String.intercalate ("," ++ newline (depth + 1)) lines ++
        newline depth ++ closing

mutual

/-- The text of a value that stands at a depth, one member or item to a line. -/
def prettyAt (depth : Nat) : Json → String
  | null => "null"
  | bool b => if b then "true" else "false"
  | integer n => toString n
  | real => realText
  | text s => literal s
  | array items => bracketed "[" "]" depth (prettyItems depth items)
  | object members => bracketed "\x7b" "\x7d" depth (prettyMembers depth members)

/-- The texts of the items of an array at a depth. -/
def prettyItems (depth : Nat) : List Json → List String
  | [] => []
  | item :: rest => prettyAt (depth + 1) item :: prettyItems depth rest

/-- The texts of the members of an object at a depth. -/
def prettyMembers (depth : Nat) : List (Option String × Json) → List String
  | [] => []
  | (key, value) :: rest =>
      (literal key ++ ": " ++ prettyAt (depth + 1) value) :: prettyMembers depth rest

end

/-- The text of a value with two blanks of indentation for each level. -/
def pretty (value : Json) : String :=
  prettyAt 0 value

end HookSplice.Json
