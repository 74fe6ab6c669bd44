import HookSplice.Text.Numbered

/-!
# Inspected texts

The form in which diagnostics show a text: between double quotes, with short escapes for the usual
control characters, and with the code point in place of every character that would not show up on
its own.
-/

namespace HookSplice.Text

/-- The digits of `n` in lower-case hexadecimal, at least one. -/
def hexDigits (n : Nat) : String :=
  String.ofList (Nat.toDigits 16 n)

/-- One character of an inspected text. -/
def inspectChar (c : Char) : String :=
  if c == '\x00' then "\\0"
  else if c == '\t' then "\\t"
  else if c == '\r' then "\\r"
  else if c == '\n' then "\\n"
  else if c == '\\' then "\\\\"
  else if c == '"' then "\\\""
  else if isNumbered c then "\\u\x7b" ++ hexDigits c.toNat ++ "\x7d"
  else c.toString

/-- The inspected form of a text. -/
def inspect (text : String) : String :=
  "\"" ++ String.join (text.toList.map inspectChar) ++ "\""

end HookSplice.Text
