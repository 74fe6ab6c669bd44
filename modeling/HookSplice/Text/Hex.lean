import HookSplice.Text.Inspect
import HookSplice.Text.Numeral

/-!
# Bytes in hexadecimal

Two digits a byte.  Reading accepts digits of either case and says where a text stops being a
list of bytes.
-/

namespace HookSplice.Text.Hex

/-- Why a text is no list of bytes. -/
inductive Fault where
  /-- The number of characters is odd. -/
  | oddLength
  /-- A character is no hexadecimal digit; `position` counts bytes of the text. -/
  | badDigit (found : Char) (position : Nat)
  deriving DecidableEq

/-- How a character is shown between single quotes: by itself, or escaped as in an inspected
    text, with the single quote escaped in place of the double quote. -/
def showChar (c : Char) : String :=
  if c == '"' then "\"" else if c == '\'' then "\\'" else inspectChar c

/-- The wording of a fault. -/
def Fault.message : Fault → String
  | .oddLength => "Odd number of digits"
  | .badDigit found position =>
      "Invalid character '" ++ showChar found ++ "' at position " ++ toString position

/-- The two digits of a byte. -/
def encodeByte (b : UInt8) : List Char :=
  [Nat.digitChar (b.toNat / 16), Nat.digitChar (b.toNat % 16)]

/-- The digits of a list of bytes. -/
def encode (bytes : List UInt8) : String :=
  String.ofList (bytes.flatMap encodeByte)

/-- Reads the bytes of a text that is cut into its UTF-8 bytes; `position` counts those before. -/
def decodeFrom (position : Nat) : List UInt8 → Except Fault (List UInt8)
  | high :: low :: rest =>
      match digitValue? 16 (Char.ofNat high.toNat), digitValue? 16 (Char.ofNat low.toNat) with
      | some h, some l => do
          let bytes ← decodeFrom (position + 2) rest
          return UInt8.ofNat (h * 16 + l) :: bytes
      | none, _ => .error (.badDigit (Char.ofNat high.toNat) position)
      | some _, none => .error (.badDigit (Char.ofNat low.toNat) (position + 1))
  | _ => .ok []

/-- The bytes that a text denotes.  The length is checked first, and counts UTF-8 bytes. -/
def decode (text : String) : Except Fault (List UInt8) :=
  let bytes := text.toUTF8.data.toList
  if bytes.length % 2 = 1 then .error .oddLength else decodeFrom 0 bytes

end HookSplice.Text.Hex
