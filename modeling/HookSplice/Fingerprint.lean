import HookSplice.Digest
import HookSplice.Image.Printer
import HookSplice.Text.Blank
import HookSplice.Text.Hex

/-!
# Fingerprints

The fingerprint of a body is the SHA3-256 digest of its canonical text.  Descriptors pin the body
they were written for with one.
-/

namespace HookSplice

/-- A digest of 32 bytes. -/
structure Fingerprint where
  bytes : List UInt8
  size_eq : bytes.length = 32
  deriving DecidableEq

namespace Fingerprint

/-- Why a text is no fingerprint. -/
inductive Fault where
  | badHex (cause : Text.Hex.Fault)
  | badSize (found : Nat)
  deriving DecidableEq

/-- The wording of a fault. -/
def Fault.message : Fault → String
  | badHex cause => "invalid fingerprint: " ++ cause.message
  | badSize found => "fingerprint must be 32 bytes, got " ++ toString found

/-- The fingerprint with the given bytes. -/
def ofBytes (bytes : List UInt8) : Except Fault Fingerprint :=
  if h : bytes.length = 32 then .ok ⟨bytes, h⟩ else .error (.badSize bytes.length)

/-- The text without the `0x` in front of it, however often that is repeated. -/
def stripMark : List Char → List Char
  | '0' :: 'x' :: rest => stripMark rest
  | text => text

/-- Reads a fingerprint; blanks around it and a `0x` in front are optional. -/
def parse (text : String) : Except Fault Fingerprint :=
  match Text.Hex.decode (String.ofList (stripMark (Text.trim text.toList))) with
  | .ok bytes => ofBytes bytes
  | .error cause => .error (.badHex cause)

/-- The text of a fingerprint. -/
def display (f : Fingerprint) : String :=
  "0x" ++ Text.Hex.encode f.bytes

theorem sha3_length (message : List UInt8) : (Digest.sha3 message).length = 32 := by
  simp only [Digest.sha3, Digest.toBytes, List.length_flatMap, List.length_map, List.length_range]
  rfl

/-- The fingerprint of a body. -/
def ofBody (symbols : SymbolTable) (body : Body) : Fingerprint :=
  ⟨Digest.sha3 (Image.printBody symbols body).toUTF8.data.toList, sha3_length _⟩

end Fingerprint

end HookSplice
