import HookSplice.Fingerprint
import HookSplice.Proofs.TextCuts

/-!
# Texts of fingerprints

Bytes in hexadecimal read back as the bytes, and the text of a fingerprint as the fingerprint.
-/

namespace HookSplice

namespace Text.Hex

theorem toNat_digitChar_lt : ∀ d < 16, (Nat.digitChar d).toNat < 128 := by
  decide

theorem digitValue?_digitChar : ∀ d < 16, digitValue? 16 (Nat.digitChar d) = some d := by
  decide

theorem isBlank_digitChar : ∀ d < 16, isBlank (Nat.digitChar d) = false := by
  decide

theorem digitChar_ne_mark : ∀ d < 16, Nat.digitChar d ≠ 'x' := by
  decide

/-- The byte of a digit in a text. -/
def digitByte (d : Nat) : UInt8 :=
  UInt8.ofNat (Nat.digitChar d).toNat

theorem utf8EncodeChar_digitChar {d : Nat} (digit : d < 16) :
    String.utf8EncodeChar (Nat.digitChar d) = [digitByte d] := by
  have low : (Nat.digitChar d).val.toNat ≤ 127 := Nat.le_of_lt_succ (toNat_digitChar_lt d digit)
  simp only [String.utf8EncodeChar, low, if_true]
  rfl

theorem ofNat_digitByte {d : Nat} (digit : d < 16) :
    Char.ofNat (digitByte d).toNat = Nat.digitChar d := by
  have low := toNat_digitChar_lt d digit
  rw [digitByte, UInt8.toNat_ofNat', Nat.mod_eq_of_lt (by omega), Char.ofNat_toNat]

/-- The two digits of a byte. -/
theorem digits_lt (b : UInt8) : b.toNat / 16 < 16 ∧ b.toNat % 16 < 16 := by
  have := b.toNat_lt
  omega

theorem toUTF8_encode (bytes : List UInt8) : (encode bytes).toUTF8.data.toList =
    bytes.flatMap fun b => [digitByte (b.toNat / 16), digitByte (b.toNat % 16)] := by
  show ((bytes.flatMap encodeByte).flatMap String.utf8EncodeChar).toByteArray.data.toList = _
  rw [List.data_toByteArray, List.flatMap_assoc]
  refine congrArg (bytes.flatMap ·) (funext fun b => ?_)
  obtain ⟨high, low⟩ := digits_lt b
  simp [encodeByte, utf8EncodeChar_digitChar high, utf8EncodeChar_digitChar low]

theorem decodeFrom_digits (bytes : List UInt8) (position : Nat) : decodeFrom position
    (bytes.flatMap fun b => [digitByte (b.toNat / 16), digitByte (b.toNat % 16)]) = .ok bytes := by
  induction bytes generalizing position with
  | nil => rfl
  | cons b rest ih =>
      obtain ⟨high, low⟩ := digits_lt b
      have byte : UInt8.ofNat (b.toNat / 16 * 16 + b.toNat % 16) = b := by
        rw [Nat.mul_comm, Nat.div_add_mod, UInt8.ofNat_toNat]
      simp only [List.flatMap_cons, List.cons_append, List.nil_append, decodeFrom,
        ofNat_digitByte high, ofNat_digitByte low, digitValue?_digitChar _ high,
        digitValue?_digitChar _ low, ih]
      exact congrArg (fun b => Except.ok (b :: rest)) byte

theorem decode_encode (bytes : List UInt8) : decode (encode bytes) = .ok bytes := by
  have even : ((encode bytes).toUTF8.data.toList).length % 2 ≠ 1 := by
    rw [toUTF8_encode]
    induction bytes with
    | nil => decide
    | cons b rest ih =>
        rw [List.flatMap_cons, List.length_append, List.length_cons, List.length_singleton]
        omega
  unfold decode
  rw [if_neg even, toUTF8_encode, decodeFrom_digits]

/-- A text of digits is solid and has no mark in it. -/
theorem mem_encode {bytes : List UInt8} {c : Char} (member : c ∈ (encode bytes).toList) :
    isBlank c = false ∧ c ≠ 'x' := by
  rw [encode, String.toList_ofList, List.mem_flatMap] at member
  obtain ⟨b, -, digit⟩ := member
  obtain ⟨high, low⟩ := digits_lt b
  rw [encodeByte, List.mem_cons, List.mem_singleton] at digit
  rcases digit with rfl | rfl
  · exact ⟨isBlank_digitChar _ high, digitChar_ne_mark _ high⟩
  · exact ⟨isBlank_digitChar _ low, digitChar_ne_mark _ low⟩

end Text.Hex

namespace Fingerprint

theorem stripMark_of_not_mem {text : List Char} (unmarked : 'x' ∉ text) :
    stripMark text = text := by
  unfold stripMark
  split
  · exact absurd (List.mem_cons_of_mem _ (List.mem_cons_self ..)) unmarked
  · rfl

/-- A fingerprint is what its text reads as. -/
theorem parse_display (f : Fingerprint) : parse f.display = .ok f := by
  have text : f.display.toList = '0' :: 'x' :: (Text.Hex.encode f.bytes).toList := by
    simp [display]
  have solid : Text.Solid f.display.toList := by
    rw [text]
    rintro c (_ | ⟨_, _ | ⟨_, member⟩⟩)
    · rfl
    · rfl
    · exact (Text.Hex.mem_encode member).1
  have unmarked : 'x' ∉ (Text.Hex.encode f.bytes).toList :=
    fun member => (Text.Hex.mem_encode member).2 rfl
  have stripped : stripMark f.display.toList = (Text.Hex.encode f.bytes).toList := by
    rw [text, stripMark, stripMark_of_not_mem unmarked]
  unfold parse
  rw [Text.trim_eq_self solid.trimmed, stripped, String.ofList_toList, Text.Hex.decode_encode]
  simp only [ofBytes, f.size_eq, dif_pos]

end Fingerprint

end HookSplice
