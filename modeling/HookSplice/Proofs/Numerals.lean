import HookSplice.Image.Printer
import HookSplice.Image.Reader

/-!
# Numbers that were printed

A decimal number reads back as itself, with its sign and within the range of its word.  The least
integer of 64 bits is an exception in a host image, where the sign is taken off before the magnitude
is read: it can be read from a hexadecimal literal with a sign behind the mark, but what is printed
for it is refused.
-/

namespace HookSplice

namespace Text

theorem digitValue?_digit {c : Char} (digit : c.isDigit = true) :
    digitValue? 10 c = some (c.toNat - '0'.toNat) := by
  have range : '0' ≤ c ∧ c ≤ '9' := by
    simpa [Char.isDigit, Char.le_def] using digit
  have value : c.toNat - '0'.toNat < 10 := by
    have upper : c.toNat ≤ '9'.toNat := UInt32.le_iff_toNat_le.mp (Char.le_def.mp range.2)
    have : '9'.toNat = '0'.toNat + 9 := by decide
    omega
  unfold digitValue?
  simp only [range, and_self, if_true]
  rw [Option.filter_some, if_pos (decide_eq_true value)]

theorem digitsFrom?_digits {text : List Char} (digits : ∀ c ∈ text, c.isDigit = true)
    (value : Nat) : digitsFrom? 10 value text = some (Nat.ofDigitChars 10 text value) := by
  induction text generalizing value with
  | nil => rw [Nat.ofDigitChars_nil]; rfl
  | cons c rest ih =>
      rw [digitsFrom?, digitValue?_digit (digits c (List.mem_cons_self ..)), Nat.ofDigitChars_cons,
        Nat.mul_comm]
      exact ih (fun d member => digits d (.tail _ member)) _

theorem isDigit_of_mem_toDigits {n : Nat} {c : Char} (member : c ∈ Nat.toDigits 10 n) :
    c.isDigit = true :=
  Nat.isDigit_of_mem_toDigits (by decide) (by decide) member

/-- The digits of a number, the first of them apart. -/
theorem toDigits_eq_cons (n : Nat) :
    ∃ c rest, Nat.toDigits 10 n = c :: rest ∧ ∀ d ∈ c :: rest, d.isDigit = true := by
  cases shape : Nat.toDigits 10 n with
  | nil => exact absurd shape Nat.toDigits_ne_nil
  | cons c rest =>
      refine ⟨c, rest, rfl, fun d member => ?_⟩
      rw [← shape] at member
      exact isDigit_of_mem_toDigits member

theorem digits?_toDigits (n : Nat) : digits? 10 (Nat.toDigits 10 n) = some n := by
  obtain ⟨c, rest, shape, digits⟩ := toDigits_eq_cons n
  have value := digitsFrom?_digits digits 0
  rw [← shape, Nat.ofDigitChars_ten_toDigits, shape] at value
  rw [shape]
  exact value

theorem unsigned?_toDigits (n : Nat) : unsigned? 10 (Nat.toDigits 10 n) = some n := by
  have value := digits?_toDigits n
  obtain ⟨c, rest, shape, digits⟩ := toDigits_eq_cons n
  rw [shape] at value ⊢
  unfold unsigned?
  split
  · next equal =>
      obtain ⟨rfl, -⟩ := List.cons.inj equal
      exact absurd (digits '+' (List.mem_cons_self ..)) (by decide)
  · exact value

theorem signed?_toDigits (n : Nat) : signed? 10 (Nat.toDigits 10 n) = some (n : Int) := by
  have value := unsigned?_toDigits n
  obtain ⟨c, rest, shape, digits⟩ := toDigits_eq_cons n
  rw [shape] at value ⊢
  unfold signed?
  split
  · next equal =>
      obtain ⟨rfl, -⟩ := List.cons.inj equal
      exact absurd (digits '-' (List.mem_cons_self ..)) (by decide)
  · rw [value]
    rfl

/-- A word of 16 bits reads back. -/
theorem uint16?_toString (i : UInt16) : uint16? (toString i.toNat).toList = some i := by
  have below : i.toNat < UInt16.size := i.toNat_lt
  rw [Nat.toString_eq_repr, Nat.toList_repr, uint16?, unsigned?_toDigits]
  simp [below]

end Text

namespace Image

theorem magnitude?_toDigits {n : Nat} (small : (n : Int) ≤ Int64.maxValue.toInt) :
    readInteger?.magnitude? (Nat.toDigits 10 n) = some (Int64.ofInt n) := by
  have value := Text.signed?_toDigits n
  obtain ⟨c, rest, shape, digits⟩ := Text.toDigits_eq_cons n
  rw [shape] at value ⊢
  unfold readInteger?.magnitude?
  split
  · next more equal =>
      obtain ⟨rfl, rfl⟩ := List.cons.inj equal
      exact absurd (digits 'x' (.tail _ (List.mem_cons_self ..))) (by decide)
  · have least : Int64.minValue.toInt ≤ (n : Int) := by
      have : Int64.minValue.toInt ≤ 0 := by decide
      omega
    rw [Text.int64?, value, Option.bind_some, Text.int64OfInt?, if_pos ⟨least, small⟩]

/-- An integer reads back, unless it is the least one: its magnitude is out of range. -/
theorem readInteger?_toString {n : Int64} (least : n ≠ Int64.minValue) :
    readInteger? (toString n.toInt).toList = some n := by
  have lower : Int64.minValue.toInt ≤ n.toInt := Int64.minValue_le_toInt n
  have upper : n.toInt ≤ Int64.maxValue.toInt := Int64.toInt_le n
  have differs : n.toInt ≠ Int64.minValue.toInt := fun equal => least (Int64.toInt_inj.mp equal)
  have ends : Int64.minValue.toInt = -Int64.maxValue.toInt - 1 := by decide
  rw [Int.toString_eq_repr, Int.repr_eq_if]
  split
  · next nonneg =>
      have same : (n.toInt.toNat : Int) = n.toInt := Int.toNat_of_nonneg nonneg
      have value := magnitude?_toDigits (n := n.toInt.toNat) (by omega)
      rw [same, Int64.ofInt_toInt] at value
      rw [Nat.toList_repr]
      obtain ⟨c, rest, shape, digits⟩ := Text.toDigits_eq_cons n.toInt.toNat
      rw [shape] at value ⊢
      unfold readInteger?
      split
      · next equal =>
          obtain ⟨rfl, -⟩ := List.cons.inj equal
          exact absurd (digits '-' (List.mem_cons_self ..)) (by decide)
      · exact value
  · next negative =>
      have same : ((-n.toInt).toNat : Int) = -n.toInt := Int.toNat_of_nonneg (by omega)
      have value := magnitude?_toDigits (n := (-n.toInt).toNat) (by omega)
      rw [same] at value
      rw [String.toList_append, Nat.toList_repr]
      show (readInteger?.magnitude? (Nat.toDigits 10 (-n.toInt).toNat)).map (fun m => -m) = some n
      rw [value, Option.map_some, Int64.ofInt_neg, Int64.ofInt_toInt, Int64.neg_neg]

/-! ### Integer operands -/

/-- A literal from which the least integer is read. -/
def leastLiteral : List Char := "0x-8000000000000000".toList

/-- What is printed for the least integer. -/
def leastNumeral : List Char := "-9223372036854775808".toList

theorem readInteger?_leastLiteral : readInteger? leastLiteral = some Int64.minValue := by
  decide +kernel

theorem readInteger?_leastNumeral : readInteger? leastNumeral = none := by
  decide +kernel

theorem toString_minValue : (toString Int64.minValue.toInt).toList = leastNumeral := by
  decide +kernel

variable (labels : List (List Char × Label)) (symbols symbols' : SymbolTable)
  (labelName : Label → String) (line : Line)

theorem readOperand_ldc {text : List Char} (present : text ≠ []) :
    readOperand labels symbols ⟨.ldc, text, line⟩ =
      match readInteger? text with
      | some n => .ok (.int n, symbols)
      | none => .error (line.error (.badInteger (String.ofList text))) := by
  obtain ⟨c, rest, rfl⟩ := List.exists_cons_of_ne_nil present
  unfold readOperand readOperandText
  simp only [Opcode.operandKind, List.isEmpty_cons]
  cases readInteger? (c :: rest) <;> rfl

/-- Every integer can be read from a literal.  What is printed for an integer is read as that
    integer again, but for the least one, for which it is refused. -/
theorem readOperand_ldc_printed (n : Int64) :
    (∃ literal, readOperand labels symbols ⟨.ldc, literal, line⟩ = .ok (.int n, symbols)) ∧
    readOperand labels symbols ⟨.ldc, (operandText symbols' labelName (.int n)).toList, line⟩ =
      if n = Int64.minValue then
        .error (line.error (.badInteger (String.ofList leastNumeral)))
      else .ok (.int n, symbols) := by
  rw [operandText]
  by_cases least : n = Int64.minValue
  · subst least
    rw [if_pos rfl, toString_minValue]
    constructor
    · refine ⟨leastLiteral, ?_⟩
      rw [readOperand_ldc _ _ _ (by decide), readInteger?_leastLiteral]
    · rw [readOperand_ldc _ _ _ (by decide), readInteger?_leastNumeral]
  · have value := readInteger?_toString least
    have present : (toString n.toInt).toList ≠ [] := by
      intro empty
      rw [empty] at value
      cases value
    have read : readOperand labels symbols ⟨.ldc, (toString n.toInt).toList, line⟩ =
        .ok (.int n, symbols) := by
      rw [readOperand_ldc _ _ _ present, value]
    rw [if_neg least]
    exact ⟨⟨_, read⟩, read⟩

/-- The least integer is read from a literal, but not from what is printed for it. -/
theorem readOperand_ldc_least :
    readOperand [] .empty ⟨.ldc, leastLiteral, ⟨1, [], []⟩⟩ =
      .ok (.int Int64.minValue, .empty) ∧
    readOperand [] .empty ⟨.ldc, (operandText .empty Label.display (.int Int64.minValue)).toList,
      ⟨1, [], []⟩⟩ ≠ .ok (.int Int64.minValue, .empty) := by
  rw [operandText, toString_minValue, readOperand_ldc _ _ _ (by decide),
    readOperand_ldc _ _ _ (by decide), readInteger?_leastLiteral, readInteger?_leastNumeral]
  exact ⟨rfl, nofun⟩

end Image

end HookSplice
