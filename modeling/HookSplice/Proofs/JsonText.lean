import HookSplice.Json.Printer
import HookSplice.Json.Reader
import HookSplice.Proofs.Numerals

/-!
# JSON texts

The text of a value, with one member to a line, reads back as the value, when the value is one that
a text can denote exactly.
-/

namespace HookSplice.Json

/-- Values that a text denotes exactly: their texts and keys are texts, and their numbers are
    integers of up to 64 bits. -/
inductive Exact : Json → Prop
  | null : Exact null
  | bool (b : Bool) : Exact (bool b)
  | integer {n : Int} (least : Int64.minValue.toInt ≤ n) (greatest : n < UInt64.size) :
      Exact (integer n)
  | text (s : String) : Exact (text (some s))
  | array {items : List Json} (inside : ∀ item ∈ items, Exact item) : Exact (array items)
  | object {members : List (Option String × Json)} (keys : ∀ e ∈ members, e.1.isSome)
      (inside : ∀ e ∈ members, Exact e.2) : Exact (object members)

/-! ### Numbers -/

/-- A text that starts with a digit is read as a number. -/
theorem readValue_digit {fuel : Nat} {cs rest : List Char} {c : Char} (digit : c.isDigit = true)
    (start : skip cs = c :: rest) :
    readValue (fuel + 1) cs = readNumber false (c :: rest) := by
  rw [readValue, start]
  split
  all_goals first
    | rfl
    | next same =>
        obtain ⟨rfl, -⟩ := List.cons.inj same
        cases digit

/-- A text that does not go on with a number in front of it. -/
def Ends (rest : List Char) : Prop :=
  ∀ c tail, rest = c :: tail → c.isDigit = false ∧ c ≠ '.' ∧ c ≠ 'e' ∧ c ≠ 'E'

theorem ends_nil : Ends [] := nofun

theorem ends_cons {c : Char} (other : c.isDigit = false ∧ c ≠ '.' ∧ c ≠ 'e' ∧ c ≠ 'E')
    (tail : List Char) : Ends (c :: tail) := by
  rintro d tail' same
  obtain ⟨rfl, -⟩ := List.cons.inj same
  exact other

theorem readDigits_append {digits rest : List Char} (nonempty : digits ≠ [])
    (all : ∀ c ∈ digits, c.isDigit = true) (ends : Ends rest) :
    readDigits (digits ++ rest) = some (digits, rest) := by
  have stops : rest.takeWhile Char.isDigit = [] ∧ rest.dropWhile Char.isDigit = rest := by
    cases rest with
    | nil => exact ⟨rfl, rfl⟩
    | cons c tail => simp [(ends c tail rfl).1]
  unfold readDigits
  rw [List.takeWhile_append_of_pos all, List.dropWhile_append_of_pos all, stops.1, stops.2,
    List.append_nil]
  cases digits with
  | nil => exact absurd rfl nonempty
  | cons c tail => rfl

theorem skipFraction_of_ends {rest : List Char} (ends : Ends rest) :
    skipFraction rest = some (false, rest) := by
  unfold skipFraction
  split
  · next tail => exact absurd rfl (ends _ tail rfl).2.1
  · rfl

theorem skipExponent_of_ends {rest : List Char} (ends : Ends rest) :
    skipExponent rest = some (false, rest) := by
  unfold skipExponent
  split
  · next tail => exact absurd rfl (ends _ tail rfl).2.2.1
  · next tail => exact absurd rfl (ends _ tail rfl).2.2.2
  · rfl

theorem digitChar_ne_zero : ∀ n < 10, 0 < n → Nat.digitChar n ≠ '0' := by
  decide

/-- Numerals have no leading zero. -/
theorem head?_toDigits {n : Nat} (positive : 0 < n) : (Nat.toDigits 10 n).head? ≠ some '0' := by
  induction n using Nat.strongRecOn with
  | ind n ih =>
      by_cases small : n < 10
      · rw [Nat.toDigits_of_lt_base small, List.head?_cons]
        exact fun same => digitChar_ne_zero n small positive (Option.some.inj same)
      · have leading := ih (n / 10) (by omega) (by omega)
        obtain ⟨c, rest, shape, -⟩ := Text.toDigits_eq_cons (n / 10)
        rw [Nat.toDigits_of_base_le (by decide) (by omega), shape]
        rwa [shape] at leading

theorem readNumber_toDigits (negative : Bool) (n : Nat) {rest : List Char} (ends : Ends rest) :
    readNumber negative (Nat.toDigits 10 n ++ rest) = some (ofInteger negative n, rest) := by
  have single : ¬ ((Nat.toDigits 10 n).head? = some '0' ∧ (Nat.toDigits 10 n).length ≠ 1) := by
    rintro ⟨zero, several⟩
    by_cases positive : 0 < n
    · exact head?_toDigits positive zero
    · obtain rfl : n = 0 := by omega
      exact several rfl
  have read : readDigits (Nat.toDigits 10 n ++ rest) = some (Nat.toDigits 10 n, rest) :=
    readDigits_append Nat.toDigits_ne_nil (fun c member => Text.isDigit_of_mem_toDigits member) ends
  simp [readNumber, read, single, skipFraction_of_ends ends, skipExponent_of_ends ends,
    Text.digits?_toDigits]

/-! ### String literals -/

theorem codeUnit?_fourDigits : ∀ n < 0x20, codeUnit? (Nat.digitChar (n / 4096 % 16))
    (Nat.digitChar (n / 256 % 16)) (Nat.digitChar (n / 16 % 16)) (Nat.digitChar (n % 16)) =
      some n := by
  decide

theorem readPieces_escapeChar (c : Char) (rest : List Char) :
    readPieces (escapeChar c ++ rest) = (readPieces rest).map (prepend (.char c)) := by
  unfold escapeChar
  split
  · next quote => rw [quote]; rfl
  split
  · next backslash => rw [backslash]; rfl
  split
  · next feed => rw [feed]; rfl
  split
  · next ret => rw [ret]; rfl
  split
  · next tab => rw [tab]; rfl
  split
  · next back => rw [back]; rfl
  split
  · next form => rw [form]; rfl
  split
  · next control =>
      -- A control character below every half of a surrogate pair.
      have low : ¬ (isHigh c.toNat || isLow c.toNat) := by
        simp only [isHigh, isLow, Bool.or_eq_true, Bool.and_eq_true, decide_eq_true_eq]
        omega
      simp only [fourDigits, List.cons_append, List.nil_append, readPieces,
        codeUnit?_fourDigits c.toNat control, Piece.ofUnit, low]
      rw [if_neg (by decide), Char.ofNat_toNat]
  · next noQuote noBackslash _ _ _ _ _ visible =>
      rw [List.singleton_append, readPieces.eq_5]
      · simp [visible, noBackslash]
      · exact noQuote
      · rintro a b d e tail rfl
        exact absurd rfl noBackslash
      · rintro d tail rfl
        exact absurd rfl noBackslash

theorem readPieces_escaped (s rest : List Char) :
    readPieces (s.flatMap escapeChar ++ '"' :: rest) = some (s.map .char, rest) := by
  induction s with
  | nil => simp [readPieces]
  | cons c s ih =>
      rw [List.flatMap_cons, List.append_assoc, readPieces_escapeChar, ih]
      rfl

theorem joinPieces_chars (s : List Char) : joinPieces (s.map .char) = some s := by
  induction s with
  | nil => rfl
  | cons c s ih => simp [joinPieces, ih]

theorem readText_escaped (s : String) (rest : List Char) :
    readText (s.toList.flatMap escapeChar ++ '"' :: rest) = some (some s, rest) := by
  simp [readText, readPieces_escaped, joinPieces_chars]

theorem toList_literal (s : String) :
    (literal (some s)).toList = '"' :: (s.toList.flatMap escapeChar ++ ['"']) := by
  simp [literal]

/-! ### Items and members -/

theorem prettyItems_eq_map (depth : Nat) (items : List Json) :
    prettyItems depth items = items.map (prettyAt (depth + 1)) := by
  induction items with
  | nil => rfl
  | cons item rest ih => rw [prettyItems, ih, List.map_cons]

/-- The text of a member of an object at a depth. -/
def memberText (depth : Nat) (e : Option String × Json) : String :=
  literal e.1 ++ ": " ++ prettyAt (depth + 1) e.2

theorem prettyMembers_eq_map (depth : Nat) (members : List (Option String × Json)) :
    prettyMembers depth members = members.map (memberText depth) := by
  induction members with
  | nil => rfl
  | cons e rest ih => rw [prettyMembers, ih, List.map_cons, memberText]

theorem prettyAt_array (depth : Nat) (items : List Json) :
    prettyAt depth (array items) = bracketed "[" "]" depth (items.map (prettyAt (depth + 1))) := by
  rw [prettyAt, prettyItems_eq_map]

theorem prettyAt_object (depth : Nat) (members : List (Option String × Json)) :
    prettyAt depth (object members) =
      bracketed "\x7b" "\x7d" depth (members.map (memberText depth)) := by
  rw [prettyAt, prettyMembers_eq_map]

/-! ### Blanks -/

theorem skip_append {blanks : List Char} (blank : ∀ c ∈ blanks, isBlank c = true)
    (rest : List Char) : skip (blanks ++ rest) = skip rest :=
  List.dropWhile_append_of_pos blank

theorem skip_cons {c : Char} (solid : isBlank c = false) (rest : List Char) :
    skip (c :: rest) = c :: rest := by
  simp [skip, solid]

theorem skip_skip (cs : List Char) : skip (skip cs) = skip cs := by
  induction cs with
  | nil => rfl
  | cons c rest ih =>
      cases blank : isBlank c with
      | true => simpa [skip, blank] using ih
      | false => rw [skip_cons blank, skip_cons blank]

theorem isBlank_of_mem_newline {depth : Nat} :
    ∀ c ∈ (newline depth).toList, isBlank c = true := by
  intro c member
  have shape : (newline depth).toList = '\n' :: List.replicate (2 * depth) ' ' := by simp [newline]
  rw [shape, List.mem_cons, List.mem_replicate] at member
  rcases member with rfl | ⟨-, rfl⟩ <;> rfl

theorem ends_newline (depth : Nat) (rest : List Char) : Ends ((newline depth).toList ++ rest) := by
  have shape : (newline depth).toList = '\n' :: List.replicate (2 * depth) ' ' := by simp [newline]
  rw [shape]
  exact ends_cons (by decide) _

/-! ### Values -/

/-- A text that begins with a character that is neither a blank nor a closing bracket. -/
def Opens (text : List Char) : Prop :=
  ∃ c rest, text = c :: rest ∧ isBlank c = false ∧ c ≠ ']' ∧ c ≠ '\x7d'

theorem Opens.skip {text : List Char} (opens : Opens text) : skip text = text := by
  obtain ⟨c, tail, rfl, solid, -⟩ := opens
  exact skip_cons solid _

theorem opens_toDigits (n : Nat) : Opens (Nat.toDigits 10 n) := by
  obtain ⟨c, rest, shape, digits⟩ := Text.toDigits_eq_cons n
  refine ⟨c, rest, shape, ?_⟩
  have digit := digits c (List.mem_cons_self ..)
  refine ⟨?_, ?_, ?_⟩
  · cases blank : isBlank c with
    | false => rfl
    | true =>
        simp only [isBlank, Bool.or_eq_true, beq_iff_eq] at blank
        rcases blank with ((rfl | rfl) | rfl) | rfl <;> cases digit
  · rintro rfl
    cases digit
  · rintro rfl
    cases digit

/-- Lines of items at a depth, with commas between them. -/
def separated (depth : Nat) (lines : List (List Char)) : List Char :=
  (',' :: (newline (depth + 1)).toList).intercalate lines

theorem separated_cons_cons (depth : Nat) (line next : List Char) (lines : List (List Char)) :
    separated depth (line :: next :: lines) =
      line ++ ',' :: ((newline (depth + 1)).toList ++ separated depth (next :: lines)) := by
  simp [separated]

/-- The lines of an array or an object, from behind its opening bracket on. -/
def enclosed (closing : Char) (depth : Nat) (lines : List (List Char)) : List Char :=
  (newline (depth + 1)).toList ++ (separated depth lines ++ ((newline depth).toList ++ [closing]))

theorem toList_array (depth : Nat) (item : Json) (rest : List Json) :
    (prettyAt depth (array (item :: rest))).toList =
      '[' :: enclosed ']' depth ((item :: rest).map fun v => (prettyAt (depth + 1) v).toList) := by
  rw [prettyAt_array]
  simp [bracketed, enclosed, separated, String.toList_intercalate, Function.comp_def]

theorem toList_object (depth : Nat) (e : Option String × Json)
    (rest : List (Option String × Json)) :
    (prettyAt depth (object (e :: rest))).toList =
      '\x7b' :: enclosed '\x7d' depth ((e :: rest).map fun e => (memberText depth e).toList) := by
  rw [prettyAt_object]
  simp [bracketed, enclosed, separated, String.toList_intercalate, Function.comp_def]

theorem toList_array_nil (depth : Nat) : (prettyAt depth (array [])).toList = ['[', ']'] := by
  simp [prettyAt_array, bracketed]

theorem toList_object_nil (depth : Nat) :
    (prettyAt depth (object [])).toList = ['\x7b', '\x7d'] := by
  simp [prettyAt_object, bracketed]

theorem toList_toString_nonneg {n : Int} (nonneg : 0 ≤ n) :
    (toString n).toList = Nat.toDigits 10 n.toNat := by
  rw [Int.toString_eq_repr, Int.repr_eq_if, if_pos nonneg, Nat.toList_repr]

theorem toList_toString_negative {n : Int} (negative : ¬ 0 ≤ n) :
    (toString n).toList = '-' :: Nat.toDigits 10 (-n).toNat := by
  rw [Int.toString_eq_repr, Int.repr_eq_if, if_neg negative, String.toList_append, Nat.toList_repr]
  rfl

theorem opens_literal (s : Option String) (rest : List Char) :
    Opens ((literal s).toList ++ rest) := by
  cases s with
  | none => exact ⟨'"', _, rfl, rfl, by decide, by decide⟩
  | some s =>
      rw [toList_literal]
      exact ⟨'"', _, rfl, rfl, by decide, by decide⟩

theorem opens_prettyAt (depth : Nat) (v : Json) : Opens (prettyAt depth v).toList := by
  cases v with
  | null =>
      rw [prettyAt]
      exact ⟨'n', _, rfl, rfl, by decide, by decide⟩
  | bool b =>
      rw [prettyAt]
      cases b
      · exact ⟨'f', _, rfl, rfl, by decide, by decide⟩
      · exact ⟨'t', _, rfl, rfl, by decide, by decide⟩
  | integer n =>
      rw [prettyAt]
      by_cases nonneg : 0 ≤ n
      · rw [toList_toString_nonneg nonneg]
        exact opens_toDigits _
      · rw [toList_toString_negative nonneg]
        exact ⟨'-', _, rfl, rfl, by decide, by decide⟩
  | real =>
      rw [prettyAt]
      exact ⟨'0', _, rfl, rfl, by decide, by decide⟩
  | text s =>
      rw [prettyAt, ← List.append_nil (literal s).toList]
      exact opens_literal s []
  | array items =>
      cases items with
      | nil =>
          rw [toList_array_nil]
          exact ⟨'[', _, rfl, rfl, by decide, by decide⟩
      | cons item rest =>
          rw [toList_array]
          exact ⟨'[', _, rfl, rfl, by decide, by decide⟩
  | object members =>
      cases members with
      | nil =>
          rw [toList_object_nil]
          exact ⟨'\x7b', _, rfl, rfl, by decide, by decide⟩
      | cons e rest =>
          rw [toList_object]
          exact ⟨'\x7b', _, rfl, rfl, by decide, by decide⟩

theorem opens_separated (depth : Nat) {line : List Char} (opens : Opens line)
    (lines : List (List Char)) (rest : List Char) :
    Opens (separated depth (line :: lines) ++ rest) := by
  obtain ⟨c, tail, rfl, first⟩ := opens
  cases lines with
  | nil => exact ⟨c, tail ++ rest, by simp [separated], first⟩
  | cons next lines => exact ⟨c, _, by rw [separated_cons_cons]; rfl, first⟩

/-! ### Steps of the reader -/

section Steps

variable {fuel : Nat} {cs behind behind' rest : List Char} {v : Json}

theorem readValue_array {inner : List Char} (start : skip cs = '[' :: inner)
    (opens : Opens (skip inner)) {items : List Json}
    (read : readItems fuel (skip inner) = some (items, rest)) :
    readValue (fuel + 1) cs = some (array items, rest) := by
  obtain ⟨c, tail, body, -, other, -⟩ := opens
  rw [readValue, start]
  simp only [body] at read ⊢
  split
  · next same => exact absurd (List.cons.inj same).1 other
  · rw [read]
    rfl

theorem readValue_object {inner : List Char} (start : skip cs = '\x7b' :: inner)
    (opens : Opens (skip inner)) {members : List (Option String × Json)}
    (read : readMembers fuel (skip inner) = some (members, rest)) :
    readValue (fuel + 1) cs = some (object members, rest) := by
  obtain ⟨c, tail, body, -, -, other⟩ := opens
  rw [readValue, start]
  simp only [body] at read ⊢
  split
  · next same => exact absurd (List.cons.inj same).1 other
  · rw [read]
    rfl

theorem readItems_last (read : readValue fuel cs = some (v, behind))
    (closed : skip behind = ']' :: rest) : readItems (fuel + 1) cs = some ([v], rest) := by
  rw [readItems, read]
  simp only [closed]

theorem readItems_more (read : readValue fuel cs = some (v, behind))
    (comma : skip behind = ',' :: behind') {vs : List Json}
    (others : readItems fuel behind' = some (vs, rest)) :
    readItems (fuel + 1) cs = some (v :: vs, rest) := by
  rw [readItems, read]
  simp only [comma, others, Option.map_some]

variable {key : Option String} {value : List Char}

theorem readMembers_last {literal : List Char} (start : skip cs = '"' :: literal)
    (named : readText literal = some (key, ':' :: value))
    (read : readValue fuel value = some (v, behind)) (closed : skip behind = '\x7d' :: rest) :
    readMembers (fuel + 1) cs = some ([(key, v)], rest) := by
  rw [readMembers, start]
  simp only [named, skip_cons (c := ':') rfl, read, closed]

theorem readMembers_more {literal : List Char} (start : skip cs = '"' :: literal)
    (named : readText literal = some (key, ':' :: value))
    (read : readValue fuel value = some (v, behind)) (comma : skip behind = ',' :: behind')
    {vs : List (Option String × Json)} (others : readMembers fuel behind' = some (vs, rest)) :
    readMembers (fuel + 1) cs = some ((key, v) :: vs, rest) := by
  rw [readMembers, start]
  simp only [named, skip_cons (c := ':') rfl, read, comma, others, Option.map_some]

end Steps

/-! ### Reading back -/

/-- A value is read from its text wherever that stands, if there is as much fuel as text. -/
def Reads (v : Json) : Prop :=
  ∀ {depth fuel : Nat} {cs rest : List Char}, Ends rest →
    (prettyAt depth v).toList.length ≤ fuel → skip cs = (prettyAt depth v).toList ++ rest →
      readValue fuel cs = some (v, rest)

/-- The items of an array are read from their lines. -/
theorem readItems_separated (depth : Nat) {item : Json} {others : List Json}
    (each : ∀ v ∈ item :: others, Reads v) {fuel : Nat} {cs rest : List Char}
    (enough : (separated depth
      ((item :: others).map fun v => (prettyAt (depth + 1) v).toList)).length < fuel)
    (start : skip cs = separated depth ((item :: others).map fun v =>
      (prettyAt (depth + 1) v).toList) ++ ((newline depth).toList ++ ']' :: rest)) :
    readItems fuel cs = some (item :: others, rest) := by
  induction others generalizing item fuel cs with
  | nil =>
      obtain ⟨fuel, rfl⟩ : ∃ n, fuel = n + 1 := ⟨fuel - 1, by omega⟩
      simp only [separated, List.map_cons, List.map_nil, List.intercalate_singleton] at enough start
      refine readItems_last
        (each item (List.mem_cons_self ..) (ends_newline depth _) (by omega) start) ?_
      rw [skip_append isBlank_of_mem_newline, skip_cons rfl]
  | cons next others ih =>
      obtain ⟨fuel, rfl⟩ : ∃ n, fuel = n + 1 := ⟨fuel - 1, by omega⟩
      obtain ⟨first, later⟩ := List.forall_mem_cons.mp each
      rw [List.map_cons, List.map_cons, separated_cons_cons] at enough start
      simp only [List.length_append, List.length_cons, List.append_assoc,
        List.cons_append] at enough start
      refine readItems_more (first (ends_cons (by decide) _) (by omega) start) (skip_cons rfl _)
        (ih later (by rw [List.map_cons]; omega) ?_)
      rw [skip_append isBlank_of_mem_newline]
      exact (opens_separated depth (opens_prettyAt _ _) _ _).skip

theorem toList_memberText (depth : Nat) (key : String) (v : Json) :
    (memberText depth (some key, v)).toList =
      '"' :: (key.toList.flatMap escapeChar ++
        '"' :: ':' :: ' ' :: (prettyAt (depth + 1) v).toList) := by
  simp [memberText, toList_literal]

theorem opens_memberText (depth : Nat) (e : Option String × Json) :
    Opens (memberText depth e).toList := by
  rw [memberText, String.toList_append, String.toList_append, List.append_assoc]
  exact opens_literal _ _

theorem Reads.behind_blank {v : Json} (reads : Reads v) (depth : Nat) {fuel : Nat}
    (enough : (prettyAt depth v).toList.length ≤ fuel) {rest : List Char} (ends : Ends rest) :
    readValue fuel (' ' :: ((prettyAt depth v).toList ++ rest)) = some (v, rest) := by
  refine reads ends enough ?_
  have blank : ∀ c ∈ [' '], isBlank c = true := List.forall_mem_singleton.mpr rfl
  obtain ⟨c, tail, same, solid, -⟩ := opens_prettyAt depth v
  rw [same]
  exact (skip_append blank _).trans (skip_cons solid _)

/-- The members of an object are read from their lines. -/
theorem readMembers_separated (depth : Nat) {e : Option String × Json}
    {others : List (Option String × Json)} (keys : ∀ e' ∈ e :: others, e'.1.isSome)
    (each : ∀ e' ∈ e :: others, Reads e'.2) {fuel : Nat} {cs rest : List Char}
    (enough : (separated depth ((e :: others).map fun e => (memberText depth e).toList)).length <
      fuel)
    (start : skip cs = separated depth ((e :: others).map fun e => (memberText depth e).toList) ++
      ((newline depth).toList ++ '\x7d' :: rest)) :
    readMembers fuel cs = some (e :: others, rest) := by
  induction others generalizing e fuel cs with
  | nil =>
      obtain ⟨fuel, rfl⟩ : ∃ n, fuel = n + 1 := ⟨fuel - 1, by omega⟩
      obtain ⟨named, -⟩ := List.forall_mem_cons.mp keys
      obtain ⟨_ | key, v⟩ := e
      · cases named
      have first : Reads v := each _ (List.mem_cons_self ..)
      simp only [separated, List.map_cons, List.map_nil, List.intercalate_singleton,
        toList_memberText, List.cons_append, List.append_assoc, List.length_cons,
        List.length_append] at enough start
      refine readMembers_last start (readText_escaped key _)
        (first.behind_blank (depth + 1) (by omega) (ends_newline depth _)) ?_
      rw [skip_append isBlank_of_mem_newline, skip_cons rfl]
  | cons next others ih =>
      obtain ⟨fuel, rfl⟩ : ∃ n, fuel = n + 1 := ⟨fuel - 1, by omega⟩
      obtain ⟨named, others'⟩ := List.forall_mem_cons.mp keys
      obtain ⟨_ | key, v⟩ := e
      · cases named
      obtain ⟨first, later⟩ := List.forall_mem_cons.mp each
      have first : Reads v := first
      rw [List.map_cons, List.map_cons, separated_cons_cons, toList_memberText] at enough start
      simp only [List.length_append, List.length_cons, List.append_assoc,
        List.cons_append] at enough start
      refine readMembers_more start (readText_escaped key _)
        (first.behind_blank (depth + 1) (by omega) (ends_cons (by decide) _)) (skip_cons rfl _)
        (ih others' later (by rw [List.map_cons]; omega) ?_)
      rw [skip_append isBlank_of_mem_newline]
      exact (opens_separated depth (opens_memberText _ _) _ _).skip

/-- Behind its opening bracket, a nonempty array or object goes on with its first line. -/
theorem skip_enclosed (closing : Char) (depth : Nat) {line : List Char} (opens : Opens line)
    (lines : List (List Char)) (rest : List Char) :
    skip (enclosed closing depth (line :: lines) ++ rest) = separated depth (line :: lines) ++
        ((newline depth).toList ++ closing :: rest) ∧
      Opens (skip (enclosed closing depth (line :: lines) ++ rest)) := by
  have opens' := opens_separated depth opens lines
    ((newline depth).toList ++ closing :: rest)
  have skipped : skip (enclosed closing depth (line :: lines) ++ rest) =
      separated depth (line :: lines) ++ ((newline depth).toList ++ closing :: rest) := by
    rw [enclosed, List.append_assoc, skip_append isBlank_of_mem_newline]
    simpa using opens'.skip
  exact ⟨skipped, skipped ▸ opens'⟩

theorem reads_array {items : List Json} (each : ∀ v ∈ items, Reads v) : Reads (array items) := by
  intro depth fuel cs rest ends enough start
  cases items with
  | nil =>
      rw [toList_array_nil] at enough start
      obtain ⟨fuel, rfl⟩ : ∃ n, fuel = n + 1 := ⟨fuel - 1, by simp at enough; omega⟩
      rw [readValue, start]
      simp [skip_cons (c := ']') rfl]
  | cons item others =>
      rw [toList_array, List.map_cons] at enough start
      obtain ⟨skipped, opens⟩ := skip_enclosed ']' depth (opens_prettyAt (depth + 1) item)
        (others.map fun v => (prettyAt (depth + 1) v).toList) rest
      simp only [enclosed, List.length_cons, List.length_append] at enough
      obtain ⟨fuel, rfl⟩ : ∃ n, fuel = n + 1 := ⟨fuel - 1, by omega⟩
      refine readValue_array start opens (readItems_separated depth each ?_ ?_)
      · rw [List.map_cons]
        omega
      · rw [skip_skip]
        exact skipped

theorem reads_object {members : List (Option String × Json)} (keys : ∀ e ∈ members, e.1.isSome)
    (each : ∀ e ∈ members, Reads e.2) : Reads (object members) := by
  intro depth fuel cs rest ends enough start
  cases members with
  | nil =>
      rw [toList_object_nil] at enough start
      obtain ⟨fuel, rfl⟩ : ∃ n, fuel = n + 1 := ⟨fuel - 1, by simp at enough; omega⟩
      rw [readValue, start]
      simp [skip_cons (c := '\x7d') rfl]
  | cons e others =>
      rw [toList_object, List.map_cons] at enough start
      obtain ⟨skipped, opens⟩ := skip_enclosed '\x7d' depth (opens_memberText depth e)
        (others.map fun e => (memberText depth e).toList) rest
      simp only [enclosed, List.length_cons, List.length_append] at enough
      obtain ⟨fuel, rfl⟩ : ∃ n, fuel = n + 1 := ⟨fuel - 1, by omega⟩
      refine readValue_object start opens (readMembers_separated depth keys each ?_ ?_)
      · rw [List.map_cons]
        omega
      · rw [skip_skip]
        exact skipped

theorem reads_integer {n : Int} (least : Int64.minValue.toInt ≤ n) (greatest : n < UInt64.size) :
    Reads (integer n) := by
  intro depth fuel cs rest ends enough start
  rw [prettyAt] at enough start
  by_cases nonneg : 0 ≤ n
  · rw [toList_toString_nonneg nonneg] at enough start
    have read := readNumber_toDigits false n.toNat ends
    obtain ⟨c, tail, shape, digits⟩ := Text.toDigits_eq_cons n.toNat
    rw [shape] at enough start read
    obtain ⟨fuel, rfl⟩ : ∃ n, fuel = n + 1 := ⟨fuel - 1, by simp at enough; omega⟩
    have within : ¬ UInt64.size ≤ n.toNat := by omega
    refine (readValue_digit (digits c (List.mem_cons_self ..)) start).trans (read.trans ?_)
    rw [ofInteger, if_neg Bool.false_ne_true, if_neg within, Int.toNat_of_nonneg nonneg]
  · rw [toList_toString_negative nonneg] at enough start
    obtain ⟨fuel, rfl⟩ : ∃ n, fuel = n + 1 := ⟨fuel - 1, by simp at enough; omega⟩
    have within : ¬ ((-n).toNat = 0 ∨ Int64.minValue.toInt.natAbs < (-n).toNat) := by omega
    have value : -((-n).toNat : Int) = n := by omega
    rw [readValue, start]
    simp only [List.cons_append]
    rw [readNumber_toDigits true _ ends, ofInteger, if_pos rfl, if_neg within, value]

theorem reads_text (s : String) : Reads (text (some s)) := by
  intro depth fuel cs rest ends enough start
  rw [prettyAt, toList_literal] at enough start
  obtain ⟨fuel, rfl⟩ : ∃ n, fuel = n + 1 := ⟨fuel - 1, by simp at enough; omega⟩
  rw [readValue, start]
  simp [readText_escaped]

theorem reads_word {v : Json} (word : List Char) (text : ∀ depth, (prettyAt depth v).toList = word)
    (nonempty : word ≠ [])
    (read : ∀ fuel cs rest, skip cs = word ++ rest → readValue (fuel + 1) cs = some (v, rest)) :
    Reads v := by
  intro depth fuel cs rest ends enough start
  rw [text] at enough start
  have : 0 < word.length := List.length_pos_iff.mpr nonempty
  obtain ⟨fuel, rfl⟩ : ∃ n, fuel = n + 1 := ⟨fuel - 1, by omega⟩
  exact read fuel cs rest start

/-- A value that a text denotes exactly is read from its text. -/
theorem Exact.reads {v : Json} (exact : Exact v) : Reads v := by
  induction exact with
  | null =>
      refine reads_word ['n', 'u', 'l', 'l'] (fun depth => by rw [prettyAt]; rfl)
        (by decide) fun fuel cs rest start => ?_
      rw [readValue, start]
      rfl
  | bool b =>
      cases b with
      | true =>
          refine reads_word ['t', 'r', 'u', 'e'] (fun depth => by rw [prettyAt]; rfl)
            (by decide) fun fuel cs rest start => ?_
          rw [readValue, start]
          rfl
      | false =>
          refine reads_word ['f', 'a', 'l', 's', 'e'] (fun depth => by rw [prettyAt]; rfl)
            (by decide) fun fuel cs rest start => ?_
          rw [readValue, start]
          rfl
  | integer least greatest => exact reads_integer least greatest
  | text s => exact reads_text s
  | array inside ih => exact reads_array ih
  | object keys inside ih => exact reads_object keys ih

/-- A value that a text denotes exactly is what its text reads as. -/
theorem parse?_pretty {v : Json} (exact : Exact v) : parse? v.pretty = some v := by
  have read : readValue (2 * v.pretty.toList.length + 3) v.pretty.toList = some (v, []) := by
    have start : skip v.pretty.toList = (prettyAt 0 v).toList ++ [] := by
      rw [List.append_nil]
      exact (opens_prettyAt 0 v).skip
    refine exact.reads ends_nil ?_ start
    show v.pretty.toList.length ≤ 2 * v.pretty.toList.length + 3
    omega
  unfold parse?
  simp only [read]
  rfl

end HookSplice.Json
