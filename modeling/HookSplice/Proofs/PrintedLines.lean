import HookSplice.Image.Printer
import HookSplice.Proofs.TextCuts

/-!
# Lines of a printed image

What the reader finds in lines that were printed: comments and blanks are gone, and lines that hold
nothing are skipped.  A line without quotes and number signs has no comment, and neither has one
that ends in a string literal, whatever its text.
-/

namespace HookSplice

/-! ### Plain texts -/

namespace Text

/-- The characters that have a meaning in the syntax of an image. -/
def marks : List Char :=
  ['"', '#', '(', ')', ',', ':']

/-- The characters of plain identifiers: neither blanks nor marks of the syntax. -/
def isPlain (c : Char) : Bool :=
  !isBlank c && !marks.contains c

/-- A text of plain characters. -/
def Plain (text : List Char) : Prop :=
  ∀ c ∈ text, isPlain c = true

instance (text : List Char) : Decidable (Plain text) :=
  List.decidableBAll (fun c => isPlain c = true) text

/-- ASCII letters and digits, the underscore and the dot are plain. -/
theorem isPlain_of_ascii {c : Char} (ascii : c.isAlphanum || c == '_' || c == '.') :
    isPlain c = true := by
  have between {first last : Char} (least : first.val ≤ c.val) (most : c.val ≤ last.val) :
      first.toNat ≤ c.toNat ∧ c.toNat ≤ last.toNat :=
    ⟨UInt32.le_iff_toNat_le.mp least, UInt32.le_iff_toNat_le.mp most⟩
  have ends : 'A'.toNat = 65 ∧ 'Z'.toNat = 90 ∧ 'a'.toNat = 97 ∧ 'z'.toNat = 122 ∧
      '0'.toNat = 48 ∧ '9'.toNat = 57 := by decide
  have range : 46 ≤ c.toNat ∧ c.toNat ≤ 122 ∧ c.toNat ≠ 58 := by
    rw [Bool.or_eq_true, Bool.or_eq_true, beq_iff_eq, beq_iff_eq] at ascii
    rcases ascii with (letter | rfl) | rfl
    · rcases Bool.or_eq_true_iff.mp letter with alpha | digit
      · rcases Bool.or_eq_true_iff.mp alpha with upper | lower
        · have inside : c.val ≥ 'A'.val ∧ c.val ≤ 'Z'.val := of_decide_eq_true upper
          have := between inside.1 inside.2
          omega
        · obtain ⟨least, most⟩ := Bool.and_eq_true_iff.mp lower
          have := between (of_decide_eq_true least) (of_decide_eq_true most)
          omega
      · obtain ⟨least, most⟩ := Bool.and_eq_true_iff.mp digit
        have := between (of_decide_eq_true least) (of_decide_eq_true most)
        omega
    · decide
    · decide
  have solid : isBlank c = false := by
    simp only [isBlank, Bool.or_eq_false_iff, Bool.and_eq_false_imp, decide_eq_true_eq,
      decide_eq_false_iff_not, beq_eq_false_iff_ne]
    omega
  have other : c ∉ marks := by
    intro member
    have outside : ∀ mark ∈ marks, mark.toNat < 46 ∨ mark.toNat = 58 := by simp [marks]
    have := outside c member
    omega
  rw [isPlain, solid, Bool.not_false, Bool.true_and, Bool.not_eq_true', ← Bool.not_eq_true,
    List.contains_iff_mem]
  exact other

theorem isPlain_ne {c mark : Char} (plain : isPlain c = true) (outside : isPlain mark = false) :
    c ≠ mark := by
  rintro rfl
  rw [plain] at outside
  cases outside

theorem Plain.not_mem {text : List Char} (plain : Plain text) {mark : Char}
    (outside : isPlain mark = false) : mark ∉ text :=
  fun member => isPlain_ne (plain _ member) outside rfl

theorem Plain.solid {text : List Char} (plain : Plain text) : Solid text := fun c member => by
  have := plain c member
  rw [isPlain, Bool.and_eq_true, Bool.not_eq_true'] at this
  exact this.1

/-- A text that holds neither quotes nor number signs nor line breaks. -/
def Bare (text : List Char) : Prop :=
  ∀ c ∈ text, c ≠ '"' ∧ c ≠ '#' ∧ c ≠ '\n' ∧ c ≠ '\r'

instance (text : List Char) : Decidable (Bare text) :=
  List.decidableBAll (fun c => c ≠ '"' ∧ c ≠ '#' ∧ c ≠ '\n' ∧ c ≠ '\r') text

theorem Bare.append {text text' : List Char} (first : Bare text) (second : Bare text') :
    Bare (text ++ text') :=
  fun c member => (List.mem_append.mp member).elim (first c) (second c)

theorem Bare.cons {c : Char} {text : List Char} (first : Bare [c]) (second : Bare text) :
    Bare (c :: text) :=
  first.append second

theorem Plain.bare {text : List Char} (plain : Plain text) : Bare text := fun _ member =>
  ⟨isPlain_ne (plain _ member) (by decide), isPlain_ne (plain _ member) (by decide),
    isPlain_ne (plain _ member) (by decide), isPlain_ne (plain _ member) (by decide)⟩

theorem Bare.intercalate {separator : List Char} (between : Bare separator)
    {texts : List (List Char)} (bare : ∀ text ∈ texts, Bare text) :
    Bare (separator.intercalate texts) := by
  induction texts with
  | nil => exact fun c member => absurd member List.not_mem_nil
  | cons text rest ih =>
      have first := bare text (List.mem_cons_self ..)
      have others := ih fun next member => bare next (.tail _ member)
      cases rest with
      | nil => rwa [List.intercalate_singleton]
      | cons next more =>
          rw [List.intercalate_cons_cons]
          exact (first.append between).append others

theorem Bare.oneLine {text : List Char} (bare : Bare text) : OneLine text :=
  ⟨fun member => (bare _ member).2.2.1 rfl,
    fun last => (bare _ (List.mem_of_getLast? last)).2.2.2 rfl⟩

end Text

namespace Image

open Text (Bare OneLine Trimmed trim)

/-! ### Comments -/

theorem stripCommentFrom_bare {text : List Char} (bare : Bare text) (rest : List Char) :
    stripCommentFrom false false (text ++ rest) = text ++ stripCommentFrom false false rest := by
  induction text with
  | nil => rfl
  | cons c more ih =>
      obtain ⟨quote, number, -, -⟩ := bare c (List.mem_cons_self ..)
      rw [List.cons_append, stripCommentFrom]
      simp only [Bool.false_eq_true, if_false, and_false, quote, number, false_and]
      rw [ih fun d member => bare d (.tail _ member)]
      rfl

theorem stripCommentFrom_encodeChar (c : Char) (rest : List Char) :
    stripCommentFrom true false (Text.Quoted.encodeChar c ++ rest) =
      Text.Quoted.encodeChar c ++ stripCommentFrom true false rest := by
  unfold Text.Quoted.encodeChar
  split
  · simp [stripCommentFrom]
  · next quote =>
    split
    · simp [stripCommentFrom]
    · next backslash =>
      split
      · simp [stripCommentFrom]
      · split
        · simp [stripCommentFrom]
        · simp [stripCommentFrom, quote, backslash]

theorem stripCommentFrom_encodeBody (text rest : List Char) :
    stripCommentFrom true false (Text.Quoted.encodeBody text ++ rest) =
      Text.Quoted.encodeBody text ++ stripCommentFrom true false rest := by
  induction text with
  | nil => rfl
  | cons c more ih =>
      rw [Text.Quoted.encodeBody, List.append_assoc, stripCommentFrom_encodeChar, ih,
        List.append_assoc]

/-- There is no comment in a string literal. -/
theorem stripComment_literal {text : List Char} (bare : Bare text) (literal : List Char) :
    stripComment (text ++ Text.Quoted.encode literal) = text ++ Text.Quoted.encode literal := by
  unfold stripComment
  rw [stripCommentFrom_bare bare]
  refine congrArg (text ++ ·) ?_
  unfold Text.Quoted.encode
  rw [stripCommentFrom]
  simp only [Bool.false_eq_true, if_false, and_false, if_true, Bool.not_false]
  rw [stripCommentFrom_encodeBody]
  rfl

theorem stripComment_bare {text : List Char} (bare : Bare text) : stripComment text = text := by
  have := stripCommentFrom_bare bare []
  simpa [stripComment, stripCommentFrom] using this

/-! ### Single lines -/

/-- The reader finds a text in a printed line. -/
structure Shows (line : String) (text : List Char) : Prop where
  single : OneLine line.toList
  stripped : trim (stripComment line.toList) = text

/-- A line of words, possibly indented. -/
theorem shows_bare {line : String} {text : List Char} (bare : Bare text) (trimmed : Trimmed text)
    (shape : line.toList = text ∨ line.toList = ' ' :: ' ' :: text) : Shows line text := by
  have indented : Bare (' ' :: ' ' :: text) :=
    Bare.append (show Bare [' ', ' '] by decide) bare
  have blank : Text.isBlank ' ' = true := by decide
  rcases shape with shape | shape
  · refine ⟨shape ▸ bare.oneLine, ?_⟩
    rw [shape, stripComment_bare bare, Text.trim_eq_self trimmed]
  · refine ⟨shape ▸ indented.oneLine, ?_⟩
    rw [shape, stripComment_bare indented, Text.trim_blank _ _ blank, Text.trim_blank _ _ blank,
      Text.trim_eq_self trimmed]

theorem newline_not_mem_encodeBody (text : List Char) : '\n' ∉ Text.Quoted.encodeBody text := by
  induction text with
  | nil => exact List.not_mem_nil
  | cons c rest ih =>
      rw [Text.Quoted.encodeBody, List.mem_append, not_or]
      refine ⟨?_, ih⟩
      unfold Text.Quoted.encodeChar
      split
      · decide
      · split
        · decide
        · split
          · decide
          · next newline =>
            split
            · decide
            · simpa using Ne.symm newline

theorem getLast?_encode (text : List Char) : (Text.Quoted.encode text).getLast? = some '"' := by
  rw [Text.Quoted.encode, ← List.cons_append, List.getLast?_concat]

theorem trimmed_encode (text : List Char) : Trimmed (Text.Quoted.encode text) := by
  constructor
  · intro c first
    cases first
    decide
  · intro c last
    rw [getLast?_encode] at last
    cases last
    decide

/-- An indented line that ends in a string literal. -/
theorem shows_literal {line : String} {word : List Char} (literal : List Char)
    (bare : Bare word) (solid : Text.Solid word) (nonempty : word ≠ [])
    (shape : line.toList = ' ' :: ' ' :: (word ++ ' ' :: Text.Quoted.encode literal)) :
    Shows line (word ++ ' ' :: Text.Quoted.encode literal) := by
  have front : Bare (' ' :: ' ' :: (word ++ [' '])) :=
    (Bare.append (show Bare [' ', ' '] by decide) bare).append (by decide)
  have joined : line.toList = (' ' :: ' ' :: (word ++ [' '])) ++ Text.Quoted.encode literal := by
    rw [shape]
    simp
  have blank : Text.isBlank ' ' = true := by decide
  refine ⟨⟨?_, ?_⟩, ?_⟩
  · rw [joined, List.mem_append, not_or]
    refine ⟨front.oneLine.1, ?_⟩
    simp only [Text.Quoted.encode, List.mem_cons, List.mem_append, not_or]
    exact ⟨by decide, newline_not_mem_encodeBody literal, by decide, List.not_mem_nil⟩
  · rw [joined, List.getLast?_append, getLast?_encode, Option.some_or]
    decide
  · rw [joined, stripComment_literal front]
    have trimmed : Trimmed (word ++ [' '] ++ Text.Quoted.encode literal) :=
      Trimmed.append solid nonempty [' '] (trimmed_encode literal) (List.cons_ne_nil _ _)
    rw [List.cons_append, List.cons_append, Text.trim_blank _ _ blank, Text.trim_blank _ _ blank,
      Text.trim_eq_self trimmed, List.append_assoc]
    rfl

/-! ### All lines -/

/-- The reader finds a list of texts in a list of printed lines. -/
structure Reads (printed : List String) (texts : List (List Char)) : Prop where
  single : ∀ line ∈ printed, OneLine line.toList
  found : (printed.map fun line => trim (stripComment line.toList)).filter
    (fun text => !text.isEmpty) = texts

namespace Reads

variable {printed printed' : List String} {texts texts' : List (List Char)}

theorem nil : Reads [] [] :=
  ⟨fun _ member => absurd member List.not_mem_nil, rfl⟩

theorem append (first : Reads printed texts) (second : Reads printed' texts') :
    Reads (printed ++ printed') (texts ++ texts') where
  single := fun line member =>
    (List.mem_append.mp member).elim (first.single line) (second.single line)
  found := by rw [List.map_append, List.filter_append, first.found, second.found]

theorem one {line : String} {text : List Char} (shows_ : Shows line text) (nonempty : text ≠ []) :
    Reads [line] [text] where
  single := fun other member => by
    rw [List.mem_singleton.mp member]
    exact shows_.single
  found := by
    rw [List.map_singleton, shows_.stripped]
    simp [nonempty]

theorem cons {line : String} {text : List Char} (shows_ : Shows line text) (nonempty : text ≠ [])
    (rest : Reads printed texts) : Reads (line :: printed) (text :: texts) :=
  (one shows_ nonempty).append rest

/-- A blank line is skipped. -/
theorem blank : Reads [""] [] where
  single := fun line member => by
    rw [List.mem_singleton.mp member]
    exact ⟨List.not_mem_nil, by decide⟩
  found := rfl

theorem map {α : Type} {xs : List α} {line : α → String} {text : α → List Char}
    (each : ∀ x ∈ xs, Shows (line x) (text x) ∧ text x ≠ []) :
    Reads (xs.map line) (xs.map text) := by
  induction xs with
  | nil => exact nil
  | cons x rest ih =>
      obtain ⟨shows_, nonempty⟩ := each x (List.mem_cons_self ..)
      exact cons shows_ nonempty (ih fun y member => each y (.tail _ member))

theorem flatMap {α : Type} {xs : List α} {lines : α → List String} {texts : α → List (List Char)}
    (each : ∀ x ∈ xs, Reads (lines x) (texts x)) : Reads (xs.flatMap lines) (xs.flatMap texts) := by
  induction xs with
  | nil => exact nil
  | cons x rest ih =>
      rw [List.flatMap_cons, List.flatMap_cons]
      exact (each x (List.mem_cons_self ..)).append (ih fun y member => each y (.tail _ member))

end Reads

theorem toList_unlines (printed : List String) :
    (unlines printed).toList = (printed.map String.toList).flatMap fun text => text ++ ['\n'] := by
  unfold unlines
  rw [String.toList_join, List.flatMap_map, List.flatMap_map]
  refine congrArg (List.flatMap · printed) (funext fun line => ?_)
  rw [String.toList_append]
  rfl

theorem text_ofRaw? (raw : List Char) (i : Nat) :
    (Line.ofRaw? raw i).map Line.text =
      if (trim (stripComment raw)).isEmpty then none else some (trim (stripComment raw)) := by
  unfold Line.ofRaw?
  simp only
  split <;> rfl

/-- The lines of a printed image, as the reader sees them. -/
theorem texts_linesOf {printed : List String} {texts : List (List Char)}
    (reads : Reads printed texts) : (linesOf (unlines printed)).map Line.text = texts := by
  have single : ∀ text ∈ printed.map String.toList, OneLine text := by
    intro text member
    obtain ⟨line, here, rfl⟩ := List.mem_map.mp member
    exact reads.single line here
  unfold linesOf
  rw [toList_unlines, Text.lines_unlines single, List.map_filterMap]
  have plainly : ∀ (raws : List (List Char)) (start : Nat),
      (raws.zipIdx start).filterMap (fun entry => (Line.ofRaw? entry.1 entry.2).map Line.text) =
        (raws.map fun raw => trim (stripComment raw)).filter (fun text => !text.isEmpty) := by
    intro raws
    induction raws with
    | nil => exact fun _ => rfl
    | cons raw rest ih =>
        intro start
        rw [List.zipIdx_cons, List.filterMap_cons, List.map_cons, List.filter_cons, text_ofRaw?]
        by_cases empty : (trim (stripComment raw)).isEmpty
        · simp only [empty, if_true, Bool.not_true, Bool.false_eq_true, if_false]
          exact ih (start + 1)
        · simp only [empty, Bool.false_eq_true, if_false, Bool.not_false, if_true]
          exact congrArg _ (ih (start + 1))
  rw [plainly, List.map_map]
  exact reads.found

end Image

end HookSplice
