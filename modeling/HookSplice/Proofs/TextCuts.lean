import HookSplice.Image.Line
import Mathlib.Data.List.TakeWhile

/-!
# Cutting texts that were put together

The reader of an image cuts its text into lines, lines into words, and parameter lists into names.
Each cut is undone here: texts that were put together with separators between them, which do not
occur inside of them, come apart again.
-/

namespace HookSplice.Text

/-! ### Trimming -/

/-- Nothing is taken off at either end of the text. -/
def Trimmed (text : List Char) : Prop :=
  (∀ c ∈ text.head?, isBlank c = false) ∧ ∀ c ∈ text.getLast?, isBlank c = false

/-- A text without blanks. -/
def Solid (text : List Char) : Prop :=
  ∀ c ∈ text, isBlank c = false

instance (text : List Char) : Decidable (Solid text) :=
  List.decidableBAll (fun c => isBlank c = false) text

theorem Solid.append {text text' : List Char} (first : Solid text) (second : Solid text') :
    Solid (text ++ text') :=
  fun c member => (List.mem_append.mp member).elim (first c) (second c)

theorem Solid.trimmed {text : List Char} (solid : Solid text) : Trimmed text :=
  ⟨fun c first => solid c (List.mem_of_mem_head? first),
    fun c last => solid c (List.mem_of_getLast? last)⟩

/-- A text that starts with a solid word and ends as a trimmed text does. -/
theorem Trimmed.append {word text : List Char} (solid : Solid word) (nonempty : word ≠ [])
    (between : List Char) (trimmed : Trimmed text) (nonempty' : text ≠ []) :
    Trimmed (word ++ between ++ text) := by
  constructor
  · intro c first
    rw [List.append_assoc, List.head?_append, List.head?_eq_some_head nonempty] at first
    exact solid.trimmed.1 c (by rw [List.head?_eq_some_head nonempty]; exact first)
  · intro c last
    rw [List.getLast?_append, List.getLast?_eq_some_getLast nonempty'] at last
    exact trimmed.2 c (by rw [List.getLast?_eq_some_getLast nonempty']; exact last)

theorem dropWhile_eq_self {p : Char → Bool} {text : List Char}
    (stops : ∀ c ∈ text.head?, p c = false) : text.dropWhile p = text := by
  cases text with
  | nil => rfl
  | cons c rest => rw [List.dropWhile_cons, stops c rfl]; rfl

theorem trim_eq_self {text : List Char} (trimmed : Trimmed text) : trim text = text := by
  unfold trim trimEnd
  rw [dropWhile_eq_self trimmed.1, dropWhile_eq_self, List.reverse_reverse]
  intro c first
  rw [List.head?_reverse] at first
  exact trimmed.2 c first

theorem trim_blank (c : Char) (text : List Char) (blank : isBlank c = true) :
    trim (c :: text) = trim text := by
  unfold trim
  rw [List.dropWhile_cons, if_pos blank]

/-! ### The first word -/

theorem splitFirst_solid {word : List Char} (solid : Solid word) :
    splitFirst word = (word, []) := by
  have all : ∀ c ∈ word, (!isBlank c) = true := fun c member => by rw [solid c member]; rfl
  unfold splitFirst
  rw [List.takeWhile_eq_self_iff.mpr all, List.dropWhile_eq_nil_iff.mpr all]
  rfl

theorem splitFirst_append {word rest : List Char} (solid : Solid word) (trimmed : Trimmed rest) :
    splitFirst (word ++ ' ' :: rest) = (word, rest) := by
  have all : ∀ c ∈ word, (!isBlank c) = true := fun c member => by rw [solid c member]; rfl
  have blank : isBlank ' ' = true := by decide
  unfold splitFirst
  rw [List.takeWhile_append_of_pos all, List.dropWhile_append_of_pos all, List.takeWhile_cons,
    List.dropWhile_cons, blank]
  simp only [Bool.not_true, Bool.false_eq_true, if_false, List.append_nil]
  rw [trim_blank _ _ blank, trim_eq_self trimmed]

/-! ### Pieces -/

section Pieces

variable {cut : Char → Bool}

theorem pieces_ne_nil (text : List Char) : pieces cut text ≠ [] := by
  cases text with
  | nil => exact List.cons_ne_nil _ _
  | cons c rest =>
      unfold pieces
      split
      · exact List.cons_ne_nil _ _
      · split <;> exact List.cons_ne_nil _ _

theorem pieces_whole {text : List Char} (whole : ∀ c ∈ text, cut c = false) :
    pieces cut text = [text] := by
  induction text with
  | nil => rfl
  | cons c rest ih =>
      rw [pieces, whole c (List.mem_cons_self ..), ih fun d member => whole d (.tail _ member)]
      rfl

theorem pieces_append {text : List Char} (whole : ∀ c ∈ text, cut c = false) {mark : Char}
    (cuts : cut mark = true) (rest : List Char) :
    pieces cut (text ++ mark :: rest) = text :: pieces cut rest := by
  induction text with
  | nil => rw [List.nil_append, pieces, if_pos cuts]
  | cons c more ih =>
      rw [List.cons_append, pieces, whole c (List.mem_cons_self ..),
        ih fun d member => whole d (.tail _ member)]
      rfl

theorem pieces_intercalate {mark : Char} (cuts : cut mark = true) {texts : List (List Char)}
    (nonempty : texts ≠ []) (whole : ∀ text ∈ texts, ∀ c ∈ text, cut c = false) :
    pieces cut ([mark].intercalate texts) = texts := by
  induction texts with
  | nil => contradiction
  | cons text rest ih =>
      have first := whole text (List.mem_cons_self ..)
      cases rest with
      | nil => rw [List.intercalate_singleton, pieces_whole first]
      | cons next more =>
          rw [List.intercalate_cons_cons, List.append_assoc, List.singleton_append,
            pieces_append first cuts, ih (List.cons_ne_nil _ _)]
          exact fun text member => whole text (.tail _ member)

/-- Nonempty texts with blanks between them. -/
theorem fieldsBetween_intercalate {mark : Char} (cuts : cut mark = true)
    {texts : List (List Char)} (whole : ∀ text ∈ texts, ∀ c ∈ text, cut c = false)
    (nonempty : ∀ text ∈ texts, text ≠ []) :
    fieldsBetween cut ([mark].intercalate texts) = texts := by
  cases texts with
  | nil => rfl
  | cons text rest =>
      unfold fieldsBetween
      rw [pieces_intercalate cuts (List.cons_ne_nil _ _) whole, List.filter_eq_self]
      intro text member
      rw [List.isEmpty_eq_false_iff.mpr (nonempty text member)]
      rfl

/-- A list of texts with commas and blanks between them. -/
theorem listed_intercalate {texts : List (List Char)} (whole : ∀ text ∈ texts, ',' ∉ text)
    (trimmed : ∀ text ∈ texts, Trimmed text) (nonempty : ∀ text ∈ texts, text ≠ []) :
    ((pieces (· == ',') ([',', ' '].intercalate texts)).map trim).filter (fun p => !p.isEmpty) =
      texts := by
  cases texts with
  | nil => rfl
  | cons text rest =>
      -- the blank behind a comma belongs to the next piece
      have joined : [',', ' '].intercalate (text :: rest) =
          [','].intercalate (text :: rest.map (' ' :: ·)) := by
        clear whole trimmed nonempty
        induction rest generalizing text with
        | nil => simp
        | cons next more ih =>
            rw [List.intercalate_cons_cons, ih, List.map_cons, List.intercalate_cons_cons,
              List.intercalate_cons_cons_left]
            simp
      have blank : isBlank ' ' = true := by decide
      have apart : pieces (fun c => c == ',') ([','].intercalate (text :: rest.map (' ' :: ·))) =
          text :: rest.map (' ' :: ·) := by
        refine pieces_intercalate (by decide) (List.cons_ne_nil _ _) fun p member c inside => ?_
        refine beq_false_of_ne ?_
        rintro rfl
        rcases List.mem_cons.mp member with rfl | member
        · exact whole p (List.mem_cons_self ..) inside
        · obtain ⟨next, inRest, rfl⟩ := List.mem_map.mp member
          rcases List.mem_cons.mp inside with equal | inside
          · cases equal
          · exact whole next (.tail _ inRest) inside
      have trims : (text :: rest.map (' ' :: ·)).map trim = text :: rest := by
        rw [List.map_cons, List.map_map, trim_eq_self (trimmed text (List.mem_cons_self ..))]
        refine congrArg (text :: ·) ((List.map_congr_left fun next member => ?_).trans
          (List.map_id rest))
        rw [Function.comp_apply, trim_blank _ _ blank, trim_eq_self (trimmed next (.tail _ member))]
        rfl
      rw [joined, apart, trims, List.filter_eq_self]
      intro p member
      rw [List.isEmpty_eq_false_iff.mpr (nonempty p member)]
      rfl

end Pieces

/-! ### Lines -/

/-- A text that stands on one line by itself. -/
def OneLine (text : List Char) : Prop :=
  '\n' ∉ text ∧ text.getLast? ≠ some '\r'

theorem dropReturn_oneLine {text : List Char} (single : OneLine text) : dropReturn text = text := by
  unfold dropReturn
  split
  · next rest reversed =>
      refine absurd ?_ single.2
      rw [List.getLast?_eq_head?_reverse, reversed]
      rfl
  · rfl

/-- A line comes off the text in front of its line break. -/
theorem lines_append {text : List Char} (single : OneLine text) (rest : List Char) :
    lines (text ++ '\n' :: rest) = text :: lines rest := by
  have whole : ∀ c ∈ text, (c == '\n') = false := fun c member =>
    beq_false_of_ne fun equal => single.1 (equal ▸ member)
  unfold lines
  rw [pieces_append whole rfl]
  cases later : pieces (· == '\n') rest with
  | nil => exact absurd later (pieces_ne_nil rest)
  | cons next more => rw [linesOfPieces, dropReturn_oneLine single]

theorem lines_unlines {texts : List (List Char)} (single : ∀ text ∈ texts, OneLine text) :
    lines (texts.flatMap fun text => text ++ ['\n']) = texts := by
  induction texts with
  | nil => rfl
  | cons text rest ih =>
      rw [List.flatMap_cons, List.append_assoc, List.singleton_append,
        lines_append (single text (List.mem_cons_self ..)),
        ih fun next member => single next (.tail _ member)]

/-! ### Marks -/

theorem splitAtFirst_append {mark : Char} {before : List Char} (absent : mark ∉ before)
    (after : List Char) : splitAtFirst mark (before ++ mark :: after) = some (before, after) := by
  induction before with
  | nil => simp [splitAtFirst]
  | cons c rest ih =>
      rw [List.mem_cons, not_or] at absent
      rw [List.cons_append, splitAtFirst, if_neg (by simpa using Ne.symm absent.1), ih absent.2]
      rfl

/-- Two texts that are cut at the first mark agree on both sides of it. -/
theorem append_cons_inj {mark : Char} {before before' after after' : List Char}
    (absent : mark ∉ before) (absent' : mark ∉ before')
    (same : before ++ mark :: after = before' ++ mark :: after') :
    before = before' ∧ after = after' := by
  have cuts := congrArg (splitAtFirst mark) same
  rw [splitAtFirst_append absent, splitAtFirst_append absent', Option.some.injEq,
    Prod.mk.injEq] at cuts
  exact cuts

theorem dropLast?_append (mark : Char) (text : List Char) :
    dropLast? mark (text ++ [mark]) = some text := by
  simp [dropLast?]

theorem splitLastColons_none {text : List Char} (absent : ':' ∉ text) :
    splitLastColons text = none := by
  induction text with
  | nil => rfl
  | cons c rest ih =>
      rw [List.mem_cons, not_or] at absent
      rw [splitLastColons, ih absent.2]
      rintro _ rfl
      exact absurd rfl absent.1

theorem splitLastColons_cons {c : Char} {rest before after : List Char}
    (later : splitLastColons rest = some (before, after)) :
    splitLastColons (c :: rest) = some (c :: before, after) := by
  unfold splitLastColons
  rw [later]

theorem splitLastColons_here {after : List Char} (last : splitLastColons (':' :: after) = none) :
    splitLastColons (':' :: ':' :: after) = some ([], after) := by
  unfold splitLastColons
  rw [last]
  rfl

/-- Text in front changes only the part before the cut. -/
theorem splitLastColons_append_of_some {text before after : List Char}
    (cut : splitLastColons text = some (before, after)) (front : List Char) :
    splitLastColons (front ++ text) = some (front ++ before, after) := by
  induction front with
  | nil => exact cut
  | cons c rest ih => exact splitLastColons_cons ih

theorem splitLastColons_append (before : List Char) {after : List Char} (absent : ':' ∉ after) :
    splitLastColons (before ++ ':' :: ':' :: after) = some (before, after) := by
  have single : splitLastColons (':' :: after) = none := by
    rw [splitLastColons, splitLastColons_none absent]
    rintro more - rfl
    exact absent (List.mem_cons_self ..)
  rw [splitLastColons_append_of_some (splitLastColons_here single), List.append_nil]

end HookSplice.Text
