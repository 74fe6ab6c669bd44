import HookSplice.Proofs.PrintedLines

/-!
# String literals in an image

A printed literal comes through every cut of the reader.  Its line holds no line break, no part of
it is taken for a comment or for blanks at an end, it comes apart behind the mnemonic, and the
literal gives its text back, whatever quotes, backslashes, number signs and blanks the text holds.
The reader takes no other literals, but for tabs and line feeds that stand for themselves.
-/

namespace HookSplice

namespace Text.Quoted

/-- What may stand between the quotes of a literal of a text: each character as it is quoted, while
    a tab or a line feed may also stand for itself. -/
inductive Spells : List Char → List Char → Prop
  | nil : Spells [] []
  | quoted {body text : List Char} (c : Char) (rest : Spells body text) :
      Spells (encodeChar c ++ body) (c :: text)
  | unescaped {body text : List Char} {c : Char} (loose : c = '\t' ∨ c = '\n')
      (rest : Spells body text) : Spells (c :: body) (c :: text)

/-! ### Single characters -/

theorem decodeBody_unescaped {c : Char} (loose : c = '\t' ∨ c = '\n') (rest : List Char) :
    decodeBody (c :: rest) = (decodeBody rest).map (c :: ·) := by
  rcases loose with rfl | rfl <;> simp [decodeBody]

/-- A backslash and the character behind it are the quoted form of what they stand for. -/
theorem encodeChar_of_unescape? {c u : Char} (stands : unescape? c = some u) :
    encodeChar u = ['\\', c] := by
  unfold unescape? at stands
  split at stands
  · next same => cases stands; rw [same]; rfl
  split at stands
  · next same => cases stands; rw [same]; rfl
  split at stands
  · next same => cases stands; rw [same]; rfl
  split at stands
  · next same => cases stands; rw [same]; rfl
  · cases stands

/-- A character that needs no backslash is its own quoted form, unless it is a tab or a line
    feed. -/
theorem encodeChar_or_loose {c : Char} (quote : c ≠ '"') (backslash : c ≠ '\\') :
    encodeChar c = [c] ∨ c = '\t' ∨ c = '\n' := by
  unfold encodeChar
  rw [if_neg quote, if_neg backslash]
  by_cases newline : c = '\n'
  · exact Or.inr (Or.inr newline)
  by_cases tab : c = '\t'
  · exact Or.inr (Or.inl tab)
  · rw [if_neg newline, if_neg tab]
    exact Or.inl rfl

/-! ### Whole literals -/

theorem Spells.decodeBody_eq {body text : List Char} (spells : Spells body text) :
    decodeBody (body ++ ['"']) = some text := by
  induction spells with
  | nil => rfl
  | quoted c _ ih => rw [List.append_assoc, decodeBody_encodeChar, ih, Option.map_some]
  | unescaped loose _ ih => rw [List.cons_append, decodeBody_unescaped loose, ih, Option.map_some]

/-- What is read up to a closing quote has been spelled in front of it. -/
theorem spells_of_decodeBody {inner text : List Char} (success : decodeBody inner = some text) :
    ∃ body, inner = body ++ ['"'] ∧ Spells body text := by
  fun_induction decodeBody inner generalizing text with
  | case1 => cases success
  | case2 rest last =>
      cases success
      rw [List.isEmpty_iff.mp last]
      exact ⟨[], rfl, .nil⟩
  | case3 => cases success
  | case4 c rest u stands ih =>
      obtain ⟨text, later, rfl⟩ := Option.map_eq_some_iff.mp success
      obtain ⟨body, rfl, spells⟩ := ih later
      refine ⟨encodeChar u ++ body, ?_, .quoted u spells⟩
      rw [encodeChar_of_unescape? stands]
      rfl
  | case5 => cases success
  | case6 => cases success
  | case7 c rest quote _ backslash ih =>
      obtain ⟨text, later, rfl⟩ := Option.map_eq_some_iff.mp success
      obtain ⟨body, rfl, spells⟩ := ih later
      refine ⟨c :: body, rfl, ?_⟩
      rcases encodeChar_or_loose quote backslash with plain | loose
      · have spelled := Spells.quoted c spells
        rwa [plain] at spelled
      · exact .unescaped loose spells

/-- A literal is read as a text exactly if it spells that text between two quotes. -/
theorem decode_eq_some_iff {literal text : List Char} :
    decode literal = some text ↔ ∃ body, literal = '"' :: (body ++ ['"']) ∧ Spells body text := by
  constructor
  · intro success
    unfold decode at success
    split at success
    · obtain ⟨body, rfl, spells⟩ := spells_of_decodeBody success
      exact ⟨body, rfl, spells⟩
    · cases success
  · rintro ⟨body, rfl, spells⟩
    exact spells.decodeBody_eq

end Text.Quoted

namespace Image

/-- The reader makes a line of its own of a printed line that holds something. -/
theorem Shows.ofRaw?_eq {line : String} {text : List Char} (shows_ : Shows line text)
    (nonempty : text ≠ []) (index : Nat) :
    Line.ofRaw? line.toList index = some ⟨index + 1, text, line.toList⟩ := by
  unfold Line.ofRaw?
  simp only [shows_.stripped, List.isEmpty_eq_false_iff.mpr nonempty, Bool.false_eq_true, if_false]

/-- The printed line of an instruction that loads a text. -/
theorem toList_textLine (symbols : SymbolTable) (names : Label → String) (labels : List Label)
    (text : String) :
    ("  " ++ instructionText symbols names ⟨.ldstr, .text text, labels⟩).toList =
      "  ldstr ".toList ++ Text.Quoted.encode text.toList := by
  show ("  " ++ ("ldstr" ++ " " ++ String.ofList (Text.Quoted.encode text.toList))).toList = _
  simp only [String.toList_append, String.toList_ofList, ← List.append_assoc]
  rfl

/-- How the reader of an image comes from a line to the text that the line loads. -/
structure LoadsText (line text : String) : Prop where
  shape : line.toList = "  ldstr ".toList ++ Text.Quoted.encode text.toList
  unbroken : '\n' ∉ line.toList
  alone : ∀ rest, Text.lines (line.toList ++ '\n' :: rest) = line.toList :: Text.lines rest
  uncommented : stripComment line.toList = line.toList
  whole : ∀ index, Line.ofRaw? line.toList index =
    some ⟨index + 1, "ldstr ".toList ++ Text.Quoted.encode text.toList, line.toList⟩
  cut : Text.splitFirst ("ldstr ".toList ++ Text.Quoted.encode text.toList) =
    ("ldstr".toList, Text.Quoted.encode text.toList)
  decoded : Text.Quoted.decode (Text.Quoted.encode text.toList) = some text.toList

/-- A line that holds nothing but the loading of a text is read back as it was printed. -/
theorem loadsText_of_shape {line text : String}
    (shape : line.toList = "  ldstr ".toList ++ Text.Quoted.encode text.toList) :
    LoadsText line text := by
  have shown : Shows line ("ldstr ".toList ++ Text.Quoted.encode text.toList) :=
    shows_literal text.toList (show Text.Bare "ldstr".toList by decide) (by decide) (by decide)
      shape
  exact {
    shape := shape
    unbroken := shown.single.1
    alone := Text.lines_append shown.single
    uncommented := by
      rw [shape]
      exact stripComment_literal (by decide) text.toList
    whole := shown.ofRaw?_eq (List.cons_ne_nil _ _)
    cut := Text.splitFirst_append (show Text.Solid "ldstr".toList by decide)
      (trimmed_encode text.toList)
    decoded := Text.Quoted.decode_encode text.toList }

/-- The printed line that loads a text is read back as a whole, and the reader takes a literal for a
    text exactly if it is the quoted form of that text, up to tabs and line feeds that are not
    escaped. -/
theorem literals_survive :
    (∀ (symbols : SymbolTable) (names : Label → String) (labels : List Label) (text : String),
      LoadsText ("  " ++ instructionText symbols names ⟨.ldstr, .text text, labels⟩) text) ∧
    ∀ literal text : List Char, Text.Quoted.decode literal = some text ↔
      ∃ body, literal = '"' :: (body ++ ['"']) ∧ Text.Quoted.Spells body text :=
  ⟨fun symbols names labels text => loadsText_of_shape (toList_textLine symbols names labels text),
    fun _ _ => Text.Quoted.decode_eq_some_iff⟩

end Image

end HookSplice
