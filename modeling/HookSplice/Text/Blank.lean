/-!
# Blanks, words and lines

Everything the reader of a host image does with white space: which characters are blank, how a
text is trimmed, cut into lines, and cut at its first blank.  Texts are lists of characters here,
so that each cut is a recursion on the text.
-/

namespace HookSplice.Text

/-- The characters with the Unicode property `White_Space`. -/
def isBlank (c : Char) : Bool :=
  let n := c.toNat
  (9 ≤ n && n ≤ 13) || n == 0x20 || n == 0x85 || n == 0xA0 || n == 0x1680 ||
    (0x2000 ≤ n && n ≤ 0x200A) || n == 0x2028 || n == 0x2029 || n == 0x202F || n == 0x205F ||
    n == 0x3000

/-- The text without the blanks at its end. -/
def trimEnd (text : List Char) : List Char :=
  (text.reverse.dropWhile isBlank).reverse

/-- The text without the blanks at either end. -/
def trim (text : List Char) : List Char :=
  trimEnd (text.dropWhile isBlank)

/-- The pieces between the characters that satisfy `cut`, empty pieces included: one piece more
    than there are cuts. -/
def pieces (cut : Char → Bool) : List Char → List (List Char)
  | [] => [[]]
  | c :: rest =>
      if cut c then [] :: pieces cut rest
      else
        match pieces cut rest with
        | [] => [[c]]
        | first :: others => (c :: first) :: others

/-- The nonempty pieces between the characters that satisfy `cut`. -/
def fieldsBetween (cut : Char → Bool) (text : List Char) : List (List Char) :=
  (pieces cut text).filter fun piece => !piece.isEmpty

/-- The words of a text: its nonempty pieces between blanks. -/
def words (text : List Char) : List (List Char) :=
  fieldsBetween isBlank text

/-- The text up to its first blank, and the trimmed text after it. -/
def splitFirst (text : List Char) : List Char × List Char :=
  (text.takeWhile fun c => !isBlank c, trim (text.dropWhile fun c => !isBlank c))

/-- A line without the carriage return that a line break left at its end. -/
def dropReturn (line : List Char) : List Char :=
  match line.reverse with
  | '\r' :: rest => rest.reverse
  | _ => line

/-- The lines of a text that has been cut at its line feeds.  The last piece ends in no line feed:
    it is a line only when it is not empty, and keeps its carriage return. -/
def linesOfPieces : List (List Char) → List (List Char)
  | [] => []
  | [last] => if last.isEmpty then [] else [last]
  | line :: next :: rest => dropReturn line :: linesOfPieces (next :: rest)

/-- The lines of a text, each without the line feed (and the carriage return before it) that
    ends it. -/
def lines (text : List Char) : List (List Char) :=
  linesOfPieces (pieces (· == '\n') text)

/-- The text before and after the last double colon, if there is one. -/
def splitLastColons : List Char → Option (List Char × List Char)
  | [] => none
  | c :: rest =>
      match splitLastColons rest with
      | some (before, after) => some (c :: before, after)
      | none =>
          match c, rest with
          | ':', ':' :: after => some ([], after)
          | _, _ => none

/-- The text before and after the first character `mark`, if there is one. -/
def splitAtFirst (mark : Char) : List Char → Option (List Char × List Char)
  | [] => none
  | c :: rest =>
      if c == mark then some ([], rest)
      else (splitAtFirst mark rest).map fun (before, after) => (c :: before, after)

/-- The text without its last character, when that character is `mark`. -/
def dropLast? (mark : Char) (text : List Char) : Option (List Char) :=
  match text.reverse with
  | [] => none
  | c :: rest => if c == mark then some rest.reverse else none

end HookSplice.Text
