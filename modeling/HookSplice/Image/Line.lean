import HookSplice.Text.Blank

/-!
# Lines of a host image

A host image is read line by line.  A comment starts at a `#` outside of a string literal; lines
that hold nothing else are skipped.
-/

namespace HookSplice.Image

/-- A line that is not empty: its number from one on, its text without comment and surrounding
    blanks, and the line as it stands in the image. -/
structure Line where
  number : Nat
  text : List Char
  raw : List Char
  deriving DecidableEq

/-- The part of a line before its comment.  `inString` tells whether a string literal is open,
    `escaped` whether the last character was a backslash in it. -/
def stripCommentFrom (inString escaped : Bool) : List Char → List Char
  | [] => []
  | c :: rest =>
      if escaped then c :: stripCommentFrom inString false rest
      else if c = '\\' ∧ inString then c :: stripCommentFrom inString true rest
      else if c = '"' then c :: stripCommentFrom (!inString) false rest
      else if c = '#' ∧ !inString then []
      else c :: stripCommentFrom inString false rest

/-- The part of a line before its comment. -/
def stripComment (raw : List Char) : List Char :=
  stripCommentFrom false false raw

/-- The line with a number, unless nothing is left of it. -/
def Line.ofRaw? (raw : List Char) (index : Nat) : Option Line :=
  let text := Text.trim (stripComment raw)
  if text.isEmpty then none else some ⟨index + 1, text, raw⟩

/-- The lines of an image that hold something. -/
def linesOf (image : String) : List Line :=
  (Text.lines image.toList).zipIdx.filterMap fun (raw, i) => Line.ofRaw? raw i

end HookSplice.Image
