/-!
# Quoted literals

String literals of a host image: the text stands between double quotes, and a quote, a backslash,
a line feed and a tab are written with a backslash.  `decode` also accepts a line feed or a tab
that stands for itself.  Main statement: `decode` gives back what `encode` wrote.
-/

namespace HookSplice.Text.Quoted

/-- The characters that stand for `c` between the quotes. -/
def encodeChar (c : Char) : List Char :=
  if c = '"' then ['\\', '"']
  else if c = '\\' then ['\\', '\\']
  else if c = '\n' then ['\\', 'n']
  else if c = '\t' then ['\\', 't']
  else [c]

/-- What stands between the quotes of the literal of a text. -/
def encodeBody : List Char → List Char
  | [] => []
  | c :: rest => encodeChar c ++ encodeBody rest

/-- The literal of a text. -/
def encode (text : List Char) : List Char :=
  '"' :: (encodeBody text ++ ['"'])

/-- The character that a backslash and `c` stand for. -/
def unescape? (c : Char) : Option Char :=
  if c = 'n' then some '\n'
  else if c = 't' then some '\t'
  else if c = '"' then some '"'
  else if c = '\\' then some '\\'
  else none

/-- Reads up to the closing quote, which must be the last character. -/
def decodeBody : List Char → Option (List Char)
  | [] => none
  | '"' :: rest => if rest.isEmpty then some [] else none
  | '\\' :: c :: rest =>
      match unescape? c with
      | some u => (decodeBody rest).map (u :: ·)
      | none => none
  | c :: rest => if c = '\\' then none else (decodeBody rest).map (c :: ·)

/-- The text of a literal. -/
def decode : List Char → Option (List Char)
  | '"' :: rest => decodeBody rest
  | _ => none

theorem decodeBody_encodeChar (c : Char) (rest : List Char) :
    decodeBody (encodeChar c ++ rest) = (decodeBody rest).map (c :: ·) := by
  unfold encodeChar
  split
  · next h => subst h; simp [decodeBody, unescape?]
  · split
    · next h => subst h; simp [decodeBody, unescape?]
    · split
      · next h => subst h; simp [decodeBody, unescape?]
      · split
        · next h => subst h; simp [decodeBody, unescape?]
        · next _ hb _ _ => simp [decodeBody, hb]

theorem decodeBody_encodeBody (text : List Char) :
    decodeBody (encodeBody text ++ ['"']) = some text := by
  induction text with
  | nil => simp [encodeBody, decodeBody]
  | cons c rest ih => simp [encodeBody, List.append_assoc, decodeBody_encodeChar, ih]

/-- A literal reads back as the text it was written for. -/
theorem decode_encode (text : List Char) : decode (encode text) = some text := by
  simp [encode, decode, decodeBody_encodeBody]

end HookSplice.Text.Quoted
