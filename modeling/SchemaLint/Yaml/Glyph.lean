namespace SchemaLint

namespace Yaml

/-!
# Glyphs of YAML texts

A YAML text is read as a row of glyphs: characters that know the line and column in
which they stand.  Line breaks come in several spellings; all but the two separators
of Unicode are written as a line feed here.

A text that holds a control character has no glyphs.  A byte order mark is a character
like others; only where a token is sought at the start of a line it is passed over.
-/

/-- A character with its place in a text.  `index` counts the bytes before it. -/
structure Glyph where
  char : Char
  line : Nat
  column : Nat
  index : Nat
deriving DecidableEq, Inhabited

/-- The line separator and the paragraph separator. -/
def isSeparator (c : Char) : Bool := c == '\u2028' || c == '\u2029'

/-- The characters that end a line, once breaks are written alike. -/
def isBreak (c : Char) : Bool := c == '\n' || isSeparator c

/-- The characters that part words within a line. -/
def isBlank (c : Char) : Bool := c == ' ' || c == '\t'

/-- Blanks and breaks. -/
def isSpace (c : Char) : Bool := isBlank c || isBreak c

/-- The characters of anchors, handles and directive names. -/
def isWordChar (c : Char) : Bool := c.isAlphanum || c == '_' || c == '-'

/-- The characters that a text may hold. -/
def isAllowed (c : Char) : Bool :=
  let n := c.toNat
  n == 0x09 || n == 0x0A || n == 0x0D || n == 0x85 || (0x20 ≤ n && n ≤ 0x7E) ||
    (0xA0 ≤ n && n ≤ 0xD7FF) || (0xE000 ≤ n && n ≤ 0xFFFD) || 0x10000 ≤ n

/-- The glyphs of a text that starts at the given place. -/
def glyphsFrom (line column index : Nat) : List Char → List Glyph
  | [] => []
  | '\r' :: '\n' :: rest => ⟨'\n', line, column, index⟩ :: glyphsFrom (line + 1) 0 (index + 2) rest
  | c :: rest =>
    if c = '\r' ∨ c = '\n' ∨ c = '\u0085' then
      ⟨'\n', line, column, index⟩ :: glyphsFrom (line + 1) 0 (index + c.utf8Size) rest
    else if isSeparator c then
      ⟨c, line, column, index⟩ :: glyphsFrom (line + 1) 0 (index + c.utf8Size) rest
    else ⟨c, line, column, index⟩ :: glyphsFrom line (column + 1) (index + c.utf8Size) rest

/-- The glyphs of a text. -/
def glyphs? (text : String) : Option (List Glyph) :=
  let chars := text.toList
  if chars.all isAllowed then some (glyphsFrom 0 0 0 chars) else none

/-- Whether the first glyph is the given character. -/
def startsWith (c : Char) : List Glyph → Bool
  | [] => false
  | glyph :: _ => glyph.char == c

/-- Whether the first glyph is one of the given characters. -/
def startsWithAny (chars : List Char) : List Glyph → Bool
  | [] => false
  | glyph :: _ => chars.contains glyph.char

/-- Whether a word ends here: at a blank, a break or the end of the text. -/
def endsWord : List Glyph → Bool
  | [] => true
  | glyph :: _ => isSpace glyph.char

/-- What follows three times `c` at the start of a line, if a word ends there. -/
def documentMark? (c : Char) : List Glyph → Option (List Glyph)
  | first :: second :: third :: rest =>
    if first.column = 0 ∧ first.char = c ∧ second.char = c ∧ third.char = c ∧ endsWord rest then
      some rest
    else none
  | _ => none

theorem length_after_of_documentMark? {c : Char} {glyphs rest : List Glyph}
    (h : documentMark? c glyphs = some rest) : rest.length + 3 = glyphs.length := by
  unfold documentMark? at h
  split at h
  · split at h
    · cases h
      rfl
    · cases h
  · cases h

/-- Whether a document starts or ends here. -/
def atDocumentMark (glyphs : List Glyph) : Bool :=
  (documentMark? '-' glyphs).isSome || (documentMark? '.' glyphs).isSome

/-- The text of glyphs. -/
def chars (glyphs : List Glyph) : List Char := glyphs.map (·.char)

/-- What follows the blanks of a line. -/
def skipBlanks (glyphs : List Glyph) : List Glyph :=
  glyphs.dropWhile fun glyph => isBlank glyph.char

theorem length_dropWhile_le (p : Glyph → Bool) (glyphs : List Glyph) :
    (glyphs.dropWhile p).length ≤ glyphs.length :=
  (List.dropWhile_sublist p).length_le

theorem length_skipBlanks_le (glyphs : List Glyph) :
    (skipBlanks glyphs).length ≤ glyphs.length :=
  length_dropWhile_le _ glyphs

/-- What follows the line, if nothing but blanks and a comment is left of it. -/
def endOfLine? (glyphs : List Glyph) : Option (List Glyph) :=
  let rest := skipBlanks glyphs
  let rest := if startsWith '#' rest then rest.dropWhile fun glyph => !isBreak glyph.char else rest
  match rest with
  | [] => some []
  | glyph :: after => if isBreak glyph.char then some after else none

theorem length_after_of_endOfLine? {glyphs rest : List Glyph}
    (h : endOfLine? glyphs = some rest) : rest.length ≤ glyphs.length := by
  have hblanks := length_skipBlanks_le glyphs
  have hcomment := length_dropWhile_le (fun glyph => !isBreak glyph.char) (skipBlanks glyphs)
  unfold endOfLine? at h
  dsimp only at h
  split at h
  · cases h
    exact Nat.zero_le _
  · next glyph after hrest =>
    have hafter : after.length < (skipBlanks glyphs).length := by
      split at hrest
      · rw [hrest, List.length_cons] at hcomment
        omega
      · rw [hrest, List.length_cons]
        omega
    split at h
    · cases h
      omega
    · cases h

/-- The value of a hexadecimal digit. -/
def hexDigit? (c : Char) : Option Nat :=
  if c.isDigit then some (c.toNat - '0'.toNat)
  else if 'a' ≤ c ∧ c ≤ 'f' then some (c.toNat - 'a'.toNat + 10)
  else if 'A' ≤ c ∧ c ≤ 'F' then some (c.toNat - 'A'.toNat + 10)
  else none

/-- The number that exactly `count` hexadecimal digits spell, behind `value`. -/
def readHex (count value : Nat) (glyphs : List Glyph) : Option (Nat × List Glyph) :=
  match count, glyphs with
  | 0, rest => some (value, rest)
  | _ + 1, [] => none
  | count + 1, glyph :: rest =>
    match hexDigit? glyph.char with
    | some digit => readHex count (value * 16 + digit) rest
    | none => none

theorem length_after_of_readHex {count value number : Nat} {glyphs rest : List Glyph}
    (h : readHex count value glyphs = some (number, rest)) :
    rest.length + count = glyphs.length := by
  fun_induction readHex count value glyphs with
  | case1 => simp_all
  | case2 => cases h
  | case3 _ _ _ _ _ _ ih =>
    have hlength := ih h
    rw [List.length_cons]
    omega
  | case4 => cases h

end Yaml

end SchemaLint
