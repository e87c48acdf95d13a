import SchemaLint.Yaml.Glyph
import SchemaLint.Yaml.Number

namespace SchemaLint

namespace Yaml

/-!
# Writing scalars

A text is written plain where it reads back as that text, else in single quotes, and in
double quotes when it holds characters that cannot be shown.  A text of several lines is
written as a literal block where blanks at the ends of lines do not forbid it.
-/

/-- The styles of a written text. -/
inductive Style where
  | plain
  | single
  | double
  | literal
deriving DecidableEq, Inhabited

/-- Whether a character can be written as it is. -/
def isPrintable (c : Char) : Bool :=
  let n := c.toNat
  n == 0x0A || (0x20 ≤ n && n ≤ 0x7E) || (0xA0 ≤ n && n ≤ 0xD7FF) ||
    (0xE000 ≤ n && n ≤ 0xFFFD && n != 0xFEFF) || 0x10000 ≤ n

/-- Whether a first character is followed by a second. -/
def hasPair (first second : Char → Bool) : List Char → Bool
  | a :: b :: rest => (first a && second b) || hasPair first second (b :: rest)
  | _ => false

/-- Whether a text ends in a character that passes a test. -/
def endsIn (test : Char → Bool) (text : List Char) : Bool := (text.getLast?.map test).getD false

/-- The words that read as something else than a text. -/
def reservedWords : List String :=
  ["null", "Null", "NULL", "~", "true", "True", "TRUE", "false", "False", "FALSE"]

/-- Whether a text of one line reads as something else than itself when it is plain. -/
def isAmbiguous (text : List Char) : Bool :=
  text.isEmpty || reservedWords.contains (String.ofList text) || looksLikeNumber text

/-- The marks that no plain text starts with. -/
def leadingMarks : List Char := "#,[]\x7b\x7d&*!|>'\"%@`".toList

/-- Whether a text starts like something else than a plain text. -/
def startsLikeMark (text : List Char) : Bool :=
  "---".toList.isPrefixOf text || "...".toList.isPrefixOf text ||
    match text with
    | [] => false
    | c :: rest =>
      leadingMarks.contains c ||
        ((c == '-' || c == '?' || c == ':') && ((rest.head?.map isSpace).getD true))

/-- Whether a text can be written plain. -/
def allowsPlain (text : List Char) : Bool :=
  !(startsLikeMark text || text.any isBreak || hasPair (· == ':') isSpace text ||
    endsIn (· == ':') text || hasPair isSpace (· == '#') text ||
    text.head? == some ' ' || endsIn (· == ' ') text)

/-- Whether a text can be written in single quotes. -/
def allowsSingle (text : List Char) : Bool :=
  !(hasPair isBreak (· == ' ') text || hasPair (· == ' ') isBreak text)

/-- Whether a text can be written as a literal block. -/
def allowsLiteral (text : List Char) : Bool :=
  !(hasPair (· == ' ') isBreak text || endsIn (· == ' ') text)

/-- The style of a text. -/
def styleOf (text : List Char) : Style :=
  if !text.all isPrintable then .double
  else if text.contains '\n' then (if allowsLiteral text then .literal else .double)
  else if !isAmbiguous text && allowsPlain text then .plain
  else if allowsSingle text then .single
  else .double

/-- A hexadecimal digit. -/
def upperHexDigit (n : Nat) : Char :=
  if n < 10 then Char.ofNat ('0'.toNat + n) else Char.ofNat ('A'.toNat + (n - 10))

/-- The last `count` hexadecimal digits of a number. -/
def upperHex (count n : Nat) : List Char :=
  match count with
  | 0 => []
  | count + 1 => upperHex count (n / 16) ++ [upperHexDigit (n % 16)]

/-- The letter of a one-letter escape. -/
def escapeLetter? (c : Char) : Option Char :=
  match c with
  | '\x00' => some '0'
  | '\x07' => some 'a'
  | '\x08' => some 'b'
  | '\t' => some 't'
  | '\n' => some 'n'
  | '\x0b' => some 'v'
  | '\x0c' => some 'f'
  | '\r' => some 'r'
  | '\x1b' => some 'e'
  | '"' => some '"'
  | '\\' => some '\\'
  | '\u0085' => some 'N'
  | '\u2028' => some 'L'
  | '\u2029' => some 'P'
  | _ => none

/-- A character in double quotes. -/
def doubleChar (c : Char) : List Char :=
  match escapeLetter? c with
  | some letter => ['\\', letter]
  | none =>
    if isPrintable c then [c]
    else if c.toNat ≤ 0xFF then '\\' :: 'x' :: upperHex 2 c.toNat
    else if c.toNat ≤ 0xFFFF then '\\' :: 'u' :: upperHex 4 c.toNat
    else '\\' :: 'U' :: upperHex 8 c.toNat

/-- Blanks up to a column. -/
def indentation (column : Nat) : List Char := List.replicate column ' '

/-- A text in single quotes; behind a break the line starts at `column`. -/
def singleText (column : Nat) : Bool → List Char → List Char
  | behindBreak, [] => if behindBreak then indentation column else []
  | behindBreak, c :: rest =>
    if isBreak c then c :: singleText column true rest
    else
      (if behindBreak then indentation column else []) ++
        (if c = '\'' then ['\'', '\''] else [c]) ++ singleText column false rest

/-- The lines of a literal block at `column`; empty lines are not indented. -/
def literalText (column : Nat) : Bool → List Char → List Char
  | behindBreak, [] => if behindBreak then [] else ['\n']
  | behindBreak, c :: rest =>
    if isBreak c then c :: literalText column true rest
    else
      (if behindBreak then indentation column else []) ++ c :: literalText column false rest

/-- The signs behind the mark of a literal block: the indentation, when it cannot be seen
from the first line, and what becomes of the breaks at the end. -/
def literalSigns (text : List Char) : List Char :=
  (if (text.head?.map fun c => c == ' ' || isBreak c).getD false then ['2'] else []) ++
    match text.reverse with
    | [] => ['-']
    | [last] => if isBreak last then ['+'] else ['-']
    | last :: previous :: _ =>
      if !isBreak last then ['-'] else if isBreak previous then ['+'] else []

/-- A text as a scalar and the end of its line; further lines stand at `column`. -/
def scalarText (column : Nat) (text : List Char) : List Char :=
  match styleOf text with
  | .plain => text ++ ['\n']
  | .single => '\'' :: (singleText column false text ++ ['\'', '\n'])
  | .double => '"' :: (text.flatMap doubleChar ++ ['"', '\n'])
  | .literal => '|' :: (literalSigns text ++ '\n' :: literalText column true text)

end Yaml

end SchemaLint
