namespace SchemaLint
namespace Text

/-!
# Blank characters

The blanks of free text are the characters with the Unicode property White_Space.
Comments are trimmed and cut into words by this set, which is larger than the
ASCII blanks: it holds the no-break space, the next-line control and the wide
spaces too.
-/

/-- The characters with the property White_Space. -/
def isBlank (c : Char) : Bool :=
  let n := c.toNat
  (9 ≤ n && n ≤ 13) || n == 0x20 || n == 0x85 || n == 0xA0 || n == 0x1680 ||
    (0x2000 ≤ n && n ≤ 0x200A) || n == 0x2028 || n == 0x2029 || n == 0x202F ||
    n == 0x205F || n == 0x3000

/-- The text without its leading blanks. -/
def trimLeft (text : List Char) : List Char :=
  text.dropWhile isBlank

/-- The text without its trailing blanks. -/
def trimRight (text : List Char) : List Char :=
  (text.reverse.dropWhile isBlank).reverse

/-- The text without blanks at either end. -/
def trim (text : List Char) : List Char :=
  trimRight (trimLeft text)

/-- The first run of characters that are not blank, empty if there is none. -/
def firstWord (text : List Char) : List Char :=
  (trimLeft text).takeWhile fun c => !isBlank c

end Text
end SchemaLint
