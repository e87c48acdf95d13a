namespace SchemaLint

namespace Yaml

/-!
# Words that read as numbers

A plain YAML scalar that reads as a number is not read as a text, so a text that looks
like one has to be quoted.  Integers have up to 128 bits and may be written in base two,
eight or sixteen.  Decimal numbers have the range of double precision: a number that is
too large for it reads as a text.
-/

/-- The value of a digit in bases up to sixteen. -/
def digitValue? (base : Nat) (c : Char) : Option Nat :=
  let value? :=
    if c.isDigit then some (c.toNat - '0'.toNat)
    else if 'a' ≤ c ∧ c ≤ 'f' then some (c.toNat - 'a'.toNat + 10)
    else if 'A' ≤ c ∧ c ≤ 'F' then some (c.toNat - 'A'.toNat + 10)
    else none
  value?.filter (· < base)

/-- The value of digits, of which there is at least one. -/
def digitsValue? (base : Nat) (digits : List Char) : Option Nat :=
  if digits.isEmpty then none
  else
    digits.foldl (fun value c =>
      match value, digitValue? base c with
      | some value, some digit => some (value * base + digit)
      | _, _ => none) (some 0)

/-- A text without one of the two signs in front. -/
def withoutSign : List Char → List Char
  | '+' :: rest => rest
  | '-' :: rest => rest
  | text => text

/-- Whether a text is a zero followed by digits only. -/
def isPaddedZero (text : List Char) : Bool :=
  match withoutSign text with
  | '0' :: rest => !rest.isEmpty && rest.all Char.isDigit
  | _ => false

/-- The magnitude of an integer behind its sign. -/
def magnitude? : List Char → Option Nat
  | '0' :: 'x' :: digits => digitsValue? 16 digits
  | '0' :: 'o' :: digits => digitsValue? 8 digits
  | '0' :: 'b' :: digits => digitsValue? 2 digits
  | digits => digitsValue? 10 digits

/-- Whether a text reads as an integer. -/
def readsAsInteger (text : List Char) : Bool :=
  match text with
  | '-' :: rest =>
    match magnitude? rest with
    | some value => value ≤ Nat.pow 2 127
    | none => false
  | other =>
    match magnitude? (withoutSign other) with
    | some value => value < Nat.pow 2 128
    | none => false

/-- The parts of a decimal number behind its sign: all its digits, the number of those
behind the point, and its exponent. -/
def decimalParts? (text : List Char) : Option (List Char × Nat × Int) :=
  let whole := text.takeWhile Char.isDigit
  let (fraction, rest) :=
    match text.dropWhile Char.isDigit with
    | '.' :: rest => (rest.takeWhile Char.isDigit, rest.dropWhile Char.isDigit)
    | rest => ([], rest)
  if whole.isEmpty && fraction.isEmpty then none
  else
    match rest with
    | [] => some (whole ++ fraction, fraction.length, 0)
    | mark :: exponent =>
      if mark = 'e' ∨ mark = 'E' then
        (digitsValue? 10 (withoutSign exponent)).map fun value =>
          (whole ++ fraction, fraction.length,
            if exponent.head? = some '-' then -(value : Int) else value)
      else none

/-- Where the numbers start that are too large for double precision. -/
def doubleLimit : Nat := Nat.pow 2 1024 - Nat.pow 2 970

/-- Whether digits, with a power of ten, stay in the range of double precision. -/
def isFinite (digits : List Char) (power : Int) : Bool :=
  let digits := digits.dropWhile (· = '0')
  let size := (digits.length : Int) + power
  if digits.isEmpty || size < 300 then true
  else if 310 < size then false
  else
    let value := (digitsValue? 10 digits).getD 0
    if 0 ≤ power then value * Nat.pow 10 power.toNat < doubleLimit
    else value < doubleLimit * Nat.pow 10 (-power).toNat

/-- Whether a text reads as a decimal number. -/
def readsAsDecimal (text : List Char) : Bool :=
  match decimalParts? (withoutSign text) with
  | some (digits, places, exponent) => isFinite digits (exponent - places)
  | none => false

/-- The words for infinity. -/
def infinityWords : List String := [".inf", ".Inf", ".INF"]

/-- The words for no number. -/
def noNumberWords : List String := [".nan", ".NaN", ".NAN"]

/-- Whether a text reads as a number, or is a padded zero, which looks like one. -/
def looksLikeNumber (text : List Char) : Bool :=
  readsAsInteger text || isPaddedZero text || readsAsDecimal text ||
    infinityWords.contains (String.ofList (withoutSign text)) ||
    noNumberWords.contains (String.ofList text)

end Yaml

end SchemaLint
