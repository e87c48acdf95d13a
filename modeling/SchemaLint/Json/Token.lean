namespace SchemaLint

namespace Json

/-!
# Tokens of JSON texts

A JSON text is cut into marks, words, numbers and quoted texts, with blanks between
them.  A quoted text is first read as a list of code units, because an escape can name
half of a surrogate pair; only units that pair up spell a text.

A number counts as an integer when it is written without fraction and exponent and is
not a negative zero.
-/

/-- A token of a JSON text. -/
inductive Token where
  | openArray
  | closeArray
  | openObject
  | closeObject
  | colon
  | comma
  | null
  | bool (value : Bool)
  | integer (value : Int)
  | fraction
  | string (units : List Nat)
deriving DecidableEq, Inhabited

/-- The blanks between tokens. -/
def isBlank (c : Char) : Bool := c == ' ' || c == '\n' || c == '\t' || c == '\r'

/-- The value of a hexadecimal digit. -/
def hexDigit? (c : Char) : Option Nat :=
  if c.isDigit then some (c.toNat - '0'.toNat)
  else if 'a' ≤ c ∧ c ≤ 'f' then some (c.toNat - 'a'.toNat + 10)
  else if 'A' ≤ c ∧ c ≤ 'F' then some (c.toNat - 'A'.toNat + 10)
  else none

/-- The code unit that four hexadecimal digits name. -/
def hexUnit? (a b c d : Char) : Option Nat :=
  match hexDigit? a, hexDigit? b, hexDigit? c, hexDigit? d with
  | some a, some b, some c, some d => some (((a * 16 + b) * 16 + c) * 16 + d)
  | _, _, _, _ => none

/-- The character that a short escape names. -/
def shortEscape? (c : Char) : Option Char :=
  match c with
  | '"' => some '"'
  | '\\' => some '\\'
  | '/' => some '/'
  | 'b' => some '\x08'
  | 'f' => some '\x0c'
  | 'n' => some '\n'
  | 'r' => some '\r'
  | 't' => some '\t'
  | _ => none

/-- Reads the units of a quoted text up to the closing quote, and gives what follows it. -/
def readUnits : List Char → Option (List Nat × List Char)
  | [] => none
  | '"' :: rest => some ([], rest)
  | '\\' :: 'u' :: a :: b :: c :: d :: rest =>
    match hexUnit? a b c d, readUnits rest with
    | some unit, some (units, after) => some (unit :: units, after)
    | _, _ => none
  | '\\' :: c :: rest =>
    match shortEscape? c, readUnits rest with
    | some c, some (units, after) => some (c.toNat :: units, after)
    | _, _ => none
  | c :: rest =>
    if c.toNat < 32 then none
    else
      match readUnits rest with
      | some (units, after) => some (c.toNat :: units, after)
      | none => none

theorem length_after_of_readUnits {text rest : List Char} {units : List Nat}
    (h : readUnits text = some (units, rest)) : rest.length < text.length := by
  fun_induction readUnits text generalizing units with
  | case1 => simp at h
  | case2 => simp_all
  | case3 _ _ _ _ _ _ _ _ hrest _ ih =>
    simp only [Option.some.injEq, Prod.mk.injEq] at h
    have hshorter := ih (h.2 ▸ hrest)
    simp only [List.length_cons]
    omega
  | case4 => simp at h
  | case5 _ _ _ _ _ _ hrest _ ih =>
    simp only [Option.some.injEq, Prod.mk.injEq] at h
    have hshorter := ih (h.2 ▸ hrest)
    simp only [List.length_cons]
    omega
  | case6 => simp at h
  | case7 => simp at h
  | case8 _ _ _ _ _ _ _ _ hrest ih =>
    simp only [Option.some.injEq, Prod.mk.injEq] at h
    have hshorter := ih (h.2 ▸ hrest)
    simp only [List.length_cons]
    omega
  | case9 => simp at h

/-- The text that code units spell, or nothing when half of a surrogate pair stands
alone. -/
def textOfUnits? : List Nat → Option (List Char)
  | [] => some []
  | high :: low :: rest =>
    if 0xD800 ≤ high ∧ high < 0xDC00 then
      if 0xDC00 ≤ low ∧ low < 0xE000 then
        (textOfUnits? rest).map
          (Char.ofNat (0x10000 + (high - 0xD800) * 0x400 + (low - 0xDC00)) :: ·)
      else none
    else if 0xDC00 ≤ high ∧ high < 0xE000 then none
    else (textOfUnits? (low :: rest)).map (Char.ofNat high :: ·)
  | [unit] => if 0xD800 ≤ unit ∧ unit < 0xE000 then none else some [Char.ofNat unit]

/-- Reads at least one decimal digit. -/
def readDigits (text : List Char) : Option (List Char × List Char) :=
  match text.takeWhile Char.isDigit with
  | [] => none
  | digits => some (digits, text.dropWhile Char.isDigit)

theorem length_after_of_readDigits {text digits rest : List Char}
    (h : readDigits text = some (digits, rest)) : rest.length < text.length := by
  unfold readDigits at h
  split at h
  · simp at h
  · next hdigits =>
    simp only [Option.some.injEq, Prod.mk.injEq] at h
    have hlength : (text.takeWhile Char.isDigit ++ text.dropWhile Char.isDigit).length =
        text.length := by rw [List.takeWhile_append_dropWhile]
    have hsome : 0 < (text.takeWhile Char.isDigit).length :=
      List.length_pos_iff.2 hdigits
    rw [List.length_append] at hlength
    rw [← h.2]
    omega

/-- The number that decimal digits spell. -/
def natOfDigits (digits : List Char) : Nat :=
  digits.foldl (fun value c => value * 10 + (c.toNat - '0'.toNat)) 0

/-- Reads the fraction of a number, if there is one; tells whether there was. -/
def readFraction : List Char → Option (Bool × List Char)
  | '.' :: text => (readDigits text).map fun (_, rest) => (true, rest)
  | text => some (false, text)

/-- Reads the exponent of a number, if there is one; tells whether there was. -/
def readExponent (text : List Char) : Option (Bool × List Char) :=
  match text with
  | c :: rest =>
    if c = 'e' ∨ c = 'E' then
      match rest with
      | [] => none
      | sign :: digits =>
        (readDigits (if sign = '+' ∨ sign = '-' then digits else rest)).map
          fun (_, rest) => (true, rest)
    else some (false, text)
  | [] => some (false, text)

theorem length_after_of_readFraction {text rest : List Char} {found : Bool}
    (h : readFraction text = some (found, rest)) : rest.length ≤ text.length := by
  unfold readFraction at h
  split at h
  · obtain ⟨⟨digits, after⟩, hread, heq⟩ := Option.map_eq_some_iff.1 h
    have hshorter := length_after_of_readDigits hread
    simp only [Prod.mk.injEq] at heq
    rw [← heq.2]
    simp only [List.length_cons]
    omega
  · simp only [Option.some.injEq, Prod.mk.injEq] at h
    simp [h.2]

theorem length_after_of_readExponent {text rest : List Char} {found : Bool}
    (h : readExponent text = some (found, rest)) : rest.length ≤ text.length := by
  unfold readExponent at h
  split at h
  · split at h
    · split at h
      · simp at h
      · obtain ⟨⟨digits, after⟩, hread, heq⟩ := Option.map_eq_some_iff.1 h
        have hshorter := length_after_of_readDigits hread
        simp only [Prod.mk.injEq] at heq
        rw [← heq.2]
        split at hshorter <;> simp only [List.length_cons] at hshorter ⊢ <;> omega
    · simp only [Option.some.injEq, Prod.mk.injEq] at h
      simp [h.2]
  · simp only [Option.some.injEq, Prod.mk.injEq] at h
    simp [h.2]

/-- The token of a number with the given sign, digits and parts behind them. -/
def numberToken (negative : Bool) (digits : List Char) (extended : Bool) : Token :=
  let value := natOfDigits digits
  if extended then .fraction
  else if negative then (if value = 0 then .fraction else .integer (-value))
  else .integer value

/-- Reads a number behind its sign.  No digit follows a leading zero. -/
def readNumber (negative : Bool) (text : List Char) : Option (Token × List Char) :=
  match readDigits text with
  | none => none
  | some (digits, rest) =>
    if digits.head? = some '0' ∧ 1 < digits.length then none
    else
      match readFraction rest with
      | none => none
      | some (hasFraction, rest) =>
        match readExponent rest with
        | none => none
        | some (hasExponent, rest) =>
          some (numberToken negative digits (hasFraction || hasExponent), rest)

theorem length_after_of_readNumber {negative : Bool} {text rest : List Char} {token : Token}
    (h : readNumber negative text = some (token, rest)) : rest.length < text.length := by
  unfold readNumber at h
  split at h
  · simp at h
  · next hdigits =>
    split at h
    · simp at h
    · split at h
      · simp at h
      · next hfraction =>
        split at h
        · simp at h
        · next hexponent =>
          simp only [Option.some.injEq, Prod.mk.injEq] at h
          have hfirst := length_after_of_readDigits hdigits
          have hsecond := length_after_of_readFraction hfraction
          have hthird := length_after_of_readExponent hexponent
          rw [← h.2]
          omega

/-- Reads one token that starts at the first character. -/
def readToken : List Char → Option (Token × List Char)
  | [] => none
  | '[' :: rest => some (.openArray, rest)
  | ']' :: rest => some (.closeArray, rest)
  | '\x7b' :: rest => some (.openObject, rest)
  | '\x7d' :: rest => some (.closeObject, rest)
  | ':' :: rest => some (.colon, rest)
  | ',' :: rest => some (.comma, rest)
  | '"' :: rest => (readUnits rest).map fun (units, after) => (.string units, after)
  | 'n' :: 'u' :: 'l' :: 'l' :: rest => some (.null, rest)
  | 't' :: 'r' :: 'u' :: 'e' :: rest => some (.bool true, rest)
  | 'f' :: 'a' :: 'l' :: 's' :: 'e' :: rest => some (.bool false, rest)
  | '-' :: rest => readNumber true rest
  | c :: rest => readNumber false (c :: rest)

theorem length_after_of_readToken {text rest : List Char} {token : Token}
    (h : readToken text = some (token, rest)) : rest.length < text.length := by
  unfold readToken at h
  split at h
  case h_1 => simp at h
  case h_8 =>
    obtain ⟨⟨units, after⟩, hread, heq⟩ := Option.map_eq_some_iff.1 h
    have hshorter := length_after_of_readUnits hread
    simp only [Prod.mk.injEq] at heq
    rw [← heq.2]
    simp only [List.length_cons]
    omega
  case h_12 =>
    have hshorter := length_after_of_readNumber h
    simp only [List.length_cons]
    omega
  case h_13 => exact length_after_of_readNumber h
  all_goals
    simp only [Option.some.injEq, Prod.mk.injEq] at h
    simp only [← h.2, List.length_cons]
    omega

/-- Cuts a text into tokens. -/
def readTokens (text : List Char) : Option (List Token) :=
  match text with
  | [] => some []
  | c :: rest =>
    if isBlank c then readTokens rest
    else
      match h : readToken (c :: rest) with
      | none => none
      | some (token, after) =>
        have : after.length < rest.length + 1 := length_after_of_readToken h
        (readTokens after).map (token :: ·)
termination_by text.length

end Json

end SchemaLint
