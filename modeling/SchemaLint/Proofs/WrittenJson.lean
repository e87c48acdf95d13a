import SchemaLint.Json.Value
import SchemaLint.Report.Json

namespace SchemaLint

/-!
# Reading what reports are written as

A report is written as a JSON text with lines and indentation, and the text is read by
cutting it into tokens and running a machine over them.  This module goes the same way
back: a quoted text is read as its characters, a number as its value, a report as its
tokens whatever the level at which it is written, and the tokens as the value of the
report.

A number has no mark at its end, so what stands behind it must not go on with it.  In a
report there is always a comma or a new line.
-/

namespace Report
namespace Tree

theorem sizeOf_item_lt {item : Tree} {items : List Tree} (h : item ∈ items) :
    sizeOf item < sizeOf (Tree.list items) := by
  have hmember := List.sizeOf_lt_of_mem h
  simp only [Tree.list.sizeOf_spec]
  omega

theorem sizeOf_field_lt {field : String × Tree} {fields : List (String × Tree)}
    (h : field ∈ fields) : sizeOf field.2 < sizeOf (Tree.record fields) := by
  have hmember := List.sizeOf_lt_of_mem h
  rcases field with ⟨name, content⟩
  simp only [Tree.record.sizeOf_spec, Prod.mk.sizeOf_spec] at hmember ⊢
  omega

/-- Reports are treated from the inside out. -/
@[elab_as_elim]
theorem nestedInduction {motive : Tree → Prop} (integer : ∀ value, motive (.integer value))
    (text : ∀ value, motive (.text value))
    (list : ∀ items, (∀ item ∈ items, motive item) → motive (.list items))
    (record : ∀ fields, (∀ field ∈ fields, motive field.2) → motive (.record fields))
    (tree : Tree) : motive tree := by
  cases tree with
  | integer value => exact integer value
  | text value => exact text value
  | list items =>
      refine list items fun item hitem => ?_
      have hsmaller := sizeOf_item_lt hitem
      exact nestedInduction integer text list record item
  | record fields =>
      refine record fields fun field hfield => ?_
      have hsmaller := sizeOf_field_lt hfield
      exact nestedInduction integer text list record field.2
termination_by sizeOf tree
decreasing_by
  · assumption
  · assumption

/-- The JSON value that a report stands for. -/
def value : Tree → Json
  | .integer value => .integer value
  | .text value => .string (some value)
  | .list items => .array (items.map value)
  | .record fields => .object (fields.map fun field => (some field.1, value field.2))
termination_by tree => sizeOf tree
decreasing_by
  · exact sizeOf_item_lt ‹_›
  · exact sizeOf_field_lt ‹_›

/-- The tokens of a report, whatever its lines and indentation. -/
def tokens : Tree → List Json.Token
  | .integer value => [.integer value]
  | .text value => [.string (value.toList.map Char.toNat)]
  | .list items => .openArray :: ([.comma].intercalate (items.map tokens) ++ [.closeArray])
  | .record fields =>
    .openObject :: ([.comma].intercalate (fields.map fun field =>
      .string (field.1.toList.map Char.toNat) :: .colon :: tokens field.2) ++ [.closeObject])
termination_by tree => sizeOf tree
decreasing_by
  · exact sizeOf_item_lt ‹_›
  · exact sizeOf_field_lt ‹_›

end Tree

end Report

namespace Json

open Report

/-!
## Quoted texts
-/

theorem hexDigit?_hexDigit {n : Nat} (h : n < 16) : hexDigit? (hexDigit n) = some n := by
  have hall : ∀ digit < 16, hexDigit? (hexDigit digit) = some digit := by decide
  exact hall n h

theorem readUnits_shortEscape {escape c : Char} (hescape : shortEscape? escape = some c)
    {text rest : List Char} {units : List Nat} (h : readUnits text = some (units, rest)) :
    readUnits ('\\' :: escape :: text) = some (c.toNat :: units, rest) := by
  have hu : escape ≠ 'u' := by
    rintro rfl
    simp [shortEscape?] at hescape
  rw [readUnits.eq_def]
  split
  · next heq => simp at heq
  · next heq => simp at heq
  · next heq => simp [hu] at heq
  · next heq =>
    obtain ⟨-, hrest⟩ := List.cons.inj heq
    obtain ⟨rfl, rfl⟩ := List.cons.inj hrest
    rw [hescape, h]
  · next hother heq =>
    obtain ⟨rfl, rfl⟩ := List.cons.inj heq
    exact absurd rfl (hother _ _ rfl)

theorem readUnits_unescaped {c : Char} (hquote : c ≠ '"') (hbackslash : c ≠ '\\')
    (hplain : ¬ c.toNat < 32) {text rest : List Char} {units : List Nat}
    (h : readUnits text = some (units, rest)) :
    readUnits (c :: text) = some (c.toNat :: units, rest) := by
  rw [readUnits.eq_def]
  split
  · next heq => simp at heq
  · next heq => exact absurd (List.cons.inj heq).1 hquote
  · next heq => exact absurd (List.cons.inj heq).1 hbackslash
  · next heq => exact absurd (List.cons.inj heq).1 hbackslash
  · next heq =>
    obtain ⟨rfl, rfl⟩ := List.cons.inj heq
    rw [if_neg hplain, h]

/-- The ways in which a character is written: by a letter behind a backslash, by its code, or
as it is. -/
theorem jsonChar_cases (c : Char) :
    (∃ escape, jsonChar c = ['\\', escape] ∧ shortEscape? escape = some c) ∨
      (c.toNat < 32 ∧ jsonChar c =
        ['\\', 'u', '0', '0', hexDigit (c.toNat / 16), hexDigit (c.toNat % 16)]) ∨
      (c ≠ '"' ∧ c ≠ '\\' ∧ ¬ c.toNat < 32 ∧ jsonChar c = [c]) := by
  by_cases hshort : c ∈ ['"', '\\', '\n', '\r', '\t', '\x08', '\x0c']
  · left
    simp only [List.mem_cons, List.not_mem_nil, or_false] at hshort
    rcases hshort with rfl | rfl | rfl | rfl | rfl | rfl | rfl <;> exact ⟨_, rfl, rfl⟩
  · right
    simp only [List.mem_cons, List.not_mem_nil, or_false, not_or] at hshort
    by_cases hcontrol : c.toNat < 32
    · left
      simp [jsonChar, hshort, hcontrol]
    · right
      simp [jsonChar, hshort, hcontrol]

/-- However a character is written, it is read as its code. -/
theorem readUnits_jsonChar (c : Char) {text rest : List Char} {units : List Nat}
    (h : readUnits text = some (units, rest)) :
    readUnits (jsonChar c ++ text) = some (c.toNat :: units, rest) := by
  rcases jsonChar_cases c with ⟨escape, hwritten, hescape⟩ | ⟨hcontrol, hwritten⟩ |
    ⟨hquote, hbackslash, hplain, hwritten⟩
  · rw [hwritten]
    exact readUnits_shortEscape hescape h
  · have hzero : hexDigit? '0' = some 0 := by decide
    have hunit : hexUnit? '0' '0' (hexDigit (c.toNat / 16)) (hexDigit (c.toNat % 16)) =
        some c.toNat := by
      rw [hexUnit?, hzero, hexDigit?_hexDigit (by omega), hexDigit?_hexDigit (by omega)]
      simp only [Option.some.injEq]
      omega
    rw [hwritten]
    simp only [List.cons_append, List.nil_append]
    rw [readUnits, hunit, h]
  · rw [hwritten]
    exact readUnits_unescaped hquote hbackslash hplain h

theorem readUnits_flatMap_jsonChar (text rest : List Char) :
    readUnits (text.flatMap jsonChar ++ '"' :: rest) = some (text.map Char.toNat, rest) := by
  induction text with
  | nil => rfl
  | cons c text ih =>
      rw [List.flatMap_cons, List.append_assoc]
      exact readUnits_jsonChar c ih

theorem readToken_jsonText (text rest : List Char) :
    readToken (jsonText text ++ rest) = some (.string (text.map Char.toNat), rest) := by
  have hunits := readUnits_flatMap_jsonChar text rest
  rw [jsonText, List.cons_append, List.append_assoc, List.singleton_append]
  change (readUnits (text.flatMap jsonChar ++ '"' :: rest)).map _ = _
  rw [hunits]
  rfl

/-- No character is half of a surrogate pair. -/
theorem not_surrogate (c : Char) : ¬ (0xD800 ≤ c.toNat ∧ c.toNat < 0xE000) := by
  have hvalid := c.valid
  simp only [UInt32.isValidChar, Nat.isValidChar] at hvalid
  change ¬ (0xD800 ≤ c.val.toNat ∧ c.val.toNat < 0xE000)
  omega

theorem textOfUnits?_toNat (text : List Char) :
    textOfUnits? (text.map Char.toNat) = some text := by
  induction text with
  | nil => rfl
  | cons c text ih =>
      have hc := not_surrogate c
      have hhigh : ¬ (0xD800 ≤ c.toNat ∧ c.toNat < 0xDC00) := by omega
      have hlow : ¬ (0xDC00 ≤ c.toNat ∧ c.toNat < 0xE000) := by omega
      cases text with
      | nil => simp only [List.map_cons, List.map_nil, textOfUnits?, if_neg hc, Char.ofNat_toNat]
      | cons next rest =>
          simp only [List.map_cons] at ih ⊢
          rw [textOfUnits?, if_neg hhigh, if_neg hlow, ih, Char.ofNat_toNat]
          rfl

theorem quoted_toNat (text : String) : quoted (text.toList.map Char.toNat) = some text := by
  rw [quoted, textOfUnits?_toNat, Option.map_some, String.ofList_toList]

/-!
## Numbers
-/

/-- No character that a number could go on with stands at the start of the text. -/
def EndsNumber : List Char → Prop
  | [] => True
  | c :: _ => c.isDigit = false ∧ c ≠ '.' ∧ c ≠ 'e' ∧ c ≠ 'E'

theorem natOfDigits_toDigits (n : Nat) : natOfDigits (Nat.toDigits 10 n) = n := by
  have hsame : natOfDigits (Nat.toDigits 10 n) = Nat.ofDigitChars 10 (Nat.toDigits 10 n) 0 := by
    simp only [natOfDigits, Nat.ofDigitChars, Nat.mul_comm]
  rw [hsame, Nat.ofDigitChars_toDigits (by decide) (by decide)]

/-- Only the number zero is written with a zero in front. -/
theorem head?_toDigits {n : Nat} (h : 0 < n) : (Nat.toDigits 10 n).head? ≠ some '0' := by
  induction n using Nat.strongRecOn with
  | ind n ih =>
      by_cases hsmall : n < 10
      · have hall : ∀ digit < 10, 0 < digit → [Nat.digitChar digit].head? ≠ some '0' := by decide
        rw [Nat.toDigits_of_lt_base hsmall]
        exact hall n hsmall h
      · -- Further digits are added behind, so the first one is that of a smaller number.
        have hfront := ih (n / 10) (by omega) (by omega)
        obtain ⟨c, digits, hdigits⟩ := List.exists_cons_of_ne_nil (@Nat.toDigits_ne_nil (n / 10) 10)
        rw [Nat.toDigits_of_base_le (by decide) (by omega), hdigits, List.cons_append]
        rwa [hdigits] at hfront

theorem readDigits_toDigits (n : Nat) {rest : List Char} (h : EndsNumber rest) :
    readDigits (Nat.toDigits 10 n ++ rest) = some (Nat.toDigits 10 n, rest) := by
  have hdigits : ∀ c ∈ Nat.toDigits 10 n, c.isDigit = true := fun c hmem =>
    Nat.isDigit_of_mem_toDigits (by decide) (by decide) hmem
  have hends : rest.takeWhile Char.isDigit = [] ∧ rest.dropWhile Char.isDigit = rest := by
    cases rest with
    | nil => exact ⟨rfl, rfl⟩
    | cons c rest =>
        have hc : ¬ c.isDigit = true := by simp [h.1]
        exact ⟨List.takeWhile_cons_of_neg hc, List.dropWhile_cons_of_neg hc⟩
  have htake : (Nat.toDigits 10 n ++ rest).takeWhile Char.isDigit = Nat.toDigits 10 n := by
    rw [List.takeWhile_append_of_pos hdigits, hends.1, List.append_nil]
  have hdrop : (Nat.toDigits 10 n ++ rest).dropWhile Char.isDigit = rest := by
    rw [List.dropWhile_append_of_pos hdigits, hends.2]
  rw [readDigits, htake, hdrop]
  split
  · next hnone => exact absurd hnone Nat.toDigits_ne_nil
  · rfl

theorem readFraction_of_endsNumber {rest : List Char} (h : EndsNumber rest) :
    readFraction rest = some (false, rest) := by
  unfold readFraction
  split
  · exact absurd rfl h.2.1
  · rfl

theorem readExponent_of_endsNumber {rest : List Char} (h : EndsNumber rest) :
    readExponent rest = some (false, rest) := by
  cases rest with
  | nil => rfl
  | cons c rest =>
      have hc : ¬ (c = 'e' ∨ c = 'E') := by simp [h.2.2.1, h.2.2.2]
      simp only [readExponent, if_neg hc]

theorem readNumber_toDigits (negative : Bool) (n : Nat) {rest : List Char} (h : EndsNumber rest) :
    readNumber negative (Nat.toDigits 10 n ++ rest) =
      some (numberToken negative (Nat.toDigits 10 n) false, rest) := by
  have hzero : ¬ ((Nat.toDigits 10 n).head? = some '0' ∧ 1 < (Nat.toDigits 10 n).length) := by
    rintro ⟨hhead, hlength⟩
    rcases Nat.eq_zero_or_pos n with rfl | hpositive
    · simp at hlength
    · exact head?_toDigits hpositive hhead
  rw [readNumber, readDigits_toDigits n h]
  simp only [if_neg hzero, readFraction_of_endsNumber h, readExponent_of_endsNumber h,
    Bool.or_false]

theorem readToken_of_isDigit {c : Char} (hc : c.isDigit = true) (text : List Char) :
    readToken (c :: text) = readNumber false (c :: text) := by
  unfold readToken
  split
  case h_1 heq => simp at heq
  case h_13 heq => rw [← heq]
  -- The other cases begin with a character of their own, and none of these is a digit.
  all_goals
    next heq =>
    obtain ⟨rfl, -⟩ := List.cons.inj heq
    exfalso
    revert hc
    decide

theorem readToken_decimal (value : Int) {rest : List Char} (h : EndsNumber rest) :
    readToken (decimal value ++ rest) = some (.integer value, rest) := by
  cases value with
  | ofNat n =>
      obtain ⟨c, digits, hdigits⟩ := List.exists_cons_of_ne_nil (@Nat.toDigits_ne_nil n 10)
      have hc : c.isDigit = true :=
        Nat.isDigit_of_mem_toDigits (by decide) (by decide) (hdigits ▸ List.mem_cons_self)
      have hnumber := readNumber_toDigits false n h
      rw [decimal]
      rw [hdigits, List.cons_append] at hnumber ⊢
      rw [readToken_of_isDigit hc, hnumber, ← hdigits, numberToken, natOfDigits_toDigits]
      rfl
  | negSucc n =>
      have hnumber := readNumber_toDigits true (n + 1) h
      rw [decimal, List.cons_append]
      change readNumber true (Nat.toDigits 10 (n + 1) ++ rest) = _
      rw [hnumber, numberToken, natOfDigits_toDigits]
      rfl

/-!
## Tokens
-/

theorem readTokens_of_isBlank {c : Char} (hc : isBlank c = true) (text : List Char) :
    readTokens (c :: text) = readTokens text := by
  rw [readTokens, if_pos hc]

theorem readToken_of_isBlank {c : Char} (hc : isBlank c = true) (text : List Char) :
    readToken (c :: text) = none := by
  simp only [isBlank, Bool.or_eq_true, beq_iff_eq] at hc
  rcases hc with ((rfl | rfl) | rfl) | rfl
  · rfl
  · rfl
  · rfl
  · rfl

/-- A token is read, and then the text after it. -/
theorem readTokens_of_readToken {text rest : List Char} {token : Token} {tokens : List Token}
    (htoken : readToken text = some (token, rest)) (hrest : readTokens rest = some tokens) :
    readTokens text = some (token :: tokens) := by
  cases text with
  | nil => simp [readToken] at htoken
  | cons c text =>
      have hc : ¬ isBlank c = true := by
        intro hblank
        simp [readToken_of_isBlank hblank] at htoken
      rw [readTokens, if_neg hc]
      split
      · next hnone => simp [htoken] at hnone
      · next hsome =>
        obtain ⟨rfl, rfl⟩ := Prod.mk.inj (Option.some.inj (htoken.symm.trans hsome))
        rw [hrest]
        rfl

theorem readTokens_newLine (level : Nat) (text : List Char) :
    readTokens (newLine level ++ text) = readTokens text := by
  have hblanks : ∀ count : Nat, readTokens (List.replicate count ' ' ++ text) =
      readTokens text := by
    intro count
    induction count with
    | zero => rfl
    | succ count ih =>
        rw [List.replicate_succ, List.cons_append, readTokens_of_isBlank (by decide), ih]
  rw [newLine, List.cons_append, readTokens_of_isBlank (by decide), hblanks]

theorem readToken_openArray (text : List Char) :
    readToken ('[' :: text) = some (.openArray, text) := rfl

theorem readToken_closeArray (text : List Char) :
    readToken (']' :: text) = some (.closeArray, text) := rfl

theorem readToken_openObject (text : List Char) :
    readToken ('\x7b' :: text) = some (.openObject, text) := rfl

theorem readToken_closeObject (text : List Char) :
    readToken ('\x7d' :: text) = some (.closeObject, text) := rfl

/-- The text is read as these tokens, in front of any text with which a number cannot go
on. -/
def Spells (text : List Char) (tokens : List Token) : Prop :=
  ∀ (rest : List Char) (after : List Token), EndsNumber rest → readTokens rest = some after →
    readTokens (text ++ rest) = some (tokens ++ after)

theorem endsNumber_newLine (level : Nat) (text : List Char) :
    EndsNumber (newLine level ++ text) :=
  ⟨rfl, by decide, by decide, by decide⟩

theorem endsNumber_comma (text : List Char) : EndsNumber (',' :: text) :=
  ⟨rfl, by decide, by decide, by decide⟩

namespace Spells

theorem number (value : Int) : Spells (decimal value) [.integer value] := fun _ _ hends hrest =>
  readTokens_of_readToken (readToken_decimal value hends) hrest

theorem quote (text : List Char) : Spells (jsonText text) [.string (text.map Char.toNat)] :=
  fun _ _ _ hrest => readTokens_of_readToken (readToken_jsonText text _) hrest

/-- A name and what stands under it. -/
theorem member {content : List Char} {tokens : List Token} (name : List Char)
    (h : Spells content tokens) :
    Spells (jsonText name ++ ([':', ' '] ++ content))
      (.string (name.map Char.toNat) :: .colon :: tokens) := by
  intro rest after hends hrest
  simp only [List.append_assoc]
  refine readTokens_of_readToken (readToken_jsonText name _) ?_
  refine readTokens_of_readToken rfl ?_
  exact (readTokens_of_isBlank rfl _).trans (h rest after hends hrest)

/-- Parts on lines of their own, with a comma in front of each further one. -/
theorem parts {α : Type} {write : α → List Char} {tokens : α → List Token} (level : Nat)
    {part : α} {further : List α}
    (h : ∀ member ∈ part :: further, Spells (write member) (tokens member)) :
    Spells (write part ++ further.flatMap fun next => ',' :: (newLine level ++ write next))
      ([Token.comma].intercalate ((part :: further).map tokens)) := by
  intro rest after hends hrest
  -- What stands behind a part begins with a comma, so a number at its end is read alone.
  induction further generalizing part with
  | nil =>
      rw [List.flatMap_nil, List.append_nil, List.map_singleton, List.intercalate_singleton]
      exact h part List.mem_cons_self rest after hends hrest
  | cons next further ih =>
      obtain ⟨hpart, hfurther⟩ := List.forall_mem_cons.1 h
      have hcomma : readTokens (',' :: (newLine level ++ (write next ++
          ((further.flatMap fun next => ',' :: (newLine level ++ write next)) ++ rest)))) =
          some (.comma :: ([Token.comma].intercalate ((next :: further).map tokens) ++ after)) := by
        refine readTokens_of_readToken rfl ?_
        rw [readTokens_newLine, ← List.append_assoc (write next)]
        exact ih hfurther
      have hall := hpart _ _ (endsNumber_comma _) hcomma
      rw [List.map_cons] at hall
      rw [List.map_cons, List.map_cons, List.intercalate_cons_cons]
      simpa using hall

/-- Brackets around an indented text. -/
theorem enclosed {inside : List Char} {tokens : List Token} (level : Nat) {left right : Char}
    {leftToken rightToken : Token}
    (hleft : ∀ text, readToken (left :: text) = some (leftToken, text))
    (hright : ∀ text, readToken (right :: text) = some (rightToken, text))
    (h : Spells inside tokens) :
    Spells (left :: (newLine (level + 1) ++ (inside ++ (newLine level ++ [right]))))
      (leftToken :: (tokens ++ [rightToken])) := by
  intro rest after hends hrest
  -- Here it is the new line in front of the closing bracket that ends a number.
  have hclose : readTokens (newLine level ++ (right :: rest)) = some (rightToken :: after) := by
    rw [readTokens_newLine]
    exact readTokens_of_readToken (hright rest) hrest
  have hinside := h _ _ (endsNumber_newLine level (right :: rest)) hclose
  rw [List.cons_append, List.cons_append]
  refine readTokens_of_readToken (hleft _) ?_
  simp only [List.append_assoc, List.singleton_append]
  rw [readTokens_newLine]
  exact hinside

end Spells

theorem jsonItems_eq_flatMap (level : Nat) (items : List Tree) :
    jsonItems level items = items.flatMap fun item => ',' :: (newLine level ++ json level item) := by
  induction items with
  | nil => rfl
  | cons item rest ih => simp [jsonItems, ih]

theorem jsonFields_eq_flatMap (level : Nat) (fields : List (String × Tree)) :
    jsonFields level fields = fields.flatMap fun field => ',' :: (newLine level ++
      (jsonText field.1.toList ++ ([':', ' '] ++ json level field.2))) := by
  induction fields with
  | nil => rfl
  | cons field rest ih => simp [jsonFields, ih]

/-- A report is read as its tokens, at whatever level it is written. -/
theorem spells_json (tree : Tree) (level : Nat) : Spells (json level tree) tree.tokens := by
  induction tree using Tree.nestedInduction generalizing level with
  | integer value =>
      rw [json, Tree.tokens]
      exact Spells.number value
  | text value =>
      rw [json, Tree.tokens]
      exact Spells.quote value.toList
  | list items ih =>
      rw [Tree.tokens]
      cases items with
      | nil =>
          intro rest after _ hrest
          rw [json]
          exact readTokens_of_readToken rfl (readTokens_of_readToken rfl hrest)
      | cons item rest =>
          have hitems := Spells.parts (level + 1) fun member hmember => ih member hmember (level + 1)
          have hall := hitems.enclosed level readToken_openArray readToken_closeArray
          rw [json, jsonItems_eq_flatMap]
          simpa using hall
  | record fields ih =>
      rw [Tree.tokens]
      cases fields with
      | nil =>
          intro rest after _ hrest
          rw [json]
          exact readTokens_of_readToken rfl (readTokens_of_readToken rfl hrest)
      | cons field rest =>
          have hfields := Spells.parts (level + 1) fun member hmember =>
            Spells.member member.1.toList (ih member hmember (level + 1))
          have hall := hfields.enclosed level readToken_openObject readToken_closeObject
          rw [json, jsonFields_eq_flatMap]
          simpa using hall

/-!
## The machine
-/

theorem run_cons_of_step {mode next : Mode} {frames framesAfter : List Frame} {token : Token}
    (h : step mode frames token = some (next, framesAfter)) (rest : List Token) :
    run mode frames (token :: rest) = run next framesAfter rest := by
  rw [run, h]

/-- The start of a report does not close a list, so the first item is read like any other. -/
theorem run_item {mode : Mode} {before : List Json}
    (hmode : mode = .value ∨ mode = .firstItem ∧ before = []) (item : Tree) (frames : List Frame)
    (rest : List Token) :
    run mode (.array before :: frames) (item.tokens ++ rest) =
      run .value (.array before :: frames) (item.tokens ++ rest) := by
  rcases hmode with rfl | ⟨rfl, rfl⟩
  · rfl
  · cases item <;>
      · rw [Tree.tokens]
        rfl

/-- Items are added one by one to the list that is open, and then it is closed. -/
theorem run_items {item : Tree} {items : List Tree}
    (h : ∀ member ∈ item :: items, ∀ frames rest,
      run .value frames (member.tokens ++ rest) = run (.after member.value) frames rest)
    {mode : Mode} {before : List Json} (hmode : mode = .value ∨ mode = .firstItem ∧ before = [])
    (frames : List Frame) (rest : List Token) :
    run mode (.array before :: frames)
        ([Token.comma].intercalate ((item :: items).map Tree.tokens) ++ .closeArray :: rest) =
      run (.after (.array (before.reverse ++ (item :: items).map Tree.value))) frames rest := by
  -- Each item moves to the front of those before it, and closing the list turns them around.
  induction items generalizing item mode before with
  | nil =>
      rw [List.map_singleton, List.intercalate_singleton, run_item hmode,
        h item List.mem_cons_self, run_cons_of_step rfl, List.reverse_cons, List.map_singleton]
  | cons next items ih =>
      obtain ⟨hitem, hnext⟩ := List.forall_mem_cons.1 h
      have hbehind := @ih next hnext .value (item.value :: before) (.inl rfl)
      rw [List.map_cons] at hbehind
      rw [List.map_cons, List.map_cons, List.intercalate_cons_cons, List.append_assoc,
        List.append_assoc, run_item hmode, hitem, List.singleton_append, run_cons_of_step rfl,
        hbehind]
      simp

/-- A name and a colon open a member, whether it is the first one or not. -/
theorem run_key {mode : Mode} (hmode : mode = .firstKey ∨ mode = .key) (name : String)
    (before : List (Option String × Json)) (frames : List Frame) (rest : List Token) :
    run mode (.object before :: frames)
        (.string (name.toList.map Char.toNat) :: .colon :: rest) =
      run .value (.member before (some name) :: frames) rest := by
  have hkey : step mode (.object before :: frames) (.string (name.toList.map Char.toNat)) =
      some (.colon (some name), .object before :: frames) := by
    rcases hmode with rfl | rfl
    · cases before with
      | nil => exact congrArg (fun key => some (Mode.colon key, _)) (quoted_toNat name)
      | cons member before =>
          exact congrArg (fun key => some (Mode.colon key, _)) (quoted_toNat name)
    · exact congrArg (fun key => some (Mode.colon key, _)) (quoted_toNat name)
  rw [run_cons_of_step hkey, run_cons_of_step rfl]

/-- Members are added one by one to the record that is open, and then it is closed. -/
theorem run_fields {field : String × Tree} {fields : List (String × Tree)}
    (h : ∀ member ∈ field :: fields, ∀ frames rest,
      run .value frames (member.2.tokens ++ rest) = run (.after member.2.value) frames rest)
    {mode : Mode} (hmode : mode = .firstKey ∨ mode = .key)
    (before : List (Option String × Json)) (frames : List Frame) (rest : List Token) :
    run mode (.object before :: frames)
        ([Token.comma].intercalate ((field :: fields).map fun field =>
          .string (field.1.toList.map Char.toNat) :: .colon :: field.2.tokens) ++
            .closeObject :: rest) =
      run (.after (.object (before.reverse ++ (field :: fields).map fun field =>
        (some field.1, field.2.value)))) frames rest := by
  induction fields generalizing field mode before with
  | nil =>
      rw [List.map_singleton, List.intercalate_singleton, List.cons_append, List.cons_append,
        run_key hmode, h field List.mem_cons_self, run_cons_of_step rfl, List.reverse_cons,
        List.map_singleton]
  | cons next fields ih =>
      obtain ⟨hfield, hnext⟩ := List.forall_mem_cons.1 h
      have hbehind := ih hnext (.inr rfl) ((some field.1, field.2.value) :: before)
      rw [List.map_cons] at hbehind
      rw [List.map_cons, List.map_cons, List.intercalate_cons_cons, List.append_assoc,
        List.append_assoc, List.cons_append, List.cons_append, run_key hmode, hfield,
        List.singleton_append, run_cons_of_step rfl, hbehind]
      simp

/-- The machine gives the value of a report back. -/
theorem run_tokens (tree : Tree) (frames : List Frame) (rest : List Token) :
    run .value frames (tree.tokens ++ rest) = run (.after tree.value) frames rest := by
  induction tree using Tree.nestedInduction generalizing frames rest with
  | integer value =>
      rw [Tree.tokens, Tree.value]
      rfl
  | text value =>
      rw [Tree.tokens, Tree.value, List.singleton_append, run_cons_of_step rfl, quoted_toNat]
  | list items ih =>
      rw [Tree.tokens, Tree.value, List.cons_append, run_cons_of_step rfl, List.append_assoc]
      cases items with
      | nil => rfl
      | cons item items => exact run_items ih (.inr ⟨rfl, rfl⟩) frames rest
  | record fields ih =>
      rw [Tree.tokens, Tree.value, List.cons_append, run_cons_of_step rfl, List.append_assoc]
      cases fields with
      | nil => rfl
      | cons field fields => exact run_fields ih (.inl rfl) [] frames rest

/-- A report, followed by a new line, is a JSON text of its value. -/
theorem parse?_json (tree : Tree) :
    parse? (String.ofList (json 0 tree ++ ['\n'])) = some tree.value := by
  have hline : readTokens ['\n'] = some [] := by
    rw [readTokens_of_isBlank rfl, readTokens]
  have htokens := spells_json tree 0 ['\n'] [] (endsNumber_newLine 0 []) hline
  have hrun := run_tokens tree [] []
  rw [parse?, String.toList_ofList, htokens]
  exact hrun

end Json

end SchemaLint
