import SchemaLint.Yaml.Glyph

namespace SchemaLint

namespace Yaml

/-!
# Scalars of YAML texts

Plain, quoted and block scalars.  Inside a plain or quoted scalar a gap of blanks and
breaks is folded: a single break becomes a space, and of several the first is dropped.
In a block scalar the breaks are kept or folded line by line.
-/

/-- What a gap between two words contributes to a text. -/
def foldGap (gap : List Char) : List Char :=
  match gap.filter isBreak with
  | [] => gap
  | first :: more =>
    if first = '\n' then (if more.isEmpty then [' '] else more) else first :: more

/-! ## Plain scalars -/

/-- Reads a word of a plain scalar.  In flow context a colon before a flow mark is a
fault, and flow marks end the scalar. -/
def readPlainWord (flow : Bool) : List Glyph → Option (List Char × List Glyph)
  | [] => some ([], [])
  | glyph :: rest =>
    if isSpace glyph.char then some ([], glyph :: rest)
    else if flow ∧ glyph.char = ':' ∧ startsWithAny [',', '?', '[', ']', '\x7b', '\x7d'] rest then
      none
    else if (glyph.char = ':' ∧ endsWord rest) ∨
        (flow ∧ [',', '[', ']', '\x7b', '\x7d'].contains glyph.char) then
      some ([], glyph :: rest)
    else
      match readPlainWord flow rest with
      | some (word, after) => some (glyph.char :: word, after)
      | none => none

theorem length_after_of_readPlainWord {flow : Bool} {glyphs rest : List Glyph} {word : List Char}
    (h : readPlainWord flow glyphs = some (word, rest)) :
    word.length + rest.length = glyphs.length := by
  fun_induction readPlainWord flow glyphs generalizing word rest with
  | case1 => simp_all
  | case2 => simp_all
  | case3 => cases h
  | case4 => simp_all
  | case5 _ _ _ _ _ _ _ hread ih =>
    have hlength := ih hread
    cases h
    simp only [List.length_cons]
    omega
  | case6 => cases h

/-- Whether a tab stands left of the margin, behind a break. -/
def tabInMargin (margin : Nat) (gap : List Glyph) : Bool :=
  (gap.dropWhile fun glyph => !isBreak glyph.char).any fun glyph =>
    glyph.char == '\t' && decide (glyph.column < margin)

/-- Whether a plain scalar cannot go on here, behind a gap. -/
def endsPlain (flow : Bool) (margin : Nat) (glyphs : List Glyph) : Bool :=
  match glyphs with
  | [] => true
  | glyph :: _ =>
    (!flow && decide (glyph.column < margin)) || atDocumentMark glyphs || glyph.char == '#'

/-- Reads on behind a word of a plain scalar: gaps and words in turn.  Gives the text, and
whether a break was read behind it. -/
def readPlainWords (flow : Bool) (margin : Nat) (glyphs : List Glyph) :
    Option (List Char × Bool × List Glyph) :=
  let gap := glyphs.takeWhile fun glyph => isSpace glyph.char
  let after := glyphs.dropWhile fun glyph => isSpace glyph.char
  if gap.isEmpty then some ([], false, glyphs)
  else if tabInMargin margin gap then none
  else
    let broken := gap.any fun glyph => isBreak glyph.char
    if endsPlain flow margin after then some ([], broken, after)
    else
      match hword : readPlainWord flow after with
      | none => none
      | some ([], _) => some ([], broken, after)
      | some (c :: word, rest) =>
        have hshorter : rest.length < glyphs.length := by
          have hlength := length_after_of_readPlainWord hword
          have hafter : after.length ≤ glyphs.length := length_dropWhile_le _ glyphs
          rw [List.length_cons] at hlength
          omega
        match readPlainWords flow margin rest with
        | some (text, broken, rest) => some (foldGap (chars gap) ++ c :: word ++ text, broken, rest)
        | none => none
termination_by glyphs.length

theorem length_after_of_readPlainWords {flow broken : Bool} {margin : Nat}
    {glyphs rest : List Glyph} {text : List Char}
    (h : readPlainWords flow margin glyphs = some (text, broken, rest)) :
    rest.length ≤ glyphs.length := by
  fun_induction readPlainWords flow margin glyphs generalizing text broken rest with
  | case1 => simp_all
  | case2 => cases h
  | case3 =>
    cases h
    exact length_dropWhile_le _ _
  | case4 => cases h
  | case5 =>
    cases h
    exact length_dropWhile_le _ _
  | case6 =>
    rename_i hshorter _ _ _ hread ih
    have hlength := ih hread
    cases h
    omega
  | case7 => cases h

/-- Reads a plain scalar that starts with the character `first`.  In block context its
further lines stand right of `margin`. -/
def readPlain (flow : Bool) (margin : Nat) (first : Char) (glyphs : List Glyph) :
    Option (List Char × Bool × List Glyph) :=
  match readPlainWord flow glyphs with
  | none => none
  | some (word, rest) =>
    match readPlainWords flow margin rest with
    | some (text, broken, rest) => some (first :: word ++ text, broken, rest)
    | none => none

theorem length_after_of_readPlain {flow broken : Bool} {margin : Nat} {first : Char}
    {glyphs rest : List Glyph} {text : List Char}
    (h : readPlain flow margin first glyphs = some (text, broken, rest)) :
    rest.length ≤ glyphs.length := by
  unfold readPlain at h
  split at h
  · cases h
  · next hword =>
    split at h
    · next hwords =>
      have hfirst := length_after_of_readPlainWord hword
      have hsecond := length_after_of_readPlainWords hwords
      cases h
      omega
    · cases h

/-! ## Quoted scalars -/

/-- The character that a one-letter escape names. -/
def escape? (c : Char) : Option Char :=
  match c with
  | '0' => some '\x00'
  | 'a' => some '\x07'
  | 'b' => some '\x08'
  | 't' => some '\t'
  | '\t' => some '\t'
  | 'n' => some '\n'
  | 'v' => some '\x0b'
  | 'f' => some '\x0c'
  | 'r' => some '\r'
  | 'e' => some '\x1b'
  | ' ' => some ' '
  | '"' => some '"'
  | '/' => some '/'
  | '\\' => some '\\'
  | 'N' => some '\u0085'
  | '_' => some '\u00a0'
  | 'L' => some '\u2028'
  | 'P' => some '\u2029'
  | _ => none

/-- The number of digits behind the letter of a numeric escape. -/
def escapeWidth? (c : Char) : Option Nat :=
  match c with
  | 'x' => some 2
  | 'u' => some 4
  | 'U' => some 8
  | _ => none

/-- Reads an escape behind its backslash. -/
def readEscape : List Glyph → Option (Char × List Glyph)
  | [] => none
  | glyph :: rest =>
    match escapeWidth? glyph.char with
    | some width =>
      match readHex width 0 rest with
      | some (value, after) =>
        if (0xD800 ≤ value ∧ value ≤ 0xDFFF) ∨ 0x10FFFF < value then none
        else some (Char.ofNat value, after)
      | none => none
    | none => (escape? glyph.char).map fun c => (c, rest)

theorem length_after_of_readEscape {glyphs rest : List Glyph} {c : Char}
    (h : readEscape glyphs = some (c, rest)) : rest.length < glyphs.length := by
  unfold readEscape at h
  split at h
  · cases h
  · split at h
    · split at h
      · next hhex =>
        have hlength := length_after_of_readHex hhex
        split at h
        · cases h
        · cases h
          rw [List.length_cons]
          omega
      · cases h
    · obtain ⟨_, _, heq⟩ := Option.map_eq_some_iff.1 h
      cases heq
      exact Nat.lt_succ_self _

/-- Reads what stands behind a backslash: an escape, or a break, which is dropped together
with the blanks of the next line. -/
def readEscaped (glyphs : List Glyph) : Option (List Char × List Glyph) :=
  match glyphs with
  | [] => none
  | glyph :: rest =>
    if isBreak glyph.char then
      let gap := rest.takeWhile fun glyph => isSpace glyph.char
      some ((chars gap).filter isBreak, rest.dropWhile fun glyph => isSpace glyph.char)
    else (readEscape (glyph :: rest)).map fun (c, after) => ([c], after)

theorem length_after_of_readEscaped {glyphs rest : List Glyph} {text : List Char}
    (h : readEscaped glyphs = some (text, rest)) : rest.length < glyphs.length := by
  unfold readEscaped at h
  split at h
  · cases h
  · next glyph tail =>
    split at h
    · cases h
      exact Nat.lt_succ_of_le (length_dropWhile_le _ tail)
    · obtain ⟨_, hescape, heq⟩ := Option.map_eq_some_iff.1 h
      have hlength := length_after_of_readEscape hescape
      cases heq
      exact hlength

/-- Reads one piece of a quoted scalar: a gap, an escape or a character, or nothing for the
closing quote.  A line of the scalar must not look like the start or end of a document. -/
def readQuotedPiece (double : Bool) (glyph : Glyph) (rest : List Glyph) :
    Option (Option (List Char) × List Glyph) :=
  if atDocumentMark (glyph :: rest) then none
  else if isSpace glyph.char then
    let gap := rest.takeWhile fun glyph => isSpace glyph.char
    some (some (foldGap (glyph.char :: chars gap)),
      rest.dropWhile fun glyph => isSpace glyph.char)
  else if double then
    if glyph.char = '"' then some (none, rest)
    else if glyph.char = '\\' then
      (readEscaped rest).map fun (text, after) => (some text, after)
    else some (some [glyph.char], rest)
  else if glyph.char = '\'' then
    match rest with
    | next :: after => if next.char = '\'' then some (some ['\''], after) else some (none, rest)
    | [] => some (none, rest)
  else some (some [glyph.char], rest)

theorem length_after_of_readQuotedPiece {double : Bool} {glyph : Glyph}
    {rest after : List Glyph} {piece : Option (List Char)}
    (h : readQuotedPiece double glyph rest = some (piece, after)) :
    after.length ≤ rest.length := by
  unfold readQuotedPiece at h
  split at h
  · cases h
  · split at h
    · cases h
      exact length_dropWhile_le _ rest
    · split at h
      · split at h
        · cases h
          exact Nat.le_refl _
        · split at h
          · obtain ⟨_, hescaped, heq⟩ := Option.map_eq_some_iff.1 h
            have hlength := length_after_of_readEscaped hescaped
            cases heq
            exact Nat.le_of_lt hlength
          · cases h
            exact Nat.le_refl _
      · split at h
        · split at h
          · split at h
            · cases h
              exact Nat.le_succ _
            · cases h
              exact Nat.le_refl _
          · cases h
            exact Nat.le_refl _
        · cases h
          exact Nat.le_refl _

/-- Reads a quoted scalar behind its opening quote. -/
def readQuoted (double : Bool) (glyphs : List Glyph) : Option (List Char × List Glyph) :=
  match glyphs with
  | [] => none
  | glyph :: rest =>
    match hpiece : readQuotedPiece double glyph rest with
    | none => none
    | some (none, after) => some ([], after)
    | some (some text, after) =>
      have : after.length < (glyph :: rest).length :=
        Nat.lt_succ_of_le (length_after_of_readQuotedPiece hpiece)
      match readQuoted double after with
      | some (more, last) => some (text ++ more, last)
      | none => none
termination_by glyphs.length
decreasing_by assumption

theorem length_after_of_readQuoted {double : Bool} {glyphs rest : List Glyph}
    {text : List Char} (h : readQuoted double glyphs = some (text, rest)) :
    rest.length ≤ glyphs.length := by
  fun_induction readQuoted double glyphs generalizing text rest with
  | case1 => cases h
  | case2 => cases h
  | case3 _ _ _ hpiece =>
    have hlength := length_after_of_readQuotedPiece hpiece
    cases h
    exact Nat.le_succ_of_le hlength
  | case4 _ _ _ _ _ hshorter _ _ hread ih =>
    have hlength := ih hread
    cases h
    omega
  | case5 => cases h

/-! ## Block scalars -/

/-- What becomes of the breaks at the end of a block scalar. -/
inductive Chomping where
  | strip
  | clip
  | keep
deriving DecidableEq, Inhabited

/-- The chomping that a sign asks for. -/
def chomping? (glyphs : List Glyph) : Option (Chomping × List Glyph) :=
  match glyphs with
  | glyph :: rest =>
    if glyph.char = '+' then some (.keep, rest)
    else if glyph.char = '-' then some (.strip, rest)
    else none
  | [] => none

theorem length_after_of_chomping? {glyphs rest : List Glyph} {chomping : Chomping}
    (h : chomping? glyphs = some (chomping, rest)) : rest.length < glyphs.length := by
  unfold chomping? at h
  split at h
  · split at h
    · cases h
      exact Nat.lt_succ_self _
    · split at h
      · cases h
        exact Nat.lt_succ_self _
      · cases h
  · cases h

/-- Reads the indentation that a block scalar asks for, a digit other than zero; without a
digit it is zero. -/
def readIncrement (glyphs : List Glyph) : Option (Nat × List Glyph) :=
  match glyphs with
  | glyph :: rest =>
    if glyph.char = '0' then none
    else if glyph.char.isDigit then some (glyph.char.toNat - '0'.toNat, rest)
    else some (0, glyphs)
  | [] => some (0, [])

theorem length_after_of_readIncrement {glyphs rest : List Glyph} {increment : Nat}
    (h : readIncrement glyphs = some (increment, rest)) : rest.length ≤ glyphs.length := by
  unfold readIncrement at h
  split at h
  · split at h
    · cases h
    · split at h
      · cases h
        exact Nat.le_succ _
      · cases h
        exact Nat.le_refl _
  · cases h
    exact Nat.le_refl _

/-- Reads the signs behind the mark of a block scalar, in either order. -/
def readBlockHeader (glyphs : List Glyph) : Option (Chomping × Nat × List Glyph) :=
  match chomping? glyphs with
  | some (chomping, rest) =>
    (readIncrement rest).map fun (increment, rest) => (chomping, increment, rest)
  | none =>
    match readIncrement glyphs with
    | none => none
    | some (increment, rest) =>
      match chomping? rest with
      | some (chomping, after) => some (chomping, increment, after)
      | none => some (.clip, increment, rest)

theorem length_after_of_readBlockHeader {glyphs rest : List Glyph} {chomping : Chomping}
    {increment : Nat} (h : readBlockHeader glyphs = some (chomping, increment, rest)) :
    rest.length ≤ glyphs.length := by
  unfold readBlockHeader at h
  split at h
  · next hchomping =>
    have hfirst := length_after_of_chomping? hchomping
    obtain ⟨_, hincrement, heq⟩ := Option.map_eq_some_iff.1 h
    have hsecond := length_after_of_readIncrement hincrement
    cases heq
    omega
  · split at h
    · cases h
    · next hincrement =>
      have hfirst := length_after_of_readIncrement hincrement
      split at h
      · next hchomping =>
        have hsecond := length_after_of_chomping? hchomping
        cases h
        omega
      · cases h
        exact hfirst

/-- Reads empty lines and the indentation of the line behind them.  With `indent` zero the
indentation is still open; then the widest one met is given. -/
def readBlockBreaks (indent widest : Nat) : List Glyph → Option (List Char × Nat × List Glyph)
  | [] => some ([], widest, [])
  | glyph :: rest =>
    let inMargin := indent = 0 ∨ glyph.column < indent
    if glyph.char = ' ' ∧ inMargin then readBlockBreaks indent widest rest
    else if glyph.char = '\t' ∧ inMargin then none
    else
      let widest := max widest glyph.column
      if isBreak glyph.char then
        match readBlockBreaks indent widest rest with
        | some (breaks, widest, after) => some (glyph.char :: breaks, widest, after)
        | none => none
      else some ([], widest, glyph :: rest)

theorem length_after_of_readBlockBreaks {indent widest found : Nat}
    {glyphs rest : List Glyph} {breaks : List Char}
    (h : readBlockBreaks indent widest glyphs = some (breaks, found, rest)) :
    rest.length ≤ glyphs.length := by
  fun_induction readBlockBreaks indent widest glyphs generalizing breaks found rest with
  | case1 =>
    cases h
    exact Nat.le_refl _
  | case2 =>
    rename_i ih
    exact Nat.le_succ_of_le (ih h)
  | case3 => cases h
  | case4 =>
    rename_i hread ih
    have hlength := ih hread
    cases h
    exact Nat.le_succ_of_le hlength
  | case5 => cases h
  | case6 =>
    cases h
    exact Nat.le_refl _

/-- Reads the lines of a block scalar at indentation `indent`.  `lineBreak` and `breaks` are
the break behind the line before and the empty lines behind that, and `afterBlank` says
that the line before started with a blank.  Gives the text, and both for the last line. -/
def readBlockLines (literal : Bool) (indent : Nat) (lineBreak breaks : List Char)
    (afterBlank : Bool) (glyphs : List Glyph) :
    Option (List Char × List Char × List Char × List Glyph) :=
  match glyphs with
  | [] => some ([], lineBreak, breaks, [])
  | glyph :: rest =>
    if glyph.column = indent then
      let startsBlank := isBlank glyph.char
      let joint :=
        if !literal && lineBreak == ['\n'] && !afterBlank && !startsBlank then
          (if breaks.isEmpty then [' '] else [])
        else lineBreak
      let line := (glyph :: rest).takeWhile fun glyph => !isBreak glyph.char
      let after := (glyph :: rest).dropWhile fun glyph => !isBreak glyph.char
      match hbreaks : readBlockBreaks indent 0 (after.drop 1) with
      | none => none
      | some (nextBreaks, _, following) =>
        have : following.length < (glyph :: rest).length := by
          have hfollowing := length_after_of_readBlockBreaks hbreaks
          have hafter : after.length ≤ (glyph :: rest).length := length_dropWhile_le _ _
          rw [List.length_drop] at hfollowing
          rw [List.length_cons] at hafter ⊢
          omega
        match readBlockLines literal indent (chars (after.take 1)) nextBreaks startsBlank
            following with
        | some (text, last) => some (joint ++ breaks ++ chars line ++ text, last)
        | none => none
    else some ([], lineBreak, breaks, glyph :: rest)
termination_by glyphs.length
decreasing_by assumption

theorem length_after_of_readBlockLines {literal afterBlank : Bool} {indent : Nat}
    {lineBreak breaks text lastBreak lastBreaks : List Char} {glyphs rest : List Glyph}
    (h : readBlockLines literal indent lineBreak breaks afterBlank glyphs =
      some (text, lastBreak, lastBreaks, rest)) :
    rest.length ≤ glyphs.length := by
  fun_induction readBlockLines literal indent lineBreak breaks afterBlank glyphs
    generalizing text lastBreak lastBreaks rest with
  | case1 =>
    cases h
    exact Nat.le_refl _
  | case2 => cases h
  | case3 =>
    rename_i hshorter _ last hread ih
    obtain ⟨_, _, _⟩ := last
    have hlength := ih hread
    cases h
    omega
  | case4 => cases h
  | case5 =>
    cases h
    exact Nat.le_refl _

/-- Reads a block scalar behind its mark.  `indent` is the indentation of the block around
it, which is negative at the top. -/
def readBlock (literal : Bool) (indent : Int) (glyphs : List Glyph) :
    Option (List Char × List Glyph) :=
  match readBlockHeader glyphs with
  | none => none
  | some (chomping, increment, rest) =>
    match endOfLine? rest with
    | none => none
    | some rest =>
      let wanted := if increment = 0 then 0 else indent.toNat + increment
      match readBlockBreaks wanted 0 rest with
      | none => none
      | some (breaks, widest, rest) =>
        let wanted := if wanted = 0 then max (max widest (indent + 1).toNat) 1 else wanted
        match readBlockLines literal wanted [] breaks false rest with
        | none => none
        | some (text, lineBreak, breaks, rest) =>
          some (match chomping with
            | .strip => text
            | .clip => text ++ lineBreak
            | .keep => text ++ lineBreak ++ breaks, rest)

theorem length_after_of_readBlock {literal : Bool} {indent : Int} {glyphs rest : List Glyph}
    {text : List Char} (h : readBlock literal indent glyphs = some (text, rest)) :
    rest.length ≤ glyphs.length := by
  unfold readBlock at h
  split at h
  · cases h
  · next hheader =>
    have hfirst := length_after_of_readBlockHeader hheader
    split at h
    · cases h
    · next hline =>
      have hsecond := length_after_of_endOfLine? hline
      dsimp only at h
      split at h
      · cases h
      · next hbreaks =>
        have hthird := length_after_of_readBlockBreaks hbreaks
        split at h
        · cases h
        · next hlines =>
          have hfourth := length_after_of_readBlockLines hlines
          cases h
          omega

end Yaml

end SchemaLint
