import SchemaLint.Yaml.Glyph

namespace SchemaLint

namespace Yaml

/-!
# Tags, anchors and directives

A tag is written in full, or as a handle and a suffix; the directives in front of a
document say what handles stand for.  Tags are kept as bytes, because their escapes
name bytes that need not spell a text.  A zero byte ends what it stands in: a suffix, or
what a handle stands for.
-/

/-- A tag as it is written.  The handle is empty when the suffix is the whole tag. -/
structure WrittenTag where
  handle : List Char
  suffix : List UInt8
deriving DecidableEq, Inhabited

/-- The bytes of a text. -/
def bytesOf (text : List Char) : List UInt8 := (String.ofList text).toUTF8.toList

/-- The bytes before the first zero byte. -/
def untilZero (octets : List UInt8) : List UInt8 := octets.takeWhile (· ≠ 0)

/-- The further characters of a tag, apart from word characters. -/
def tagMarks : List Char := ";/?:@&=+$.%!~*'()".toList

/-- The characters that a tag may hold only between angle brackets and in directives. -/
def listMarks : List Char := [',', '[', ']']

/-- Whether a character can stand in a tag. -/
def isTagChar (verbatim : Bool) (c : Char) : Bool :=
  isWordChar c || tagMarks.contains c || (verbatim && listMarks.contains c)

/-- The number of bytes that a text character with this first byte takes. -/
def octetWidth? (octet : Nat) : Option Nat :=
  if octet < 0x80 then some 1
  else if octet / 0x20 = 0x06 then some 2
  else if octet / 0x10 = 0x0E then some 3
  else if octet / 0x08 = 0x1E then some 4
  else none

/-- Reads one escaped byte. -/
def readOctet : List Glyph → Option (Nat × List Glyph)
  | glyph :: rest => if glyph.char = '%' then readHex 2 0 rest else none
  | [] => none

theorem length_after_of_readOctet {octet : Nat} {glyphs rest : List Glyph}
    (h : readOctet glyphs = some (octet, rest)) : rest.length < glyphs.length := by
  unfold readOctet at h
  split at h
  · split at h
    · have hlength := length_after_of_readHex h
      rw [List.length_cons]
      omega
    · cases h
  · cases h

/-- Reads the escaped bytes of a character behind its first byte. -/
def readTrailingOctets (count : Nat) (glyphs : List Glyph) : Option (List UInt8 × List Glyph) :=
  match count with
  | 0 => some ([], glyphs)
  | count + 1 =>
    match readOctet glyphs with
    | none => none
    | some (octet, rest) =>
      if octet / 0x40 = 0x02 then
        (readTrailingOctets count rest).map fun (octets, after) =>
          (UInt8.ofNat octet :: octets, after)
      else none

theorem length_after_of_readTrailingOctets {count : Nat} {glyphs rest : List Glyph}
    {octets : List UInt8} (h : readTrailingOctets count glyphs = some (octets, rest)) :
    rest.length ≤ glyphs.length := by
  induction count generalizing glyphs octets rest with
  | zero =>
    cases h
    exact Nat.le_refl _
  | succ count ih =>
    rw [readTrailingOctets] at h
    split at h
    · cases h
    · next hoctet =>
      have hfirst := length_after_of_readOctet hoctet
      split at h
      · obtain ⟨_, hmore, heq⟩ := Option.map_eq_some_iff.1 h
        have hsecond := ih hmore
        cases heq
        omega
      · cases h

/-- Reads an escaped character. -/
def readOctets (glyphs : List Glyph) : Option (List UInt8 × List Glyph) :=
  match readOctet glyphs with
  | none => none
  | some (octet, rest) =>
    match octetWidth? octet with
    | none => none
    | some width =>
      (readTrailingOctets (width - 1) rest).map fun (octets, after) =>
        (UInt8.ofNat octet :: octets, after)

theorem length_after_of_readOctets {glyphs rest : List Glyph} {octets : List UInt8}
    (h : readOctets glyphs = some (octets, rest)) : rest.length < glyphs.length := by
  unfold readOctets at h
  split at h
  · cases h
  · next hoctet =>
    have hfirst := length_after_of_readOctet hoctet
    split at h
    · cases h
    · obtain ⟨_, hmore, heq⟩ := Option.map_eq_some_iff.1 h
      have hsecond := length_after_of_readTrailingOctets hmore
      cases heq
      omega

/-- Reads one character of a tag, as its bytes. -/
def readTagChar (glyph : Glyph) (rest : List Glyph) : Option (List UInt8 × List Glyph) :=
  if glyph.char = '%' then readOctets (glyph :: rest)
  else some ([UInt8.ofNat glyph.char.toNat], rest)

theorem length_after_of_readTagChar {glyph : Glyph} {rest after : List Glyph}
    {octets : List UInt8} (h : readTagChar glyph rest = some (octets, after)) :
    after.length < (glyph :: rest).length := by
  unfold readTagChar at h
  split at h
  · exact length_after_of_readOctets h
  · cases h
    exact Nat.lt_succ_self _

/-- Reads the characters of a tag. -/
def readTagText (verbatim : Bool) (glyphs : List Glyph) : Option (List UInt8 × List Glyph) :=
  match glyphs with
  | [] => some ([], [])
  | glyph :: rest =>
    if !isTagChar verbatim glyph.char then some ([], glyph :: rest)
    else
      match hchar : readTagChar glyph rest with
      | none => none
      | some (octets, after) =>
        have : after.length < (glyph :: rest).length := length_after_of_readTagChar hchar
        (readTagText verbatim after).map fun (more, last) => (octets ++ more, last)
termination_by glyphs.length
decreasing_by assumption

theorem length_after_of_readTagText {verbatim : Bool} {glyphs rest : List Glyph}
    {octets : List UInt8} (h : readTagText verbatim glyphs = some (octets, rest)) :
    rest.length ≤ glyphs.length := by
  fun_induction readTagText verbatim glyphs generalizing octets rest with
  | case1 =>
    cases h
    exact Nat.le_refl _
  | case2 =>
    cases h
    exact Nat.le_refl _
  | case3 => cases h
  | case4 _ _ _ _ _ _ hshorter ih =>
    obtain ⟨_, hmore, heq⟩ := Option.map_eq_some_iff.1 h
    have hlength := ih hmore
    cases heq
    omega

/-- Reads the characters of a tag, of which there is at least one. -/
def readSomeTagText (verbatim : Bool) (glyphs : List Glyph) : Option (List UInt8 × List Glyph) :=
  match readTagText verbatim glyphs with
  | some ([], _) => none
  | other => other

theorem length_after_of_readSomeTagText {verbatim : Bool} {glyphs rest : List Glyph}
    {octets : List UInt8} (h : readSomeTagText verbatim glyphs = some (octets, rest)) :
    rest.length ≤ glyphs.length := by
  unfold readSomeTagText at h
  split at h
  · cases h
  · exact length_after_of_readTagText h

/-- Reads a handle behind its first mark: word characters, and the closing mark if there is
one.  Tells whether it was closed. -/
def readHandle (glyphs : List Glyph) : List Char × Bool × List Glyph :=
  let word := glyphs.takeWhile fun glyph => isWordChar glyph.char
  let rest := glyphs.dropWhile fun glyph => isWordChar glyph.char
  match rest with
  | glyph :: after =>
    if glyph.char = '!' then ('!' :: chars word ++ ['!'], true, after)
    else ('!' :: chars word, false, rest)
  | [] => ('!' :: chars word, false, rest)

theorem length_after_readHandle (glyphs : List Glyph) :
    (readHandle glyphs).2.2.length ≤ glyphs.length := by
  have hword := length_dropWhile_le (fun glyph => isWordChar glyph.char) glyphs
  unfold readHandle
  dsimp only
  split
  · next glyph after hrest =>
    rw [hrest, List.length_cons] at hword
    split
    · exact Nat.le_of_succ_le hword
    · rw [hrest, List.length_cons]
      exact hword
  · exact hword

/-- Reads a tag behind its first mark, up to where it must end. -/
def readTagBody (glyphs : List Glyph) : Option (WrittenTag × List Glyph) :=
  if startsWith '<' glyphs then
    match readSomeTagText true (glyphs.drop 1) with
    | none => none
    | some (suffix, rest) =>
      if startsWith '>' rest then some (⟨[], untilZero suffix⟩, rest.drop 1) else none
  else
    match readHandle glyphs with
    | (handle, true, rest) =>
      (readSomeTagText false rest).map fun (suffix, after) =>
        (⟨handle, untilZero suffix⟩, after)
    | (handle, false, rest) =>
      match readTagText false rest with
      | none => none
      | some (more, after) =>
        let suffix := untilZero (bytesOf (handle.drop 1) ++ more)
        if suffix.isEmpty then some (⟨[], bytesOf ['!']⟩, after) else some (⟨['!'], suffix⟩, after)

theorem length_after_of_readTagBody {glyphs rest : List Glyph} {tag : WrittenTag}
    (h : readTagBody glyphs = some (tag, rest)) : rest.length ≤ glyphs.length := by
  unfold readTagBody at h
  split at h
  · split at h
    · cases h
    · next hsuffix =>
      have hlength := length_after_of_readSomeTagText hsuffix
      rw [List.length_drop] at hlength
      split at h
      · cases h
        rw [List.length_drop]
        omega
      · cases h
  · have hhandle := length_after_readHandle glyphs
    split at h
    · next heq =>
      rw [heq] at hhandle
      obtain ⟨_, hsuffix, hpair⟩ := Option.map_eq_some_iff.1 h
      have hlength := length_after_of_readSomeTagText hsuffix
      cases hpair
      exact Nat.le_trans hlength hhandle
    · next heq =>
      rw [heq] at hhandle
      split at h
      · cases h
      · next hmore =>
        have hlength := length_after_of_readTagText hmore
        have hafter := Nat.le_trans hlength hhandle
        dsimp only at h
        split at h
        · cases h
          exact hafter
        · cases h
          exact hafter

/-- Reads a tag behind its first mark.  A word must end behind it, or in flow context a comma
follow. -/
def readTag (flow : Bool) (glyphs : List Glyph) : Option (WrittenTag × List Glyph) :=
  match readTagBody glyphs with
  | none => none
  | some (tag, rest) =>
    if (flow ∧ startsWith ',' rest) ∨ endsWord rest then some (tag, rest) else none

theorem length_after_of_readTag {flow : Bool} {glyphs rest : List Glyph} {tag : WrittenTag}
    (h : readTag flow glyphs = some (tag, rest)) : rest.length ≤ glyphs.length := by
  unfold readTag at h
  split at h
  · cases h
  · next hbody =>
    split at h
    · cases h
      exact length_after_of_readTagBody hbody
    · cases h

/-- The marks that may follow the name of an anchor or alias directly. -/
def anchorEnds : List Char := "?:,]\x7d%@`".toList

/-- Reads the name of an anchor or alias. -/
def readAnchorName (glyphs : List Glyph) : Option (List Char × List Glyph) :=
  let name := glyphs.takeWhile fun glyph => isWordChar glyph.char
  let rest := glyphs.dropWhile fun glyph => isWordChar glyph.char
  if !name.isEmpty ∧ (endsWord rest ∨ startsWithAny anchorEnds rest) then some (chars name, rest)
  else none

theorem length_after_of_readAnchorName {glyphs rest : List Glyph} {name : List Char}
    (h : readAnchorName glyphs = some (name, rest)) : rest.length ≤ glyphs.length := by
  unfold readAnchorName at h
  dsimp only at h
  split at h
  · cases h
    exact length_dropWhile_le _ glyphs
  · cases h

/-- A line in front of a document. -/
inductive Directive where
  | version (major minor : Nat)
  | tag (handle : List Char) (replacement : List UInt8)
deriving DecidableEq, Inhabited

/-- Reads a number of at most nine digits. -/
def readVersionNumber (glyphs : List Glyph) : Option (Nat × List Glyph) :=
  let digits := glyphs.takeWhile fun glyph => glyph.char.isDigit
  let rest := glyphs.dropWhile fun glyph => glyph.char.isDigit
  if digits.isEmpty ∨ 9 < digits.length then none
  else
    some (digits.foldl (fun value glyph => value * 10 + (glyph.char.toNat - '0'.toNat)) 0, rest)

theorem length_after_of_readVersionNumber {number : Nat} {glyphs rest : List Glyph}
    (h : readVersionNumber glyphs = some (number, rest)) : rest.length ≤ glyphs.length := by
  unfold readVersionNumber at h
  dsimp only at h
  split at h
  · cases h
  · cases h
    exact length_dropWhile_le _ glyphs

/-- Reads the two numbers of a version. -/
def readVersion (glyphs : List Glyph) : Option (Directive × List Glyph) :=
  match readVersionNumber (skipBlanks glyphs) with
  | none => none
  | some (major, rest) =>
    if startsWith '.' rest then
      (readVersionNumber (rest.drop 1)).map fun (minor, after) => (.version major minor, after)
    else none

theorem length_after_of_readVersion {glyphs rest : List Glyph} {directive : Directive}
    (h : readVersion glyphs = some (directive, rest)) : rest.length ≤ glyphs.length := by
  have hblanks := length_skipBlanks_le glyphs
  unfold readVersion at h
  split at h
  · cases h
  · next hmajor =>
    have hfirst := length_after_of_readVersionNumber hmajor
    split at h
    · obtain ⟨_, hminor, heq⟩ := Option.map_eq_some_iff.1 h
      have hsecond := length_after_of_readVersionNumber hminor
      rw [List.length_drop] at hsecond
      cases heq
      omega
    · cases h

/-- Reads a handle and what it stands for. -/
def readTagMeaning (glyphs : List Glyph) : Option (Directive × List Glyph) :=
  let start := skipBlanks glyphs
  if !startsWith '!' start then none
  else
    let (handle, closed, rest) := readHandle (start.drop 1)
    if !closed ∧ handle ≠ ['!'] then none
    else if !(startsWithAny [' ', '\t'] rest) then none
    else
      match readSomeTagText true (skipBlanks rest) with
      | none => none
      | some (replacement, after) =>
        if endsWord after then some (.tag handle (untilZero replacement), after) else none

theorem length_after_of_readTagMeaning {glyphs rest : List Glyph} {directive : Directive}
    (h : readTagMeaning glyphs = some (directive, rest)) : rest.length ≤ glyphs.length := by
  have hstart := length_skipBlanks_le glyphs
  have hhandle := length_after_readHandle ((skipBlanks glyphs).drop 1)
  rw [List.length_drop] at hhandle
  unfold readTagMeaning at h
  dsimp only at h
  split at h
  · cases h
  · generalize readHandle ((skipBlanks glyphs).drop 1) = read at h hhandle
    obtain ⟨handle, closed, after⟩ := read
    have hblanks := length_skipBlanks_le after
    dsimp only at h hhandle
    split at h
    · cases h
    · split at h
      · cases h
      · split at h
        · cases h
        · next hsuffix =>
          have hlength := length_after_of_readSomeTagText hsuffix
          split at h
          · cases h
            omega
          · cases h

/-- Reads the rest of the directive with the given name. -/
def readMeaning (name : List Char) (glyphs : List Glyph) : Option (Directive × List Glyph) :=
  if name = "YAML".toList then readVersion glyphs
  else if name = "TAG".toList then readTagMeaning glyphs
  else none

theorem length_after_of_readMeaning {name : List Char} {glyphs rest : List Glyph}
    {directive : Directive} (h : readMeaning name glyphs = some (directive, rest)) :
    rest.length ≤ glyphs.length := by
  unfold readMeaning at h
  split at h
  · exact length_after_of_readVersion h
  · split at h
    · exact length_after_of_readTagMeaning h
    · cases h

/-- Reads a directive behind its mark, to the end of its line. -/
def readDirective (glyphs : List Glyph) : Option (Directive × List Glyph) :=
  let name := chars (glyphs.takeWhile fun glyph => isWordChar glyph.char)
  let rest := glyphs.dropWhile fun glyph => isWordChar glyph.char
  if !endsWord rest then none
  else
    match readMeaning name rest with
    | none => none
    | some (directive, rest) => (endOfLine? rest).map fun after => (directive, after)

theorem length_after_of_readDirective {glyphs rest : List Glyph} {directive : Directive}
    (h : readDirective glyphs = some (directive, rest)) : rest.length ≤ glyphs.length := by
  have hword := length_dropWhile_le (fun glyph => isWordChar glyph.char) glyphs
  unfold readDirective at h
  dsimp only at h
  split at h
  · cases h
  · split at h
    · cases h
    · next hmeaning =>
      have hfirst := length_after_of_readMeaning hmeaning
      obtain ⟨_, hline, heq⟩ := Option.map_eq_some_iff.1 h
      have hsecond := length_after_of_endOfLine? hline
      cases heq
      omega

end Yaml

end SchemaLint
