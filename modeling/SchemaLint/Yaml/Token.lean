import SchemaLint.Yaml.Scalar
import SchemaLint.Yaml.Tag

namespace SchemaLint

namespace Yaml

/-!
# Tokens of YAML texts

Tokens mark the structure of a text: where blocks start and end by indentation, where
flow collections open and close, and where keys and values stand.

A key needs no mark of its own.  It is recognised by the colon behind it, so while a
node is read its place among the tokens is kept as a candidate; when the colon comes,
the mark of the key, and where a block starts also that of the block, are put there.
A candidate is given up when its line ends or after 1024 bytes.  In block context
a node at the indentation of the block must be a key.
-/

/-- A token. -/
inductive Token where
  | directive (directive : Directive)
  | documentStart
  | documentEnd
  | blockListStart
  | blockMapStart
  | blockEnd
  | flowListStart
  | flowListEnd
  | flowMapStart
  | flowMapEnd
  | blockEntry
  | flowEntry
  | key
  | value
  | alias (name : List Char)
  | anchor (name : List Char)
  | tag (tag : WrittenTag)
  | scalar (plain : Bool) (text : List Char)
deriving DecidableEq, Inhabited

/-- A place where a key may have started: the number of tokens before it, and the glyph. -/
structure KeyCandidate where
  required : Bool
  place : Nat
  start : Glyph
deriving DecidableEq, Inhabited

/-- The state of the reader: what is left, the tokens so far, the indentation of the open
blocks, the innermost first, and one candidate for each open flow collection and one for
the blocks around them, the innermost first. -/
structure Scan where
  rest : List Glyph
  tokens : Array Token := #[]
  indent : Int := -1
  outerIndents : List Int := []
  candidate : Option KeyCandidate := none
  outerCandidates : List (Option KeyCandidate) := []
  keyAllowed : Bool := true
deriving Inhabited

namespace Scan

/-- Whether a flow collection is open. -/
def inFlow (scan : Scan) : Bool := !scan.outerCandidates.isEmpty

/-- Adds a token and goes on at `rest`. -/
def emit (scan : Scan) (token : Token) (rest : List Glyph) : Scan :=
  { scan with tokens := scan.tokens.push token, rest := rest }

/-- Skips blanks, breaks and comments, and a byte order mark at the start of a line.  Tabs
are no blanks where a key may start in block context.  A break in block context allows a
key. -/
def skip (inFlow inComment keyAllowed : Bool) : List Glyph → Bool × List Glyph
  | [] => (keyAllowed, [])
  | glyph :: rest =>
    if isBreak glyph.char then skip inFlow false (keyAllowed || !inFlow) rest
    else if inComment then skip inFlow true keyAllowed rest
    else if glyph.char = ' ' ∨ (glyph.char = '\t' ∧ (inFlow ∨ !keyAllowed)) then
      skip inFlow false keyAllowed rest
    else if glyph.char = '#' then skip inFlow true keyAllowed rest
    else if glyph.char = '\ufeff' ∧ glyph.column = 0 then skip inFlow false keyAllowed rest
    else (keyAllowed, glyph :: rest)

/-- The state where the next token starts. -/
def toToken (scan : Scan) : Scan :=
  let (keyAllowed, rest) := skip scan.inFlow false scan.keyAllowed scan.rest
  { scan with keyAllowed := keyAllowed, rest := rest }

/-- What is left of a candidate at a glyph; a required one must not be given up. -/
def refresh? (here : Glyph) : Option KeyCandidate → Option (Option KeyCandidate)
  | none => some none
  | some candidate =>
    if candidate.start.line < here.line ∨ candidate.start.index + 1024 < here.index then
      (if candidate.required then none else some none)
    else some (some candidate)

/-- Gives up the candidates that are too far away. -/
def refreshAll? (here : Glyph) : List (Option KeyCandidate) → Option (List (Option KeyCandidate))
  | [] => some []
  | candidate :: rest =>
    match refresh? here candidate, refreshAll? here rest with
    | some candidate, some rest => some (candidate :: rest)
    | _, _ => none

/-- Gives up the candidates that are too far away. -/
def refreshCandidates? (scan : Scan) (here : Glyph) : Option Scan :=
  match refresh? here scan.candidate, refreshAll? here scan.outerCandidates with
  | some candidate, some outer =>
    some { scan with candidate := candidate, outerCandidates := outer }
  | _, _ => none

/-- Gives up the innermost candidate. -/
def dropCandidate? (scan : Scan) : Option Scan :=
  match scan.candidate with
  | some candidate => if candidate.required then none else some { scan with candidate := none }
  | none => some scan

/-- Makes the next token a candidate, if a key may start there. -/
def saveCandidate? (scan : Scan) (here : Glyph) : Option Scan :=
  if scan.keyAllowed then
    (scan.dropCandidate?).map fun scan =>
      { scan with
        candidate := some {
          required := !scan.inFlow && scan.indent == (here.column : Int)
          place := scan.tokens.size
          start := here } }
  else some scan

/-- Ends blocks that are indented further than `column`. -/
def endBlocks (column indent : Int) (tokens : Array Token) : List Int → Int × List Int × Array Token
  | [] => (indent, [], tokens)
  | outer :: rest =>
    if column < indent then endBlocks column outer (tokens.push .blockEnd) rest
    else (indent, outer :: rest, tokens)

/-- Ends the blocks that a token in this column does not belong to. -/
def unindent (scan : Scan) (column : Int) : Scan :=
  if scan.inFlow then scan
  else
    let (indent, outer, tokens) := endBlocks column scan.indent scan.tokens scan.outerIndents
    { scan with indent := indent, outerIndents := outer, tokens := tokens }

/-- Starts a block at a column right of the current one, with its mark at a place among the
tokens. -/
def indentAt (scan : Scan) (column : Nat) (place : Nat) (start : Token) : Scan :=
  if !scan.inFlow ∧ scan.indent < column then
    { scan with
      indent := column
      outerIndents := scan.indent :: scan.outerIndents
      tokens := scan.tokens.insertIdxIfInBounds place start }
  else scan

/-- A mark that ends all blocks. -/
def atTop? (scan : Scan) : Option Scan :=
  ((scan.unindent (-1)).dropCandidate?).map fun scan => { scan with keyAllowed := false }

/-- The opening of a flow collection. -/
def openFlow? (scan : Scan) (here : Glyph) (token : Token) (rest : List Glyph) : Option Scan :=
  (scan.saveCandidate? here).map fun scan =>
    { scan with
      candidate := none
      outerCandidates := scan.candidate :: scan.outerCandidates
      keyAllowed := true }.emit token rest

/-- The closing of a flow collection. -/
def closeFlow? (scan : Scan) (token : Token) (rest : List Glyph) : Option Scan :=
  (scan.dropCandidate?).map fun scan =>
    let scan := match scan.outerCandidates with
      | [] => scan
      | candidate :: outer => { scan with candidate := candidate, outerCandidates := outer }
    { scan with keyAllowed := false }.emit token rest

/-- The mark of an entry of a block list. -/
def blockItem? (scan : Scan) (here : Glyph) (rest : List Glyph) : Option Scan :=
  if !scan.inFlow ∧ !scan.keyAllowed then none
  else
    ((scan.indentAt here.column scan.tokens.size .blockListStart).dropCandidate?).map fun scan =>
      { scan with keyAllowed := true }.emit .blockEntry rest

/-- The explicit mark of a key. -/
def explicitKey? (scan : Scan) (here : Glyph) (rest : List Glyph) : Option Scan :=
  if !scan.inFlow ∧ !scan.keyAllowed then none
  else
    ((scan.indentAt here.column scan.tokens.size .blockMapStart).dropCandidate?).map fun scan =>
      { scan with keyAllowed := !scan.inFlow }.emit .key rest

/-- The mark of a value.  It makes the candidate a key. -/
def value? (scan : Scan) (here : Glyph) (rest : List Glyph) : Option Scan :=
  match scan.candidate with
  | some candidate =>
    let scan :=
      { scan with
        tokens := scan.tokens.insertIdxIfInBounds candidate.place .key
        candidate := none
        keyAllowed := false }
    some ((scan.indentAt candidate.start.column candidate.place .blockMapStart).emit .value rest)
  | none =>
    if !scan.inFlow ∧ !scan.keyAllowed then none
    else
      let scan := scan.indentAt here.column scan.tokens.size .blockMapStart
      some ({ scan with keyAllowed := !scan.inFlow }.emit .value rest)

/-- A token that can be a key. -/
def keyLike? (scan : Scan) (here : Glyph) (token : Token) (rest : List Glyph) : Option Scan :=
  (scan.saveCandidate? here).map fun scan => { scan with keyAllowed := false }.emit token rest

/-- The characters that no plain scalar starts with. -/
def indicators : List Char := "-?:,[]\x7b\x7d#&*!|>'\"%@`".toList

/-- Whether a plain scalar starts here. -/
def startsPlain (inFlow : Bool) (here : Glyph) (rest : List Glyph) : Bool :=
  !(isSpace here.char || indicators.contains here.char) ||
    (here.char == '-' && !startsWithAny [' ', '\t'] rest) ||
    (!inFlow && (here.char == '?' || here.char == ':') && !endsWord rest)

/-- A plain scalar. -/
def plain? (scan : Scan) (here : Glyph) (rest : List Glyph) : Option Scan :=
  match readPlain scan.inFlow (scan.indent + 1).toNat here.char rest with
  | none => none
  | some (text, broken, after) =>
    (scan.keyLike? here (.scalar true text) after).map fun scan =>
      { scan with keyAllowed := broken }

/-- A quoted scalar. -/
def quoted? (scan : Scan) (here : Glyph) (rest : List Glyph) : Option Scan :=
  match readQuoted (here.char == '"') rest with
  | some (text, after) => scan.keyLike? here (.scalar false text) after
  | none => none

/-- A block scalar. -/
def block? (scan : Scan) (here : Glyph) (rest : List Glyph) : Option Scan :=
  match scan.dropCandidate?, readBlock (here.char == '|') scan.indent rest with
  | some scan, some (text, after) =>
    some ({ scan with keyAllowed := true }.emit (.scalar false text) after)
  | _, _ => none

/-- An anchor or alias. -/
def anchor? (scan : Scan) (here : Glyph) (rest : List Glyph) : Option Scan :=
  match readAnchorName rest with
  | some (name, after) =>
    scan.keyLike? here (if here.char = '&' then .anchor name else .alias name) after
  | none => none

/-- A tag. -/
def tag? (scan : Scan) (here : Glyph) (rest : List Glyph) : Option Scan :=
  match readTag scan.inFlow rest with
  | some (tag, after) => scan.keyLike? here (.tag tag) after
  | none => none

/-- A directive. -/
def directive? (scan : Scan) (rest : List Glyph) : Option Scan :=
  match scan.atTop?, readDirective rest with
  | some scan, some (directive, after) => some (scan.emit (.directive directive) after)
  | _, _ => none

/-- Reads the token that starts at the first glyph. -/
def token? (scan : Scan) (here : Glyph) (rest : List Glyph) : Option Scan :=
  if here.column = 0 ∧ here.char = '%' then scan.directive? rest
  else
    match documentMark? '-' (here :: rest), documentMark? '.' (here :: rest) with
    | some after, _ => (scan.atTop?).map (·.emit .documentStart after)
    | none, some after => (scan.atTop?).map (·.emit .documentEnd after)
    | none, none =>
      match here.char with
      | '[' => scan.openFlow? here .flowListStart rest
      | '\x7b' => scan.openFlow? here .flowMapStart rest
      | ']' => scan.closeFlow? .flowListEnd rest
      | '\x7d' => scan.closeFlow? .flowMapEnd rest
      | ',' =>
        (scan.dropCandidate?).map fun scan => { scan with keyAllowed := true }.emit .flowEntry rest
      | c =>
        if c = '-' ∧ endsWord rest then scan.blockItem? here rest
        else if c = '?' ∧ (scan.inFlow ∨ endsWord rest) then scan.explicitKey? here rest
        else if c = ':' ∧ (scan.inFlow ∨ endsWord rest) then scan.value? here rest
        else if c = '*' ∨ c = '&' then scan.anchor? here rest
        else if c = '!' then scan.tag? here rest
        else if (c = '|' ∨ c = '>') ∧ !scan.inFlow then scan.block? here rest
        else if c = '\'' ∨ c = '"' then scan.quoted? here rest
        else if startsPlain scan.inFlow here rest then scan.plain? here rest
        else none

/-! ## Progress -/

theorem length_rest_skip (inFlow inComment keyAllowed : Bool) (glyphs : List Glyph) :
    (skip inFlow inComment keyAllowed glyphs).2.length ≤ glyphs.length := by
  fun_induction skip inFlow inComment keyAllowed glyphs with
  | case1 => exact Nat.le_refl _
  | case2 _ _ _ _ _ ih => exact Nat.le_succ_of_le ih
  | case3 _ _ _ _ ih => exact Nat.le_succ_of_le ih
  | case4 _ _ _ _ _ _ _ ih => exact Nat.le_succ_of_le ih
  | case5 _ _ _ _ _ _ _ _ ih => exact Nat.le_succ_of_le ih
  | case6 _ _ _ _ _ _ _ _ _ ih => exact Nat.le_succ_of_le ih
  | case7 => exact Nat.le_refl _

theorem length_rest_toToken (scan : Scan) : scan.toToken.rest.length ≤ scan.rest.length :=
  length_rest_skip scan.inFlow false scan.keyAllowed scan.rest

theorem rest_of_keyLike? {scan next : Scan} {here : Glyph} {token : Token} {rest : List Glyph}
    (h : scan.keyLike? here token rest = some next) : next.rest = rest := by
  obtain ⟨_, _, heq⟩ := Option.map_eq_some_iff.1 h
  rw [← heq]
  rfl

theorem rest_of_openFlow? {scan next : Scan} {here : Glyph} {token : Token} {rest : List Glyph}
    (h : scan.openFlow? here token rest = some next) : next.rest = rest := by
  obtain ⟨_, _, heq⟩ := Option.map_eq_some_iff.1 h
  rw [← heq]
  rfl

theorem rest_of_closeFlow? {scan next : Scan} {token : Token} {rest : List Glyph}
    (h : scan.closeFlow? token rest = some next) : next.rest = rest := by
  obtain ⟨_, _, heq⟩ := Option.map_eq_some_iff.1 h
  rw [← heq]
  rfl

theorem rest_of_blockItem? {scan next : Scan} {here : Glyph} {rest : List Glyph}
    (h : scan.blockItem? here rest = some next) : next.rest = rest := by
  unfold blockItem? at h
  split at h
  · cases h
  · obtain ⟨_, _, heq⟩ := Option.map_eq_some_iff.1 h
    rw [← heq]
    rfl

theorem rest_of_explicitKey? {scan next : Scan} {here : Glyph} {rest : List Glyph}
    (h : scan.explicitKey? here rest = some next) : next.rest = rest := by
  unfold explicitKey? at h
  split at h
  · cases h
  · obtain ⟨_, _, heq⟩ := Option.map_eq_some_iff.1 h
    rw [← heq]
    rfl

theorem rest_of_value? {scan next : Scan} {here : Glyph} {rest : List Glyph}
    (h : scan.value? here rest = some next) : next.rest = rest := by
  unfold value? at h
  split at h
  · cases h
    rfl
  · split at h
    · cases h
    · cases h
      rfl

theorem length_rest_of_plain? {scan next : Scan} {here : Glyph} {rest : List Glyph}
    (h : scan.plain? here rest = some next) : next.rest.length ≤ rest.length := by
  unfold plain? at h
  split at h
  · cases h
  · next hplain =>
    obtain ⟨_, hkey, heq⟩ := Option.map_eq_some_iff.1 h
    rw [← heq]
    dsimp only
    rw [rest_of_keyLike? hkey]
    exact length_after_of_readPlain hplain

theorem length_rest_of_quoted? {scan next : Scan} {here : Glyph} {rest : List Glyph}
    (h : scan.quoted? here rest = some next) : next.rest.length ≤ rest.length := by
  unfold quoted? at h
  split at h
  · next hquoted =>
    rw [rest_of_keyLike? h]
    exact length_after_of_readQuoted hquoted
  · cases h

theorem length_rest_of_block? {scan next : Scan} {here : Glyph} {rest : List Glyph}
    (h : scan.block? here rest = some next) : next.rest.length ≤ rest.length := by
  unfold block? at h
  split at h
  · next hblock =>
    cases h
    exact length_after_of_readBlock hblock
  · cases h

theorem length_rest_of_anchor? {scan next : Scan} {here : Glyph} {rest : List Glyph}
    (h : scan.anchor? here rest = some next) : next.rest.length ≤ rest.length := by
  unfold anchor? at h
  split at h
  · next hname =>
    rw [rest_of_keyLike? h]
    exact length_after_of_readAnchorName hname
  · cases h

theorem length_rest_of_tag? {scan next : Scan} {here : Glyph} {rest : List Glyph}
    (h : scan.tag? here rest = some next) : next.rest.length ≤ rest.length := by
  unfold tag? at h
  split at h
  · next htag =>
    rw [rest_of_keyLike? h]
    exact length_after_of_readTag htag
  · cases h

theorem length_rest_of_directive? {scan next : Scan} {rest : List Glyph}
    (h : scan.directive? rest = some next) : next.rest.length ≤ rest.length := by
  unfold directive? at h
  split at h
  · next hdirective =>
    cases h
    exact length_after_of_readDirective hdirective
  · cases h

theorem length_rest_of_documentMark? {scan next : Scan} {here : Glyph} {c : Char}
    {token : Token} {rest after : List Glyph}
    (hmark : documentMark? c (here :: rest) = some after)
    (h : (scan.atTop?).map (·.emit token after) = some next) :
    next.rest.length ≤ rest.length := by
  have hlength := length_after_of_documentMark? hmark
  obtain ⟨_, _, heq⟩ := Option.map_eq_some_iff.1 h
  rw [← heq]
  change after.length ≤ rest.length
  rw [List.length_cons] at hlength
  omega

/-- A token takes at least the glyph that it starts with. -/
theorem length_rest_of_token? {scan next : Scan} {here : Glyph} {rest : List Glyph}
    (h : scan.token? here rest = some next) : next.rest.length ≤ rest.length := by
  unfold token? at h
  split at h
  · exact length_rest_of_directive? h
  · split at h
    · next hmark => exact length_rest_of_documentMark? hmark h
    · next hmark => exact length_rest_of_documentMark? hmark h
    · split at h
      · exact Nat.le_of_eq (congrArg List.length (rest_of_openFlow? h))
      · exact Nat.le_of_eq (congrArg List.length (rest_of_openFlow? h))
      · exact Nat.le_of_eq (congrArg List.length (rest_of_closeFlow? h))
      · exact Nat.le_of_eq (congrArg List.length (rest_of_closeFlow? h))
      · obtain ⟨_, _, heq⟩ := Option.map_eq_some_iff.1 h
        rw [← heq]
        exact Nat.le_refl _
      · split at h
        · exact Nat.le_of_eq (congrArg List.length (rest_of_blockItem? h))
        · split at h
          · exact Nat.le_of_eq (congrArg List.length (rest_of_explicitKey? h))
          · split at h
            · exact Nat.le_of_eq (congrArg List.length (rest_of_value? h))
            · split at h
              · exact length_rest_of_anchor? h
              · split at h
                · exact length_rest_of_tag? h
                · split at h
                  · exact length_rest_of_block? h
                  · split at h
                    · exact length_rest_of_quoted? h
                    · split at h
                      · exact length_rest_of_plain? h
                      · cases h

/-- Reads tokens to the end of the text. -/
def readAll (scan : Scan) : Option (List Token) :=
  let start := scan.toToken
  match hrest : start.rest with
  | [] => (start.atTop?).map (·.tokens.toList)
  | here :: rest =>
    match start.refreshCandidates? here with
    | none => none
    | some fresh =>
      match htoken : (fresh.unindent here.column).token? here rest with
      | none => none
      | some next =>
        have : next.rest.length < scan.rest.length := by
          have hstart : start.rest.length ≤ scan.rest.length := length_rest_toToken scan
          have hlength := length_rest_of_token? htoken
          rw [hrest, List.length_cons] at hstart
          omega
        readAll next
termination_by scan.rest.length

end Scan

/-- The tokens of a text, or nothing when it cannot be cut into tokens. -/
def readTokens (text : String) : Option (List Token) :=
  match glyphs? text with
  | some glyphs => { rest := glyphs : Scan }.readAll
  | none => none

end Yaml

end SchemaLint
