import SchemaLint.Proofs.GlobMeaning

namespace SchemaLint

/-!
# Patterns for directories

A pattern that ends in `/**` speaks about what lies below a directory.  Such a pattern covers a
path in two ways: its tokens accept the path, or the path starts with the text before the `**`,
taken as it is written.  The second way is of no use where the tokens accept everything that
starts with their own text.  They do if the pattern has no class: every other sign of a pattern
stands for itself too.  A class stands for one character and is written with three at least, so
a pattern with a class can cover paths that its tokens do not accept.
-/

namespace Glob

/-!
## Reading a pattern up to a divider
-/

/-- A divider that is in no class divides the tokens too: what stands behind it is read as a
component of its own. -/
theorem Denotes.split {atComponent : Bool} {text more : List Char} {tokens : List Token}
    (hmore : ']' ∉ more) (h : Denotes atComponent (text ++ '/' :: more) tokens) :
    ∃ left right, tokens = left ++ right ∧ Denotes atComponent (text ++ ['/']) left ∧
      Denotes true more right := by
  have hbehind : ']' ∉ '/' :: more := by simpa using hmore
  generalize hwhole : text ++ '/' :: more = whole at h
  induction h generalizing text with
  | done => simp at hwhole
  | anyChar hrest ih =>
      cases text with
      | nil => simp at hwhole
      | cons c text =>
          obtain ⟨rfl, rfl⟩ := List.cons.inj hwhole
          obtain ⟨left, right, rfl, hleft, hright⟩ := ih rfl
          exact ⟨.anyChar :: left, right, rfl, .anyChar hleft, hright⟩
  | anyRun halone hrest ih =>
      cases text with
      | nil => simp at hwhole
      | cons c text =>
          obtain ⟨rfl, rfl⟩ := List.cons.inj hwhole
          obtain ⟨left, right, rfl, hleft, hright⟩ := ih rfl
          have hstill : (text ++ ['/']).head? ≠ some '*' := by
            cases text with
            | nil => simp
            | cons a text => exact halone
          exact ⟨.anyRun :: left, right, rfl, .anyRun hstill hleft, hright⟩
  | lastDirectories =>
      -- The divider would have to be one of the two stars.
      have hmem : '/' ∈ ['*', '*'] := hwhole ▸ List.mem_append_right _ List.mem_cons_self
      simp at hmem
  | @directories rest tokens hrest ih =>
      match text, hwhole with
      | [], hwhole => simp at hwhole
      | [_], hwhole => simp at hwhole
      | [a, b], hwhole =>
          simp only [List.cons_append, List.nil_append, List.cons.injEq] at hwhole
          obtain ⟨rfl, rfl, -, rfl⟩ := hwhole
          exact ⟨[.anyDirectories], tokens, rfl, .directories .done, hrest⟩
      | a :: b :: c :: text, hwhole =>
          simp only [List.cons_append, List.cons.injEq] at hwhole
          obtain ⟨rfl, rfl, rfl, rfl⟩ := hwhole
          obtain ⟨left, right, rfl, hleft, hright⟩ := ih rfl
          exact ⟨.anyDirectories :: left, right, rfl, .directories hleft, hright⟩
  | @oneOf _ first inside rest tokens hfirst hinside hrest ih =>
      have hclosed : ('[' :: first :: inside) ++ ']' :: rest = text ++ '/' :: more := hwhole.symm
      obtain ⟨between, rfl, rfl⟩ := Text.exists_between hbehind hclosed
      obtain ⟨left, right, rfl, hleft, hright⟩ := ih rfl
      refine ⟨_ :: left, right, rfl, ?_, hright⟩
      simpa using Denotes.oneOf hfirst hinside hleft
  | @noneOf _ first inside rest tokens hinside hrest ih =>
      have hclosed : ('[' :: '!' :: first :: inside) ++ ']' :: rest = text ++ '/' :: more :=
        hwhole.symm
      obtain ⟨between, rfl, rfl⟩ := Text.exists_between hbehind hclosed
      obtain ⟨left, right, rfl, hleft, hright⟩ := ih rfl
      refine ⟨_ :: left, right, rfl, ?_, hright⟩
      simpa using Denotes.noneOf hinside hleft
  | @literal _ c rest tokens hc hrest ih =>
      cases text with
      | nil =>
          obtain ⟨rfl, rfl⟩ := List.cons.inj hwhole
          exact ⟨[.literal '/'], tokens, rfl, .literal hc .done, hrest⟩
      | cons a text =>
          obtain ⟨rfl, rfl⟩ := List.cons.inj hwhole
          obtain ⟨left, right, rfl, hleft, hright⟩ := ih rfl
          exact ⟨.literal a :: left, right, rfl, .literal hc hleft, hright⟩

/-- Two stars at the end are read as directories and not as two runs. -/
theorem eq_anyDirectories_of_denotes {tokens : List Token} (h : Denotes true ['*', '*'] tokens) :
    tokens = [.anyDirectories] := by
  cases h with
  | anyRun halone => exact absurd rfl halone
  | lastDirectories => rfl
  | literal hc => simp at hc

theorem exists_concat_of_denotes {atComponent : Bool} {parent : List Char} {tokens : List Token}
    (h : Denotes atComponent (parent ++ ['/', '*', '*']) tokens) :
    ∃ left, tokens = left ++ [.anyDirectories] ∧ Denotes atComponent (parent ++ ['/']) left := by
  obtain ⟨left, right, rfl, hleft, hright⟩ := h.split (by decide)
  obtain rfl := eq_anyDirectories_of_denotes hright
  exact ⟨left, rfl, hleft⟩

/-- A text without signs stands for itself, character by character. -/
theorem denotes_plain_directory {atComponent : Bool} {directory : List Char}
    (hplain : ∀ c ∈ directory, c ∉ ['?', '*', '[']) :
    Denotes atComponent (directory ++ ['/', '*', '*'])
      ((directory ++ ['/']).map .literal ++ [.anyDirectories]) := by
  induction directory generalizing atComponent with
  | nil => exact .literal (by decide) .lastDirectories
  | cons c directory ih =>
      obtain ⟨hc, hrest⟩ := List.forall_mem_cons.1 hplain
      exact .literal hc (ih hrest)

/-!
## Accepting what starts with the pattern
-/

/-- Every sign but a class stands for itself too: `?` and `*` for themselves as characters, and
two stars for a directory of this name. -/
theorem Denotes.accepts_self {atComponent : Bool} {text : List Char} {tokens : List Token}
    (h : Denotes atComponent text tokens) (hplain : '[' ∉ text) : Accepts tokens text := by
  induction h with
  | done => exact .done
  | anyChar hrest ih => exact .char (by decide) (ih (List.not_mem_of_not_mem_cons hplain))
  | @anyRun _ rest _ halone hrest ih =>
      show Accepts _ (['*'] ++ rest)
      exact .run (by decide) (ih (List.not_mem_of_not_mem_cons hplain))
  | lastDirectories => exact .allRemaining .done
  | @directories rest _ hrest ih =>
      show Accepts _ (['*', '*'] ++ divider :: rest)
      have hbehind : '[' ∉ rest := by simpa using hplain
      exact .directories (ih hbehind)
  | oneOf => exact absurd List.mem_cons_self hplain
  | noneOf => exact absurd List.mem_cons_self hplain
  | literal hc hrest ih =>
      exact .char (by simp [Token.acceptsChar]) (ih (List.not_mem_of_not_mem_cons hplain))

/-- Two stars at the end take whatever follows. -/
theorem Accepts.concat {tokens : List Token} {front : List Char} (h : Accepts tokens front)
    (rest : List Char) : Accepts (tokens ++ [.anyDirectories]) (front ++ rest) := by
  induction h generalizing rest with
  | done => exact .allRemaining .done
  | char hchar _ ih => exact .char hchar (ih rest)
  | run hrun _ ih =>
      rw [List.append_assoc]
      exact .run hrun (ih rest)
  | noDirectories _ ih => exact .noDirectories (ih rest)
  | directories _ ih =>
      rw [List.append_assoc]
      exact .directories (ih rest)
  | allRemaining _ ih => exact .allRemaining (ih [])

/-- The tokens before them take a part at the start of the path, which may be all of it. -/
theorem exists_front_of_accepts {tokens : List Token} {path : List Char}
    (h : Accepts (tokens ++ [.anyDirectories]) path) :
    ∃ front, front <+: path ∧ Accepts tokens front := by
  induction tokens generalizing path with
  | nil => exact ⟨[], List.nil_prefix, .done⟩
  | cons token tokens ih =>
      cases h with
      | @char _ _ c path hchar htail =>
          obtain ⟨front, hfront, haccepts⟩ := ih htail
          exact ⟨c :: front, List.cons_prefix_cons.2 ⟨rfl, hfront⟩, .char hchar haccepts⟩
      | @run _ run path hrun htail =>
          obtain ⟨front, hfront, haccepts⟩ := ih htail
          exact ⟨run ++ front, (List.prefix_append_right_inj run).2 hfront, .run hrun haccepts⟩
      | noDirectories htail =>
          obtain ⟨front, hfront, haccepts⟩ := ih htail
          exact ⟨front, hfront, .noDirectories haccepts⟩
      | @directories _ directories path htail =>
          obtain ⟨front, hfront, haccepts⟩ := ih htail
          refine ⟨directories ++ divider :: front, ?_, .directories haccepts⟩
          rw [List.prefix_append_right_inj, List.cons_prefix_cons]
          exact ⟨rfl, hfront⟩
      | allRemaining htail =>
          -- What is left to the tokens behind is empty, so they accept no part but that.
          obtain ⟨front, hfront, haccepts⟩ := ih htail
          obtain rfl := List.prefix_nil.1 hfront
          exact ⟨path, List.prefix_rfl, .allRemaining haccepts⟩

/-- A pattern with two stars at the end accepts the paths that start with a path accepted
without them. -/
theorem accepts_concat_iff {tokens : List Token} {path : List Char} :
    Accepts (tokens ++ [.anyDirectories]) path ↔
      ∃ front, front <+: path ∧ Accepts tokens front := by
  constructor
  · exact exists_front_of_accepts
  · rintro ⟨front, ⟨rest, rfl⟩, haccepts⟩
    exact haccepts.concat rest

/-- Literals accept their own text and nothing else. -/
theorem accepts_literals_iff {text path : List Char} :
    Accepts (text.map .literal) path ↔ path = text := by
  induction text generalizing path with
  | nil => exact accepts_nil_iff
  | cons c text ih =>
      rw [List.map_cons, accepts_single_iff ⟨by simp, by simp⟩]
      simp only [ih, Token.acceptsChar, beq_iff_eq]
      constructor
      · rintro ⟨_, _, rfl, rfl, rfl⟩
        rfl
      · rintro rfl
        exact ⟨c, text, rfl, rfl, rfl⟩

/-!
## Covering paths
-/

theorem isBelow_iff {directory path : List Char} :
    isBelow directory path = true ↔ directory ++ [divider] <+: path := by
  rw [isBelow, Bool.and_eq_true, List.isPrefixOf_iff_prefix, beq_iff_eq]
  constructor
  · rintro ⟨⟨rest, rfl⟩, hhead⟩
    rw [List.drop_left] at hhead
    obtain ⟨tail, rfl⟩ := List.head?_eq_some_iff.1 hhead
    exact ⟨tail, by simp⟩
  · rintro ⟨rest, rfl⟩
    exact ⟨⟨divider :: rest, by simp⟩, by simp⟩

theorem directory?_append {parent : List Char} (hend : ¬ ['/'] <:+ parent) :
    directory? (parent ++ ['/', '*', '*']) = some parent := by
  have hkeep : parent.reverse.dropWhile (· == divider) = parent.reverse := by
    cases hlast : parent.reverse with
    | nil => rfl
    | cons c before =>
        refine List.dropWhile_cons_of_neg fun hc => hend ?_
        rw [List.reverse_eq_cons_iff] at hlast
        rw [hlast, beq_iff_eq.1 hc]
        exact List.suffix_append _ _
  simp [directory?, hkeep]

section Trailing

variable {parent : String} {glob : Glob}

theorem covers_trailing_iff (hglob : ofString (parent ++ "/**") = .ok glob)
    (hend : ¬ ['/'] <:+ parent.toList) {path : String} :
    glob.covers path = true ↔
      accepts glob.tokens path.toList = true ∨ (parent ++ "/").toList <+: path.toList := by
  have hdirectory : directory? glob.pattern.toList = some parent.toList := by
    rw [(ofString_eq_ok_iff.1 hglob).2, String.toList_append]
    exact directory?_append hend
  rw [covers, hdirectory, Bool.or_eq_true, String.toList_append]
  exact or_congr_right isBelow_iff

theorem exists_tokens_of_ofString (hglob : ofString (parent ++ "/**") = .ok glob) :
    ∃ left, glob.tokens = left ++ [.anyDirectories] ∧ Denotes true (parent ++ "/").toList left := by
  have hdenotes := glob.denotes_tokens
  rw [(ofString_eq_ok_iff.1 hglob).2, String.toList_append] at hdenotes
  rw [String.toList_append]
  exact exists_concat_of_denotes hdenotes

/-- What is accepted as a directory is accepted with everything below it. -/
theorem accepts_below (hglob : ofString (parent ++ "/**") = .ok glob) {path longer : List Char}
    (hpath : path <+: longer) (h : accepts glob.tokens path = true) :
    accepts glob.tokens longer = true := by
  obtain ⟨left, htokens, -⟩ := exists_tokens_of_ofString hglob
  rw [accepts_iff, htokens, accepts_concat_iff] at h ⊢
  obtain ⟨front, hfront, haccepts⟩ := h
  exact ⟨front, hfront.trans hpath, haccepts⟩

/-- A pattern without a class accepts its own text. -/
theorem accepts_parent (hglob : ofString (parent ++ "/**") = .ok glob)
    (hplain : '[' ∉ parent.toList) : accepts glob.tokens (parent ++ "/").toList = true := by
  obtain ⟨left, htokens, hleft⟩ := exists_tokens_of_ofString hglob
  have hself : '[' ∉ (parent ++ "/").toList := by
    rw [String.toList_append, List.mem_append, not_or]
    exact ⟨hplain, by decide⟩
  rw [accepts_iff, htokens, accepts_concat_iff]
  exact ⟨_, List.prefix_rfl, hleft.accepts_self hself⟩

theorem covers_eq_accepts_iff (hglob : ofString (parent ++ "/**") = .ok glob)
    (hend : ¬ ['/'] <:+ parent.toList) :
    (∀ path : String, glob.covers path = accepts glob.tokens path.toList) ↔
      accepts glob.tokens (parent ++ "/").toList = true := by
  constructor
  · intro hsame
    rw [← hsame, covers_trailing_iff hglob hend]
    exact .inr List.prefix_rfl
  · intro hparent path
    rw [Bool.eq_iff_iff, covers_trailing_iff hglob hend, or_iff_left_iff_imp]
    intro hstarts
    exact accepts_below hglob hstarts hparent

end Trailing

/-- A pattern that ends in `/**` covers what its tokens accept if it has no class.  In general
its text, read as it is written, adds no path exactly when the tokens accept this text as a
directory, and the paths it adds are those that start with the text and are not accepted. -/
theorem covers_trailing_directories (parent : String) (glob : Glob)
    (hglob : ofString (parent ++ "/**") = .ok glob) (hend : ¬ ['/'] <:+ parent.toList) :
    ('[' ∉ parent.toList →
      ∀ path : String, glob.covers path = accepts glob.tokens path.toList) ∧
    ((∀ path : String, glob.covers path = accepts glob.tokens path.toList) ↔
      accepts glob.tokens (parent ++ "/").toList = true) ∧
    ∀ path : String, glob.covers path ≠ accepts glob.tokens path.toList ↔
      (parent ++ "/").toList <+: path.toList ∧ accepts glob.tokens path.toList = false := by
  refine ⟨fun hplain => ?_, covers_eq_accepts_iff hglob hend, fun path => ?_⟩
  · exact (covers_eq_accepts_iff hglob hend).2 (accepts_parent hglob hplain)
  · rw [ne_eq, Bool.eq_iff_iff, covers_trailing_iff hglob hend]
    cases accepts glob.tokens path.toList with
    | true => simp
    | false => simp

/-- A pattern with all signs but classes: its own text is a directory that its tokens accept. -/
theorem covers_trailing_directories_versions :
    ∃ glob, ofString ("api/**/v?*" ++ "/**") = .ok glob ∧ ¬ ['/'] <:+ "api/**/v?*".toList ∧
      '[' ∉ "api/**/v?*".toList ∧ glob.covers "api/**/v?*/a" = true ∧
      glob.covers "api/v1" = false ∧
      ∀ path : String, glob.covers path = accepts glob.tokens path.toList := by
  have hread : readTokens 0 true "api/**/v?*/**".toList =
      .ok [.literal 'a', .literal 'p', .literal 'i', .literal '/', .anyDirectories, .literal 'v',
        .anyChar, .anyRun, .literal '/', .anyDirectories] := by decide +kernel
  obtain ⟨glob, hglob, htokens⟩ := exists_ofString (by decide) (readTokens_eq_ok_iff.1 hread)
  have hend : ¬ ['/'] <:+ "api/**/v?*".toList := by decide
  have hplain : '[' ∉ "api/**/v?*".toList := by decide
  have hsame := (covers_trailing_directories "api/**/v?*" glob hglob hend).1 hplain
  refine ⟨glob, hglob, hend, hplain, ?_, ?_, hsame⟩
  · rw [hsame, htokens]
    decide
  · rw [hsame, htokens]
    decide

/-- A class is taken for its text.  The pattern below means the directory `a`, and it covers a
file in a directory `[a]` as well. -/
theorem class_read_as_text :
    ∃ glob, ofString "[a]/**" = .ok glob ∧ accepts glob.tokens "[a]/x".toList = false ∧
      glob.covers "[a]/x" = true := by
  have hread : readTokens 0 true "[a]/**".toList =
      .ok [.oneOf [.single 'a'], .literal '/', .anyDirectories] := by decide +kernel
  obtain ⟨glob, hglob, htokens⟩ := exists_ofString (by decide) (readTokens_eq_ok_iff.1 hread)
  have hpattern : ofString ("[a]" ++ "/**") = .ok glob := hglob
  refine ⟨glob, hglob, ?_, ?_⟩
  · rw [htokens]
    decide
  · rw [covers_trailing_iff hpattern (by decide)]
    exact .inr (by decide)

/-- A directory without signs makes a pattern, and this covers exactly what lies below the
directory, at any depth.  Directories whose names only start alike are not covered. -/
theorem covers_plain_directory (directory : String)
    (hplain : ∀ c ∈ directory.toList, c ∉ ['?', '*', '['])
    (hend : ¬ ['/'] <:+ directory.toList) :
    ∃ glob, ofString (directory ++ "/**") = .ok glob ∧
      ∀ path : String, glob.covers path = true ↔ ∃ rest, path = directory ++ "/" ++ rest := by
  have hdenotes : Denotes true (directory ++ "/**").toList
      ((directory ++ "/").toList.map .literal ++ [.anyDirectories]) := by
    rw [String.toList_append, String.toList_append]
    exact denotes_plain_directory hplain
  have hne : directory ++ "/**" ≠ "" := by
    rw [ne_eq, String.append_eq_empty_iff]
    exact fun hempty => absurd hempty.2 (by decide)
  obtain ⟨glob, hglob, htokens⟩ := exists_ofString hne hdenotes
  refine ⟨glob, hglob, fun path => ?_⟩
  -- Both ways of covering come to the same: the path starts with the directory and a divider.
  rw [covers_trailing_iff hglob hend, accepts_iff, htokens, accepts_concat_iff]
  simp only [accepts_literals_iff, exists_eq_right, or_self]
  exact Text.toList_prefix_iff

/-- A directory whose name has characters of several bytes, and one with a longer name. -/
theorem covers_plain_directory_wideNames :
    (∀ c ∈ "größe/日本".toList, c ∉ ['?', '*', '[']) ∧ ¬ ['/'] <:+ "größe/日本".toList ∧
      ∃ glob, ofString ("größe/日本" ++ "/**") = .ok glob ∧
        glob.covers "größe/日本/a/b.proto" = true ∧ glob.covers "größe/日本語/a.proto" = false := by
  have hplain : ∀ c ∈ "größe/日本".toList, c ∉ ['?', '*', '['] := by
    have hall : ("größe/日本".toList.all fun c => c ∉ ['?', '*', '[']) = true := by decide
    intro c hmem
    simpa using List.all_eq_true.1 hall c hmem
  have hend : ¬ ['/'] <:+ "größe/日本".toList := by decide
  obtain ⟨glob, hglob, hcovers⟩ := covers_plain_directory "größe/日本" hplain hend
  refine ⟨hplain, hend, glob, hglob, ?_, ?_⟩
  · exact (hcovers _).2 ⟨"a/b.proto", by decide⟩
  · rw [← Bool.not_eq_true, hcovers, ← Text.toList_prefix_iff]
    decide

end Glob
end SchemaLint
