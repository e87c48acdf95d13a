import Mathlib.Data.List.Forall2
import Mathlib.Data.List.Infix
import SchemaLint.Glob.Match
import SchemaLint.Proofs.Cutting

namespace SchemaLint
namespace Glob

/-!
# What a pattern means

Two relations stand behind globs.  `Denotes` is the grammar of patterns: which text stands for
which tokens.  `Accepts` is the meaning of tokens: which paths they accept.  Reading a pattern is
shown to follow the first, and the rows of a path are shown to compute the second, so that
everything else about globs can be proved from the two relations alone.

Nothing is said about which part of a path a token takes; `*` and `**` leave a choice.
-/

/-!
## The meaning of tokens
-/

theorem accepts_nil_iff {path : List Char} : Accepts [] path ↔ path = [] := by
  constructor
  · intro h
    cases h
    rfl
  · rintro rfl
    exact .done

/-- A token that stands for one character. -/
def Token.IsSingle (token : Token) : Prop := token ≠ .anyRun ∧ token ≠ .anyDirectories

theorem accepts_single_iff {token : Token} (htoken : token.IsSingle) {tokens : List Token}
    {path : List Char} :
    Accepts (token :: tokens) path ↔
      ∃ c rest, path = c :: rest ∧ token.acceptsChar c = true ∧ Accepts tokens rest := by
  constructor
  · intro h
    cases h with
    | char hchar htail => exact ⟨_, _, rfl, hchar, htail⟩
    | run => exact absurd rfl htoken.1
    | noDirectories => exact absurd rfl htoken.2
    | directories => exact absurd rfl htoken.2
    | allRemaining => exact absurd rfl htoken.2
  · rintro ⟨c, rest, rfl, hchar, htail⟩
    exact .char hchar htail

theorem accepts_anyRun_iff {tokens : List Token} {path : List Char} :
    Accepts (.anyRun :: tokens) path ↔
      ∃ run rest, path = run ++ rest ∧ divider ∉ run ∧ Accepts tokens rest := by
  constructor
  · intro h
    cases h with
    | char hchar => simp [Token.acceptsChar] at hchar
    | run hrun htail => exact ⟨_, _, rfl, hrun, htail⟩
  · rintro ⟨run, rest, rfl, hrun, htail⟩
    exact .run hrun htail

theorem accepts_anyDirectories_iff {tokens : List Token} {path : List Char} :
    Accepts (.anyDirectories :: tokens) path ↔
      Accepts tokens path ∨
        (∃ directories rest, path = directories ++ divider :: rest ∧ Accepts tokens rest) ∨
        Accepts tokens [] := by
  constructor
  · intro h
    cases h with
    | char hchar => simp [Token.acceptsChar] at hchar
    | noDirectories htail => exact .inl htail
    | directories htail => exact .inr (.inl ⟨_, _, rfl, htail⟩)
    | allRemaining htail => exact .inr (.inr htail)
  · rintro (htail | ⟨directories, rest, rfl, htail⟩ | htail)
    · exact .noDirectories htail
    · exact .directories htail
    · exact .allRemaining htail

/-!
## Rows
-/

/-- The row says of each suffix of the path, longest first, whether it has the property. -/
def IsRow (property : List Char → Prop) (path : List Char) (row : List Bool) : Prop :=
  List.Forall₂ (fun rest entry => entry = true ↔ property rest) path.tails row

section Rows

variable {property : List Char → Prop} {path : List Char} {row : List Bool}

theorem isRow_nil_iff :
    IsRow property [] row ↔ ∃ entry, row = [entry] ∧ (entry = true ↔ property []) := by
  simp [IsRow, List.forall₂_cons_left_iff, List.forall₂_nil_left_iff, and_comm]

theorem isRow_cons_iff {c : Char} :
    IsRow property (c :: path) row ↔
      ∃ entry later, row = entry :: later ∧ (entry = true ↔ property (c :: path)) ∧
        IsRow property path later := by
  rw [IsRow, List.tails_cons, List.forall₂_cons_left_iff]
  refine exists_congr fun entry => exists_congr fun later => ?_
  constructor
  · rintro ⟨hentry, hlater, hrow⟩
    exact ⟨hrow, hentry, hlater⟩
  · rintro ⟨hrow, hentry, hlater⟩
    exact ⟨hentry, hlater, hrow⟩

theorem IsRow.front_iff (h : IsRow property path row) : front row = true ↔ property path := by
  cases path with
  | nil =>
      obtain ⟨entry, rfl, hentry⟩ := isRow_nil_iff.1 h
      exact hentry
  | cons c path =>
      obtain ⟨entry, later, rfl, hentry, -⟩ := isRow_cons_iff.1 h
      exact hentry

theorem IsRow.congr {other : List Char → Prop} (hsame : ∀ rest, property rest ↔ other rest)
    (h : IsRow property path row) : IsRow other path row :=
  h.imp fun _ _ hentry => hentry.trans (hsame _)

/-- One character, and then the row after it. -/
theorem IsRow.charRow (h : IsRow property path row) (token : Token) :
    IsRow (fun rest => ∃ c tail, rest = c :: tail ∧ token.acceptsChar c = true ∧ property tail)
      path (charRow token path row) := by
  induction path generalizing row with
  | nil => exact isRow_nil_iff.2 ⟨false, rfl, by simp⟩
  | cons c path ih =>
      obtain ⟨_, later, rfl, -, hlater⟩ := isRow_cons_iff.1 h
      refine isRow_cons_iff.2 ⟨_, _, rfl, ?_, ih hlater⟩
      rw [Bool.and_eq_true, List.tail_cons, hlater.front_iff]
      constructor
      · rintro ⟨hchar, htail⟩
        exact ⟨c, path, rfl, hchar, htail⟩
      · rintro ⟨_, _, hsplit, hchar, htail⟩
        obtain ⟨rfl, rfl⟩ := List.cons.inj hsplit
        exact ⟨hchar, htail⟩

/-- Any number of characters that are no dividers, and then the row after them. -/
theorem IsRow.runRow (h : IsRow property path row) :
    IsRow (fun rest => ∃ run tail, rest = run ++ tail ∧ divider ∉ run ∧ property tail)
      path (runRow path row) := by
  induction path generalizing row with
  | nil =>
      refine isRow_nil_iff.2 ⟨_, rfl, h.front_iff.trans ?_⟩
      simp
  | cons c path ih =>
      obtain ⟨_, later, rfl, -, hlater⟩ := isRow_cons_iff.1 h
      refine isRow_cons_iff.2 ⟨_, _, rfl, ?_, ih hlater⟩
      rw [Bool.or_eq_true, Bool.and_eq_true, h.front_iff, List.tail_cons, (ih hlater).front_iff,
        bne_iff_ne]
      -- The run is empty, or it starts with this character and goes on as a run.
      constructor
      · rintro (hnone | ⟨hc, run, tail, rfl, hrun, htail⟩)
        · exact ⟨[], c :: path, rfl, by simp, hnone⟩
        · exact ⟨c :: run, tail, rfl, by simp [Ne.symm hc, hrun], htail⟩
      · rintro ⟨run, tail, hsplit, hrun, htail⟩
        cases run with
        | nil =>
            rw [List.nil_append] at hsplit
            exact .inl (hsplit ▸ htail)
        | cons first run =>
            obtain ⟨rfl, rfl⟩ := List.cons.inj hsplit
            rw [List.mem_cons, not_or] at hrun
            exact .inr ⟨Ne.symm hrun.1, run, tail, rfl, hrun.2, htail⟩

/-- Characters up to and with a divider, and then the row after them; or everything. -/
theorem IsRow.directoriesTail (h : IsRow property path row) :
    IsRow
      (fun rest =>
        (∃ directories tail, rest = directories ++ divider :: tail ∧ property tail) ∨ property [])
      path (directoriesTail path row) := by
  induction path generalizing row with
  | nil =>
      refine isRow_nil_iff.2 ⟨_, rfl, h.front_iff.trans ?_⟩
      simp
  | cons c path ih =>
      obtain ⟨_, later, rfl, -, hlater⟩ := isRow_cons_iff.1 h
      refine isRow_cons_iff.2 ⟨_, _, rfl, ?_, ih hlater⟩
      rw [Bool.or_eq_true, Bool.and_eq_true, List.tail_cons, hlater.front_iff,
        (ih hlater).front_iff, beq_iff_eq]
      -- The directories end with this character, or they go on behind it.
      constructor
      · rintro (⟨rfl, htail⟩ | ⟨directories, tail, rfl, htail⟩ | hall)
        · exact .inl ⟨[], path, rfl, htail⟩
        · exact .inl ⟨c :: directories, tail, rfl, htail⟩
        · exact .inr hall
      · rintro (⟨directories, tail, hsplit, htail⟩ | hall)
        · cases directories with
          | nil =>
              obtain ⟨rfl, rfl⟩ := List.cons.inj hsplit
              exact .inl ⟨rfl, htail⟩
          | cons first directories =>
              obtain ⟨rfl, rfl⟩ := List.cons.inj hsplit
              exact .inr (.inl ⟨directories, tail, rfl, htail⟩)
        · exact .inr (.inr hall)

theorem IsRow.or {other : List Char → Prop} {otherRow : List Bool} (h : IsRow property path row)
    (hother : IsRow other path otherRow) :
    IsRow (fun rest => property rest ∨ other rest) path
      (List.zipWith (· || ·) row otherRow) := by
  induction path generalizing row otherRow with
  | nil =>
      obtain ⟨entry, rfl, hentry⟩ := isRow_nil_iff.1 h
      obtain ⟨entry', rfl, hentry'⟩ := isRow_nil_iff.1 hother
      exact isRow_nil_iff.2 ⟨_, rfl, by rw [Bool.or_eq_true, hentry, hentry']⟩
  | cons c path ih =>
      obtain ⟨entry, later, rfl, hentry, hlater⟩ := isRow_cons_iff.1 h
      obtain ⟨entry', later', rfl, hentry', hlater'⟩ := isRow_cons_iff.1 hother
      exact isRow_cons_iff.2 ⟨_, _, rfl, by rw [Bool.or_eq_true, hentry, hentry'],
        ih hlater hlater'⟩

/-- The row for no tokens: only the end of the path is accepted. -/
theorem isRow_end (path : List Char) :
    IsRow (· = []) path (path.map (fun _ => false) ++ [true]) := by
  induction path with
  | nil => exact isRow_nil_iff.2 ⟨true, rfl, by simp⟩
  | cons c path ih => exact isRow_cons_iff.2 ⟨_, _, rfl, by simp, ih⟩

end Rows

theorem row_single {token : Token} (htoken : token.IsSingle) (path : List Char)
    (tokens : List Token) : row path (token :: tokens) = charRow token path (row path tokens) := by
  cases token with
  | anyRun => exact absurd rfl htoken.1
  | anyDirectories => exact absurd rfl htoken.2
  | _ => rfl

/-- The rows of a path compute the meaning of the tokens for all its suffixes. -/
theorem isRow_row (path : List Char) (tokens : List Token) :
    IsRow (Accepts tokens) path (row path tokens) := by
  induction tokens with
  | nil => exact (isRow_end path).congr fun _ => accepts_nil_iff.symm
  | cons token tokens ih =>
      by_cases hrun : token = .anyRun
      · subst hrun
        exact ih.runRow.congr fun _ => accepts_anyRun_iff.symm
      · by_cases hdirectories : token = .anyDirectories
        · subst hdirectories
          exact (ih.or ih.directoriesTail).congr fun _ => accepts_anyDirectories_iff.symm
        · have hsingle : token.IsSingle := ⟨hrun, hdirectories⟩
          rw [row_single hsingle]
          exact (ih.charRow token).congr fun _ => (accepts_single_iff hsingle).symm

theorem accepts_iff {tokens : List Token} {path : List Char} :
    accepts tokens path = true ↔ Accepts tokens path :=
  (isRow_row path tokens).front_iff

/-!
## The grammar of patterns
-/

/-- The text of a pattern from some place on denotes the tokens.  `atComponent` says whether a
path component starts at this place. -/
inductive Denotes : Bool → List Char → List Token → Prop where
  | done {atComponent : Bool} : Denotes atComponent [] []
  | anyChar {atComponent : Bool} {rest : List Char} {tokens : List Token}
      (hrest : Denotes false rest tokens) :
      Denotes atComponent ('?' :: rest) (.anyChar :: tokens)
  | anyRun {atComponent : Bool} {rest : List Char} {tokens : List Token}
      (halone : rest.head? ≠ some '*') (hrest : Denotes false rest tokens) :
      Denotes atComponent ('*' :: rest) (.anyRun :: tokens)
  | lastDirectories : Denotes true ['*', '*'] [.anyDirectories]
  | directories {rest : List Char} {tokens : List Token} (hrest : Denotes true rest tokens) :
      Denotes true ('*' :: '*' :: '/' :: rest) (.anyDirectories :: tokens)
  | oneOf {atComponent : Bool} {first : Char} {inside rest : List Char} {tokens : List Token}
      (hfirst : first ≠ '!') (hinside : ']' ∉ inside) (hrest : Denotes false rest tokens) :
      Denotes atComponent ('[' :: first :: (inside ++ ']' :: rest))
        (.oneOf (readMembers (first :: inside)) :: tokens)
  | noneOf {atComponent : Bool} {first : Char} {inside rest : List Char} {tokens : List Token}
      (hinside : ']' ∉ inside) (hrest : Denotes false rest tokens) :
      Denotes atComponent ('[' :: '!' :: first :: (inside ++ ']' :: rest))
        (.noneOf (readMembers (first :: inside)) :: tokens)
  | literal {atComponent : Bool} {c : Char} {rest : List Char} {tokens : List Token}
      (hc : c ∉ ['?', '*', '[']) (hrest : Denotes (c == '/') rest tokens) :
      Denotes atComponent (c :: rest) (.literal c :: tokens)

theorem borderless_bracket : Text.Borderless [']'] := by decide

theorem cut?_bracket_eq_some_iff {text inside rest : List Char} :
    Text.cut? [']'] text = some (inside, rest) ↔ text = inside ++ ']' :: rest ∧ ']' ∉ inside := by
  rw [Text.cut?_eq_some_iff borderless_bracket, List.singleton_infix_iff, List.singleton_append]

/-- A class is closed by the first bracket behind its first member. -/
theorem readClass?_eq_some_iff {text rest : List Char} {negated : Bool} {members : List Member} :
    readClass? text = some (negated, members, rest) ↔
      ∃ first inside, ']' ∉ inside ∧ members = readMembers (first :: inside) ∧
        ((negated = false ∧ first ≠ '!' ∧ text = first :: (inside ++ ']' :: rest)) ∨
          (negated = true ∧ text = '!' :: first :: (inside ++ ']' :: rest))) := by
  constructor
  · intro h
    unfold readClass? at h
    split at h
    · next first text =>
      obtain ⟨⟨inside, after⟩, hcut, hsides⟩ := Option.map_eq_some_iff.1 h
      obtain ⟨rfl, hinside⟩ := cut?_bracket_eq_some_iff.1 hcut
      simp only [Prod.mk.injEq] at hsides
      obtain ⟨rfl, rfl, rfl⟩ := hsides
      exact ⟨first, inside, hinside, rfl, .inr ⟨rfl, rfl⟩⟩
    · contradiction
    · next first text hmarked hlone =>
      obtain ⟨⟨inside, after⟩, hcut, hsides⟩ := Option.map_eq_some_iff.1 h
      obtain ⟨rfl, hinside⟩ := cut?_bracket_eq_some_iff.1 hcut
      simp only [Prod.mk.injEq] at hsides
      obtain ⟨rfl, rfl, rfl⟩ := hsides
      refine ⟨first, inside, hinside, rfl, .inl ⟨rfl, ?_, rfl⟩⟩
      rintro rfl
      obtain ⟨c, later, hlater⟩ := List.exists_cons_of_ne_nil
        (List.append_ne_nil_of_right_ne_nil inside (List.cons_ne_nil ']' after))
      exact hmarked c later rfl hlater
    · contradiction
  · rintro ⟨first, inside, hinside, rfl, ⟨rfl, hfirst, rfl⟩ | ⟨rfl, rfl⟩⟩
    · have hcut := cut?_bracket_eq_some_iff.2 ⟨Eq.refl (inside ++ ']' :: rest), hinside⟩
      simp [readClass?, hcut, hfirst]
    · have hcut := cut?_bracket_eq_some_iff.2 ⟨Eq.refl (inside ++ ']' :: rest), hinside⟩
      simp [readClass?, hcut]

theorem map_cons_eq_ok_iff {reading : Except GlobError (List Token)} {token : Token}
    {tokens : List Token} :
    reading.map (token :: ·) = .ok tokens ↔
      ∃ more, reading = .ok more ∧ tokens = token :: more := by
  cases reading with
  | error fault => simp [Except.map]
  | ok more => simp [Except.map, eq_comm]

theorem denotes_of_readTokens {position : Nat} {atComponent : Bool} {text : List Char}
    {tokens : List Token} (h : readTokens position atComponent text = .ok tokens) :
    Denotes atComponent text tokens := by
  fun_induction readTokens position atComponent text generalizing tokens with
  | case1 =>
      obtain rfl := Except.ok.inj h
      exact .done
  | case2 position atComponent rest ih =>
      obtain ⟨more, hmore, rfl⟩ := map_cons_eq_ok_iff.1 h
      exact .anyChar (ih hmore)
  | case3 => simp at h
  | case4 => simp at h
  | case5 position atComponent hcomponent =>
      obtain rfl : atComponent = true := by simpa using hcomponent
      obtain rfl := Except.ok.inj h
      exact .lastDirectories
  | case6 position atComponent hcomponent rest _ ih =>
      obtain rfl : atComponent = true := by simpa using hcomponent
      obtain ⟨more, hmore, rfl⟩ := map_cons_eq_ok_iff.1 h
      exact .directories (ih hmore)
  | case7 => simp at h
  | case8 position atComponent rest _ halone ih =>
      obtain ⟨more, hmore, rfl⟩ := map_cons_eq_ok_iff.1 h
      refine .anyRun ?_ (ih hmore)
      intro hstar
      obtain ⟨_, hrest⟩ := List.head?_eq_some_iff.1 hstar
      exact halone _ hrest
  | case9 => simp at h
  | case10 position atComponent rest negated members after hclass _ ih =>
      obtain ⟨more, hmore, rfl⟩ := map_cons_eq_ok_iff.1 h
      obtain ⟨first, inside, hinside, rfl, ⟨rfl, hfirst, rfl⟩ | ⟨rfl, rfl⟩⟩ :=
        readClass?_eq_some_iff.1 hclass
      · exact .oneOf hfirst hinside (ih hmore)
      · exact .noneOf hinside (ih hmore)
  | case11 position atComponent c rest hmark _ _ hstar hbracket ih =>
      obtain ⟨more, hmore, rfl⟩ := map_cons_eq_ok_iff.1 h
      refine .literal ?_ (ih hmore)
      simp only [List.mem_cons, List.not_mem_nil, or_false, not_or]
      exact ⟨hmark, hstar, hbracket⟩

theorem readTokens_class {rest after : List Char} {negated : Bool} {members : List Member}
    (h : readClass? rest = some (negated, members, after)) (position : Nat) (atComponent : Bool) :
    readTokens position atComponent ('[' :: rest) =
      (readTokens (position + 1 + (rest.length - after.length)) false after).map
        ((if negated then Token.noneOf members else Token.oneOf members) :: ·) := by
  rw [readTokens]
  split
  · next hnone => simp [h] at hnone
  · next hsome =>
    rw [h, Option.some.injEq, Prod.mk.injEq, Prod.mk.injEq] at hsome
    obtain ⟨rfl, rfl, rfl⟩ := hsome
    rfl

theorem readTokens_of_denotes {atComponent : Bool} {text : List Char} {tokens : List Token}
    (h : Denotes atComponent text tokens) (position : Nat) :
    readTokens position atComponent text = .ok tokens := by
  induction h generalizing position with
  | done => rw [readTokens]
  | anyChar hrest ih =>
      rw [readTokens, map_cons_eq_ok_iff]
      exact ⟨_, ih _, rfl⟩
  | @anyRun atComponent rest tokens halone hrest ih =>
      have hstar : ∀ later, rest ≠ '*' :: later := by
        rintro later rfl
        exact halone rfl
      rw [readTokens, map_cons_eq_ok_iff]
      · exact ⟨_, ih _, rfl⟩
      · exact fun _ => hstar _
      · exact hstar
  | lastDirectories => rw [readTokens, if_neg (by simp)]
  | directories hrest ih =>
      rw [readTokens, if_neg (by simp), map_cons_eq_ok_iff]
      exact ⟨_, ih _, rfl⟩
  | @oneOf atComponent first inside rest tokens hfirst hinside hrest ih =>
      have hclass : readClass? (first :: (inside ++ ']' :: rest)) =
          some (false, readMembers (first :: inside), rest) :=
        readClass?_eq_some_iff.2 ⟨first, inside, hinside, rfl, .inl ⟨rfl, hfirst, rfl⟩⟩
      rw [readTokens_class hclass, map_cons_eq_ok_iff]
      exact ⟨_, ih _, rfl⟩
  | @noneOf atComponent first inside rest tokens hinside hrest ih =>
      have hclass : readClass? ('!' :: first :: (inside ++ ']' :: rest)) =
          some (true, readMembers (first :: inside), rest) :=
        readClass?_eq_some_iff.2 ⟨first, inside, hinside, rfl, .inr ⟨rfl, rfl⟩⟩
      rw [readTokens_class hclass, map_cons_eq_ok_iff]
      exact ⟨_, ih _, rfl⟩
  | literal hc hrest ih =>
      simp only [List.mem_cons, List.not_mem_nil, or_false, not_or] at hc
      obtain ⟨hmark, hstar, hbracket⟩ := hc
      rw [readTokens, map_cons_eq_ok_iff]
      · exact ⟨_, ih _, rfl⟩
      · exact hmark
      · exact fun _ h _ => hstar h
      · exact fun _ h _ => hstar h
      · exact hstar
      · exact hbracket

theorem readTokens_eq_ok_iff {position : Nat} {atComponent : Bool} {text : List Char}
    {tokens : List Token} :
    readTokens position atComponent text = .ok tokens ↔ Denotes atComponent text tokens :=
  ⟨denotes_of_readTokens, fun h => readTokens_of_denotes h position⟩

theorem ofString_eq_ok_iff {pattern : String} {glob : Glob} :
    ofString pattern = .ok glob ↔ pattern ≠ "" ∧ glob.pattern = pattern := by
  rw [ofString]
  by_cases hempty : pattern = ""
  · simp [hempty]
  · rw [if_neg (by simpa using hempty)]
    split
    · next tokens hread =>
      rw [Except.ok.injEq]
      constructor
      · rintro rfl
        exact ⟨hempty, rfl⟩
      · rintro ⟨-, rfl⟩
        obtain ⟨pattern, other, hother⟩ := glob
        simpa [hread] using hother
    · next fault hread =>
      simp only [reduceCtorEq, false_iff, not_and]
      rintro - rfl
      rw [glob.read] at hread
      simp at hread

/-- The tokens of a glob are what its pattern denotes. -/
theorem denotes_tokens (glob : Glob) : Denotes true glob.pattern.toList glob.tokens :=
  readTokens_eq_ok_iff.1 glob.read

/-- A text that denotes tokens is a pattern, except for the empty text. -/
theorem exists_ofString {pattern : String} {tokens : List Token} (hne : pattern ≠ "")
    (h : Denotes true pattern.toList tokens) :
    ∃ glob, ofString pattern = .ok glob ∧ glob.tokens = tokens :=
  ⟨⟨pattern, tokens, readTokens_eq_ok_iff.2 h⟩, ofString_eq_ok_iff.2 ⟨hne, rfl⟩, rfl⟩

end Glob
end SchemaLint
