import SchemaLint.Text.Search

namespace SchemaLint
namespace Glob

/-!
# Glob patterns

A pattern is read once into tokens.  `?` stands for one character, `*` for a run
of characters, `[...]` and `[!...]` for one character of a class; none of these
stands for `/`.  `**` must be a whole path component and stands for any number of
leading directories.  Every other character stands for itself.

Positions in errors count characters from zero.
-/

/-- One member of a character class. -/
inductive Member where
  | single (c : Char)
  | range (first last : Char)
deriving DecidableEq, Inhabited

/-- Whether the member covers a character. -/
def Member.covers : Member → Char → Bool
  | single c, d => c == d
  | range first last, d => first ≤ d && d ≤ last

/-- One step of a pattern. -/
inductive Token where
  | literal (c : Char)
  | anyChar
  | oneOf (members : List Member)
  | noneOf (members : List Member)
  | anyRun
  | anyDirectories
deriving DecidableEq, Inhabited

end Glob

/-- Why a pattern cannot be read. -/
inductive GlobError where
  | empty
  | tooManyStars (position : Nat)
  | brokenDirectories (position : Nat)
  | brokenClass (position : Nat)
deriving DecidableEq, Inhabited

/-- What is wrong with a pattern. -/
def GlobError.reason : GlobError → String
  | empty => "glob pattern must not be empty"
  | tooManyStars _ => "wildcards are either regular `*` or recursive `**`"
  | brokenDirectories _ => "recursive wildcards must form a single path component"
  | brokenClass _ => "invalid range pattern"

/-- The wording of a pattern error. -/
def GlobError.message (error : GlobError) : String :=
  match error with
  | empty => error.reason
  | tooManyStars position | brokenDirectories position | brokenClass position =>
    s!"Pattern syntax error near position {position}: {error.reason}"

namespace Glob

/-- The members written in a class.  A dash between two characters makes a range;
any other dash is a member. -/
def readMembers : List Char → List Member
  | first :: '-' :: last :: rest => .range first last :: readMembers rest
  | c :: rest => .single c :: readMembers rest
  | [] => []

/-- A class after its opening bracket: whether it is negated, its members and the
text after its closing bracket.  The first character is always a member. -/
def readClass? : List Char → Option (Bool × List Member × List Char)
  | '!' :: first :: rest =>
    (Text.cut? [']'] rest).map fun sides => (true, readMembers (first :: sides.1), sides.2)
  | '!' :: [] => none
  | first :: rest =>
    (Text.cut? [']'] rest).map fun sides => (false, readMembers (first :: sides.1), sides.2)
  | [] => none

theorem length_after_of_readClass? {text rest : List Char} {negated : Bool}
    {members : List Member} (h : readClass? text = some (negated, members, rest)) :
    rest.length < text.length := by
  unfold readClass? at h
  split at h
  all_goals
    first
    | contradiction
    | obtain ⟨sides, hcut, heq⟩ := Option.map_eq_some_iff.mp h
      have hlength := Text.length_after_of_cut? hcut
      simp only [Prod.mk.injEq] at heq
      obtain ⟨_, _, rfl⟩ := heq
      simp only [List.length_cons, List.length_nil] at hlength ⊢
      omega

/-- Reads the pattern text found at `position`.  `atComponent` says whether a path
component starts here: at the pattern's start or after `/`. -/
def readTokens (position : Nat) (atComponent : Bool) (text : List Char) :
    Except GlobError (List Token) :=
  match text with
  | [] => .ok []
  | '?' :: rest => (readTokens (position + 1) false rest).map (.anyChar :: ·)
  | '*' :: '*' :: '*' :: _ => .error (.tooManyStars (position + 2))
  | '*' :: '*' :: rest =>
    if !atComponent then .error (.brokenDirectories (position - 1))
    else
      match rest with
      | [] => .ok [.anyDirectories]
      | '/' :: rest => (readTokens (position + 3) true rest).map (.anyDirectories :: ·)
      | _ :: _ => .error (.brokenDirectories (position + 2))
  | '*' :: rest => (readTokens (position + 1) false rest).map (.anyRun :: ·)
  | '[' :: rest =>
    match hclass : readClass? rest with
    | none => .error (.brokenClass position)
    | some (negated, members, after) =>
      have hshorter := length_after_of_readClass? hclass
      (readTokens (position + 1 + (rest.length - after.length)) false after).map
        ((if negated then Token.noneOf members else Token.oneOf members) :: ·)
  | c :: rest => (readTokens (position + 1) (c == '/') rest).map (.literal c :: ·)
termination_by text.length

end Glob

/-- A pattern that can be read, with its tokens. -/
structure Glob where
  pattern : String
  tokens : List Glob.Token
  read : Glob.readTokens 0 true pattern.toList = .ok tokens
deriving DecidableEq

namespace Glob

/-- Reads a pattern; an empty one is refused. -/
def ofString (pattern : String) : Except GlobError Glob :=
  if pattern.isEmpty then .error .empty
  else
    match h : readTokens 0 true pattern.toList with
    | .ok tokens => .ok ⟨pattern, tokens, h⟩
    | .error fault => .error fault

end Glob

end SchemaLint
