import SchemaLint.Glob.Basic

namespace SchemaLint
namespace Glob

/-!
# Matching paths

A pattern speaks about a whole path.  Matching is computed for all suffixes of
the path at once, from the last token to the first: entry `i` of a row says
whether the tokens accept the path without its first `i` characters.  The cost is
the product of the two lengths, whatever the pattern.

`Accepts` states the same meaning as a relation, without rows.
-/

/-- The character that divides path components. -/
def divider : Char := '/'

/-- Whether a token for one character accepts a character.  Wildcards and classes
never accept the divider. -/
def Token.acceptsChar : Token → Char → Bool
  | literal c, d => c == d
  | anyChar, d => d != divider
  | oneOf members, d => d != divider && members.any (·.covers d)
  | noneOf members, d => d != divider && !members.any (·.covers d)
  | anyRun, _ => false
  | anyDirectories, _ => false

/-- What a list of tokens means: the paths they accept. -/
inductive Accepts : List Token → List Char → Prop where
  | done : Accepts [] []
  | char {token : Token} {tokens : List Token} {c : Char} {path : List Char}
      (hchar : token.acceptsChar c = true) (htail : Accepts tokens path) :
      Accepts (token :: tokens) (c :: path)
  | run {tokens : List Token} {run path : List Char}
      (hrun : divider ∉ run) (htail : Accepts tokens path) :
      Accepts (.anyRun :: tokens) (run ++ path)
  | noDirectories {tokens : List Token} {path : List Char} (htail : Accepts tokens path) :
      Accepts (.anyDirectories :: tokens) path
  | directories {tokens : List Token} {directories path : List Char}
      (htail : Accepts tokens path) :
      Accepts (.anyDirectories :: tokens) (directories ++ divider :: path)
  | allRemaining {tokens : List Token} {path : List Char} (htail : Accepts tokens []) :
      Accepts (.anyDirectories :: tokens) path

/-- The first entry of a row. -/
def front (row : List Bool) : Bool :=
  row.headD false

/-- The row of a token for one character, from the row of the tokens after it. -/
def charRow (token : Token) : List Char → List Bool → List Bool
  | [], _ => [false]
  | c :: path, row => (token.acceptsChar c && front row.tail) :: charRow token path row.tail

/-- The row of `*`: it takes nothing, or one more character that is no divider. -/
def runRow : List Char → List Bool → List Bool
  | [], row => [front row]
  | c :: path, row =>
    let later := runRow path row.tail
    (front row || (c != divider && front later)) :: later

/-- The row of `**` without the case that it takes nothing: it takes characters up
to and with a divider, or everything. -/
def directoriesTail : List Char → List Bool → List Bool
  | [], row => [front row]
  | c :: path, row =>
    let later := directoriesTail path row.tail
    ((c == divider && front row.tail) || front later) :: later

/-- The row of `**`. -/
def directoriesRow (path : List Char) (row : List Bool) : List Bool :=
  List.zipWith (· || ·) row (directoriesTail path row)

/-- The row of a list of tokens over the suffixes of a path. -/
def row (path : List Char) : List Token → List Bool
  | [] => path.map (fun _ => false) ++ [true]
  | .anyRun :: tokens => runRow path (row path tokens)
  | .anyDirectories :: tokens => directoriesRow path (row path tokens)
  | token :: tokens => charRow token path (row path tokens)

/-- Whether the tokens accept the path. -/
def accepts (tokens : List Token) (path : List Char) : Bool :=
  front (row path tokens)

/-- The directory of a pattern that ends in `/**`, without trailing dividers. -/
def directory? (pattern : List Char) : Option (List Char) :=
  match pattern.reverse with
  | '*' :: '*' :: '/' :: rest => some (rest.dropWhile (· == divider)).reverse
  | _ => none

/-- Whether the path is `directory` followed by a divider and anything. -/
def isBelow (directory path : List Char) : Bool :=
  directory.isPrefixOf path && (path.drop directory.length).head? == some divider

/-- Whether the pattern accepts the path.  A pattern that ends in `/**` also
accepts what lies below its directory, read as plain text. -/
def covers (glob : Glob) (path : String) : Bool :=
  accepts glob.tokens path.toList ||
    match directory? glob.pattern.toList with
    | some directory => isBelow directory path.toList
    | none => false

end Glob
end SchemaLint
