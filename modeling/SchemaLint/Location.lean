namespace SchemaLint

/-!
# Source locations

A location is what a report prints: a file and a stretch of it, with lines and
columns counted from one and the last column included.  Compiled schemas record
spans instead, counted from zero and with an excluded last column.
-/

/-- A stretch of a file. -/
structure Location where
  file : String
  startLine : UInt64
  startColumn : UInt64
  endLine : UInt64
  endColumn : UInt64
deriving DecidableEq, Inhabited

namespace Location

/-- The location of a single position. -/
def point (file : String) (line column : UInt64) : Location :=
  ⟨file, line, column, line, column⟩

/-- The location moved to end at the given position. -/
def withEnd (location : Location) (line column : UInt64) : Location :=
  { location with endLine := line, endColumn := column }

/-- A number of a span; a negative one counts as zero. -/
def spanNumber (n : Int32) : UInt64 := UInt64.ofNat n.toInt.toNat

/-- The location of a recorded span.  A span of four numbers gives both ends, one
of three ends on the line where it starts, one of two gives a start only, and a
span of any other length stands for the start of the file. -/
def ofSpan (file : String) : List Int32 → Location
  | [line, column, endLine, endColumn] =>
    (point file (spanNumber line + 1) (spanNumber column + 1)).withEnd
      (spanNumber endLine + 1) (spanNumber endColumn)
  | [line, column, endColumn] =>
    (point file (spanNumber line + 1) (spanNumber column + 1)).withEnd
      (spanNumber line + 1) (spanNumber endColumn)
  | [line, column] => point file (spanNumber line + 1) (spanNumber column + 1)
  | _ => point file 1 1

end Location

end SchemaLint
