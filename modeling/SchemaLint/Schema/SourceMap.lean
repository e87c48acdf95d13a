import Std.Data.TreeMap.Lemmas

namespace SchemaLint

namespace Schema

/-!
# Recorded locations

A recorded location is addressed by a path: field numbers of the schema format
alternating with positions in the lists that those fields hold.

A compiler may record several locations at one path.  It writes the location of a whole
element before those of its parts, so the first of them counts, and it is the one that an
index over all paths leads to.
-/

/-- The address of a recorded location or of an element. -/
abbrev Path := List Int32

/-- What the compiler recorded at a path: the span, and the comments around it. -/
structure SourceLocation where
  path : Path
  span : List Int32 := []
  leading : Option String := none
  trailing : Option String := none
  detached : List String := []
deriving DecidableEq, Inhabited

/-- The positions of locations by their paths.  The list is read from its end, and a later
insertion replaces an earlier one. -/
def positionsOf (locations : List SourceLocation) : Std.TreeMap Path Nat :=
  locations.zipIdx.reverse.foldl
    (fun positions recorded => positions.insert recorded.1.path recorded.2) ∅

/-- Recorded locations with the index over their paths. -/
structure SourceMap where
  locations : List SourceLocation
  positions : Std.TreeMap Path Nat
  indexed : positions = positionsOf locations

namespace SourceMap

/-- The source map of the given locations. -/
def ofList (locations : List SourceLocation) : SourceMap := ⟨locations, positionsOf locations, rfl⟩

instance : Inhabited SourceMap := ⟨ofList []⟩

/-- The location that the index leads to. -/
def find? (map : SourceMap) (path : Path) : Option SourceLocation :=
  match map.positions[path]? with
  | some position => map.locations[position]?
  | none => none

end SourceMap

/-- Of the positions that one path has, counted from any start, the index keeps the first. -/
theorem getElem?_foldr_insert (locations : List SourceLocation) (start : Nat) (path : Path) :
    ((locations.zipIdx start).foldr
      (fun recorded (positions : Std.TreeMap Path Nat) =>
        positions.insert recorded.1.path recorded.2) ∅)[path]? =
      (locations.findIdx? fun location => location.path = path).map (· + start) := by
  induction locations generalizing start with
  | nil => simp
  | cons location rest ih =>
      rw [List.zipIdx_cons, List.foldr_cons, Std.TreeMap.getElem?_insert, ih, List.findIdx?_cons]
      by_cases hpath : location.path = path
      · simp [hpath]
      · simp [hpath, Option.map_map, Function.comp_def, Nat.add_assoc, Nat.add_comm 1]

theorem getElem?_positionsOf (locations : List SourceLocation) (path : Path) :
    (positionsOf locations)[path]? =
      locations.findIdx? fun location => location.path = path := by
  rw [positionsOf, List.foldl_reverse, getElem?_foldr_insert]
  simp

/-- The index leads to the first location of a path. -/
theorem SourceMap.find?_eq_find?_locations (map : SourceMap) (path : Path) :
    map.find? path = map.locations.find? fun location => location.path = path := by
  rw [find?, map.indexed, getElem?_positionsOf, List.find?_eq_bind_findIdx?_getElem?]
  cases map.locations.findIdx? fun location => location.path = path <;> rfl

end Schema

end SchemaLint
