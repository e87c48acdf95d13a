import Mathlib.Data.List.Induction
import Mathlib.Data.List.Nodup
import SchemaLint.Schema.Builder

namespace SchemaLint

namespace Schema

/-!
# What is recorded in a file written by hand

Comments, spans and headers are added one after the other and come back to a path in any
order.  Each addition is merged into what its path has already, and the three kinds are
merged differently: a comment replaces the one before it, a span does so unless it is empty,
and headers are collected.  It is shown what is read at a path in the end, in terms of the
additions alone.

All of it follows from what one addition does to what is read at one path.
-/

/-- One thing added to a file. -/
inductive Addition where
  | comment (path : Path) (text : String)
  | span (path : Path) (numbers : List Int32)
  | header (text : String)

namespace Addition

/-- The path that something is added at. -/
def path : Addition → Path
  | comment path _ => path
  | span path _ => path
  | header _ => File.syntaxPath

/-- The comment that is set at a path. -/
@[simp]
def commentAt? (place : Path) : Addition → Option String
  | comment path text => if path = place then some text else none
  | span _ _ => none
  | header _ => none

/-- The span that is set at a path.  An empty one sets nothing. -/
@[simp]
def spanAt? (place : Path) : Addition → Option (List Int32)
  | comment _ _ => none
  | span path numbers => if path = place ∧ numbers ≠ [] then some numbers else none
  | header _ => if place = File.syntaxPath then some [0, 0, 18] else none

/-- The text of a header. -/
@[simp]
def header? : Addition → Option String
  | comment _ _ => none
  | span _ _ => none
  | header text => some text

/-- What is recorded at a path that has nothing yet. -/
def location : Addition → SourceLocation
  | comment path text => { path := path, leading := some text }
  | span path numbers => { path := path, span := numbers }
  | header text => { path := File.syntaxPath, span := [0, 0, 18], detached := [text] }

@[simp]
theorem path_location (addition : Addition) : addition.location.path = addition.path := by
  cases addition with
  | comment path text => rfl
  | span path numbers => rfl
  | header text => rfl

end Addition

namespace File

/-- The file with one thing added. -/
def add (file : File) : Addition → File
  | .comment path text => file.withComment path text
  | .span path numbers => file.withSpan path numbers
  | .header text => file.withHeader text

theorem add_eq_record (file : File) (addition : Addition) :
    file.add addition = file.record addition.location := by
  cases addition with
  | comment path text => rfl
  | span path numbers => rfl
  | header text => rfl

end File

/-!
## One addition
-/

@[simp]
theorem SourceLocation.path_merge (recorded added : SourceLocation) :
    (recorded.merge added).path = recorded.path :=
  rfl

/-- A location is recorded in place or at the end. -/
theorem map_path_recordLocation (added : SourceLocation) (locations : List SourceLocation) :
    (recordLocation added locations).map (·.path) =
      if added.path ∈ locations.map (·.path) then locations.map (·.path)
      else locations.map (·.path) ++ [added.path] := by
  induction locations with
  | nil => rfl
  | cons recorded rest ih =>
      rw [recordLocation]
      by_cases hpath : recorded.path = added.path
      · simp [hpath]
      · rw [if_neg hpath, List.map_cons, ih, List.map_cons]
        by_cases hrest : added.path ∈ rest.map (·.path)
        · rw [if_pos hrest, if_pos (List.mem_cons_of_mem _ hrest)]
        · have hall : added.path ∉ recorded.path :: rest.map (·.path) :=
            List.not_mem_cons_of_ne_of_not_mem (Ne.symm hpath) hrest
          rw [if_neg hrest, if_neg hall, List.cons_append]

theorem nodup_recordLocation {locations : List SourceLocation}
    (h : (locations.map (·.path)).Nodup) (added : SourceLocation) :
    ((recordLocation added locations).map (·.path)).Nodup := by
  rw [map_path_recordLocation]
  split
  · exact h
  · next hnew => exact h.append (List.nodup_singleton _) (List.disjoint_singleton.2 hnew)

/-- The first location of a path is the one that is merged with, so it is also the one that
is read. -/
theorem find?_recordLocation (added : SourceLocation) (locations : List SourceLocation)
    (place : Path) :
    (recordLocation added locations).find? (fun location => location.path = place) =
      if added.path = place then
        some ((locations.find? fun location => location.path = place).elim added (·.merge added))
      else locations.find? fun location => location.path = place := by
  induction locations with
  | nil =>
      by_cases hplace : added.path = place
      · simp [recordLocation, hplace]
      · simp [recordLocation, hplace]
  | cons recorded rest ih =>
      rw [recordLocation]
      by_cases hpath : recorded.path = added.path
      · by_cases hplace : added.path = place
        · simp [hpath, hplace]
        · simp [hpath, hplace]
      · rw [if_neg hpath]
        by_cases hrecorded : recorded.path = place
        · have hplace : added.path ≠ place := fun hadded => hpath (hrecorded.trans hadded.symm)
          simp [hrecorded, hplace]
        · rw [List.find?_cons_of_neg (by simpa using hrecorded), ih,
            List.find?_cons_of_neg (by simpa using hrecorded)]

/-- A first addition is merged with a location that says nothing. -/
theorem Addition.merge_location (addition : Addition) :
    SourceLocation.merge { path := addition.path } addition.location = addition.location := by
  cases addition with
  | comment path text => rfl
  | span path numbers =>
      cases numbers with
      | nil => rfl
      | cons first rest => rfl
  | header text => rfl

theorem File.sourceLocation?_add (file : File) (addition : Addition) (place : Path) :
    (file.add addition).sourceLocation? place =
      if addition.path = place then
        some (((file.sourceLocation? place).getD { path := place }).merge addition.location)
      else file.sourceLocation? place := by
  rw [add_eq_record, sourceLocation?_eq_find?, locations_record, find?_recordLocation,
    Addition.path_location, ← sourceLocation?_eq_find?]
  split
  · next hplace =>
    cases file.sourceLocation? place with
    | none => rw [Option.elim_none, Option.getD_none, ← hplace, addition.merge_location]
    | some recorded => rfl
  · rfl

/-!
## All additions
-/

namespace File

theorem nodup_foldl_add {file : File} (h : (file.locations.map (·.path)).Nodup)
    (additions : List Addition) :
    ((additions.foldl add file).locations.map (·.path)).Nodup := by
  induction additions generalizing file with
  | nil => exact h
  | cons addition additions ih =>
      refine ih ?_
      rw [add_eq_record, locations_record]
      exact nodup_recordLocation h addition.location

/-- What is read at a path in the end depends on what was read there in the beginning and on
nothing else that the file holds. -/
theorem sourceLocation?_foldl_add_congr {file other : File} {place : Path}
    (h : file.sourceLocation? place = other.sourceLocation? place) (additions : List Addition) :
    (additions.foldl add file).sourceLocation? place =
      (additions.foldl add other).sourceLocation? place := by
  induction additions generalizing file other with
  | nil => exact h
  | cons addition additions ih =>
      refine ih ?_
      rw [sourceLocation?_add, sourceLocation?_add, h]

end File

namespace Addition

/-- What the additions together say about a path. -/
def gather (additions : List Addition) (place : Path) : SourceLocation where
  path := place
  leading := (additions.filterMap (commentAt? place)).getLast?
  span := (additions.filterMap (spanAt? place)).getLastD []
  detached := if place = File.syntaxPath then additions.filterMap header? else []

/-- An addition at another path says nothing. -/
theorem gather_concat_of_ne (additions : List Addition) {addition : Addition} {place : Path}
    (h : addition.path ≠ place) :
    gather (additions ++ [addition]) place = gather additions place := by
  cases addition with
  | comment path text =>
      have hpath : path ≠ place := h
      simp [gather, List.filterMap_cons, hpath]
  | span path numbers =>
      have hpath : path ≠ place := h
      simp [gather, List.filterMap_cons, hpath]
  | header text =>
      have hplace : place ≠ File.syntaxPath := Ne.symm h
      simp [gather, hplace]

/-- An addition at the path is merged with what the ones before it say. -/
theorem gather_concat_of_eq (additions : List Addition) {addition : Addition} {place : Path}
    (h : addition.path = place) :
    gather (additions ++ [addition]) place =
      (gather additions place).merge addition.location := by
  cases addition with
  | comment path text =>
      have hpath : path = place := h
      simp [gather, SourceLocation.merge, location, List.filterMap_cons, hpath]
  | span path numbers =>
      have hpath : path = place := h
      cases numbers with
      | nil => simp [gather, SourceLocation.merge, location, List.filterMap_cons]
      | cons first rest =>
          simp [gather, SourceLocation.merge, location, List.filterMap_cons, hpath]
  | header text =>
      have hplace : place = File.syntaxPath := h.symm
      simp [gather, SourceLocation.merge, location, List.filterMap_cons, hplace]

end Addition

namespace File

theorem isSome_sourceLocation?_foldl_add (file : File) (additions : List Addition)
    (place : Path) :
    ((additions.foldl add file).sourceLocation? place).isSome = true ↔
      (file.sourceLocation? place).isSome = true ∨
        ∃ addition ∈ additions, addition.path = place := by
  induction additions generalizing file with
  | nil => simp
  | cons addition additions ih =>
      rw [List.foldl_cons, ih, sourceLocation?_add, List.exists_mem_cons_iff]
      by_cases hplace : addition.path = place
      · simp [hplace]
      · simp [hplace]

/-- In a file that starts with nothing recorded, the additions alone say what is read. -/
theorem sourceLocation?_foldl_add_getD {file : File} (h : file.locations = [])
    (additions : List Addition) (place : Path) :
    ((additions.foldl add file).sourceLocation? place).getD { path := place } =
      Addition.gather additions place := by
  induction additions using List.reverseRecOn with
  | nil => simp [sourceLocation?_eq_find?, h, Addition.gather]
  | append_singleton additions addition ih =>
      rw [List.foldl_append, List.foldl_cons, List.foldl_nil, sourceLocation?_add]
      by_cases hplace : addition.path = place
      · rw [if_pos hplace, Option.getD_some, ih, Addition.gather_concat_of_eq additions hplace]
      · rw [if_neg hplace, ih, Addition.gather_concat_of_ne additions hplace]

/-- In a file written by hand no path is recorded twice.  A path has a location when
something was added there; its comment is the last one, its span the last one that is not
empty, and the headers stand in order at the `syntax` statement and nowhere else.  An
addition at one path changes nothing that is read at another. -/
theorem locations_of_additions (name package : String) (messages : List Message)
    (additions : List Addition) :
    let start := ofMessages name package messages
    let file := additions.foldl add start
    (file.locations.map (·.path)).Nodup ∧
    ∀ place : Path,
      ((file.sourceLocation? place).isSome = true ↔
        ∃ addition ∈ additions, addition.path = place) ∧
      (∀ location, file.sourceLocation? place = some location →
        location.path = place ∧
        location.leading = (additions.filterMap (Addition.commentAt? place)).getLast? ∧
        location.span = (additions.filterMap (Addition.spanAt? place)).getLastD [] ∧
        location.detached =
          if place = syntaxPath then additions.filterMap Addition.header? else []) ∧
      ∀ before addition after, additions = before ++ addition :: after → addition.path ≠ place →
        file.sourceLocation? place = ((before ++ after).foldl add start).sourceLocation? place := by
  intro start file
  have hstart : (start.locations.map (·.path)).Nodup := List.nodup_nil
  refine ⟨nodup_foldl_add hstart additions, fun place => ⟨?_, ?_, ?_⟩⟩
  · exact (isSome_sourceLocation?_foldl_add start additions place).trans
      (or_iff_right Bool.false_ne_true)
  · intro location hread
    have hgather : (file.sourceLocation? place).getD { path := place } =
        Addition.gather additions place := sourceLocation?_foldl_add_getD rfl additions place
    rw [hread, Option.getD_some] at hgather
    rw [hgather]
    exact ⟨rfl, rfl, rfl, rfl⟩
  · rintro before addition after hadditions hplace
    have hfile : file = after.foldl add ((before.foldl add start).add addition) := by
      rw [← List.foldl_cons, ← List.foldl_append, ← hadditions]
    rw [hfile, List.foldl_append]
    refine sourceLocation?_foldl_add_congr ?_ after
    rw [sourceLocation?_add, if_neg hplace]

/-- Additions that come back to two paths in turn, with an empty span among them. -/
def returningAdditions : List Addition :=
  [.span [4, 0] [2, 0, 30], .comment [4, 0] "A book.", .header "Shared by all shops.",
    .comment [4, 0] "A printed book.", .span [4, 0] [], .header "Kept in order."]

/-- The empty span leaves the earlier one, the later comment takes the place of the first,
and without the first header the message reads the same. -/
theorem locations_of_returningAdditions :
    let start := ofMessages "books.proto" "" [.ofFields "Book" []]
    let file := returningAdditions.foldl add start
    (∃ location, file.sourceLocation? [4, 0] = some location ∧
      location.leading = some "A printed book." ∧ location.span = [2, 0, 30] ∧
      location.detached = []) ∧
    (∃ location, file.sourceLocation? [12] = some location ∧ location.leading = none ∧
      location.span = [0, 0, 18] ∧
      location.detached = ["Shared by all shops.", "Kept in order."]) ∧
    file.sourceLocation? [4, 0] =
      ((returningAdditions.eraseIdx 2).foldl add start).sourceLocation? [4, 0] := by
  intro start file
  obtain ⟨-, hplaces⟩ :=
    locations_of_additions "books.proto" "" [.ofFields "Book" []] returningAdditions
  obtain ⟨hmessage, hmessageRead, hmessageKept⟩ := hplaces [4, 0]
  obtain ⟨hstatement, hstatementRead, -⟩ := hplaces [12]
  obtain ⟨atMessage, hatMessage⟩ :=
    Option.isSome_iff_exists.1 (hmessage.2 ⟨_, List.mem_of_getElem? (i := 0) rfl, rfl⟩)
  obtain ⟨atStatement, hatStatement⟩ :=
    Option.isSome_iff_exists.1 (hstatement.2 ⟨_, List.mem_of_getElem? (i := 2) rfl, rfl⟩)
  refine ⟨⟨atMessage, hatMessage, ?_⟩, ⟨atStatement, hatStatement, ?_⟩, ?_⟩
  · exact (hmessageRead atMessage hatMessage).2
  · exact (hstatementRead atStatement hatStatement).2
  · exact hmessageKept (returningAdditions.take 2) (.header "Shared by all shops.")
      (returningAdditions.drop 3) rfl (by decide)

end File

end Schema

end SchemaLint
