import Mathlib.Data.List.Forall2
import Mathlib.Data.List.Induction
import Mathlib.Data.List.Nodup
import SchemaLint.Command.Lint

namespace SchemaLint

namespace Command

/-!
# Which files are linted

A command names compiled sets, and it may name files.  The sets can repeat a file and the
command can repeat a name.  Twice the first occurrence counts: of the copies of a file the
first one over all sets is kept, and a name that is asked for again adds nothing.

Both are compared with one definition that looks at positions and not at what has been
seen so far.  Files are then found by name, where the last file of a name counts, and a file
that was found is taken away.  After the first two steps this makes no difference: no two
files share a name, and no name is looked for twice.

How the sets are read is left to the caller.
-/

section Firsts

variable {α β : Type} [DecidableEq β] (key : α → β)

/-- The items whose key has not occurred before them. -/
def firstsBy (items : List α) : List α :=
  (items.zipIdx.filter fun place => key place.1 ∉ (items.take place.2).map key).map Prod.fst

/-- One more item at the end counts unless its key has occurred. -/
theorem firstsBy_concat (items : List α) (item : α) :
    firstsBy key (items ++ [item]) =
      firstsBy key items ++ if key item ∈ items.map key then [] else [item] := by
  -- What stands before an item is the same with one more item at the end.
  have hbefore : (items.zipIdx.filter fun place =>
        key place.1 ∉ ((items ++ [item]).take place.2).map key) =
      items.zipIdx.filter fun place => key place.1 ∉ (items.take place.2).map key := by
    refine List.filter_congr fun place hplace => ?_
    obtain ⟨hposition, -⟩ := List.getElem?_eq_some_iff.1 (List.mem_zipIdx_iff_getElem?.1 hplace)
    rw [List.take_append_of_le_length (Nat.le_of_lt hposition)]
  rw [firstsBy, List.zipIdx_append, List.filter_append, List.map_append, hbefore, firstsBy]
  congr 1
  by_cases hitem : key item ∈ items.map key
  · simp [hitem]
  · simp [hitem]

theorem mem_map_firstsBy_iff {items : List α} {value : β} :
    value ∈ (firstsBy key items).map key ↔ value ∈ items.map key := by
  induction items using List.reverseRecOn with
  | nil => rfl
  | append_singleton items item ih =>
      rw [firstsBy_concat, List.map_append, List.mem_append, ih, List.map_append, List.mem_append]
      by_cases hitem : key item ∈ items.map key
      · rw [if_pos hitem]
        constructor
        · rintro (hvalue | hnone)
          · exact .inl hvalue
          · simp at hnone
        · rintro (hvalue | hlast)
          · exact .inl hvalue
          · left
            simp only [List.map_cons, List.map_nil, List.mem_singleton] at hlast
            rwa [hlast]
      · rw [if_neg hitem]

/-- No key is left twice. -/
theorem nodup_map_firstsBy (items : List α) : ((firstsBy key items).map key).Nodup := by
  induction items using List.reverseRecOn with
  | nil => exact List.nodup_nil
  | append_singleton items item ih =>
      rw [firstsBy_concat, List.map_append]
      by_cases hitem : key item ∈ items.map key
      · rw [if_pos hitem, List.map_nil, List.append_nil]
        exact ih
      · rw [if_neg hitem, List.map_singleton]
        refine List.nodup_append.2 ⟨ih, List.nodup_singleton _, ?_⟩
        intro value hvalue last hlast hsame
        rw [List.mem_singleton.1 hlast] at hsame
        rw [hsame, mem_map_firstsBy_iff] at hvalue
        exact hitem hvalue

/-- The items that are left are the first with their keys. -/
theorem find?_eq_some_of_mem_firstsBy {items : List α} {item : α}
    (h : item ∈ firstsBy key items) :
    items.find? (fun other => key other = key item) = some item := by
  induction items using List.reverseRecOn with
  | nil => simp [firstsBy] at h
  | append_singleton items last ih =>
      rw [firstsBy_concat, List.mem_append] at h
      rw [List.find?_append]
      rcases h with hbefore | hlast
      · rw [ih hbefore, Option.some_or]
      · by_cases hseen : key last ∈ items.map key
        · simp [hseen] at hlast
        · rw [if_neg hseen, List.mem_singleton] at hlast
          -- The search runs through all items before the last one.
          have hnone : items.find? (fun other => key other = key last) = none := by
            rw [List.find?_eq_none]
            intro other hother hsame
            exact hseen (List.mem_map.2 ⟨other, hother, of_decide_eq_true hsame⟩)
          rw [hlast, hnone, Option.none_or]
          simp

end Firsts

/-- One more item at the end is dropped if its key has been seen or has occurred. -/
theorem dropRepeated_concat {α : Type} (key : α → String) (seen : Std.HashSet String)
    (items : List α) (item : α) :
    dropRepeated key seen (items ++ [item]) =
      dropRepeated key seen items ++
        if key item ∈ seen ∨ key item ∈ items.map key then [] else [item] := by
  induction items generalizing seen with
  | nil =>
      by_cases hseen : key item ∈ seen
      · simp [dropRepeated, hseen]
      · simp [dropRepeated, hseen]
  | cons first items ih =>
      rw [List.cons_append, dropRepeated, dropRepeated]
      by_cases hfirst : key first ∈ seen
      · -- A key like that of the first item has been seen already.
        have hsame : (key item ∈ seen ∨ key item ∈ items.map key) ↔
            key item ∈ seen ∨ key item ∈ (first :: items).map key := by
          rw [List.map_cons, List.mem_cons]
          constructor
          · exact Or.imp_right .inr
          · rintro (hseen | hlike | hlater)
            · exact .inl hseen
            · exact .inl (hlike ▸ hfirst)
            · exact .inr hlater
        have hcontains : seen.contains (key first) = true := hfirst
        rw [if_pos hcontains, if_pos hcontains, ih, if_congr hsame rfl rfl]
      · have hsame : (key item ∈ seen.insert (key first) ∨ key item ∈ items.map key) ↔
            key item ∈ seen ∨ key item ∈ (first :: items).map key := by
          rw [List.map_cons, List.mem_cons, Std.HashSet.mem_insert, beq_iff_eq, or_assoc,
            or_left_comm, @eq_comm _ (key first)]
        have hcontains : ¬ seen.contains (key first) = true := hfirst
        rw [if_neg hcontains, if_neg hcontains, ih, if_congr hsame rfl rfl, List.cons_append]

/-- What has been seen so far decides as the positions do. -/
theorem dropRepeated_eq_firstsBy {α : Type} (key : α → String) (items : List α) :
    dropRepeated key ∅ items = firstsBy key items := by
  induction items using List.reverseRecOn with
  | nil => rfl
  | append_singleton items item ih =>
      rw [dropRepeated_concat, firstsBy_concat, ih]
      simp

/-- A search among names is not misled by repetitions. -/
theorem find?_firstsBy_id (test : String → Bool) (names : List String) :
    (firstsBy id names).find? test = names.find? test := by
  induction names using List.reverseRecOn with
  | nil => rfl
  | append_singleton names name ih =>
      rw [firstsBy_concat, List.find?_append, List.find?_append, ih, List.map_id, id]
      by_cases hname : name ∈ names
      · -- If the repeated name passes the test, the search has ended before it.
        rw [if_pos hname, List.find?_nil, Option.or_none]
        cases hfound : names.find? test with
        | some found => rfl
        | none =>
            have hfails := List.find?_eq_none.1 hfound name hname
            simp [hfails]
      · rw [if_neg hname]

/-!
## Copies of files
-/

/-- The first copies of the files of several sets. -/
def firstCopies (sets : List (List Schema.File)) : List Schema.File :=
  firstsBy Schema.File.name sets.flatten

theorem distinctFiles_eq_firstCopies (sets : List (List Schema.File)) :
    distinctFiles sets = firstCopies sets :=
  dropRepeated_eq_firstsBy Schema.File.name sets.flatten

/-- A file that is left is the first of its name over all sets. -/
theorem find?_eq_some_of_mem_firstCopies {sets : List (List Schema.File)} {file : Schema.File}
    (h : file ∈ firstCopies sets) :
    sets.flatten.find? (fun other => other.name = file.name) = some file :=
  find?_eq_some_of_mem_firstsBy Schema.File.name h

/-!
## Files by name
-/

theorem byName_concat (files : List Schema.File) (file : Schema.File) :
    byName (files ++ [file]) = (byName files).insert file.name file := by
  rw [byName, List.foldl_append]
  rfl

/-- The file of a name is the last one that has it. -/
theorem getElem?_byName (files : List Schema.File) (name : String) :
    (byName files)[name]? = files.reverse.find? fun file => file.name = name := by
  induction files using List.reverseRecOn with
  | nil => simp [byName]
  | append_singleton files file ih =>
      rw [byName_concat, Std.HashMap.getElem?_insert, ih, List.reverse_concat, List.find?_cons]
      by_cases hname : file.name = name
      · simp [hname]
      · simp [hname]

theorem getElem?_byName_eq_none_iff {files : List Schema.File} {name : String} :
    (byName files)[name]? = none ↔ ∀ file ∈ files, file.name ≠ name := by
  simp [getElem?_byName]

/-- Where no two files share a name, the last file of a name is the only one. -/
theorem getElem?_byName_eq_some_iff {files : List Schema.File}
    (hnodup : (files.map Schema.File.name).Nodup) {name : String} {file : Schema.File} :
    (byName files)[name]? = some file ↔ file ∈ files ∧ file.name = name := by
  have hfound : ∀ found, (byName files)[name]? = some found →
      found ∈ files ∧ found.name = name := by
    intro found hfound
    rw [getElem?_byName] at hfound
    exact ⟨List.mem_reverse.1 (List.mem_of_find?_eq_some hfound),
      of_decide_eq_true (List.find?_some hfound :)⟩
  constructor
  · exact hfound file
  · rintro ⟨hfile, hname⟩
    cases hlast : (byName files)[name]? with
    | none => exact absurd hname (getElem?_byName_eq_none_iff.1 hlast file hfile)
    | some last =>
        obtain ⟨hmem, hsame⟩ := hfound last hlast
        rw [List.inj_on_of_nodup_map hnodup hmem hfile (hsame.trans hname.symm)]

/-- The name is the first among the names that no file has. -/
def FirstUnknown (files : List Schema.File) (names : List String) (name : String) : Prop :=
  ∃ before after, names = before ++ name :: after ∧
    (∀ earlier ∈ before, ∃ file ∈ files, file.name = earlier) ∧ ∀ file ∈ files, file.name ≠ name

/-- No file of the name is left. -/
def unknown (left : Std.HashMap String Schema.File) (name : String) : Bool := left[name]?.isNone

theorem unknown_byName_iff {files : List Schema.File} {name : String} :
    unknown (byName files) name = true ↔ ∀ file ∈ files, file.name ≠ name := by
  rw [unknown, Option.isNone_iff_eq_none, getElem?_byName_eq_none_iff]

theorem find?_unknown_eq_some_iff {files : List Schema.File} {names : List String}
    {name : String} :
    names.find? (unknown (byName files)) = some name ↔ FirstUnknown files names name := by
  have hknown : ∀ earlier, (!unknown (byName files) earlier) = true ↔
      ∃ file ∈ files, file.name = earlier := by
    intro earlier
    rw [Bool.not_eq_true', ← Bool.not_eq_true, unknown_byName_iff]
    simp
  rw [List.find?_eq_some_iff_append, unknown_byName_iff]
  simp only [hknown]
  constructor
  · rintro ⟨hname, before, after, hnames, hbefore⟩
    exact ⟨before, after, hnames, hbefore, hname⟩
  · rintro ⟨before, after, hnames, hbefore, hname⟩
    exact ⟨hname, before, after, hnames, hbefore⟩

/-- Files of other names do not matter. -/
theorem filesNamed_congr {left other : Std.HashMap String Schema.File} {names : List String}
    (h : ∀ name ∈ names, left[name]? = other[name]?) :
    filesNamed left names = filesNamed other names := by
  induction names generalizing left other with
  | nil => rfl
  | cons name names ih =>
      obtain ⟨hname, hnames⟩ := List.forall_mem_cons.1 h
      have hrest : filesNamed (left.erase name) names = filesNamed (other.erase name) names := by
        refine ih fun later hlater => ?_
        rw [Std.HashMap.getElem?_erase, Std.HashMap.getElem?_erase, hnames later hlater]
      rw [filesNamed, filesNamed, hname, hrest]

/-- A file that was taken is not missed where its name is not asked for again. -/
theorem filesNamed_erase {left : Std.HashMap String Schema.File} {name : String}
    {names : List String} (h : name ∉ names) :
    filesNamed (left.erase name) names = filesNamed left names := by
  refine filesNamed_congr fun later hlater => ?_
  have hother : name ≠ later := fun hsame => h (hsame ▸ hlater)
  rw [Std.HashMap.getElem?_erase, if_neg (by simpa using hother)]

theorem filesNamed_eq_ok_iff {left : Std.HashMap String Schema.File} {names : List String}
    (hnodup : names.Nodup) {selected : List Schema.File} :
    filesNamed left names = .ok selected ↔
      List.Forall₂ (fun name file => left[name]? = some file) names selected := by
  induction names generalizing selected with
  | nil => simp [filesNamed, eq_comm]
  | cons name names ih =>
      obtain ⟨hname, hnames⟩ := List.nodup_cons.1 hnodup
      rw [filesNamed, List.forall₂_cons_left_iff, filesNamed_erase hname]
      cases hfile : left[name]? with
      | none => simp
      | some file =>
          simp only [← ih hnames]
          cases hmore : filesNamed left names with
          | error fault => simp
          | ok more => simp [eq_comm]

theorem filesNamed_eq_error_iff {left : Std.HashMap String Schema.File} {names : List String}
    (hnodup : names.Nodup) {fault : LintError} :
    filesNamed left names = .error fault ↔
      ∃ name, names.find? (unknown left) = some name ∧ fault = .unknownFile name := by
  induction names with
  | nil => simp [filesNamed]
  | cons name names ih =>
      obtain ⟨hname, hnames⟩ := List.nodup_cons.1 hnodup
      rw [filesNamed, filesNamed_erase hname]
      cases hfile : left[name]? with
      | none =>
          have hunknown : unknown left name = true := by rw [unknown, hfile, Option.isNone_none]
          rw [List.find?_cons_of_pos hunknown]
          simp [eq_comm]
      | some file =>
          have hknown : ¬ unknown left name = true := by simp [unknown, hfile]
          rw [List.find?_cons_of_neg hknown, ← ih hnames]
          cases hmore : filesNamed left names with
          | error fault => simp
          | ok more => simp

section Selection

variable (sets : List (List Schema.File)) {names : List String}

/-- Of the copies of a file the last is found by name, of all files only the first copies are
there to be found, and no name is looked for twice. -/
theorem selectFiles_of_ne_nil (hnames : names ≠ []) :
    selectFiles (distinctFiles sets) names =
      filesNamed (byName (firstCopies sets)) (firstsBy id names) := by
  rw [selectFiles, if_neg (by simpa using hnames), distinctFiles_eq_firstCopies,
    dropRepeated_eq_firstsBy]

theorem nodup_firstsBy_id (names : List String) : (firstsBy id names).Nodup := by
  rw [← List.map_id (firstsBy id names)]
  exact nodup_map_firstsBy id names

/-- The files of the requested names in the order of the first requests. -/
theorem selectFiles_eq_ok_iff (hnames : names ≠ []) {selected : List Schema.File} :
    selectFiles (distinctFiles sets) names = .ok selected ↔
      List.Forall₂ (fun name file => file ∈ firstCopies sets ∧ file.name = name)
        (firstsBy id names) selected := by
  rw [selectFiles_of_ne_nil sets hnames, filesNamed_eq_ok_iff (nodup_firstsBy_id names)]
  simp only [getElem?_byName_eq_some_iff (nodup_map_firstsBy Schema.File.name sets.flatten),
    firstCopies]

theorem selectFiles_eq_error_iff {fault : LintError} :
    selectFiles (distinctFiles sets) names = .error fault ↔
      ∃ name, names.find? (unknown (byName (firstCopies sets))) = some name ∧
        fault = .unknownFile name := by
  -- Without requests nothing fails, and there is no name that could be missing.
  by_cases hnames : names = []
  · simp [hnames, selectFiles]
  · rw [selectFiles_of_ne_nil sets hnames, filesNamed_eq_error_iff (nodup_firstsBy_id names),
      find?_firstsBy_id]

theorem exists_selectFiles_error_iff :
    (∃ fault, selectFiles (distinctFiles sets) names = .error fault) ↔
      ∃ name ∈ names, ∀ file ∈ firstCopies sets, file.name ≠ name := by
  have hfound : (∃ name, names.find? (unknown (byName (firstCopies sets))) = some name) ↔
      ∃ name ∈ names, unknown (byName (firstCopies sets)) name = true := by
    rw [← Option.isSome_iff_exists, List.find?_isSome]
  simp only [selectFiles_eq_error_iff, ← unknown_byName_iff, ← hfound]
  constructor
  · rintro ⟨-, name, hname, -⟩
    exact ⟨name, hname⟩
  · rintro ⟨name, hname⟩
    exact ⟨_, name, hname, rfl⟩

theorem nodup_of_selectFiles {selected : List Schema.File}
    (h : selectFiles (distinctFiles sets) names = .ok selected) :
    (selected.map Schema.File.name).Nodup := by
  by_cases hnames : names = []
  · obtain rfl : distinctFiles sets = selected := by
      rw [hnames] at h
      exact Except.ok.inj h
    rw [distinctFiles_eq_firstCopies]
    exact nodup_map_firstsBy Schema.File.name sets.flatten
  · have hforall := (selectFiles_eq_ok_iff sets hnames).1 h
    have hrequested :
        List.Forall₂ (· = ·) (firstsBy id names) (selected.map Schema.File.name) :=
      List.forall₂_map_right_iff.2 (hforall.imp fun _ _ hfile => hfile.2.symm)
    rw [List.forall₂_eq_eq_eq] at hrequested
    rw [← hrequested]
    exact nodup_firstsBy_id names

end Selection

/-- Without requests the first copies of all files are selected.  Otherwise the selection
fails exactly when no set has a file of some requested name, with the first such name, and
if it does not fail it holds the first copy of each requested file, once, in the order of
the first requests.  A selection never holds two files of one name.  Whatever sets a
command has read, these are its files. -/
theorem selectFiles_firstCopies (sets : List (List Schema.File)) (names : List String) :
    (names = [] → selectFiles (distinctFiles sets) names = .ok (firstCopies sets)) ∧
    ((∃ fault, selectFiles (distinctFiles sets) names = .error fault) ↔
      ∃ name ∈ names, ∀ file ∈ firstCopies sets, file.name ≠ name) ∧
    (∀ fault, selectFiles (distinctFiles sets) names = .error fault ↔
      ∃ name, FirstUnknown (firstCopies sets) names name ∧ fault = .unknownFile name) ∧
    (names ≠ [] → ∀ selected, selectFiles (distinctFiles sets) names = .ok selected ↔
      List.Forall₂ (fun name file => file ∈ firstCopies sets ∧ file.name = name)
        (firstsBy id names) selected) ∧
    (∀ file ∈ firstCopies sets,
      sets.flatten.find? (fun other => other.name = file.name) = some file) ∧
    (∀ selected, selectFiles (distinctFiles sets) names = .ok selected →
      (selected.map Schema.File.name).Nodup) ∧
    ∀ surroundings options, options.files = names →
      loadSets surroundings.disk options.sets = .ok sets →
      filesFor surroundings options = selectFiles (distinctFiles sets) names := by
  refine ⟨?_, exists_selectFiles_error_iff sets, ?_, ?_, ?_, ?_, ?_⟩
  · rintro rfl
    rw [← distinctFiles_eq_firstCopies]
    rfl
  · intro fault
    simp only [selectFiles_eq_error_iff, find?_unknown_eq_some_iff]
  · intro hnames selected
    exact selectFiles_eq_ok_iff sets hnames
  · intro file hfile
    exact find?_eq_some_of_mem_firstCopies hfile
  · intro selected hselected
    exact nodup_of_selectFiles sets hselected
  · rintro surroundings options rfl hsets
    rw [filesFor, hsets]

/-- Two sets that share a file, the first copy of which holds a message. -/
def sharingSets : List (List Schema.File) :=
  [[{ name := "common.proto", messages := [.mk "Common" [] [] [] false] },
      { name := "a.proto" }],
    [{ name := "b.proto" }, { name := "common.proto" }]]

/-- Asked for twice, the shared file is selected once, with its message; a name that no
set has is reported even if it stands behind names that are known. -/
theorem selectFiles_firstCopies_sharingSets :
    selectFiles (distinctFiles sharingSets) ["b.proto", "common.proto", "b.proto"] =
        .ok [{ name := "b.proto" },
          { name := "common.proto", messages := [.mk "Common" [] [] [] false] }] ∧
      selectFiles (distinctFiles sharingSets) ["b.proto", "y.proto", "z.proto"] =
        .error (.unknownFile "y.proto") := by
  obtain ⟨-, -, -, hselected, -⟩ :=
    selectFiles_firstCopies sharingSets ["b.proto", "common.proto", "b.proto"]
  obtain ⟨-, -, hunknown, -⟩ :=
    selectFiles_firstCopies sharingSets ["b.proto", "y.proto", "z.proto"]
  have hcopies : firstCopies sharingSets =
      [{ name := "common.proto", messages := [.mk "Common" [] [] [] false] },
        { name := "a.proto" }, { name := "b.proto" }] := by rfl
  have hrequests : firstsBy id ["b.proto", "common.proto", "b.proto"] =
      ["b.proto", "common.proto"] := by decide
  refine ⟨(hselected (by decide) _).2 ?_, (hunknown _).2 ⟨"y.proto", ?_, rfl⟩⟩
  · rw [hcopies, hrequests]
    exact .cons ⟨by simp, rfl⟩ (.cons ⟨by simp, rfl⟩ .nil)
  · refine ⟨["b.proto"], ["z.proto"], rfl, ?_, ?_⟩
    · simp [hcopies]
    · simp [hcopies]

end Command

end SchemaLint
