import SchemaLint.Command.Lint
import SchemaLint.Proofs.WrittenJson
import SchemaLint.Report.FromJson

namespace SchemaLint

/-!
# JSON reports can be read back

The value of a report has an object for every record, and leaves out the fields that have
no value.  Here such objects are read again: each record is found by the names of its
fields, in whatever company, and a field that was left out is restored by its default.
Together with the reading of JSON texts this gives back the responses that a report was
made of.
-/

namespace Json

/-!
## Fields that may be left out
-/

/-- The members of an object for fields of which some have no value. -/
def given (fields : List (String × Option Json)) : List (Option String × Json) :=
  fields.flatMap fun field => (field.2.map fun value => (some field.1, value)).toList

theorem filter_given (fields : List (String × Option Json)) (name : String) :
    (given fields).filter (fun member => member.1 = some name) =
      given (fields.filter fun field => field.1 = name) := by
  induction fields with
  | nil => rfl
  | cons field rest ih =>
      obtain ⟨key, value⟩ := field
      have hcons : ∀ others, given ((key, value) :: others) =
          (value.map fun value => (some key, value)).toList ++ given others := fun _ => rfl
      rw [hcons, List.filter_append, ih, List.filter_cons]
      by_cases hkey : key = name
      · cases value with
        | none => simp [hkey, given]
        | some value => simp [hkey, given]
      · cases value with
        | none => simp [hkey]
        | some value => simp [hkey]

/-- Among fields with distinct names there is one of each name. -/
theorem filter_name_eq_singleton {fields : List (String × Option Json)}
    (hdistinct : (fields.map Prod.fst).Nodup) {field : String × Option Json}
    (hmem : field ∈ fields) : (fields.filter fun other => other.1 = field.1) = [field] := by
  induction fields with
  | nil => exact absurd hmem List.not_mem_nil
  | cons head rest ih =>
      rw [List.map_cons, List.nodup_cons] at hdistinct
      obtain ⟨hhead, hrest⟩ := hdistinct
      rcases List.mem_cons.1 hmem with rfl | hmem
      · have hothers : (rest.filter fun other => other.1 = field.1) = [] := by
          rw [List.filter_eq_nil_iff]
          intro other hother hsame
          exact hhead (of_decide_eq_true hsame ▸ List.mem_map_of_mem hother)
        rw [List.filter_cons_of_pos (by simp), hothers]
      · have hdiffers : head.1 ≠ field.1 := fun hsame =>
          hhead (hsame ▸ List.mem_map_of_mem hmem)
        rw [List.filter_cons_of_neg (by simpa using hdiffers), ih hrest hmem]

theorem field?_given {fields : List (String × Option Json)}
    (hdistinct : (fields.map Prod.fst).Nodup) {field : String × Option Json}
    (hmem : field ∈ fields) : field? (given fields) field.1 = some field.2 := by
  rw [field?, filter_given, filter_name_eq_singleton hdistinct hmem]
  cases hvalue : field.2 with
  | none => simp [given, hvalue]
  | some value => simp [given, hvalue]

theorem fieldsOf?_given {fields wanted : List (String × Option Json)}
    (hdistinct : (fields.map Prod.fst).Nodup) (hwanted : wanted ⊆ fields) :
    fieldsOf? (given fields) (wanted.map Prod.fst) = some (wanted.map Prod.snd) := by
  induction wanted with
  | nil => rfl
  | cons field rest ih =>
      obtain ⟨hfield, hrest⟩ := List.cons_subset.1 hwanted
      rw [List.map_cons, fieldsOf?, field?_given hdistinct hfield, ih hrest]
      rfl

/-- A record is read as its fields, those without a value included. -/
theorem record?_given {value : Json} {fields : List (String × Option Json)}
    (hvalue : value = .object (given fields)) (hdistinct : (fields.map Prod.fst).Nodup) :
    value.record? false (fields.map Prod.fst) = some (fields.map Prod.snd) := by
  have hkeys : keysFit false (fields.map Prod.fst) (given fields) = true := by
    rw [keysFit, List.all_eq_true]
    intro member hmem
    obtain ⟨field, -, hmember⟩ := List.mem_flatMap.1 hmem
    obtain ⟨value, -, rfl⟩ := Option.map_eq_some_iff.1 (Option.mem_toList.1 hmember)
    rfl
  rw [hvalue, record?, if_pos hkeys]
  exact fieldsOf?_given hdistinct (List.Subset.refl _)

/-!
## Values and lists of values
-/

theorem int32?_toInt (value : Int32) : int32? (.integer value.toInt) = some value := by
  have hbounds : Int32.minValue.toInt ≤ value.toInt ∧ value.toInt ≤ Int32.maxValue.toInt :=
    ⟨value.minValue_le_toInt, value.toInt_le⟩
  rw [int32?, if_pos hbounds, Int32.ofInt_toInt]

theorem uint64?_toNat (value : UInt64) : uint64? (.integer value.toNat) = some value := by
  have hbounds : 0 ≤ (value.toNat : Int) ∧ (value.toNat : Int).toNat < UInt64.size :=
    ⟨Int.natCast_nonneg _, value.toNat_lt_size⟩
  rw [uint64?, if_pos hbounds, Int.toNat_natCast, UInt64.ofNat_toNat]

theorem list?_map {α : Type} {read : Json → Option α} {content : α → Json} {list : List α}
    (h : ∀ member ∈ list, read (content member) = some member) :
    list? read (.array (list.map content)) = some list := by
  rw [list?]
  induction list with
  | nil => rfl
  | cons member rest ih =>
      obtain ⟨hmember, hrest⟩ := List.forall_mem_cons.1 h
      rw [List.map_cons, all?, hmember, ih hrest]

/-- A value that is left out and a value that is there are both restored. -/
theorem optional?_map {α : Type} {read : Json → Option α} {content : α → Json}
    (hnull : ∀ value, content value ≠ .null) {value : Option α}
    (h : ∀ given ∈ value, read (content given) = some given) :
    optional? read (value.map content) = some value := by
  cases value with
  | none => rfl
  | some value =>
      -- A null is read as a missing value, so it must not be what a value is written as.
      rw [Option.map_some, optional?.eq_def]
      split
      · next heq => simp at heq
      · next heq => exact absurd (Option.some.inj heq) (hnull value)
      · next heq =>
        rw [← Option.some.inj heq, h value rfl]
        rfl

end Json

/-!
## Records of a report
-/

open Report

namespace Report

/-- A field that may be missing becomes a member that may be left out. -/
theorem map_optionalField {α : Type} (name : String) (content : α → Tree) (value : Option α) :
    (optionalField name content value).map (fun field => (some field.1, field.2.value)) =
      Json.given [(name, value.map fun value => (content value).value)] := by
  cases value with
  | none => rfl
  | some value => rfl

end Report

theorem Category.ofJson?_word (category : Category) :
    Category.ofJson? (.string (some category.word)) = some category := by
  cases category with
  | warning => rfl
  | error => rfl

theorem Schema.ElementKind.ofJson?_word (kind : Schema.ElementKind) :
    Schema.ElementKind.ofJson? (.string (some kind.word)) = some kind := by
  cases kind <;> rfl

/-!
Each record is shown to have an object with its fields by name as its value, and then the
fields are read one by one.
-/

theorem Location.ofJson?_tree (location : Location) :
    Location.ofJson? location.tree.value = some location := by
  have hvalue : location.tree.value = .object (Json.given [
      ("file", some (.string (some location.file))),
      ("start_line", some (.integer location.startLine.toNat)),
      ("start_column", some (.integer location.startColumn.toNat)),
      ("end_line", some (.integer location.endLine.toNat)),
      ("end_column", some (.integer location.endColumn.toNat))]) := by
    simp [Location.tree, Tree.value, Json.given]
  have hrecord := Json.record?_given hvalue (by simp)
  simp only [List.map_cons, List.map_nil] at hrecord
  rw [Location.ofJson?, hrecord]
  simp only [Json.required?, Json.text?, Json.uint64?_toNat]

theorem ElementRef.ofJson?_tree (element : ElementRef) :
    ElementRef.ofJson? element.tree.value = some element := by
  have hvalue : element.tree.value = .object (Json.given [
      ("kind", some (.string (some element.kind.word))),
      ("full_name", some (.string (some element.fullName))),
      ("path", some (.array (element.path.map fun entry => .integer entry.toInt)))]) := by
    simp [ElementRef.tree, Tree.value, Json.given]
  have hrecord := Json.record?_given hvalue (by simp)
  have hpath := Json.list?_map fun entry (_ : entry ∈ element.path) => Json.int32?_toInt entry
  simp only [List.map_cons, List.map_nil] at hrecord
  rw [ElementRef.ofJson?, hrecord]
  simp only [Json.required?, Json.text?, Schema.ElementKind.ofJson?_word, hpath]

theorem Problem.ofJson?_tree (problem : Problem) :
    Problem.ofJson? problem.tree.value = some problem := by
  have hvalue : problem.tree.value = .object (Json.given [
      ("rule", some (.string (some problem.rule))),
      ("category", some (.string (some problem.category.word))),
      ("message", some (.string (some problem.message))),
      ("suggestion", problem.suggestion.map fun text => .string (some text)),
      ("descriptor", some problem.element.tree.value),
      ("location", problem.location.map fun location => location.tree.value),
      ("uri", problem.uri.map fun text => .string (some text))]) := by
    simp [Problem.tree, Tree.value, map_optionalField, Json.given]
  have hrecord := Json.record?_given hvalue (by simp)
  have hlocation : Json.optional? Location.ofJson?
      (problem.location.map fun location => location.tree.value) = some problem.location :=
    Json.optional?_map (fun location => by simp [Location.tree, Tree.value])
      fun location _ => location.ofJson?_tree
  have htext : ∀ text : Option String,
      Json.optional? Json.text? (text.map fun text => .string (some text)) = some text :=
    fun text => Json.optional?_map (fun _ => by simp) fun _ _ => rfl
  simp only [List.map_cons, List.map_nil] at hrecord
  rw [Problem.ofJson?, hrecord]
  simp only [Json.required?, Json.text?, Category.ofJson?_word, ElementRef.ofJson?_tree,
    hlocation, htext]

theorem RuleFailure.ofJson?_tree (failure : RuleFailure) :
    RuleFailure.ofJson? failure.tree.value = some failure := by
  have hvalue : failure.tree.value = .object (Json.given [
      ("rule", some (.string (some failure.rule))),
      ("element", some failure.element.tree.value),
      ("message", some (.string (some failure.message)))]) := by
    simp [RuleFailure.tree, Tree.value, Json.given]
  have hrecord := Json.record?_given hvalue (by simp)
  simp only [List.map_cons, List.map_nil] at hrecord
  rw [RuleFailure.ofJson?, hrecord]
  simp only [Json.required?, Json.text?, ElementRef.ofJson?_tree]

/-- A response without failures has no member for them, and is read with none. -/
theorem Response.ofJson?_tree (response : Response) :
    Response.ofJson? response.tree.value = some response := by
  have hvalue : response.tree.value = .object (Json.given [
      ("file_path", some (.string (some response.filePath))),
      ("problems", some (.array (response.problems.map fun problem => problem.tree.value))),
      ("errors", if response.failures.isEmpty then none
        else some (.array (response.failures.map fun failure => failure.tree.value)))]) := by
    by_cases hempty : response.failures.isEmpty = true
    · simp [Response.tree, Tree.value, Json.given, hempty]
    · simp [Response.tree, Tree.value, Json.given, hempty]
  have hrecord := Json.record?_given hvalue (by simp)
  have hproblems := Json.list?_map
    fun problem (_ : problem ∈ response.problems) => problem.ofJson?_tree
  have hfailures : Json.orDefault? [] (Json.list? RuleFailure.ofJson?)
      (if response.failures.isEmpty then none
        else some (.array (response.failures.map fun failure => failure.tree.value))) =
      some response.failures := by
    by_cases hempty : response.failures.isEmpty = true
    · rw [if_pos hempty, List.isEmpty_iff.1 hempty]
      rfl
    · rw [if_neg hempty, Json.orDefault?]
      exact Json.list?_map fun failure _ => failure.ofJson?_tree
  simp only [List.map_cons, List.map_nil] at hrecord
  rw [Response.ofJson?, hrecord]
  simp only [Json.required?, Json.text?, hproblems, hfailures]

/-- A JSON report loses nothing: reading it gives the responses it was made of, whatever
texts, numbers and lists they hold and whatever they leave out. -/
theorem Report.ofJsonReport?_report (responses : List Response) :
    ofJsonReport? (Command.report .json responses) = some responses := by
  have hvalue : (ofResponses responses).value =
      .array (responses.map fun response => response.tree.value) := by
    simp [ofResponses, Tree.value]
  have hparse : Json.parse? (Command.report .json responses) =
      some (ofResponses responses).value := Json.parse?_json (ofResponses responses)
  rw [ofJsonReport?, hparse, hvalue]
  exact Json.list?_map fun response _ => response.ofJson?_tree

end SchemaLint
