import Mathlib.Data.List.Induction
import Mathlib.Data.List.Nodup
import SchemaLint.Config.Layer
import SchemaLint.Proofs.RuleNames

namespace SchemaLint

namespace Config

/-!
# What a layer says

The settings of a layer are built entry by entry, and of those around a rule the one
with the longest namespace is taken.  Both are described here by the entries that they
leave: which entries there are after one more has been set, and which entry is taken.

Two namespaces around one rule are never equally long and a namespace is never set twice,
so there is at most one longest entry.  That is why neither the order in which the search
walks over the entries nor the way in which it breaks ties shows.
-/

/-- After an entry has been set there are this entry and those with other keys. -/
theorem mem_insertEntry_iff {entries : List (String × Setting)} (h : Ascending entries)
    {key : String} {setting : Setting} {entry : String × Setting} :
    entry ∈ insertEntry key setting entries ↔
      entry = (key, setting) ∨ entry ∈ entries ∧ entry.1 ≠ key := by
  induction entries with
  | nil => simp [insertEntry]
  | cons head rest ih =>
      obtain ⟨hhead, hrest⟩ := List.pairwise_cons.1 h
      rw [insertEntry]
      by_cases hless : key < head.1
      · -- The new key comes before all others, so none of them is replaced.
        have hother : ∀ old ∈ head :: rest, old.1 ≠ key := by
          intro old hold hsame
          rcases List.mem_cons.1 hold with rfl | hold
          · exact String.ne_of_lt hless hsame.symm
          · exact String.ne_of_lt (String.lt_trans hless (hhead old hold)) hsame.symm
        rw [if_pos hless, List.mem_cons]
        exact or_congr_right ⟨fun hmem => ⟨hmem, hother entry hmem⟩, And.left⟩
      · rw [if_neg hless]
        by_cases hsame : key = head.1
        · have hother : ∀ old ∈ rest, old.1 ≠ key := by
            intro old hold hkey
            exact String.ne_of_lt (hhead old hold) (hsame.symm.trans hkey.symm)
          rw [if_pos hsame, List.mem_cons, List.mem_cons]
          refine or_congr_right ⟨fun hmem => ⟨.inr hmem, hother entry hmem⟩, ?_⟩
          rintro ⟨rfl | hmem, hne⟩
          · exact absurd hsame.symm hne
          · exact hmem
        · rw [if_neg hsame, List.mem_cons, List.mem_cons, ih hrest]
          constructor
          · rintro (rfl | hnew | ⟨hmem, hne⟩)
            · exact .inr ⟨.inl rfl, Ne.symm hsame⟩
            · exact .inl hnew
            · exact .inr ⟨.inr hmem, hne⟩
          · rintro (hnew | ⟨rfl | hmem, hne⟩)
            · exact .inr (.inl hnew)
            · exact .inl rfl
            · exact .inr (.inr ⟨hmem, hne⟩)

/-- A namespace has one entry at most. -/
theorem Ascending.eq_of_fst_eq {entries : List (String × Setting)} (h : Ascending entries)
    {left right : String × Setting} (hleft : left ∈ entries) (hright : right ∈ entries)
    (hkey : left.1 = right.1) : left = right := by
  have hkeys : (entries.map (·.1)).Nodup :=
    List.pairwise_map.2 (h.imp fun hless => String.ne_of_lt hless)
  exact List.inj_on_of_nodup_map hkeys hleft hright hkey

namespace Settings

theorem ofList_concat (entries : List (String × Setting)) (key : String) (setting : Setting) :
    ofList (entries ++ [(key, setting)]) = (ofList entries).insert key setting := by
  rw [ofList, List.foldl_append]
  rfl

/-- Where all namespaces of a list are given one setting, repetitions make no difference. -/
theorem mem_ofList_uniform_iff {scopes : List String} {setting : Setting}
    {entry : String × Setting} :
    entry ∈ (ofList (scopes.map fun scope => (scope, setting))).entries ↔
      entry.1 ∈ scopes ∧ entry.2 = setting := by
  induction scopes using List.reverseRecOn with
  | nil => simp [ofList, empty]
  | append_singleton scopes scope ih =>
      have hinsert : entry ∈ ((ofList (scopes.map fun scope => (scope, setting))).insert scope
          setting).entries ↔ _ := mem_insertEntry_iff (ofList _).ascending
      rw [List.map_append, List.map_singleton, ofList_concat, hinsert, ih, List.mem_append,
        List.mem_singleton]
      by_cases hscope : entry.1 = scope
      · simp [hscope, Prod.ext_iff]
      · simp [hscope, Prod.ext_iff]

end Settings

namespace Layer

/-- The layer speaks about the file: one of its included globs covers the path or it has
none, and no excluded glob covers the path. -/
def SpeaksAbout (layer : Layer) (path : String) : Prop :=
  (layer.included = [] ∨ ∃ glob ∈ layer.included, glob.covers path = true) ∧
    ∀ glob ∈ layer.excluded, ¬ glob.covers path = true

theorem appliesTo_iff {layer : Layer} {path : String} :
    layer.appliesTo path = true ↔ layer.SpeaksAbout path := by
  simp [appliesTo, SpeaksAbout]

/-!
## The longest entry

The search walks over the entries around a rule and keeps the longer of two.  What it ends
with is described for every way of walking and of choosing between two entries, as long as
a longer one is never given up for a shorter one.
-/

/-- A way of choosing between two entries that never takes the shorter one. -/
structure TakesLonger (choose : String × Setting → String × Setting → String × Setting) :
    Prop where
  eq_or_eq : ∀ left right, choose left right = left ∨ choose left right = right
  left_le : ∀ left right, left.1.utf8ByteSize ≤ (choose left right).1.utf8ByteSize
  right_le : ∀ left right, right.1.utf8ByteSize ≤ (choose left right).1.utf8ByteSize

theorem takesLonger_longer : TakesLonger longer where
  eq_or_eq left right := by
    rw [longer]
    split
    · exact .inl rfl
    · exact .inr rfl
  left_le left right := by
    rw [longer]
    split
    · exact Nat.le_refl _
    · next hless => exact Nat.le_of_not_lt hless
  right_le left right := by
    rw [longer]
    split
    · next hless => exact Nat.le_of_lt hless
    · exact Nat.le_refl _

/-- The entry that is left of a list after a walk over it. -/
def walk? (choose : String × Setting → String × Setting → String × Setting) :
    List (String × Setting) → Option (String × Setting)
  | [] => none
  | first :: rest => some (rest.foldl choose first)

theorem mostSpecific?_eq_walk? (layer : Layer) (rule : String) :
    layer.mostSpecific? rule = walk? longer
      (layer.settings.entries.filter fun entry => RuleName.encloses entry.1 rule) := by
  rw [mostSpecific?]
  cases layer.settings.entries.filter fun entry => RuleName.encloses entry.1 rule with
  | nil => rfl
  | cons first rest => rfl

section Walk

variable {choose : String × Setting → String × Setting → String × Setting}
  (hchoose : TakesLonger choose)

include hchoose

theorem foldl_choose_mem (first : String × Setting) (rest : List (String × Setting)) :
    rest.foldl choose first ∈ first :: rest := by
  induction rest generalizing first with
  | nil => exact List.mem_singleton_self first
  | cons next rest ih =>
      rw [List.foldl_cons]
      rcases List.mem_cons.1 (ih (choose first next)) with hhead | htail
      · rcases hchoose.eq_or_eq first next with hfirst | hnext
        · rw [hhead, hfirst]
          exact List.mem_cons_self
        · rw [hhead, hnext]
          exact List.mem_cons_of_mem _ List.mem_cons_self
      · exact List.mem_cons_of_mem _ (List.mem_cons_of_mem _ htail)

theorem utf8ByteSize_le_foldl_choose (first : String × Setting)
    (rest : List (String × Setting)) :
    ∀ entry ∈ first :: rest,
      entry.1.utf8ByteSize ≤ (rest.foldl choose first).1.utf8ByteSize := by
  induction rest generalizing first with
  | nil => simp
  | cons next rest ih =>
      -- The first two entries are both met by the one chosen, which goes on.
      obtain ⟨hchosen, hrest⟩ := List.forall_mem_cons.1 (ih (choose first next))
      rw [List.foldl_cons, List.forall_mem_cons, List.forall_mem_cons]
      exact ⟨Nat.le_trans (hchoose.left_le first next) hchosen,
        Nat.le_trans (hchoose.right_le first next) hchosen, hrest⟩

/-- A walk ends with one of its entries, and none is longer. -/
theorem longest_of_walk? {walked : List (String × Setting)} {entry : String × Setting}
    (h : walk? choose walked = some entry) :
    entry ∈ walked ∧ ∀ other ∈ walked, other.1.utf8ByteSize ≤ entry.1.utf8ByteSize := by
  cases walked with
  | nil => simp [walk?] at h
  | cons first rest =>
      obtain rfl : rest.foldl choose first = entry := Option.some.inj h
      exact ⟨foldl_choose_mem hchoose first rest,
        utf8ByteSize_le_foldl_choose hchoose first rest⟩

end Walk

theorem walk?_eq_none_iff {choose : String × Setting → String × Setting → String × Setting}
    {walked : List (String × Setting)} : walk? choose walked = none ↔ walked = [] := by
  cases walked with
  | nil => simp [walk?]
  | cons first rest => simp [walk?]

/-- The entry has the longest of the namespaces that a layer names around the rule. -/
structure MostSpecific (layer : Layer) (rule : String) (entry : String × Setting) : Prop where
  mem : entry ∈ layer.settings.entries
  around : RuleName.Around entry.1 rule
  longest : ∀ other ∈ layer.settings.entries, RuleName.Around other.1 rule →
    other.1.utf8ByteSize ≤ entry.1.utf8ByteSize

theorem MostSpecific.unique {layer : Layer} {rule : String} {left right : String × Setting}
    (hleft : layer.MostSpecific rule left) (hright : layer.MostSpecific rule right) :
    left = right := by
  have hsize : left.1.utf8ByteSize = right.1.utf8ByteSize :=
    Nat.le_antisymm (hright.longest left hleft.mem hleft.around)
      (hleft.longest right hright.mem hright.around)
  exact layer.settings.ascending.eq_of_fst_eq hleft.mem hright.mem
    (hleft.around.eq_of_utf8ByteSize_eq hright.around hsize)

section Search

variable {layer : Layer} {walked : List (String × Setting)}
  (hwalked : ∀ entry, entry ∈ walked ↔ entry ∈ layer.settings.entries) {rule : String}
  {choose : String × Setting → String × Setting → String × Setting}

include hwalked

theorem mem_filter_encloses_iff {entry : String × Setting} :
    entry ∈ walked.filter (fun entry => RuleName.encloses entry.1 rule) ↔
      entry ∈ layer.settings.entries ∧ RuleName.Around entry.1 rule := by
  rw [List.mem_filter, hwalked, RuleName.encloses_iff_around]

theorem search_eq_none_iff :
    walk? choose (walked.filter fun entry => RuleName.encloses entry.1 rule) = none ↔
      ∀ entry ∈ layer.settings.entries, ¬ RuleName.Around entry.1 rule := by
  rw [walk?_eq_none_iff, List.eq_nil_iff_forall_not_mem]
  simp only [mem_filter_encloses_iff hwalked, not_and]

/-- Walked in any order, a layer gives its longest entry around the rule. -/
theorem search_eq_some_iff (hchoose : TakesLonger choose) {entry : String × Setting} :
    walk? choose (walked.filter fun entry => RuleName.encloses entry.1 rule) = some entry ↔
      layer.MostSpecific rule entry := by
  have hfound : ∀ found,
      walk? choose (walked.filter fun entry => RuleName.encloses entry.1 rule) = some found →
        layer.MostSpecific rule found := by
    intro found h
    obtain ⟨hmem, hlongest⟩ := longest_of_walk? hchoose h
    obtain ⟨hentry, haround⟩ := (mem_filter_encloses_iff hwalked).1 hmem
    refine ⟨hentry, haround, fun other hother hothers => ?_⟩
    exact hlongest other ((mem_filter_encloses_iff hwalked).2 ⟨hother, hothers⟩)
  constructor
  · exact hfound entry
  · intro hentry
    cases h : walk? choose (walked.filter fun entry => RuleName.encloses entry.1 rule) with
    | none =>
        have hnone := (search_eq_none_iff hwalked).1 h
        exact absurd hentry.around (hnone entry hentry.mem)
    | some found =>
        -- Two longest entries have equally long keys, and those are the same.
        rw [(hfound found h).unique hentry]

end Search

theorem mostSpecific?_eq_none_iff {layer : Layer} {rule : String} :
    layer.mostSpecific? rule = none ↔
      ∀ entry ∈ layer.settings.entries, ¬ RuleName.Around entry.1 rule := by
  rw [mostSpecific?_eq_walk?]
  exact search_eq_none_iff fun _ => Iff.rfl

/-- The search gives the longest entry around the rule, and nothing else. -/
theorem mostSpecific?_eq_some_iff {layer : Layer} {rule : String} {entry : String × Setting} :
    layer.mostSpecific? rule = some entry ↔ layer.MostSpecific rule entry := by
  rw [mostSpecific?_eq_walk?]
  exact search_eq_some_iff (fun _ => Iff.rfl) takesLonger_longer

end Layer

end Config

end SchemaLint
