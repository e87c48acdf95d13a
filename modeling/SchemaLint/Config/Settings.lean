import SchemaLint.Problem

namespace SchemaLint

namespace Config

/-!
# Settings of rules

What a layer of configuration says about rules: for each of some namespaces,
whether its rules run and how grave their problems are.  Either can be left open.

The namespaces are kept in ascending order, each once.
-/

/-- Whether a rule runs. -/
inductive Status where
  | enabled
  | disabled
deriving DecidableEq, Inhabited

namespace Status

/-- The word for a status. -/
def word : Status → String
  | enabled => "enabled"
  | disabled => "disabled"

end Status

/-- What is said about one namespace. -/
structure Setting where
  status : Option Status := none
  category : Option Category := none
deriving DecidableEq, Inhabited

/-- Puts an entry in its place among entries with ascending keys, in place of the entry
that has the same key. -/
def insertEntry (key : String) (setting : Setting) :
    List (String × Setting) → List (String × Setting)
  | [] => [(key, setting)]
  | (found, old) :: rest =>
    if key < found then (key, setting) :: (found, old) :: rest
    else if key = found then (key, setting) :: rest
    else (found, old) :: insertEntry key setting rest

/-- Entries whose keys ascend. -/
def Ascending (entries : List (String × Setting)) : Prop :=
  entries.Pairwise fun left right => left.1 < right.1

theorem fst_of_mem_insertEntry {key : String} {setting : Setting}
    {entries : List (String × Setting)} {entry : String × Setting}
    (h : entry ∈ insertEntry key setting entries) : entry.1 = key ∨ entry ∈ entries := by
  induction entries with
  | nil => simp_all [insertEntry]
  | cons head rest ih =>
    rw [insertEntry] at h
    split at h
    · simp only [List.mem_cons] at h ⊢
      rcases h with rfl | h
      · exact .inl rfl
      · exact .inr h
    · split at h
      · simp only [List.mem_cons] at h ⊢
        rcases h with rfl | h
        · exact .inl rfl
        · exact .inr (.inr h)
      · simp only [List.mem_cons] at h ⊢
        rcases h with rfl | h
        · exact .inr (.inl rfl)
        · exact (ih h).imp id .inr

theorem Ascending.insertEntry {entries : List (String × Setting)} (h : Ascending entries)
    (key : String) (setting : Setting) : Ascending (Config.insertEntry key setting entries) := by
  induction entries with
  | nil => simp [Ascending, Config.insertEntry]
  | cons head rest ih =>
    obtain ⟨hhead, hrest⟩ := List.pairwise_cons.1 h
    rw [Config.insertEntry]
    split
    · next hless =>
      refine List.pairwise_cons.2 ⟨fun entry hentry => ?_, h⟩
      rcases List.mem_cons.1 hentry with rfl | hentry
      · exact hless
      · exact String.lt_trans hless (hhead entry hentry)
    · split
      · next heq =>
        refine List.pairwise_cons.2 ⟨fun entry hentry => ?_, hrest⟩
        exact heq ▸ hhead entry hentry
      · next hnotless hne =>
        refine List.pairwise_cons.2 ⟨fun entry hentry => ?_, ih hrest⟩
        rcases fst_of_mem_insertEntry hentry with hkey | hentry
        · rw [hkey]
          refine Decidable.byContradiction fun hnotgreater => hne ?_
          exact String.le_antisymm (String.not_lt.1 hnotgreater) (String.not_lt.1 hnotless)
        · exact hhead entry hentry

/-- Settings by namespace. -/
structure Settings where
  entries : List (String × Setting)
  ascending : Ascending entries

namespace Settings

/-- No settings. -/
def empty : Settings := ⟨[], .nil⟩

instance : Inhabited Settings := ⟨empty⟩

/-- The settings with those of one namespace set. -/
def insert (settings : Settings) (key : String) (setting : Setting) : Settings :=
  ⟨insertEntry key setting settings.entries, settings.ascending.insertEntry key setting⟩

/-- The settings of a list of entries; of several for one namespace the last counts. -/
def ofList (entries : List (String × Setting)) : Settings :=
  entries.foldl (fun settings (key, setting) => settings.insert key setting) empty

end Settings

end Config

end SchemaLint
