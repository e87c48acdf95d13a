import SchemaLint.Proofs.Layers
import SchemaLint.Proofs.SegmentOrder

namespace SchemaLint

/-!
# The innermost entry

A layer gives a rule the setting of the longest namespace around it, where length is
counted in bytes.  Namespaces around one name are a chain, so length says the same as the
order of namespaces: the entry that is taken is the innermost one, and all others that
are around the rule are around it as well.

The keys of a layer can be any texts; only the rule has to have a name.
-/

/-- The scope is around the name and is not the name itself. -/
def RuleName.ProperlyAround (scope name : String) : Prop := Around scope name ∧ scope ≠ name

namespace Config

namespace Layer

/-- The entry is around the rule, and whatever else the layer names around the rule is
properly around the entry. -/
structure Innermost (layer : Layer) (rule : String) (entry : String × Setting) : Prop where
  mem : entry ∈ layer.settings.entries
  around : RuleName.Around entry.1 rule
  inside : ∀ other ∈ layer.settings.entries, other.1 ≠ entry.1 →
    RuleName.Around other.1 rule → RuleName.ProperlyAround other.1 entry.1

/-- Longest and innermost mean the same around a name. -/
theorem mostSpecific_iff_innermost {layer : Layer} {name : RuleName}
    {entry : String × Setting} :
    layer.MostSpecific name.text entry ↔ layer.Innermost name.text entry := by
  constructor
  · rintro ⟨hmem, haround, hlongest⟩
    refine ⟨hmem, haround, fun other hother hne hothers => ?_⟩
    refine ⟨(hothers.comparable haround).resolve_right fun houtside => hne ?_, hne⟩
    -- An entry inside the longest one is as long as that, and therefore the same.
    have hsize := Nat.le_antisymm (hlongest other hother hothers) houtside.utf8ByteSize_le
    exact hothers.eq_of_utf8ByteSize_eq haround hsize
  · rintro ⟨hmem, haround, hinside⟩
    refine ⟨hmem, haround, fun other hother hothers => ?_⟩
    by_cases hsame : other.1 = entry.1
    · rw [hsame]
    · exact (hinside other hother hsame hothers).1.utf8ByteSize_le

/-- A layer has nothing to say about a rule exactly when none of its keys is around the
name of the rule.  Otherwise it gives the innermost of its entries around that name, of
which there is one only, so that it makes no difference in which order the entries are
walked and what is done about keys of equal length. -/
theorem mostSpecific?_innermost (layer : Layer) (name : RuleName) :
    (layer.mostSpecific? name.text = none ↔
      ∀ entry ∈ layer.settings.entries, ¬ RuleName.Around entry.1 name.text) ∧
    (∀ entry, layer.mostSpecific? name.text = some entry ↔ layer.Innermost name.text entry) ∧
    (∀ left right, layer.Innermost name.text left → layer.Innermost name.text right →
      left = right) ∧
    ∀ (walked : List (String × Setting))
      (choose : String × Setting → String × Setting → String × Setting),
      walked.Perm layer.settings.entries → TakesLonger choose →
      walk? choose (walked.filter fun entry => RuleName.encloses entry.1 name.text) =
        layer.mostSpecific? name.text := by
  refine ⟨mostSpecific?_eq_none_iff, ?_, ?_, ?_⟩
  · intro entry
    rw [mostSpecific?_eq_some_iff, mostSpecific_iff_innermost]
  · intro left right hleft hright
    exact (mostSpecific_iff_innermost.2 hleft).unique (mostSpecific_iff_innermost.2 hright)
  · intro walked choose hperm hchoose
    apply Option.ext
    intro entry
    rw [search_eq_some_iff (fun _ => hperm.mem_iff) hchoose, mostSpecific?_eq_some_iff]

/-- A layer with four keys.  All of them but `core:` are around the rule below. -/
def nestedLayer : Layer where
  included := []
  excluded := []
  settings := .ofList
    [("", { status := some .disabled }), ("core", { category := some .error }),
      ("core::0135", { status := some .enabled }), ("core:", { status := some .disabled })]

theorem TakesLonger.swap {choose : String × Setting → String × Setting → String × Setting}
    (h : TakesLonger choose) : TakesLonger fun left right => choose right left where
  eq_or_eq left right := (h.eq_or_eq right left).symm
  left_le left right := h.right_le right left
  right_le left right := h.left_le right left

/-- The entry for `core::0135` is the innermost one, also for a walk from the other end
that settles ties the other way. -/
theorem mostSpecific?_innermost_nestedLayer :
    nestedLayer.Innermost RuleName.httpBody.text ("core::0135", { status := some .enabled }) ∧
      walk? (fun left right => longer right left)
          (nestedLayer.settings.entries.reverse.filter fun entry =>
            RuleName.encloses entry.1 RuleName.httpBody.text) =
        some ("core::0135", { status := some .enabled }) := by
  have hfound : nestedLayer.mostSpecific? RuleName.httpBody.text =
      some ("core::0135", { status := some .enabled }) := by decide +kernel
  obtain ⟨-, hinnermost, -, hwalks⟩ := mostSpecific?_innermost nestedLayer RuleName.httpBody
  refine ⟨(hinnermost _).1 hfound, ?_⟩
  rw [hwalks _ _ (List.reverse_perm _) takesLonger_longer.swap, hfound]

end Layer

end Config

end SchemaLint
