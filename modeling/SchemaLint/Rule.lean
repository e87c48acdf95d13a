import SchemaLint.Problem

namespace SchemaLint

/-!
# Rules

A rule looks at elements of one kind, or of every kind.  It first says whether it
has anything to do with an element, and then lists the problems it finds there.
Either step can fail instead of answering.
-/

/-- The elements that a rule is shown. -/
inductive RuleKind where
  | only (kind : Schema.ElementKind)
  | generic
deriving DecidableEq, Inhabited

namespace RuleKind

/-- The word for a kind of rule. -/
def word : RuleKind → String
  | only kind => kind.word
  | generic => "generic"

/-- All kinds of rule. -/
def all : List RuleKind := Schema.ElementKind.all.map only ++ [generic]

/-- Whether a rule of this kind is shown elements of the given kind. -/
def accepts : RuleKind → Schema.ElementKind → Bool
  | only kind, shown => kind = shown
  | generic, _ => true

end RuleKind

/-- What a step of a rule leaves behind when it fails. -/
inductive Failure where
  | described (text : String)
  | undescribed
deriving DecidableEq, Inhabited

namespace Failure

/-- The wording of a failure. -/
def message : Failure → String
  | described text => text
  | undescribed => "non-string panic payload"

end Failure

/-- A rule. -/
structure Rule where
  name : String
  kind : RuleKind
  description : String := ""
  uri : Option String := none
  appliesTo : Schema.Element → Except Failure Bool := fun _ => .ok true
  check : Schema.Element → Except Failure (List Problem)

namespace Rule

/-- The rule made safe to show any element: on elements that its kind does not accept
it finds nothing. -/
def guarded (rule : Rule) : Rule :=
  { rule with
    check := fun element =>
      if rule.kind.accepts element.kind then rule.check element else .ok [] }

end Rule

end SchemaLint
