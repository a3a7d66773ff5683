import GrammarView.Grammar.Validation
import GrammarView.Notice

/-!
# From a source to a rule set

Applies a variation and validates the outcome. What stands in the way is reported, and then there
is no rule set; only a margin that no double can hold ends the attempt without a report.
-/

namespace GrammarView

/-- What making something gives: the outcome, none when there is nothing to show, and the
reports. -/
structure Reported (α : Type) where
  outcome : Option α
  notices : List Notice

/-- An integer margin beyond the largest double. -/
inductive MarginTooLarge where
  | marginTooLarge

/-- Validates a description and reports what is wrong with it. -/
def construct (description : Entries Json) (delist : Bool) :
    Except MarginTooLarge (Reported RuleSet) :=
  match validate description delist with
  | .ok grammar => .ok ⟨some grammar, []⟩
  | .error (.malformed diagnostic) => .ok ⟨none, [.diagnostic diagnostic]⟩
  | .error .marginTooLarge => .error .marginTooLarge

/-- The rule set of a variation of a source. -/
def Source.construct (source : Source) (variation : Option String) (delist : Bool) :
    Except MarginTooLarge (Reported RuleSet) :=
  match source.resolve variation with
  | .ok description => GrammarView.construct description delist
  | .error unknown => .ok ⟨none, [.unknownVariation unknown]⟩

end GrammarView
