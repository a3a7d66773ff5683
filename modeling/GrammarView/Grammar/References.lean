import GrammarView.Grammar.RuleSet

/-!
# Chains of references

Which rules a rule leads to, directly or through others, and the cycles among them. Both
searches take every name they visit out of a finite list of names, so they end however the rules
refer to each other.
-/

namespace GrammarView.RuleSet

/-- The names among `remaining` that the names in `pending` lead to, themselves included. A name
that remains is taken out and adds the names it refers to; any other is passed over. -/
def gather (grammar : RuleSet) (remaining : List String) : List String → List String
  | [] => []
  | name :: pending =>
    if _member : name ∈ remaining then
      name :: gather grammar (remaining.erase name) (grammar.references name ++ pending)
    else gather grammar remaining pending
termination_by pending => (remaining.length, pending.length)
decreasing_by
  · have smaller := List.length_erase_of_mem _member
    have positive := List.length_pos_of_mem _member
    apply Prod.Lex.left
    omega
  · apply Prod.Lex.right
    simp

/-- The rules that a rule leads to through any number of references, none included. -/
def reachable (grammar : RuleSet) (name : String) : List String :=
  grammar.gather grammar.names [name]

/-- Whether a rule leads back to itself through at least one reference. -/
def isRecursive (grammar : RuleSet) (name : String) : Bool :=
  (grammar.references name).any fun target => (grammar.reachable target).contains name

/-- Whether a name leads to `start` through names among `allowed` only. -/
def leadsBack (grammar : RuleSet) (start : String) (allowed : List String) (name : String) :
    Bool :=
  (grammar.gather (start :: allowed) [name]).contains start

/-- The cycles that begin at `start`, go on along a path that has come to `name`, and pass only
through further names among `allowed`. The path is given with its last name first. A name from
which no way leads back is not tried, so every path that is tried ends in a cycle. -/
def cyclesFrom (grammar : RuleSet) (start : String) (allowed path : List String) (name : String) :
    List (List String) :=
  (grammar.references name).flatMap fun target =>
    if target = start then [path.reverse]
    else if target ∈ allowed then
      if grammar.leadsBack start allowed target then
        grammar.cyclesFrom start (allowed.erase target) (target :: path) target
      else []
    else []
termination_by allowed.length
decreasing_by
  rename_i member _
  have smaller := List.length_erase_of_mem member
  have positive := List.length_pos_of_mem member
  omega

/-- The cycles of which `start` is the least name. -/
def cyclesThrough (grammar : RuleSet) (start : String) : List (List String) :=
  grammar.cyclesFrom start (grammar.names.filter (start < ·)) [start] start

/-- The cycles of references that meet no name twice, each beginning with its least name. -/
def cycles (grammar : RuleSet) : List (List String) :=
  grammar.names.flatMap grammar.cyclesThrough

end GrammarView.RuleSet
