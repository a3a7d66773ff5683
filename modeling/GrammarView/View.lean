import GrammarView.Diagram.Sheet
import GrammarView.Grammar.Construction
import GrammarView.Listing.Html
import GrammarView.Listing.Plain
import GrammarView.Source.Bundled

/-!
# Views

The views of a grammar: two listings and three kinds of diagrams. Every view is made from a
variation of a source. A source that is not well formed, a variation that it does not have and a
rule that does not exist are reported and give an empty view; a margin that no double can hold and
a colour that the theme does not have leave no view at all.
-/

namespace GrammarView

/-- A written view with the reports of its making. -/
structure View where
  text : String
  notices : List Notice

namespace View

/-- The reasons for which there is no view. -/
inductive Failure where
  | missingHue (missing : MissingHue)
  | marginTooLarge
  deriving DecidableEq, Repr

/-- How views are made: the colours, the scale of diagrams, and what a hypertext listing shows. -/
structure Config where
  theme : Theme
  scale : Option Float
  collapsed : Bool
  annotated : Bool

/-- The usual way to make views. -/
def Config.standard : Config where
  theme := Theme.standard
  scale := none
  collapsed := true
  annotated := false

/-- Makes a view of the rule set of a variation. -/
def ofVariation (source : Source) (variation : Option String) (delist : Bool)
    (make : RuleSet → Except Failure View) : Except Failure View :=
  match source.construct variation delist with
  | .error .marginTooLarge => .error .marginTooLarge
  | .ok ⟨none, notices⟩ => .ok ⟨"", notices⟩
  | .ok ⟨some grammar, notices⟩ => do
    let view ← make grammar
    return ⟨view.text, notices ++ view.notices⟩

/-- The reports of the parts of no known kind in printed rules. -/
def unknownParts (productions : List Production) : List Notice :=
  (productions.flatMap Production.unknowns).map .unknownPart

/-- The hypertext listing of a rule set. -/
def htmlOf (grammar : RuleSet) (collapsed annotated : Bool) : View :=
  ⟨Markup.writeAll (Html.listing grammar collapsed annotated),
    unknownParts ((Html.listed grammar collapsed annotated).map
      (Html.production grammar collapsed))⟩

/-- The plain listing of a rule set. -/
def plainOf (grammar : RuleSet) : View :=
  ⟨Plain.listing grammar, unknownParts (grammar.rules.map (Plain.production grammar))⟩

/-- The view of a sheet, empty when there is none. -/
def ofSheet? (config : Config) : Option (Sheet Float) → Except Failure View
  | none => .ok ⟨"", []⟩
  | some sheet =>
    match sheet.markup config.theme config.scale with
    | .ok markup => .ok ⟨markup.write, []⟩
    | .error missing => .error (.missingHue missing)

/-- The hypertext listing of a variation. Lists are read as the recursion they abbreviate. -/
def html (source : Source) (variation : Option String) (collapsed annotated : Bool) :
    Except Failure View :=
  ofVariation source variation true fun grammar => .ok (htmlOf grammar collapsed annotated)

/-- The plain listing of a variation. Lists are read as the recursion they abbreviate. -/
def plain (source : Source) (variation : Option String) : Except Failure View :=
  ofVariation source variation true fun grammar => .ok (plainOf grammar)

/-- The diagrams of all rules of a variation. -/
def railroad (source : Source) (variation : Option String) (config : Config) :
    Except Failure View :=
  ofVariation source variation false fun grammar => ofSheet? config grammar.sheet?

/-- The diagram of one rule of a variation. -/
def rule (name : String) (source : Source) (variation : Option String) (config : Config) :
    Except Failure View :=
  ofVariation source variation false fun grammar => ofSheet? config (grammar.ruleSheet? name)

/-- The composite diagram of a rule of a variation. -/
def poster (source : Source) (targets : Entries (Option String)) (root : String)
    (variation : Option String) (config : Config) : Except Failure View :=
  ofVariation source variation false fun grammar =>
    ofSheet? config (grammar.posterSheet? targets root)

/-- The diagrams of a mapping of rules that has no variations. -/
def snippet (description : Entries Json) (config : Config) : Except Failure View :=
  railroad ⟨description, []⟩ none config

/-- The variation that listings show. -/
def listingVariation : String :=
  "full"

/-- The variation that diagrams show. -/
def diagramVariation : String :=
  "concise"

/-- The rule that a poster shows. -/
def posterRoot : String :=
  "module"

/-- The view that a word asks for: the name of a kind of views, or of a rule whose diagram is
shown. The variation is the one for that kind of views, if the source has it. -/
def named (target : String) (source : Source) (config : Config) : Except Failure View :=
  let listing := source.preferred listingVariation
  let diagram := source.preferred diagramVariation
  match target with
  | "ascii" => html source listing config.collapsed config.annotated
  | "bottlecaps" => plain source listing
  | "railroad" => railroad source diagram config
  | "poster" => poster source Bundled.posterTargets posterRoot diagram config
  | name => rule name source diagram config

end View

end GrammarView
