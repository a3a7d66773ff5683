import GrammarView.Grammar.Diagnostic
import GrammarView.Source.Variation

/-!
# Notices

What is reported while a view is made, besides the view itself.
-/

namespace GrammarView

/-- A report. -/
inductive Notice where
  /-- A grammar could not be validated. -/
  | diagnostic (cause : Diagnostic)
  /-- A variation was asked for that the source does not have. -/
  | unknownVariation (unknown : Source.UnknownVariation)
  /-- A part of no known kind was printed. -/
  | unknownPart (shown : String)
  /-- A track of no known kind was drawn. -/
  | unknownTrack
  /-- An arc was asked for in no known direction. -/
  | unknownTurn (direction : String)

namespace Notice

/-- The severity of a report. -/
def severity : Notice → Severity
  | .diagnostic cause => cause.severity
  | _ => .error

/-- The words of a report. -/
def message : Notice → String
  | .diagnostic cause => cause.text
  | .unknownVariation unknown => unknown.message
  | .unknownPart shown => "Invalid tag: " ++ shown
  | .unknownTrack => "Unknown railroad node"
  | .unknownTurn direction => "Unknown railroad node arc direction: " ++ direction

/-- The word that stands before a report where reports are listed. -/
def level (notice : Notice) : String :=
  match notice.severity with
  | .warning => "WARNING"
  | .error => "ERROR"

end Notice

end GrammarView
