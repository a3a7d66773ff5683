import GrammarView.Source.Basic

/-!
# Variations

Overlays that turn the rules of a grammar into one of its variations. An overlay names the rules
it changes: nothing in the place of a body takes the rule away, and any other body replaces the
rule where it stands or adds it at the end.
-/

namespace GrammarView.Source

/-- Applies one entry of an overlay. -/
def applyEntry (rules : Entries Json) : String × Json → Entries Json
  | (name, .null) => rules.erase name
  | (name, body) => rules.insert name body

/-- Applies an overlay entry by entry. -/
def applyOverlay (rules overlay : Entries Json) : Entries Json :=
  overlay.foldl applyEntry rules

/-- A variation that the source does not have, and those that it has. -/
structure UnknownVariation where
  name : String
  known : List String
  deriving DecidableEq, Repr

/-- The complaint about an unknown variation. -/
def UnknownVariation.message (unknown : UnknownVariation) : String :=
  let known := ", ".intercalate unknown.known
  "Unknown variation '" ++ unknown.name ++ "'; known variations: "
    ++ if known = "" then "none" else known

/-- The rules of a variation, and the rules as they stand when none is named. -/
def resolve (source : Source) : Option String → Except UnknownVariation (Entries Json)
  | none => .ok source.rules
  | some name =>
    match source.variations.get? name with
    | some overlay => .ok (applyOverlay source.rules overlay)
    | none => .error ⟨name, source.variations.names⟩

/-- A variation by its name if the source has it, and the rules as they stand otherwise. -/
def preferred (source : Source) (name : String) : Option String :=
  if source.variations.has name then some name else none

end GrammarView.Source
