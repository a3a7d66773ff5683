import GrammarView.Diagram.Track

/-!
# Themes

The colours of a diagram. A theme has one hue for every category; lines use it dark and areas use
it light, so that each category reads as one family of colours. Figures name their colours by
what they are for, and a theme turns these paints into colours.
-/

namespace GrammarView

/-- A colour scheme: hues by category, and lightnesses by use. -/
structure Theme where
  hues : Entries Int
  strokeLightness : String
  fillLightness : String
  definitionFrame : String
  definitionPanel : String
  definitionPanelNested : String

/-- The usual colour scheme. -/
def Theme.standard : Theme where
  hues := [("definition", 184), ("rule", 30), ("track", 132), ("terminal", 235), ("token", 287)]
  strokeLightness := "25%"
  fillLightness := "93%"
  definitionFrame := "75%"
  definitionPanel := "95%"
  definitionPanelNested := "100%"

/-- A category that a theme has no hue for. -/
structure MissingHue where
  category : String
  deriving DecidableEq, Repr

/-- What a colour is for. -/
inductive Paint where
  /-- A line of a category. -/
  | stroke (category : String)
  /-- An area of a category. -/
  | fill (category : String)
  /-- The frame of a definition. -/
  | frame
  /-- The panel of a definition, lighter in a drawing of nested definitions. -/
  | panel (nested : Bool)
  /-- The text in a box; a category without hue gets a warning colour. -/
  | label (shape : Shape)
  /-- A colour by its name. -/
  | given (colour : String)
  deriving DecidableEq, Repr

namespace Theme

/-- The colour of a category in a lightness. -/
def colour (theme : Theme) (category lightness : String) : Except MissingHue String :=
  match theme.hues.get? category with
  | some hue => .ok ("hsl(" ++ toString hue ++ ",100%," ++ lightness ++ ")")
  | none => .error ⟨category⟩

/-- The colour of a paint. -/
def paint (theme : Theme) : Paint → Except MissingHue String
  | .stroke category => theme.colour category theme.strokeLightness
  | .fill category => theme.colour category theme.fillLightness
  | .frame => theme.colour "definition" theme.definitionFrame
  | .panel nested =>
    theme.colour "definition"
      (if nested then theme.definitionPanelNested else theme.definitionPanel)
  | .label shape =>
    if theme.hues.has shape.name then theme.colour shape.name theme.strokeLightness
    else .ok "red"
  | .given colour => .ok colour

end Theme

end GrammarView
