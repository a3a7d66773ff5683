import GrammarView.Diagram.Svg
import GrammarView.Proofs.MarkupReader

/-!
# Painting figures

A theme that has the hues of the usual theme paints every figure that is drawn. A figure becomes
one element, whose name and content do not depend on the theme.
-/

namespace GrammarView

/-- Whether a theme has all hues of the usual theme. -/
def Theme.Complete (theme : Theme) : Prop :=
  ∀ category ∈ Theme.standard.hues.names, theme.hues.has category = true

instance (theme : Theme) : Decidable theme.Complete :=
  inferInstanceAs (Decidable (∀ _ ∈ _, _))

/-- Whether a paint needs no hues but those of the usual theme. -/
def Paint.Usual : Paint → Prop
  | .stroke category | .fill category => category ∈ Theme.standard.hues.names
  | .frame | .panel _ | .label _ | .given _ => True

instance : ∀ paint : Paint, Decidable paint.Usual
  | .stroke category | .fill category =>
    inferInstanceAs (Decidable (category ∈ Theme.standard.hues.names))
  | .frame | .panel _ | .label _ | .given _ => inferInstanceAs (Decidable True)

section Colours

variable {theme : Theme}

/-- A hue that a theme has gives a colour in every lightness. -/
theorem exists_colour {category : String} (known : theme.hues.has category = true)
    (lightness : String) : ∃ colour, theme.colour category lightness = .ok colour := by
  cases found : theme.hues.get? category with
  | none => exact absurd (Entries.has_iff_mem_names.mp known) (Entries.get?_eq_none_iff.mp found)
  | some hue => exact ⟨_, by rw [Theme.colour, found]⟩

/-- A complete theme has a colour for every usual paint. -/
theorem exists_paint (complete : theme.Complete) {paint : Paint} (usual : paint.Usual) :
    ∃ colour, theme.paint paint = .ok colour := by
  have definition : theme.hues.has "definition" = true := complete _ (by decide)
  cases paint with
  | stroke category => exact exists_colour (complete _ usual) _
  | fill category => exact exists_colour (complete _ usual) _
  | frame => exact exists_colour definition _
  | panel nested => exact exists_colour definition _
  | label shape =>
    rw [Theme.paint]
    split
    case isTrue known => exact exists_colour known _
    case isFalse => exact ⟨_, rfl⟩
  | given colour => exact ⟨colour, rfl⟩

end Colours

namespace Figure

variable {α : Type}

/-- The paints of a figure. -/
def paints : Figure α → List Paint
  | .line _ _ _ _ | .circle _ _ _ | .arc _ _ _ _ => [.stroke "track"]
  | .rectangle _ _ _ _ fill outline _ => fill :: outline.toList
  | .polygon _ fill outline => [fill, outline]
  | .text _ _ _ _ _ fill => [fill]

/-- The names of the style of a figure; only texts have one. -/
def styleNames : Figure α → List String
  | .text _ _ _ _ style _ => style.names
  | _ => []

/-- Whether a figure needs no hues but those of the usual theme, and has a style that can be
written. -/
structure Usual (figure : Figure α) : Prop where
  paints : ∀ paint ∈ figure.paints, paint.Usual
  styled : ∀ name ∈ figure.styleNames, Markup.IsName name

/-- A figure is usual if its paints and the names of its style are given ones. -/
theorem Usual.of_names {figure : Figure α} (paints : List Paint) (names : List String)
    (samePaints : figure.paints = paints) (sameNames : figure.styleNames = names)
    (usual : ∀ paint ∈ paints, paint.Usual) (styled : ∀ name ∈ names, Markup.IsName name) :
    figure.Usual := by
  subst samePaints sameNames
  exact ⟨usual, styled⟩

/-- The name of the element of a figure. -/
def elementName : Figure α → String
  | .line _ _ _ _ => "line"
  | .circle _ _ _ => "ellipse"
  | .rectangle _ _ _ _ _ _ _ => "rect"
  | .polygon _ _ _ => "polygon"
  | .arc _ _ _ _ => "path"
  | .text _ _ _ _ _ _ => "text"

/-- The text that a figure shows. -/
def caption? : Figure α → Option String
  | .text _ _ content _ _ _ => some content
  | _ => none

/-- Whether an element shows a figure: it has its name and its content, and attributes whose keys
are names. -/
def IsShownBy (figure : Figure α) (element : Markup) : Prop :=
  ∃ attributes, Markup.Keyed attributes
    ∧ element = .element figure.elementName attributes (figure.caption?.toList.map .text)

variable {theme : Theme}

/-- A complete theme has an outline for every usual paint. -/
theorem exists_outlineStroke (complete : theme.Complete) {outline : Option Paint}
    (usual : ∀ paint ∈ outline, paint.Usual) :
    ∃ stroke, outlineStroke theme outline = .ok stroke ∧ Markup.Keyed stroke := by
  cases outline with
  | none => exact ⟨_, rfl, by decide⟩
  | some paint =>
    obtain ⟨colour, painted⟩ := exists_paint complete (usual paint rfl)
    refine ⟨_, by rw [outlineStroke, painted]; rfl, ?_⟩
    exact Markup.keyed_of_names ["stroke", "stroke-width"] rfl (by decide)

/-- A line on a track has the outline of the usual paint of tracks. -/
theorem trackStroke_eq : trackStroke theme = outlineStroke theme (some (.stroke "track")) :=
  rfl

/-- A complete theme has an outline for tracks. -/
theorem exists_trackStroke (complete : theme.Complete) :
    ∃ stroke, trackStroke theme = .ok stroke ∧ Markup.Keyed stroke := by
  rw [trackStroke_eq]
  exact exists_outlineStroke complete (by decide)

/-- Rounded corners have keys that are names. -/
theorem keyed_cornerRadius (corner : Option Float) : Markup.Keyed (cornerRadius corner) := by
  cases corner with
  | none => decide
  | some radius => exact Markup.keyed_of_names ["rx", "ry"] rfl (by decide)

/-- Attributes of a style that are added to others have keys that are names. -/
theorem keyed_foldl_insert {style attributes : Entries String}
    (styled : ∀ name ∈ style.names, Markup.IsName name) (keyed : Markup.Keyed attributes) :
    Markup.Keyed
      (style.foldl (fun attributes (key, value) => attributes.insert key value) attributes) := by
  induction style generalizing attributes with
  | nil => exact keyed
  | cons named style inductionHypothesis =>
    obtain ⟨first, others⟩ := List.forall_mem_cons.mp styled
    exact inductionHypothesis others (keyed.insert first named.2)

/-- A complete theme shows every usual figure. -/
theorem exists_markup (complete : theme.Complete) {figure : Figure Float} (usual : figure.Usual) :
    ∃ element, figure.markup theme = .ok element ∧ figure.IsShownBy element := by
  obtain ⟨track, madeTrack, trackKeyed⟩ := exists_trackStroke complete
  have keyedEnds : Markup.Keyed openEnds := by decide
  cases figure with
  | line x0 y0 x1 y1 =>
    refine ⟨_, by rw [markup, madeTrack]; rfl, _, .append (.append ?_ trackKeyed) keyedEnds, rfl⟩
    exact Markup.keyed_of_names ["x1", "y1", "x2", "y2"] rfl (by decide)
  | circle x y radius =>
    refine ⟨_, by rw [markup, madeTrack]; rfl, _, .append (.append ?_ trackKeyed) (by decide), rfl⟩
    exact Markup.keyed_of_names ["cx", "cy", "rx", "ry"] rfl (by decide)
  | rectangle x y width height fill outline corner =>
    obtain ⟨fillUsual, outlineUsual⟩ := List.forall_mem_cons.mp usual.paints
    obtain ⟨area, painted⟩ := exists_paint complete fillUsual
    obtain ⟨stroke, made, keyed⟩ := exists_outlineStroke complete fun paint member =>
      outlineUsual paint (Option.mem_toList.mpr member)
    refine ⟨_, by rw [markup, painted, made]; rfl, _,
      .append (.append ?_ keyed) (keyed_cornerRadius corner), rfl⟩
    exact Markup.keyed_of_names ["x", "y", "width", "height", "fill"] rfl (by decide)
  | polygon points fill outline =>
    obtain ⟨fillUsual, outlineUsual⟩ := List.forall_mem_cons.mp usual.paints
    obtain ⟨area, painted⟩ := exists_paint complete fillUsual
    obtain ⟨stroke, made, keyed⟩ :
        ∃ stroke, outlineStroke theme (some outline) = .ok stroke ∧ Markup.Keyed stroke :=
      exists_outlineStroke complete fun paint member =>
        outlineUsual paint (Option.mem_toList.mpr member)
    refine ⟨_, by rw [markup, painted, made]; rfl, _, .append ?_ keyed, rfl⟩
    exact Markup.keyed_of_names ["points", "fill"] rfl (by decide)
  | arc x y radius turn =>
    refine ⟨_, by rw [markup, madeTrack]; rfl, _, .append (.append ?_ trackKeyed) keyedEnds, rfl⟩
    exact Markup.keyed_of_names ["d"] rfl (by decide)
  | text x y content size style fill =>
    obtain ⟨colour, painted⟩ := exists_paint complete (usual.paints fill (.head _))
    refine ⟨_, by rw [markup, painted]; rfl, _,
      .insert (keyed_foldl_insert usual.styled ?_) (by decide) colour, rfl⟩
    exact Markup.keyed_of_names ["x", "y", "font-family", "font-size"] rfl (by decide)

/-- A complete theme shows usual figures one by one. -/
theorem exists_markupAll (complete : theme.Complete) {figures : List (Figure Float)}
    (usual : ∀ figure ∈ figures, figure.Usual) :
    ∃ elements, markupAll theme figures = .ok elements
      ∧ List.Forall₂ IsShownBy figures elements := by
  induction figures with
  | nil => exact ⟨[], rfl, .nil⟩
  | cons figure figures inductionHypothesis =>
    obtain ⟨first, others⟩ := List.forall_mem_cons.mp usual
    obtain ⟨element, made, shown⟩ := exists_markup complete first
    obtain ⟨elements, madeAll, shownAll⟩ := inductionHypothesis others
    refine ⟨element :: elements, ?_, .cons shown shownAll⟩
    rw [markupAll] at madeAll
    rw [markupAll, List.mapM_cons, made, madeAll]
    rfl

end Figure

end GrammarView
