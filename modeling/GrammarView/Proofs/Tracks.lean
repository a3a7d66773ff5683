import GrammarView.Proofs.Drawn
import Mathlib.Data.List.Basic

/-!
# Parts of tracks

Induction over tracks, and what is met on a walk over a track: the panels, each with the nearest
panel around it, and the boxes that name rules.
-/

namespace GrammarView

namespace Track

variable {α : Type}

/-- Induction over tracks. A track that holds several tracks is reached from all of them. -/
@[elab_as_elim]
theorem inductionOn {motive : Track α → Prop} (track : Track α)
    (box : ∀ extent shape text, motive (.box extent shape text))
    (sequence : ∀ extent gap items, (∀ item ∈ items, motive item) →
      motive (.sequence extent gap items))
    (choice : ∀ extent gap optional items, (∀ item ∈ items, motive item) →
      motive (.choice extent gap optional items))
    (stack : ∀ extent gap items, (∀ item ∈ items, motive item) → motive (.stack extent gap items))
    (zeroOrOne : ∀ extent item, motive item → motive (.zeroOrOne extent item))
    (zeroOrMore : ∀ extent item, motive item → motive (.zeroOrMore extent item))
    (oneOrMore : ∀ extent item, motive item → motive (.oneOrMore extent item))
    (list : ∀ extent item separator, motive item → motive separator →
      motive (.list extent item separator))
    (definition : ∀ extent name left right item, motive item →
      motive (.definition extent name left right item))
    (rule : ∀ extent stub item, motive item → motive (.rule extent stub item))
    (unknown : ∀ extent, motive (.unknown extent)) : motive track :=
  @Track.rec α motive (fun items => ∀ item ∈ items, motive item) box sequence choice stack
    zeroOrOne zeroOrMore oneOrMore list definition rule unknown (fun _ absent => nomatch absent)
    (fun _ _ first others => List.forall_mem_cons.mpr ⟨first, others⟩) track

/-- Induction over tracks. Every track is reached from those directly inside it. -/
@[elab_as_elim]
theorem inductionOnChildren {motive : Track α → Prop} (track : Track α)
    (step : ∀ track, (∀ child ∈ track.children, motive child) → motive track) : motive track := by
  induction track using inductionOn with
  | box | unknown => exact step _ nofun
  | sequence extent gap items parts => exact step _ parts
  | choice extent gap optional items parts => exact step _ parts
  | stack extent gap items parts => exact step _ parts
  | list extent item separator onward returning =>
    exact step _ (List.forall_mem_cons.mpr ⟨onward, List.forall_mem_singleton.mpr returning⟩)
  | zeroOrOne extent item part => exact step _ (List.forall_mem_singleton.mpr part)
  | zeroOrMore extent item part => exact step _ (List.forall_mem_singleton.mpr part)
  | oneOrMore extent item part => exact step _ (List.forall_mem_singleton.mpr part)
  | definition extent name left right item part => exact step _ (List.forall_mem_singleton.mpr part)
  | rule extent stub item part => exact step _ (List.forall_mem_singleton.mpr part)

/-- A walk over several tracks goes over one after the other. -/
theorem walkAll_eq_flatMap (items : List (Track α)) : walkAll items = items.flatMap walk := by
  induction items with
  | nil => rfl
  | cons item rest inductionHypothesis => simp [walkAll, inductionHypothesis]

/-- A walk meets a track before everything inside it. -/
theorem walk_eq (track : Track α) : track.walk = track :: track.children.flatMap walk := by
  cases track <;> simp [walk, children, walkAll_eq_flatMap]

/-- What is looked for on a walk is found in the track before it is found inside it. -/
theorem filterMap_walk {β : Type} (found? : Track α → Option β) (track : Track α) :
    track.walk.filterMap found? =
      (found? track).toList ++ track.children.flatMap fun child => child.walk.filterMap found? := by
  rw [walk_eq, List.filterMap_cons, List.filterMap_flatMap]
  cases found? track <;> rfl

/-- Whether something holds of a track and of all tracks inside it. -/
def Throughout (holds : Track α → Prop) (track : Track α) : Prop :=
  ∀ part ∈ track.walk, holds part

/-- Something holds throughout a track if it holds of the track and throughout those directly inside
it. -/
theorem throughout_iff {holds : Track α → Prop} {track : Track α} :
    track.Throughout holds ↔ holds track ∧ ∀ child ∈ track.children, child.Throughout holds := by
  rw [Throughout, walk_eq, List.forall_mem_cons]
  simp only [List.mem_flatMap, forall_exists_index, and_imp]
  exact and_congr_right fun _ =>
    ⟨fun inner child member part inside => inner part child member inside,
      fun inner part child member inside => inner child member part inside⟩

/-- The name of a panel; other tracks are none. -/
def panelName? : Track α → Option String
  | .definition _ name _ _ _ => some name
  | _ => none

mutual

/-- The panels of a track in the order of a walk, each with the nearest panel around it. -/
def panels (around : Option String) : Track α → Entries (Option String)
  | .box _ _ _ => []
  | .sequence _ _ items => panelsOfAll around items
  | .choice _ _ _ items => panelsOfAll around items
  | .stack _ _ items => panelsOfAll around items
  | .zeroOrOne _ item => item.panels around
  | .zeroOrMore _ item => item.panels around
  | .oneOrMore _ item => item.panels around
  | .list _ item separator => item.panels around ++ separator.panels around
  | .definition _ name _ _ item => (name, around) :: item.panels (some name)
  | .rule _ _ item => item.panels around
  | .unknown _ => []

/-- The panels of several tracks. -/
def panelsOfAll (around : Option String) : List (Track α) → Entries (Option String)
  | [] => []
  | item :: rest => item.panels around ++ panelsOfAll around rest

end

/-- The panels of several tracks are those of each. -/
theorem panelsOfAll_eq_flatMap (around : Option String) (items : List (Track α)) :
    panelsOfAll around items = items.flatMap (panels around) := by
  induction items with
  | nil => rfl
  | cons item rest inductionHypothesis => simp [panelsOfAll, inductionHypothesis]

/-- The panels are exactly those that a walk meets. -/
theorem names_panels (track : Track α) (around : Option String) :
    (track.panels around).names = track.walk.filterMap panelName? := by
  induction track using Track.inductionOn generalizing around with
  | box | unknown => rfl
  | sequence | choice | stack =>
    rename_i inductionHypothesis
    simp only [panels, panelsOfAll_eq_flatMap, walk, walkAll_eq_flatMap, Entries.names,
      List.map_flatMap, List.filterMap_cons, panelName?, List.filterMap_flatMap] at *
    exact List.flatMap_congr fun item member => inductionHypothesis item member around
  | list extent item separator first second =>
    simp only [Entries.names] at first second
    simp [panels, walk, Entries.names, panelName?, List.filterMap_cons, first, second]
  | zeroOrOne | zeroOrMore | oneOrMore | definition | rule =>
    rename_i inductionHypothesis
    simp only [Entries.names] at inductionHypothesis
    simp [panels, walk, Entries.names, panelName?, List.filterMap_cons, inductionHypothesis]

/-- What a walk meets that has the name of a rule. -/
inductive Mark where
  | panel (name : String)
  | box (name : String)

/-- The mark of a track; most tracks have none. -/
def mark? : Track α → Option Mark
  | .definition _ name _ _ _ => some (.panel name)
  | .box _ .rule text => some (.box text)
  | _ => none

/-- The marks of a track in the order of a walk. -/
def marks (track : Track α) : List Mark :=
  track.walk.filterMap mark?

/-- The marks of several tracks. -/
def marksOfAll (items : List (Track α)) : List Mark :=
  items.flatMap marks

@[simp]
theorem marksOfAll_nil : marksOfAll ([] : List (Track α)) = [] :=
  rfl

@[simp]
theorem marksOfAll_cons (item : Track α) (rest : List (Track α)) :
    marksOfAll (item :: rest) = item.marks ++ marksOfAll rest :=
  List.flatMap_cons

/-- The mark of a track comes before those of everything inside it. -/
theorem marks_eq (track : Track α) :
    track.marks = track.mark?.toList ++ marksOfAll track.children :=
  track.filterMap_walk mark?

@[simp]
theorem marks_sequence (extent : Extent α) (gap : α) (items : List (Track α)) :
    (Track.sequence extent gap items).marks = marksOfAll items :=
  marks_eq _

@[simp]
theorem marks_choice (extent : Extent α) (gap : α) (optional : Bool) (items : List (Track α)) :
    (Track.choice extent gap optional items).marks = marksOfAll items :=
  marks_eq _

@[simp]
theorem marks_list (extent : Extent α) (item separator : Track α) :
    (Track.list extent item separator).marks = item.marks ++ separator.marks := by
  simp [marks_eq (.list extent item separator), mark?, children]

@[simp]
theorem marks_definition (extent : Extent α) (name : String) (left right : α) (item : Track α) :
    (Track.definition extent name left right item).marks = .panel name :: item.marks := by
  simp [marks_eq (.definition extent name left right item), mark?, children]

@[simp]
theorem marks_rule (extent : Extent α) (stub : α) (item : Track α) :
    (Track.rule extent stub item).marks = item.marks := by
  simp [marks_eq (.rule extent stub item), mark?, children]

/-- A panel that is marked is met on the walk. -/
theorem mem_panelNames_of_mark {walked : List (Track α)} {name : String}
    (marked : .panel name ∈ walked.filterMap mark?) : name ∈ walked.filterMap panelName? := by
  obtain ⟨track, member, mark⟩ := List.mem_filterMap.mp marked
  refine List.mem_filterMap.mpr ⟨track, member, ?_⟩
  cases track with
  | definition => simpa [mark?, panelName?] using mark
  | box extent shape text => cases shape <;> simp [mark?] at mark
  | _ => simp [mark?] at mark

/-- A track with the mark of a box is a box for a rule. -/
theorem eq_box_of_mark {track : Track α} {name : String}
    (mark : track.mark? = some (.box name)) : ∃ extent, track = .box extent .rule name := by
  cases track with
  | box extent shape text =>
    cases shape <;> simp [mark?] at mark
    exact ⟨extent, by rw [mark]⟩
  | _ => simp [mark?] at mark

section Quantifiers

variable [Scalar α]

/-- A part with a quantifier has the panels of the part. -/
theorem panels_quantifier (quantifier : Quantifier) (item : Track α) (around : Option String) :
    (quantifier.track item).panels around = item.panels around := by
  cases quantifier <;> cases item <;> rfl

/-- A part with a quantifier has the marks of the part. -/
theorem marks_quantifier (quantifier : Quantifier) (item : Track α) :
    (quantifier.track item).marks = item.marks := by
  cases quantifier <;> cases item <;> rfl

end Quantifiers

end Track

end GrammarView
