import GrammarView.Grammar.Expr
import Mathlib.Data.List.Forall2

/-!
# Reading productions

How the right-hand side of a printed production is read: a bar binds loosest, then standing side by
side, and a mark applies to exactly one primary, which is an atom or a group in parentheses. The
reader keeps a frame for every group that is still open.

A printed production does not show how sequences were nested. Phrases are compared after sequences
inside sequences have been spread out and sequences and choices of one phrase have been replaced
by it.
-/

namespace GrammarView

/-- A marked word of a listing: the class of its span and its text. -/
structure Atom where
  className : String
  text : String
  deriving DecidableEq, Repr

/-- What a right-hand side says. -/
inductive Phrase where
  | word (atom : Atom)
  | sequence (items : List Phrase)
  | choice (items : List Phrase)
  | repeated (quantifier : Quantifier) (item : Phrase)
  deriving Repr

/-- The smallest parts of a printed production that mean something. -/
inductive Sign where
  | atom (atom : Atom)
  | defines
  | opening
  | closing
  | bar
  | mark (quantifier : Quantifier)
  deriving DecidableEq, Repr

namespace Phrase

/-- Induction over phrases. -/
@[elab_as_elim]
theorem inductionOn {motive : Phrase → Prop} (phrase : Phrase)
    (word : ∀ atom, motive (.word atom))
    (sequence : ∀ items, (∀ item ∈ items, motive item) → motive (.sequence items))
    (choice : ∀ items, (∀ item ∈ items, motive item) → motive (.choice items))
    (repeated : ∀ quantifier item, motive item → motive (.repeated quantifier item)) :
    motive phrase :=
  @Phrase.rec motive (fun items => ∀ item ∈ items, motive item) word sequence choice repeated
    (fun _ absent => nomatch absent)
    (fun _ _ first others => List.forall_mem_cons.mpr ⟨first, others⟩) phrase

/-- Whether a phrase ends in a mark of its own. -/
def isRepeated : Phrase → Bool
  | .repeated _ _ => true
  | _ => false

/-- The phrases that a phrase puts side by side. -/
def pieces : Phrase → List Phrase
  | .sequence items => items
  | phrase => [phrase]

/-- Phrases side by side; a single one stands for itself. -/
def joined : List Phrase → Phrase
  | [phrase] => phrase
  | phrases => .sequence phrases

/-- One of several phrases; a single one stands for itself. -/
def chosen : List Phrase → Phrase
  | [phrase] => phrase
  | phrases => .choice phrases

mutual

/-- The phrase without sequences inside sequences, and without sequences and choices of one
phrase. -/
def flatten : Phrase → Phrase
  | .word atom => .word atom
  | .sequence items => joined ((flattenAll items).flatMap pieces)
  | .choice items => chosen (flattenAll items)
  | .repeated quantifier item => .repeated quantifier item.flatten

/-- The phrases, each without sequences inside sequences. -/
def flattenAll : List Phrase → List Phrase
  | [] => []
  | item :: rest => item.flatten :: flattenAll rest

end

/-- Several phrases are flattened one by one. -/
theorem flattenAll_eq_map (items : List Phrase) : flattenAll items = items.map flatten := by
  induction items with
  | nil => rfl
  | cons item rest inductionHypothesis => simp [flattenAll, inductionHypothesis]

/-- The phrases that flattened phrases put side by side. -/
def spread (items : List Phrase) : List Phrase :=
  items.flatMap fun item => item.flatten.pieces

@[simp]
theorem spread_append (first others : List Phrase) :
    spread (first ++ others) = spread first ++ spread others :=
  List.flatMap_append

@[simp]
theorem spread_cons (item : Phrase) (rest : List Phrase) :
    spread (item :: rest) = item.flatten.pieces ++ spread rest :=
  List.flatMap_cons

/-- A flattened sequence has what its items put side by side. -/
theorem flatten_sequence (items : List Phrase) :
    (sequence items).flatten = joined (spread items) := by
  rw [flatten, flattenAll_eq_map, spread, List.flatMap_map]

/-- A flattened choice has its flattened items. -/
theorem flatten_choice (items : List Phrase) :
    (choice items).flatten = chosen (items.map flatten) := by
  rw [flatten, flattenAll_eq_map]

/-- Phrases that are no sequences are what they put side by side. -/
theorem pieces_joined {phrases : List Phrase} (spreadOut : ∀ inner, .sequence inner ∉ phrases) :
    (joined phrases).pieces = phrases := by
  match phrases with
  | [] => rfl
  | [.sequence inner] => exact absurd (.head _) (spreadOut inner)
  | [.word _] | [.choice _] | [.repeated _ _] => rfl
  | _ :: _ :: _ => rfl

/-- A flattened phrase puts no sequence side by side with others. -/
theorem sequence_not_mem_pieces_flatten (phrase : Phrase) (inner : List Phrase) :
    .sequence inner ∉ phrase.flatten.pieces := by
  induction phrase using Phrase.inductionOn generalizing inner with
  | word => simp [flatten, pieces]
  | repeated => simp [flatten, pieces]
  | sequence items inductionHypothesis =>
    have spreadOut : ∀ inner, .sequence inner ∉ spread items := by
      intro inner member
      obtain ⟨item, found, piece⟩ := List.mem_flatMap.mp member
      exact inductionHypothesis item found inner piece
    rw [flatten_sequence, pieces_joined spreadOut]
    exact spreadOut inner
  | choice items inductionHypothesis =>
    rw [flatten_choice]
    match items with
    | [item] => exact inductionHypothesis item (.head _) inner
    | [] | _ :: _ :: _ => simp [chosen, pieces]

/-- A flattened sequence puts side by side what its items put side by side. -/
theorem pieces_flatten_sequence (items : List Phrase) :
    (sequence items).flatten.pieces = spread items := by
  rw [flatten_sequence]
  refine pieces_joined fun inner member => ?_
  obtain ⟨item, -, piece⟩ := List.mem_flatMap.mp member
  exact sequence_not_mem_pieces_flatten item inner piece

/-- A flattened phrase is what it puts side by side. -/
theorem joined_pieces_flatten (phrase : Phrase) :
    joined phrase.flatten.pieces = phrase.flatten := by
  induction phrase using Phrase.inductionOn with
  | word | repeated => rfl
  | sequence items => rw [pieces_flatten_sequence, flatten_sequence]
  | choice items inductionHypothesis =>
    rw [flatten_choice]
    match items with
    | [item] => exact inductionHypothesis item (.head _)
    | [] | _ :: _ :: _ => rfl

/-- Phrases that put side by side what a phrase does are that phrase. -/
theorem flatten_sequence_of_spread {items : List Phrase} {phrase : Phrase}
    (same : spread items = phrase.flatten.pieces) : (sequence items).flatten = phrase.flatten := by
  rw [flatten_sequence, same, joined_pieces_flatten]

/-- A choice of one phrase is that phrase. -/
theorem flatten_choice_singleton (phrase : Phrase) : (choice [phrase]).flatten = phrase.flatten :=
  flatten_choice [phrase]

end Phrase

/-- A group that is still open: the alternatives that are complete, and what has been read of the
next one. -/
structure Frame where
  alternatives : List Phrase
  items : List Phrase

namespace Frame

/-- The frame of a group that has just been opened. -/
def start : Frame :=
  ⟨[], []⟩

/-- The frame with further phrases in its last alternative. -/
def add (frame : Frame) (items : List Phrase) : Frame :=
  { frame with items := frame.items ++ items }

/-- The frame after a bar. -/
def turn (frame : Frame) : Frame :=
  ⟨frame.alternatives ++ [.sequence frame.items], []⟩

/-- The frame with a mark on its last phrase, unless that has a mark of its own. -/
def mark? (frame : Frame) (quantifier : Quantifier) : Option Frame :=
  match frame.items.getLast? with
  | none => none
  | some item =>
    if item.isRepeated then none
    else some { frame with items := frame.items.dropLast ++ [.repeated quantifier item] }

/-- The phrase of a group that is closed. -/
def phrase (frame : Frame) : Phrase :=
  .choice (frame.alternatives ++ [.sequence frame.items])

/-- What a sign does to the open groups, the innermost first. -/
def step (stack : List Frame) (sign : Sign) : Option (List Frame) :=
  match sign, stack with
  | .atom atom, frame :: outer => some (frame.add [.word atom] :: outer)
  | .opening, outer => some (start :: outer)
  | .closing, frame :: next :: outer => some (next.add [frame.phrase] :: outer)
  | .bar, frame :: outer => some (frame.turn :: outer)
  | .mark quantifier, frame :: outer => (frame.mark? quantifier).map (· :: outer)
  | _, _ => none

end Frame

/-- The phrase that signs spell, if they spell one. -/
def Phrase.read (signs : List Sign) : Option Phrase :=
  match signs.foldlM Frame.step [.start] with
  | some [frame] => some frame.phrase
  | _ => none

/-- Signs that add phrases to whatever group they stand in. -/
def Adds (signs : List Sign) (items : List Phrase) : Prop :=
  ∀ frame outer, signs.foldlM Frame.step (frame :: outer) = some (frame.add items :: outer)

/-- Signs that are the alternatives of a group. -/
def Offers (signs : List Sign) (choices : List Phrase) : Prop :=
  ∀ done outer, ∃ frame : Frame,
    signs.foldlM Frame.step (⟨done, []⟩ :: outer) = some (frame :: outer) ∧
      frame.phrase = .choice (done ++ choices)

/-- No signs add nothing. -/
theorem adds_nil : Adds [] [] := by
  intro frame outer
  simp [Frame.add]

/-- An atom adds a word. -/
theorem adds_atom (atom : Atom) : Adds [.atom atom] [.word atom] := by
  intro frame outer
  rfl

variable {signs further : List Sign} {items others choices : List Phrase} {item : Phrase}

/-- Signs side by side add their phrases side by side. -/
theorem Adds.append (first : Adds signs items) (second : Adds further others) :
    Adds (signs ++ further) (items ++ others) := by
  intro frame outer
  rw [List.foldlM_append, first frame outer]
  change further.foldlM Frame.step (frame.add items :: outer) = _
  rw [second]
  simp [Frame.add]

/-- A mark applies to a phrase that has none. -/
theorem Adds.mark (adds : Adds signs [item]) (bare : item.isRepeated = false)
    (quantifier : Quantifier) :
    Adds (signs ++ [.mark quantifier]) [.repeated quantifier item] := by
  intro frame outer
  rw [List.foldlM_append, adds frame outer]
  change Frame.step (frame.add [item] :: outer) (.mark quantifier) >>= _ = _
  simp [Frame.step, Frame.mark?, Frame.add, bare]

/-- Phrases side by side are one alternative. -/
theorem Adds.offers (adds : Adds signs items) : Offers signs [.sequence items] :=
  fun done outer => ⟨_, adds ⟨done, []⟩ outer, rfl⟩

/-- Phrases before a bar are one more alternative. -/
theorem Adds.offers_bar (adds : Adds signs items) (offers : Offers further choices) :
    Offers (signs ++ .bar :: further) (.sequence items :: choices) := by
  intro done outer
  obtain ⟨frame, ran, phrase⟩ := offers (done ++ [.sequence items]) outer
  refine ⟨frame, ?_, by simpa using phrase⟩
  rw [List.foldlM_append, adds]
  exact ran

/-- A group adds one phrase. -/
theorem Offers.adds (offers : Offers signs choices) :
    Adds (.opening :: signs ++ [.closing]) [.choice choices] := by
  intro frame outer
  obtain ⟨inner, ran, phrase⟩ := offers [] (frame :: outer)
  change (signs ++ [Sign.closing]).foldlM Frame.step (.start :: frame :: outer) = _
  rw [List.foldlM_append, Frame.start, ran]
  change some (frame.add [inner.phrase] :: outer) = _
  rw [phrase, List.nil_append]

/-- Alternatives are read as one of them. -/
theorem Offers.read (offers : Offers signs choices) :
    Phrase.read signs = some (.choice choices) := by
  obtain ⟨frame, ran, phrase⟩ := offers [] []
  rw [Phrase.read, Frame.start, ran]
  exact congrArg some phrase

end GrammarView
