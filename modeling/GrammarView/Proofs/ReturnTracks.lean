import GrammarView.Proofs.Drawings

/-!
# Return tracks

The order in which sequences are drawn on the way back. A part that is passed any number of times,
and the separator of a list, are drawn on a loop over the track, which is passed from right to left;
a loop on such a loop is passed from left to right again. Read along the track, a sequence on the
way back comes in the order of the rules only if its parts are drawn in the reverse order.

No sequence is drawn so: everywhere the parts stand as they are written. The sequences on the way
back are therefore read in the order of the rules exactly as far as that makes no difference.
-/

namespace GrammarView

/-- The two ways along a track, from left to right and from right to left. -/
inductive Way where
  | there
  | back

/-- The way along a loop over a track. -/
def Way.turned : Way → Way
  | .there => .back
  | .back => .there

namespace Track

variable {α : Type}

/-- The tracks directly inside a track that are passed the same way as the track. -/
def along : Track α → List (Track α)
  | .zeroOrMore _ _ => []
  | .list _ item _ => [item]
  | track => track.children

/-- The tracks directly inside a track that are passed the other way, on a loop over it. -/
def returning : Track α → List (Track α)
  | .zeroOrMore _ item => [item]
  | .list _ _ separator => [separator]
  | _ => []

/-- From a track and the way along it to a track directly inside, with the way along that one. -/
inductive Enters : Way × Track α → Way × Track α → Prop where
  | along {way track inner} (inside : inner ∈ track.along) : Enters (way, track) (way, inner)
  | returning {way track inner} (inside : inner ∈ track.returning) :
      Enters (way, track) (way.turned, inner)

/-- The sequences inside tracks that are passed in a given way are the same in both orders where
they are passed on the way back. -/
def Symmetric (way : Way) (tracks : List (Track α)) : Prop :=
  ∀ track ∈ tracks, ∀ extent gap items,
    Relation.ReflTransGen Enters (way, track) (.back, .sequence extent gap items) →
    items.reverse = items

variable {way : Way} {track : Track α} {tracks : List (Track α)}

/-- The first of symmetric tracks is symmetric. -/
theorem Symmetric.first (symmetric : Symmetric way (track :: tracks)) : Symmetric way [track] :=
  List.forall_mem_singleton.mpr (List.forall_mem_cons.mp symmetric).1

/-- The other ones of symmetric tracks are symmetric. -/
theorem Symmetric.others (symmetric : Symmetric way (track :: tracks)) : Symmetric way tracks :=
  (List.forall_mem_cons.mp symmetric).2

/-- What is passed the same way inside a symmetric track is symmetric. -/
theorem Symmetric.along (symmetric : Symmetric way [track]) : Symmetric way track.along :=
  fun _ inside extent gap items enters =>
    symmetric track (.head _) extent gap items (.head (.along inside) enters)

/-- What is passed the other way inside a symmetric track is symmetric. -/
theorem Symmetric.returning (symmetric : Symmetric way [track]) :
    Symmetric way.turned track.returning :=
  fun _ inside extent gap items enters =>
    symmetric track (.head _) extent gap items (.head (.returning inside) enters)

/-- A track is symmetric if it is when it may be left out. -/
theorem Symmetric.of_optionally [Scalar α] (symmetric : Symmetric way [track.optionally]) :
    Symmetric way [track] := by
  cases track with
  | choice extent gap optional items =>
    -- A choice gets the empty branch itself, so it is not inside but has the same branches.
    refine List.forall_mem_singleton.mpr fun extent gap items enters => ?_
    obtain same | ⟨_, first, enters⟩ := enters.cases_head
    · cases same
    · cases first with
      | along inside =>
        exact symmetric _ (.head _) _ _ _ (.head (.along inside) enters)
      | returning inside => contradiction
  | _ => exact symmetric.along

end Track

/-- The order of parts that stand as they are written. -/
def asWritten {α : Type} : Way → List α → List α
  | _, parts => parts

/-- The order of parts that are met as they are written, from left to right on the way there and
from right to left on the way back. -/
def asRead {α : Type} : Way → List α → List α
  | .there, parts => parts
  | .back, parts => parts.reverse

namespace Building

/-- Expressions and tracks for them, passed in a given way and in the body of a given rule. The
tracks for the parts of a sequence are put in an order that may depend on the way. -/
inductive LaidOut {α : Type} [Scalar α] (order : Way → List (Track α) → List (Track α))
    (grammar : RuleSet) : Way → String → List Expr → List (Track α) → Prop where
  | nil {way owner} : LaidOut order grammar way owner [] []
  | cons {way owner item track items tracks}
      (first : LaidOut order grammar way owner [item] [track])
      (others : LaidOut order grammar way owner items tracks) :
      LaidOut order grammar way owner (item :: items) (track :: tracks)
  | leaf {way owner item track} (leaf : DrawsLeaf owner item track) :
      LaidOut order grammar way owner [item] [track]
  | sequence {way owner items tracks} (parts : LaidOut order grammar way owner items tracks) :
      LaidOut order grammar way owner [.sequence items] [.sequenceOf (order way tracks)]
  | choice {way owner items tracks} (parts : LaidOut order grammar way owner items tracks) :
      LaidOut order grammar way owner [.choice items] [.choiceOf tracks]
  | list {way owner item separator first second}
      (onward : LaidOut order grammar way owner [.reference item] [first])
      (returning : LaidOut order grammar way.turned owner [separator] [second]) :
      LaidOut order grammar way owner [.list item separator]
        [.list Track.unmeasured first second]
  | optional {way owner item track} (part : LaidOut order grammar way owner [item] [track]) :
      LaidOut order grammar way owner [.quantified .zeroOrOne item] [track.optionally]
  | repeated {way owner item track} (part : LaidOut order grammar way owner [item] [track]) :
      LaidOut order grammar way owner [.quantified .oneOrMore item] [track.repeatedly]
  /-- Any number of times on the way of the track, past which there is another way. -/
  | onward {way owner item track} (part : LaidOut order grammar way owner [item] [track]) :
      LaidOut order grammar way owner [.quantified .zeroOrMore item]
        [track.optionally.repeatedly]
  /-- Any number of times on the way back. -/
  | returning {way owner item track}
      (part : LaidOut order grammar way.turned owner [item] [track]) :
      LaidOut order grammar way owner [.quantified .zeroOrMore item]
        [.zeroOrMore Track.unmeasured track]
  | box {way owner name} : LaidOut order grammar way owner [.reference name] [ruleBox name]
  | splice {way owner name rule track} (found : grammar.get? name = some rule)
      (body : LaidOut order grammar way name [rule.body] [track]) :
      LaidOut order grammar way owner [.reference name] [track]
  | panel {way owner name rule track} (found : grammar.get? name = some rule)
      (body : LaidOut order grammar way name [rule.body] [track]) :
      LaidOut order grammar way owner [.reference name] [panel rule track]

section LaidOut

variable {α : Type} [Scalar α] {grammar : RuleSet} {way : Way} {owner : String}
  {exprs : List Expr} {tracks : List (Track α)}

/-- What is passed any number of times is laid out on one of the two ways. -/
theorem LaidOut.anyNumberOf {item : Expr} {track : Track α}
    (part : ∀ way, LaidOut asWritten grammar way owner [item] [track]) (way : Way) :
    LaidOut asWritten grammar way owner [.quantified .zeroOrMore item] [track.anyNumberOf] := by
  cases track with
  | sequence | choice | definition => exact .onward (part way)
  | _ => exact .returning (part way.turned)

/-- Whatever is drawn is laid out as it is written, on both ways. -/
theorem Draws.laidOut {place : Place} {before after : Option Nesting}
    (draws : Draws grammar place before exprs tracks after) :
    ∀ way, LaidOut asWritten grammar way place.owner exprs tracks := by
  induction draws with
  | nil => exact fun way => .nil
  | cons _ _ first others => exact fun way => .cons (first way) (others way)
  | leaf leaf => exact fun way => .leaf leaf
  | sequence _ parts => exact fun way => .sequence (parts way)
  | choice _ parts => exact fun way => .choice (parts way)
  | list _ parts =>
    intro way
    cases parts way with
    | cons onward _ =>
      cases parts way.turned with
      | cons _ others => exact .list onward others
  | @quantified _ _ _ quantifier _ _ _ part =>
    intro way
    cases quantifier with
    | zeroOrOne => exact .optional (part way)
    | zeroOrMore => exact .anyNumberOf part way
    | oneOrMore => exact .repeated (part way)
  | box => exact fun way => .box
  | splice found _ _ _ body => exact fun way => .splice found (body way)
  | panel found _ _ _ body => exact fun way => .panel found (body way)

/-- What is laid out as it is written is laid out as it is read if the sequences on the way back are
the same in both orders. -/
theorem LaidOut.asRead (laidOut : LaidOut asWritten grammar way owner exprs tracks)
    (symmetric : Track.Symmetric way tracks) : LaidOut asRead grammar way owner exprs tracks := by
  induction laidOut with
  | nil => exact .nil
  | cons _ _ first others => exact .cons (first symmetric.first) (others symmetric.others)
  | leaf leaf => exact .leaf leaf
  | @sequence way owner items tracks _ parts =>
    have same : GrammarView.asRead way tracks = tracks := by
      cases way with
      | there => rfl
      | back => exact symmetric _ (.head _) _ _ _ .refl
    have inner : LaidOut GrammarView.asRead grammar way owner [.sequence items]
        [.sequenceOf (GrammarView.asRead way tracks)] := .sequence (parts symmetric.along)
    rwa [same] at inner
  | choice _ parts => exact .choice (parts symmetric.along)
  | list _ _ onward returning =>
    exact .list (onward symmetric.along) (returning symmetric.returning)
  | optional _ part => exact .optional (part symmetric.of_optionally)
  | repeated _ part => exact .repeated (part symmetric.along)
  | onward _ part => exact .onward (part symmetric.along.of_optionally)
  | returning _ part => exact .returning (part symmetric.returning)
  | box => exact .box
  | splice found _ body => exact .splice found (body symmetric)
  | panel found _ body => exact .panel found (body symmetric.along)

/-- What is laid out for a list, for a sequence and for a token. -/
def Arrangement (order : Way → List (Track α) → List (Track α)) (grammar : RuleSet) (way : Way)
    (owner : String) (track : Track α) : Expr → Prop
  | .list item separator => ∃ first second, track = .list Track.unmeasured first second ∧
      LaidOut order grammar way owner [.reference item] [first] ∧
      LaidOut order grammar way.turned owner [separator] [second]
  | .sequence items => ∃ parts, track = .sequenceOf (order way parts) ∧
      LaidOut order grammar way owner items parts
  | .token text => track = .boxOf .token text
  | _ => True

/-- A list is laid out by its item and its separator, a sequence by its parts, and a token by its
box. -/
theorem LaidOut.arrangement {order : Way → List (Track α) → List (Track α)} {item : Expr}
    {track : Track α} (laidOut : LaidOut order grammar way owner [item] [track]) :
    Arrangement order grammar way owner track item := by
  generalize single : [item] = exprs at laidOut
  generalize singleTrack : [track] = tracks at laidOut
  induction laidOut with
  | nil => cases single
  | cons _ _ first _ =>
    cases single
    cases singleTrack
    exact first rfl rfl
  | leaf leaf =>
    cases single
    cases singleTrack
    cases leaf <;> trivial
  | sequence parts =>
    cases single
    cases singleTrack
    exact ⟨_, rfl, parts⟩
  | list onward returning =>
    cases single
    cases singleTrack
    exact ⟨_, _, rfl, onward, returning⟩
  | _ =>
    cases single
    trivial

end LaidOut

end Building

/-- The sequences of every diagram are laid out as they are written, wherever they stand, and as
they are read where the sequences on the way back are the same in both orders. -/
theorem sequences_as_written {α : Type} [Scalar α] (grammar : RuleSet) (nesting : Option Nesting)
    (rule : Rule) :
    ∃ (item : Track α) (after : Option Nesting),
      grammar.diagram nesting rule = (.ruleOf (Building.panel rule item), after) ∧
        Building.LaidOut asWritten grammar .there rule.name [rule.body] [item] ∧
        (Track.Symmetric .there [item] →
          Building.LaidOut asRead grammar .there rule.name [rule.body] [item]) := by
  obtain ⟨item, after, built, draws⟩ := grammar.diagram_drawn (α := α) nesting rule
  have laidOut : Building.LaidOut asWritten grammar .there rule.name [rule.body] [item] :=
    draws.laidOut .there
  exact ⟨item, after, built, laidOut, laidOut.asRead⟩

/-- A row of letters, with a comma and a blank after each of them but the last. -/
def lettersInRow : Entries Json :=
  [("row", .obj [("list", .str "letter"), ("separator",
      .obj [("sequence", .arr [.obj [("token", .str ",")], .obj [("token", .str " ")]])])]),
    ("letter", .obj [("token", .str "a")])]

/-- The rule of the row. -/
def rowRule : Rule :=
  ⟨"row", .list "letter" (.sequence [.token ",", .token " "]), none, true, none, none, ["letter"],
    []⟩

/-- The grammar of the row. -/
def lettersInRowGrammar : RuleSet :=
  ⟨[rowRule, ⟨"letter", .token "a", none, true, none, none, [], ["row"]⟩]⟩

/-- Read along its track the separator of the row begins with the blank. -/
theorem separator_not_as_read :
    lettersInRow.Distinct ∧ validate lettersInRow false = .ok lettersInRowGrammar ∧
      rowRule ∈ lettersInRowGrammar.rules ∧
      ∃ item : Track Rat,
        lettersInRowGrammar.diagram none rowRule = (.ruleOf (Building.panel rowRule item), none) ∧
          ¬ Building.LaidOut asRead lettersInRowGrammar .there rowRule.name [rowRule.body]
            [item] := by
  refine ⟨?_, by cbv, .head _, .list Track.unmeasured (.boxOf .token "a")
    (.sequenceOf [.boxOf .token ",", .boxOf .token " "]), by cbv, ?_⟩
  · simp [Entries.Distinct, Entries.names, lettersInRow]
  · intro laidOut
    obtain ⟨_, _, ⟨⟩, -, separator⟩ := laidOut.arrangement
    obtain ⟨parts, same, laidOutParts⟩ := separator.arrangement
    obtain rfl : parts = [.boxOf .token " ", .boxOf .token ","] :=
      List.reverse_eq_iff.mp (Track.sequence.inj same).2.2.symm
    cases laidOutParts with
    | cons first _ => exact absurd (Track.box.inj first.arrangement).2.2 (by decide)

end GrammarView
