import GrammarView.Proofs.Phrases
import GrammarView.Proofs.Words

/-!
# What lexemes say

The lexemes of an expression are read back as the expression. Where a part stands decides how it
is printed: beside other parts it may add several phrases, before a mark it adds exactly one, and a
whole body is printed as its alternatives.
-/

namespace GrammarView

namespace Atom

/-- The name of a rule as it is marked in a listing. -/
def rule (name : String) : Atom :=
  ⟨"rule", "<" ++ name ++ ">"⟩

/-- A token as it is marked in a listing. -/
def token (text : String) : Atom :=
  ⟨"token", "'" ++ text ++ "'"⟩

/-- A terminal as it is marked in a listing. -/
def terminal (text : String) : Atom :=
  ⟨"terminal", "[" ++ text ++ "]"⟩

end Atom

namespace Expr

mutual

/-- What an expression says. Aliases, labels and references are all names of rules, and a list is
the repetition that it abbreviates. -/
def phrase : Expr → Phrase
  | .token text => .word (.token text)
  | .terminal text => .word (.terminal text)
  | .aliased text => .word (.rule text)
  | .label text => .word (.rule text)
  | .reference name => .word (.rule name)
  | .tokens texts => .choice (texts.map fun text => .word (.token text))
  | .sequence items => .sequence (phrases items)
  | .choice items => .choice (phrases items)
  | .list item separator =>
    .sequence [.word (.rule item),
      .repeated .zeroOrMore (.sequence [separator.phrase, .word (.rule item)])]
  | .quantified quantifier item => .repeated quantifier item.phrase
  | .foreign _ _ => .sequence []

/-- What each of several expressions says. -/
def phrases : List Expr → List Phrase
  | [] => []
  | item :: rest => item.phrase :: phrases rest

end

/-- Several expressions say what each of them says. -/
theorem phrases_eq_map (items : List Expr) : phrases items = items.map phrase := by
  induction items with
  | nil => rfl
  | cons item rest inductionHypothesis => simp [phrases, inductionHypothesis]

/-- Whether an expression can be read back when all its parts can: it is known, it offers at least
one alternative, and it is no list, as lists are delisted before they are listed. -/
def Printable : Expr → Prop
  | .tokens texts => texts ≠ []
  | .choice items => items ≠ []
  | .list _ _ => False
  | .foreign _ _ => False
  | _ => True

end Expr

namespace Lexeme

/-- The sign that a lexeme is read as. A gap is none, and neither is a part of no known kind. -/
def sign? : Lexeme → Option Sign
  | .rule name => some (.atom (.rule name))
  | .token text => some (.atom (.token text))
  | .terminal text => some (.atom (.terminal text))
  | .unknown _ => none
  | .gap => none
  | .bar => some .bar
  | .opening => some .opening
  | .closing => some .closing
  | .mark quantifier => some (.mark quantifier)

/-- The signs that lexemes are read as. -/
def signs (lexemes : List Lexeme) : List Sign :=
  lexemes.filterMap sign?

@[simp]
theorem signs_append (first others : List Lexeme) :
    signs (first ++ others) = signs first ++ signs others :=
  List.filterMap_append

@[simp]
theorem signs_group (lexemes : List Lexeme) :
    signs (group lexemes) = .opening :: signs lexemes ++ [.closing] := by
  simp [signs, group, sign?]

/-- Gaps are not read. -/
theorem signs_intercalate_gap (lists : List (List Lexeme)) :
    signs ([gap].intercalate lists) = lists.flatMap signs := by
  induction lists with
  | nil => rfl
  | cons lexemes rest inductionHypothesis =>
    cases rest with
    | nil => simp
    | cons next more =>
      rw [List.intercalate_cons_cons, signs_append, signs_append, List.flatMap_cons,
        inductionHypothesis]
      simp [signs, sign?]

/-- Bars separate what stands between them. -/
theorem signs_intercalate_bar (lexemes next : List Lexeme) (more : List (List Lexeme)) :
    signs ([bar].intercalate (lexemes :: next :: more))
      = signs lexemes ++ .bar :: signs ([bar].intercalate (next :: more)) := by
  rw [List.intercalate_cons_cons, signs_append, signs_append, List.append_assoc]
  rfl

end Lexeme

open Lexeme (signs)

namespace Expr

/-- What can be printed is printed without a part of no known kind. -/
theorem unknown_not_mem_lexemes {expr : Expr} (printable : Throughout Printable [expr])
    (whole operand : Bool) (shown : String) : .unknown shown ∉ expr.lexemes whole operand := by
  intro member
  obtain ⟨part, inside, own⟩ := exists_part_of_mem_lexemes rfl member
  have known : part.Printable := printable part (partsOfAll_singleton expr ▸ inside)
  cases part with
  | foreign => exact known
  | _ => simp [words] at own

/-- How the lexemes of an expression are read beside other parts, and before a mark. -/
structure Spells (expr : Expr) : Prop where
  loose : ∃ items, Adds (signs (expr.lexemes false false)) items ∧
    Phrase.spread items = expr.phrase.flatten.pieces
  operand : ∃ item, Adds (signs (expr.lexemes false true)) [item] ∧
    item.flatten = expr.phrase.flatten ∧ (expr.isQuantified = false → item.isRepeated = false)

/-- What is printed beside other parts as it is before a mark adds one phrase anywhere. -/
theorem Spells.of_operand {expr : Expr} {item : Phrase}
    (same : expr.lexemes false false = expr.lexemes false true)
    (adds : Adds (signs (expr.lexemes false true)) [item])
    (means : item.flatten = expr.phrase.flatten)
    (bare : expr.isQuantified = false → item.isRepeated = false) : expr.Spells where
  loose := ⟨[item], same ▸ adds, by simp [Phrase.spread, means]⟩
  operand := ⟨item, adds, means, bare⟩

/-- A word is read as that word. -/
theorem Spells.of_word {expr : Expr} {atom : Atom}
    (spelled : ∀ operand, signs (expr.lexemes false operand) = [.atom atom])
    (same : expr.lexemes false false = expr.lexemes false true)
    (means : expr.phrase = .word atom) : expr.Spells :=
  .of_operand same (spelled true ▸ adds_atom atom) (by rw [means]) (fun _ => rfl)

/-- Parts beside each other are read as phrases beside each other. -/
theorem spells_side_by_side {items : List Expr} (spells : ∀ item ∈ items, item.Spells) :
    ∃ read, Adds (signs ([Lexeme.gap].intercalate (lexemesOfAll items))) read ∧
      Phrase.spread read = Phrase.spread (items.map phrase) := by
  rw [Lexeme.signs_intercalate_gap]
  induction items with
  | nil => exact ⟨[], adds_nil, rfl⟩
  | cons item rest inductionHypothesis =>
    obtain ⟨first, others⟩ := List.forall_mem_cons.mp spells
    obtain ⟨items, adds, means⟩ := first.loose
    obtain ⟨remaining, addsRemaining, meansRemaining⟩ := inductionHypothesis others
    refine ⟨items ++ remaining, ?_, ?_⟩
    · rw [lexemesOfAll, List.flatMap_cons]
      exact adds.append addsRemaining
    · simp [means, meansRemaining]

/-- Alternatives are read as the alternatives of a choice. -/
theorem spells_alternatives {items : List Expr} (offered : items ≠ [])
    (spells : ∀ item ∈ items, item.Spells) :
    ∃ choices, Offers (signs ([Lexeme.bar].intercalate (lexemesOfAll items))) choices ∧
      choices.map Phrase.flatten = (items.map phrase).map Phrase.flatten := by
  induction items with
  | nil => contradiction
  | cons item rest inductionHypothesis =>
    obtain ⟨first, others⟩ := List.forall_mem_cons.mp spells
    obtain ⟨items, adds, means⟩ := first.loose
    have same := Phrase.flatten_sequence_of_spread means
    cases rest with
    | nil =>
      refine ⟨[.sequence items], ?_, by simp [same]⟩
      rw [lexemesOfAll, lexemesOfAll, List.intercalate_singleton]
      exact adds.offers
    | cons next more =>
      obtain ⟨choices, offers, meansChoices⟩ := inductionHypothesis (List.cons_ne_nil _ _) others
      refine ⟨.sequence items :: choices, ?_, ?_⟩
      · rw [lexemesOfAll, lexemesOfAll, Lexeme.signs_intercalate_bar]
        exact adds.offers_bar offers
      · simp [same, meansChoices]

/-- Alternatives in parentheses are read as a choice. -/
theorem Spells.of_choice {expr : Expr} {items : List Expr}
    (spelled : ∀ operand,
      expr.lexemes false operand = Lexeme.group ([Lexeme.bar].intercalate (lexemesOfAll items)))
    (phrase : expr.phrase = .choice (items.map Expr.phrase)) (offered : items ≠ [])
    (spells : ∀ item ∈ items, item.Spells) : expr.Spells := by
  obtain ⟨choices, offers, means⟩ := spells_alternatives offered spells
  refine @Spells.of_operand expr (.choice choices) ?_ ?_ ?_ (fun _ => rfl)
  · rw [spelled, spelled]
  · rw [spelled, Lexeme.signs_group]
    exact offers.adds
  · rw [phrase, Phrase.flatten_choice, Phrase.flatten_choice, means]

/-- Tokens are printed like a choice of them. -/
theorem lexemes_tokens (texts : List String) (whole operand : Bool) :
    (tokens texts).lexemes whole operand = (choice (texts.map .token)).lexemes whole operand := by
  have same : texts.map (fun text => [Lexeme.token text]) = lexemesOfAll (texts.map .token) := by
    induction texts with
    | nil => rfl
    | cons text rest inductionHypothesis => simp [lexemesOfAll, lexemes, inductionHypothesis]
  simp only [lexemes, same]

/-- Tokens say what a choice of them says. -/
theorem phrase_tokens (texts : List String) :
    (tokens texts).phrase = (choice (texts.map .token)).phrase := by
  simp [phrase, phrases_eq_map, Function.comp_def]

/-- A choice of tokens can be printed when there is a token. -/
theorem printable_tokens {texts : List String} (printable : Throughout Printable [tokens texts]) :
    Throughout Printable [choice (texts.map .token)] := by
  have offered : texts ≠ [] := printable (.tokens texts) (.head _)
  refine throughout_choice.mpr ⟨by simpa [Printable] using offered, ?_⟩
  intro part inside
  obtain ⟨item, member, part⟩ := mem_partsOfAll.mp inside
  obtain ⟨text, -, rfl⟩ := List.mem_map.mp member
  cases List.mem_singleton.mp part
  trivial

/-- Parts side by side are read as they are printed, in parentheses before a mark. -/
theorem Spells.of_sequence {items : List Expr} (spells : ∀ item ∈ items, item.Spells) :
    (sequence items).Spells := by
  obtain ⟨read, adds, means⟩ := spells_side_by_side spells
  have phrases : Phrase.spread read = (sequence items).phrase.flatten.pieces := by
    rw [phrase, phrases_eq_map, Phrase.pieces_flatten_sequence, means]
  constructor
  case loose => exact ⟨read, adds, phrases⟩
  case operand =>
    refine ⟨.choice [.sequence read], ?_, ?_, fun _ => rfl⟩
    · rw [lexemes, Lexeme.groupIf, if_pos rfl, Lexeme.signs_group]
      exact adds.offers.adds
    · rw [Phrase.flatten_choice_singleton, Phrase.flatten_sequence_of_spread phrases]

/-- A part with a quantifier is read as a repetition of the part. -/
theorem Spells.quantified {item : Expr} (spells : item.Spells) (quantifier : Quantifier) :
    (quantified quantifier item).Spells := by
  obtain ⟨read, adds, means, bare⟩ := spells.operand
  -- A part that ends in a mark of its own is read as a group of it.
  obtain ⟨primary, addsPrimary, meansPrimary, barePrimary⟩ : ∃ primary,
      Adds (signs (Lexeme.groupIf item.isQuantified (item.lexemes false true))) [primary] ∧
        primary.flatten = item.phrase.flatten ∧ primary.isRepeated = false := by
    cases marked : item.isQuantified with
    | false => exact ⟨read, adds, means, bare marked⟩
    | true =>
      refine ⟨.choice [.sequence [read]], ?_, ?_, rfl⟩
      · rw [Lexeme.groupIf, if_pos rfl, Lexeme.signs_group]
        exact adds.offers.adds
      · have spread : Phrase.spread [read] = item.phrase.flatten.pieces := by
          simp [Phrase.spread, means]
        rw [Phrase.flatten_choice_singleton, Phrase.flatten_sequence_of_spread spread]
  refine @Spells.of_operand _ (.repeated quantifier primary) rfl ?_ ?_ ?_
  · simp only [lexemes, Lexeme.signs_append]
    exact addsPrimary.mark barePrimary quantifier
  · simp only [phrase, Phrase.flatten, meansPrimary]
  · simp [isQuantified]

/-- What can be printed is read as what it says. -/
theorem spells_of_printable {expr : Expr} (printable : Throughout Printable [expr]) :
    expr.Spells := by
  induction expr using Expr.inductionOn with
  | token | terminal | aliased | label | reference => exact .of_word (fun _ => rfl) rfl rfl
  | tokens texts =>
    refine @Spells.of_choice _ (texts.map .token) ?_ ?_ ?_ ?_
    · intro operand
      rw [lexemes_tokens, lexemes, Lexeme.groupIf, if_pos (by rfl)]
    · rw [phrase_tokens, phrase, phrases_eq_map]
    · exact (throughout_choice.mp (printable_tokens printable)).1
    · intro item member
      obtain ⟨text, -, rfl⟩ := List.mem_map.mp member
      exact .of_word (fun _ => rfl) rfl rfl
  | sequence items inductionHypothesis =>
    obtain ⟨-, parts⟩ := throughout_sequence.mp printable
    exact .of_sequence fun item member =>
      inductionHypothesis item member (throughout_of_mem parts member)
  | choice items inductionHypothesis =>
    obtain ⟨offered, parts⟩ := throughout_choice.mp printable
    refine .of_choice ?_ ?_ offered fun item member =>
      inductionHypothesis item member (throughout_of_mem parts member)
    · intro operand
      rw [lexemes, Lexeme.groupIf, if_pos (by rfl)]
    · rw [phrase, phrases_eq_map]
  | list item separator => exact (printable (.list item separator) (.head _)).elim
  | quantified quantifier item inductionHypothesis =>
    exact (inductionHypothesis (throughout_quantified.mp printable).2).quantified quantifier
  | foreign shown kind => exact (printable (.foreign shown kind) (.head _)).elim

/-- A whole choice is read as its alternatives. -/
theorem read_choice {items : List Expr} (printable : Throughout Printable [choice items]) :
    ∃ read, Phrase.read (signs ((choice items).lexemes true false)) = some read ∧
      read.flatten = (choice items).phrase.flatten := by
  obtain ⟨offered, parts⟩ := throughout_choice.mp printable
  obtain ⟨choices, offers, means⟩ := spells_alternatives offered fun item member =>
    spells_of_printable (throughout_of_mem parts member)
  refine ⟨.choice choices, offers.read, ?_⟩
  rw [phrase, phrases_eq_map, Phrase.flatten_choice, Phrase.flatten_choice, means]

/-- A whole body that is printed as it is beside other parts is read as what it says. -/
theorem read_loose {expr : Expr} (printable : Throughout Printable [expr])
    (same : expr.lexemes true false = expr.lexemes false false) :
    ∃ read, Phrase.read (signs (expr.lexemes true false)) = some read ∧
      read.flatten = expr.phrase.flatten := by
  obtain ⟨items, adds, means⟩ := (spells_of_printable printable).loose
  refine ⟨.choice [.sequence items], same ▸ adds.offers.read, ?_⟩
  rw [Phrase.flatten_choice_singleton, Phrase.flatten_sequence_of_spread means]

/-- A whole body that can be printed is read as what it says. -/
theorem read_lexemes {expr : Expr} (printable : Throughout Printable [expr]) :
    ∃ read, Phrase.read (signs (expr.lexemes true false)) = some read ∧
      read.flatten = expr.phrase.flatten := by
  cases expr with
  | choice items => exact read_choice printable
  | tokens texts =>
    rw [lexemes_tokens, phrase_tokens]
    exact read_choice (printable_tokens printable)
  | _ => exact read_loose printable rfl

/-- A mark after parentheses applies to all that is in them. -/
example :
    Phrase.read (signs
        ((quantified .zeroOrMore (.sequence [.token "a", .reference "b"])).lexemes true false))
      = some (.choice [.sequence [.repeated .zeroOrMore
          (.choice [.sequence [.word (.token "a"), .word (.rule "b")]])]]) :=
  rfl

end Expr

end GrammarView
