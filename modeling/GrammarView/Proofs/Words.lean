import GrammarView.Listing.Production
import GrammarView.Proofs.Expressions

/-!
# Words in printed expressions

A printed expression holds the words of its parts and no others, and the lexemes of each of its
parts stand side by side in it.
-/

namespace GrammarView

/-- A list that is joined with others stands in the whole. -/
theorem infix_intercalate {α : Type} {between list : List α} {lists : List (List α)}
    (listed : list ∈ lists) : list <:+: between.intercalate lists := by
  induction lists with
  | nil => contradiction
  | cons first rest inductionHypothesis =>
    cases rest with
    | nil =>
      obtain rfl := List.mem_singleton.mp listed
      simp only [List.intercalate_singleton, List.infix_rfl]
    | cons next more =>
      rw [List.intercalate_cons_cons]
      rcases List.mem_cons.mp listed with rfl | later
      · exact ((List.prefix_append list between).trans (List.prefix_append _ _)).isInfix
      · exact (inductionHypothesis later).trans (List.suffix_append _ _).isInfix

/-- What stands in joined lists and not between them stands in one of the lists. -/
theorem exists_mem_of_mem_intercalate {α : Type} {item : α} {between : List α}
    {lists : List (List α)} (other : item ∉ between) (member : item ∈ between.intercalate lists) :
    ∃ list ∈ lists, item ∈ list := by
  induction lists with
  | nil => contradiction
  | cons first rest inductionHypothesis =>
    cases rest with
    | nil =>
      rw [List.intercalate_singleton] at member
      exact ⟨first, .head _, member⟩
    | cons next more =>
      rw [List.intercalate_cons_cons] at member
      rcases List.mem_append.mp member with before | later
      · have here := (List.mem_append.mp before).resolve_right other
        exact ⟨first, .head _, here⟩
      · obtain ⟨list, listed, found⟩ := inductionHypothesis later
        exact ⟨list, .tail _ listed, found⟩

/-- Joined lists, item by item. -/
theorem map_intercalate {α β : Type} (f : α → β) (between : List α) (lists : List (List α)) :
    (between.intercalate lists).map f = (between.map f).intercalate (lists.map (List.map f)) := by
  induction lists with
  | nil => rfl
  | cons first rest inductionHypothesis =>
    cases rest with
    | nil => simp only [List.map_cons, List.map_nil, List.intercalate_singleton]
    | cons next more =>
      simp only [List.intercalate_cons_cons, List.map_append, inductionHypothesis, List.map_cons]

namespace Lexeme

/-- Whether a lexeme is a word, and no punctuation. -/
def isWord : Lexeme → Bool
  | .rule _ | .token _ | .terminal _ | .unknown _ => true
  | _ => false

variable {lexeme between : Lexeme} {lexemes : List Lexeme} {lists : List (List Lexeme)}

/-- Parentheses hold no word but those inside them. -/
theorem mem_of_mem_groupIf {needed : Bool} (word : lexeme.isWord = true)
    (member : lexeme ∈ groupIf needed lexemes) : lexeme ∈ lexemes := by
  cases needed with
  | false => exact member
  | true =>
    have places : lexeme ∈ .opening :: lexemes ++ [.closing] := member
    rcases List.mem_append.mp places with before | after
    · rcases List.mem_cons.mp before with rfl | inside
      · contradiction
      · exact inside
    · obtain rfl := List.mem_singleton.mp after
      contradiction

/-- Lexemes stand side by side in parentheses around them. -/
theorem infix_groupIf (needed : Bool) : lexemes <:+: groupIf needed lexemes := by
  cases needed with
  | false => exact List.infix_rfl
  | true => exact ⟨[.opening], [.closing], rfl⟩

/-- Joined lexemes hold no word but those that are joined. -/
theorem exists_mem_of_mem_joined (word : lexeme.isWord = true) (mark : between.isWord = false)
    (member : lexeme ∈ [between].intercalate lists) : ∃ list ∈ lists, lexeme ∈ list := by
  refine exists_mem_of_mem_intercalate ?_ member
  intro inside
  obtain rfl := List.mem_singleton.mp inside
  rw [mark] at word
  contradiction

end Lexeme

namespace Expr

/-- The lexemes of several expressions are those of each. -/
theorem lexemesOfAll_eq_map (items : List Expr) :
    lexemesOfAll items = items.map (lexemes false false) := by
  induction items with
  | nil => rfl
  | cons item rest inductionHypothesis => simp [lexemesOfAll, inductionHypothesis]

/-- The words that an expression has beside those of the expressions inside it. -/
def words : Expr → List Lexeme
  | .token text => [.token text]
  | .terminal text => [.terminal text]
  | .aliased text => [.rule text]
  | .label text => [.rule text]
  | .reference name => [.rule name]
  | .tokens texts => texts.map .token
  | .list item _ => [.rule item]
  | .foreign shown _ => [.unknown shown]
  | .sequence _ | .choice _ | .quantified _ _ => []

section Items

variable {items : List Expr} {between : Lexeme} {needed : Bool}

/-- Every word of joined items is a word of a part of them, when that is so for each item. -/
theorem exists_part_of_mem_joined {lexeme : Lexeme} (word : lexeme.isWord = true)
    (mark : between.isWord = false)
    (inside : ∀ item ∈ items, lexeme ∈ item.lexemes false false →
      ∃ part ∈ item.parts, lexeme ∈ part.words)
    (printed : lexeme ∈ Lexeme.groupIf needed ([between].intercalate (lexemesOfAll items))) :
    ∃ part ∈ partsOfAll items, lexeme ∈ part.words := by
  have joined := Lexeme.mem_of_mem_groupIf word printed
  rw [lexemesOfAll_eq_map] at joined
  obtain ⟨list, listed, found⟩ := Lexeme.exists_mem_of_mem_joined word mark joined
  obtain ⟨item, itemMember, rfl⟩ := List.mem_map.mp listed
  obtain ⟨part, partMember, own⟩ := inside item itemMember found
  exact ⟨part, mem_partsOfAll.mpr ⟨item, itemMember, partMember⟩, own⟩

/-- An item is printed side by side somewhere in what is printed of joined items. -/
theorem lexemes_infix_joined {item : Expr} (listed : item ∈ items) :
    item.lexemes false false <:+:
      Lexeme.groupIf needed ([between].intercalate (lexemesOfAll items)) := by
  rw [lexemesOfAll_eq_map]
  have joined : item.lexemes false false <:+:
      [between].intercalate (items.map (lexemes false false)) :=
    infix_intercalate (List.mem_map_of_mem listed)
  exact joined.trans (Lexeme.infix_groupIf needed)

end Items

/-- Every word of a printed expression is a word of a part of it. -/
theorem exists_part_of_mem_lexemes {expr : Expr} {lexeme : Lexeme} (word : lexeme.isWord = true)
    {whole operand : Bool} (member : lexeme ∈ expr.lexemes whole operand) :
    ∃ part ∈ expr.parts, lexeme ∈ part.words := by
  induction expr using Expr.inductionOn generalizing whole operand with
  | token | terminal | aliased | label | reference | foreign => exact ⟨_, .head _, member⟩
  | tokens texts =>
    have joined := Lexeme.mem_of_mem_groupIf word member
    obtain ⟨list, listed, found⟩ := Lexeme.exists_mem_of_mem_joined word rfl joined
    obtain ⟨text, textMember, rfl⟩ := List.mem_map.mp listed
    obtain rfl := List.mem_singleton.mp found
    exact ⟨_, .head _, List.mem_map_of_mem textMember⟩
  | sequence items inductionHypothesis =>
    obtain ⟨part, partMember, own⟩ :=
      exists_part_of_mem_joined word rfl (fun item listed => inductionHypothesis item listed) member
    exact ⟨part, .tail _ partMember, own⟩
  | choice items inductionHypothesis =>
    obtain ⟨part, partMember, own⟩ :=
      exists_part_of_mem_joined word rfl (fun item listed => inductionHypothesis item listed) member
    exact ⟨part, .tail _ partMember, own⟩
  | list item separator inductionHypothesis =>
    rcases List.mem_append.mp (Lexeme.mem_of_mem_groupIf word member) with repeated | last
    · have inside := @Lexeme.mem_of_mem_groupIf _ _ true word repeated
      rcases List.mem_cons.mp inside with rfl | further
      · exact ⟨_, .head _, .head _⟩
      · rcases List.mem_cons.mp further with rfl | separated
        · contradiction
        · obtain ⟨part, partMember, own⟩ := inductionHypothesis separated
          exact ⟨part, .tail _ partMember, own⟩
    · simp only [List.mem_cons, List.not_mem_nil, or_false] at last
      rcases last with rfl | rfl | rfl
      · contradiction
      · contradiction
      · exact ⟨_, .head _, .head _⟩
  | quantified quantifier item inductionHypothesis =>
    rcases List.mem_append.mp member with inside | mark
    · obtain ⟨part, partMember, own⟩ :=
        inductionHypothesis (Lexeme.mem_of_mem_groupIf word inside)
      exact ⟨part, .tail _ partMember, own⟩
    · obtain rfl := List.mem_singleton.mp mark
      contradiction

/-- A part of an expression is printed side by side somewhere in what is printed of the whole. -/
theorem lexemes_infix {part expr : Expr} (inside : part ∈ expr.parts) (whole operand : Bool) :
    ∃ partWhole partOperand,
      part.lexemes partWhole partOperand <:+: expr.lexemes whole operand := by
  induction expr using Expr.inductionOn generalizing whole operand with
  | token | terminal | aliased | label | reference | foreign | tokens =>
    obtain rfl := List.mem_singleton.mp inside
    exact ⟨whole, operand, List.infix_rfl⟩
  | sequence items inductionHypothesis =>
    rcases List.mem_cons.mp inside with rfl | within
    · exact ⟨whole, operand, List.infix_rfl⟩
    · obtain ⟨item, listed, partMember⟩ := mem_partsOfAll.mp within
      obtain ⟨partWhole, partOperand, found⟩ :=
        inductionHypothesis item listed partMember false false
      exact ⟨partWhole, partOperand, found.trans (lexemes_infix_joined listed)⟩
  | choice items inductionHypothesis =>
    rcases List.mem_cons.mp inside with rfl | within
    · exact ⟨whole, operand, List.infix_rfl⟩
    · obtain ⟨item, listed, partMember⟩ := mem_partsOfAll.mp within
      obtain ⟨partWhole, partOperand, found⟩ :=
        inductionHypothesis item listed partMember false false
      exact ⟨partWhole, partOperand, found.trans (lexemes_infix_joined listed)⟩
  | list item separator inductionHypothesis =>
    rcases List.mem_cons.mp inside with rfl | within
    · exact ⟨whole, operand, List.infix_rfl⟩
    · obtain ⟨partWhole, partOperand, found⟩ := inductionHypothesis within false false
      have separated : separator.lexemes false false <:+:
          Lexeme.group (.rule item :: .gap :: separator.lexemes false false)
            ++ [.mark .zeroOrMore, .gap, .rule item] :=
        ⟨[.opening, .rule item, .gap], [.closing, .mark .zeroOrMore, .gap, .rule item],
          by simp [Lexeme.group]⟩
      have listed := separated.trans (Lexeme.infix_groupIf operand)
      exact ⟨partWhole, partOperand, found.trans listed⟩
  | quantified quantifier item inductionHypothesis =>
    rcases List.mem_cons.mp inside with rfl | within
    · exact ⟨whole, operand, List.infix_rfl⟩
    · obtain ⟨partWhole, partOperand, found⟩ := inductionHypothesis within false true
      have marked : item.lexemes false true <:+:
          (quantified quantifier item).lexemes whole operand :=
        (Lexeme.infix_groupIf item.isQuantified).trans (List.prefix_append _ _).isInfix
      exact ⟨partWhole, partOperand, found.trans marked⟩

/-- The words that an expression has are no punctuation. -/
theorem isWord_of_mem_words {expr : Expr} {word : Lexeme} (own : word ∈ expr.words) :
    word.isWord = true := by
  cases expr with
  | tokens texts =>
    obtain ⟨text, -, rfl⟩ := List.mem_map.mp own
    rfl
  | sequence | choice | quantified => contradiction
  | _ =>
    obtain rfl := List.mem_singleton.mp own
    rfl

/-- The words that an expression has itself are printed of it. -/
theorem mem_lexemes_of_mem_words {expr : Expr} {word : Lexeme} {whole operand : Bool}
    (own : word ∈ expr.words) : word ∈ expr.lexemes whole operand := by
  cases expr with
  | tokens texts =>
    obtain ⟨text, listed, rfl⟩ := List.mem_map.mp own
    have joined : [Lexeme.token text] <:+:
        [Lexeme.bar].intercalate (texts.map fun text => [.token text]) :=
      infix_intercalate (List.mem_map_of_mem listed)
    exact (joined.trans (Lexeme.infix_groupIf _)).subset (.head _)
  | list item separator =>
    obtain rfl := List.mem_singleton.mp own
    refine (Lexeme.infix_groupIf operand).subset (List.mem_append_right _ ?_)
    exact .tail _ (.tail _ (.head _))
  | sequence | choice | quantified => contradiction
  | _ => exact own

/-- The words of all parts of an expression are printed of it. -/
theorem mem_lexemes_of_mem_collect {expr : Expr} {word : Lexeme} {whole operand : Bool}
    (has : word ∈ collect words [expr]) : word ∈ expr.lexemes whole operand := by
  obtain ⟨part, inside, own⟩ := mem_collect_singleton.mp has
  obtain ⟨partWhole, partOperand, found⟩ := lexemes_infix inside whole operand
  exact found.subset (mem_lexemes_of_mem_words own)

end Expr

end GrammarView
