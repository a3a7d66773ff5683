import GrammarView.Grammar.Validation
import GrammarView.Listing.Plain
import GrammarView.Proofs.CollapsedListing
import GrammarView.Proofs.Formats

/-!
# Alternatives of written rules

A written rule can be split into its alternatives again. They are joined by a new line, blanks that
reach to the end of the defining mark, and a bar. The blanks depend on the width of the name, but
splitting does not need to know how many they are: it drops the blanks at both ends of a line and
then the bar. So nothing is lost but the blanks at the ends of the lines behind the first one.
-/

namespace GrammarView

/-- The two ways in which rules are written, the second one with names of rules replaced or not. -/
inductive Style where
  | plain
  | hypertext (collapsed : Bool)

namespace Style

/-- The printed form of a rule. -/
def production (style : Style) (grammar : RuleSet) (rule : Rule) : Production :=
  match style with
  | plain => Plain.production grammar rule
  | hypertext collapsed => Html.production grammar collapsed rule

/-- The name of a rule as it is written. -/
def showName (style : Style) (name : String) : String :=
  match style with
  | plain => name
  | hypertext _ => (Html.spanRule name).write

/-- The width in which the name of a rule is shown. -/
def nameWidth (style : Style) (name : String) : Nat :=
  match style with
  | plain => name.length
  | hypertext _ => name.length + 2

/-- An alternative as it is written. -/
def spellAll (style : Style) (lexemes : List Lexeme) : String :=
  match style with
  | plain => Plain.spellAll lexemes
  | hypertext _ => Markup.writeAll (lexemes.map Html.spell)

/-- A written rule. -/
def write (style : Style) (production : Production) : String :=
  match style with
  | plain => Plain.write production
  | hypertext _ => Markup.writeAll (Html.trees production)

/-- The written alternatives of a rule. -/
def alternatives (style : Style) (grammar : RuleSet) (rule : Rule) : List (List Char) :=
  (style.production grammar rule).alternatives.map fun lexemes => (style.spellAll lexemes).toList

end Style

section Writing

/-- Trees with some between each two are written with what is written of those between. -/
theorem writeTrees_intercalate (between : List Markup) (lists : List (List Markup)) :
    Markup.writeTrees (between.intercalate lists)
      = (Markup.writeTrees between).intercalate (lists.map Markup.writeTrees) := by
  induction lists with
  | nil => rfl
  | cons first rest inductionHypothesis =>
    cases rest with
    | nil => simp
    | cons next more =>
      rw [List.intercalate_cons_cons, writeTrees_append, writeTrees_append, inductionHypothesis]
      exact List.intercalate_cons_cons.symm

/-- The right-hand side of a production is written as its alternatives, joined. -/
theorem writeTrees_rightSide (production : Production) :
    Markup.writeTrees (Html.rightSide production)
      = (Production.continuation (production.name.length + 2)).toList.intercalate
        (production.alternatives.map fun lexemes => Markup.writeTrees (lexemes.map Html.spell)) := by
  rw [Html.rightSide, writeTrees_intercalate, writeTrees_written, List.map_map]
  rfl

/-- A written rule is its name, the sign that defines it, and its joined alternatives. -/
theorem Style.toList_write (style : Style) (grammar : RuleSet) (rule : Rule) :
    (style.write (style.production grammar rule)).toList
      = (style.showName rule.name).toList ++ Production.defines.toList
        ++ (Production.continuation (style.nameWidth rule.name)).toList.intercalate
          (style.alternatives grammar rule) := by
  cases style with
  | plain =>
    simp only [write, Plain.write, String.toList_append, String.toList_intercalate, List.map_map]
    rfl
  | hypertext collapsed =>
    have spelled : (hypertext collapsed).alternatives grammar rule
        = (Html.production grammar collapsed rule).alternatives.map fun lexemes =>
          Markup.writeTrees (lexemes.map Html.spell) := by
      simp only [alternatives, production, spellAll, Markup.writeAll, String.toList_ofList]
    simp only [write, production, showName, nameWidth, spelled, Markup.writeAll, Markup.write,
      String.toList_ofList, Html.trees_eq, Markup.writeTrees, Markup.writeTree,
      writeTrees_rightSide, List.append_assoc]
    rfl

end Writing

section Splitting

variable {shown mark rest : List Char}

/-- What follows a mark that does not occur before. -/
theorem afterFirst_append (some : mark ≠ [])
    (ends : ∀ before after, shown ++ mark = before ++ mark ++ after → after = []) :
    afterFirst mark (shown ++ mark ++ rest) = rest := by
  induction shown with
  | nil =>
    obtain ⟨first, others, rfl⟩ := List.exists_cons_of_ne_nil some
    simp [afterFirst]
  | cons character shown inductionHypothesis =>
    have later : ¬ mark <+: character :: (shown ++ mark ++ rest) := by
      -- A mark here would lie within what is shown and its mark, as it is no longer than these.
      intro here
      have inside : mark <+: character :: (shown ++ mark) :=
        List.prefix_of_prefix_length_le here (List.prefix_append (character :: (shown ++ mark)) rest)
          (by simp; omega)
      obtain ⟨after, same⟩ := inside
      have none := ends [] after same.symm
      rw [none, List.append_nil] at same
      have lengths := congrArg List.length same
      simp at lengths
      omega
    have endsLater : ∀ before after, shown ++ mark = before ++ mark ++ after → after = [] :=
      fun before after same => ends (character :: before) after (congrArg (character :: ·) same)
    rw [List.cons_append, List.cons_append, afterFirst, if_neg (by simpa using later),
      inductionHypothesis endsLater]

/-- A mark that first occurs at the end of a text occurs only there. -/
theorem eq_nil_of_afterFirst {text : List Char} (some : mark ≠ []) (first : afterFirst mark text = [])
    {before after : List Char} (occurs : text = before ++ mark ++ after) : after = [] := by
  induction before generalizing text with
  | nil =>
    obtain ⟨head, tail, rfl⟩ := List.exists_cons_of_ne_nil some
    subst occurs
    simpa [afterFirst] using first
  | cons character before inductionHypothesis =>
    subst occurs
    rw [List.cons_append, List.cons_append, afterFirst] at first
    split at first
    · have lengths := congrArg List.length first
      simp at lengths
      omega
    · exact inductionHypothesis first rfl

/-- The lines of a text are what is between its line feeds. -/
theorem linesOf_eq_splitOn (characters : List Char) :
    linesOf characters = characters.splitOn '\n' := by
  induction characters with
  | nil => rfl
  | cons character rest inductionHypothesis =>
    obtain ⟨line, lines, same⟩ := List.exists_cons_of_ne_nil (linesOf_ne_nil rest)
    rw [linesOf, List.splitOn_cons_eq_if_modifyHead, ← inductionHypothesis, same]
    simp

/-- Joined lists that begin with one of two parts begin with that part. -/
theorem intercalate_append_cons (between front first : List Char) (others : List (List Char)) :
    between.intercalate ((front ++ first) :: others)
      = front ++ between.intercalate (first :: others) := by
  cases others <;> simp

/-- A line behind the first one, before it is trimmed. -/
def continued (width : Nat) (alternative : List Char) : List Char :=
  List.replicate (width + 3) ' ' ++ ['|', ' '] ++ alternative

/-- Joined alternatives are lines. -/
theorem intercalate_continuation (width : Nat) (first : List Char) (others : List (List Char)) :
    (Production.continuation width).toList.intercalate (first :: others)
      = ['\n'].intercalate (first :: others.map (continued width)) := by
  induction others generalizing first with
  | nil => simp
  | cons next others inductionHypothesis =>
    rw [List.intercalate_cons_cons, inductionHypothesis, List.map_cons, List.intercalate_cons_cons,
      continued, intercalate_append_cons, toList_continuation]
    simp

/-- Without the blanks at its ends and the bar, a line is the alternative in it without the blanks
at its end. -/
theorem drop_trimBlanks_continued (width : Nat) (alternative : List Char) :
    (trimBlanks (continued width alternative)).drop 2 = dropTrailingBlanks alternative := by
  have bar : trimBlanks (continued width alternative)
      = '|' :: dropTrailingBlanks (' ' :: alternative) := by
    rw [continued]
    induction width + 3 with
    | zero => exact Source.trimBlanks_cons rfl _
    | succ count inductionHypothesis =>
      exact (Source.trimBlanks_cons_of_blank rfl _).trans inductionHypothesis
  have blank : (dropTrailingBlanks (' ' :: alternative)).drop 1 = dropTrailingBlanks alternative := by
    have space : isBlank ' ' = true := rfl
    rw [dropTrailingBlanks, dropTrailingBlanks, List.reverse_cons, List.dropWhile_append]
    split
    case isTrue none => simp [List.isEmpty_iff.mp none, space]
    case isFalse => simp
  rw [bar, List.drop_succ_cons, blank]

end Splitting

/-- Splitting a written rule gives its alternatives, all but the first one without the blanks at
their ends. No alternative may hold a line feed, and the written name no defining mark, not even one
that shares characters with the mark behind the name. -/
theorem split_written_rule (style : Style) (grammar : RuleSet) (rule : Rule) {first : List Char}
    {others : List (List Char)} (offered : style.alternatives grammar rule = first :: others)
    (inLine : ∀ alternative ∈ first :: others, '\n' ∉ alternative)
    (ends : ∀ before after, (style.showName rule.name).toList ++ Production.defines.toList
      = before ++ Production.defines.toList ++ after → after = []) :
    splitAlternatives (style.write (style.production grammar rule)).toList
      = first :: others.map dropTrailingBlanks := by
  have lines : ∀ line ∈ first :: others.map (continued (style.nameWidth rule.name)),
      '\n' ∉ line := by
    obtain ⟨here, later⟩ := List.forall_mem_cons.mp inLine
    refine List.forall_mem_cons.mpr ⟨here, List.forall_mem_map.mpr fun alternative member => ?_⟩
    simp [continued, later alternative member]
  rw [style.toList_write, offered, splitAlternatives, afterFirst_append (by decide) ends,
    intercalate_continuation, linesOf_eq_splitOn,
    List.splitOn_intercalate '\n' lines (List.cons_ne_nil _ _)]
  simp only [List.map_map, Function.comp_def, drop_trimBlanks_continued]

/-- A rule with a part of the defining mark in its name, an alternative of nothing, and one with a
bar and blanks at its ends. -/
def spacedAlternatives : Entries Json :=
  [("a::=", .obj [("choice", .arr [.obj [("terminal", .str "b ")], .obj [("sequence", .arr [])],
    .obj [("terminal", .str " | c \u00a0")]])])]

/-- The rule with the alternatives. -/
def spacedRule : Rule :=
  ⟨"a::=", .choice [.terminal "b ", .sequence [], .terminal " | c \u00a0"], some false, true, none,
    none, [], []⟩

/-- Only the last alternative loses its blanks, and only those at its end. -/
theorem spaced_alternatives_split :
    validate spacedAlternatives false = .ok ⟨[spacedRule]⟩ ∧
      Style.plain.alternatives ⟨[spacedRule]⟩ spacedRule
        = ["b ".toList, "".toList, " | c \u00a0".toList] ∧
      splitAlternatives (Style.plain.write (Style.plain.production ⟨[spacedRule]⟩ spacedRule)).toList
        = ["b ".toList, "".toList, " | c".toList] := by
  have offered : Style.plain.alternatives ⟨[spacedRule]⟩ spacedRule
      = ["b ".toList, "".toList, " | c \u00a0".toList] := by cbv
  have inLine : ∀ alternative ∈ ["b ".toList, "".toList, " | c \u00a0".toList],
      '\n' ∉ alternative := by decide
  refine ⟨by cbv, offered, ?_⟩
  rw [split_written_rule .plain ⟨[spacedRule]⟩ spacedRule offered inLine
    fun before after => eq_nil_of_afterFirst (by decide) (by decide +kernel)]
  decide +kernel

end GrammarView
