import GrammarView.Listing.Html
import GrammarView.Proofs.Lexemes
import GrammarView.Proofs.MarkupReader

/-!
# Reading written listings

How the characters of a written production are read: a span is an atom with the text that was
escaped in it, the punctuation between the spans are the other signs, and blanks and new lines only
keep them apart.
-/

namespace GrammarView

/-- The sign of a character between the spans. -/
def Sign.ofCharacter? : Char → Option Sign
  | '|' => some .bar
  | '(' => some .opening
  | ')' => some .closing
  | '?' => some (.mark .zeroOrOne)
  | '*' => some (.mark .zeroOrMore)
  | '+' => some (.mark .oneOrMore)
  | _ => none

/-- The classes of the spans that are atoms. -/
def Atom.classNames : List String :=
  ["rule", "token", "terminal"]

/-- The class of a span, by what stands between the brackets that open it. -/
def Atom.classNameOf? (tag : List Char) : Option String :=
  classNames.find? fun className => tag = "span class=\"".toList ++ className.toList ++ ['"']

/-- Where in a written production the reader is. -/
inductive Mode where
  /-- Between the spans. -/
  | between
  /-- In the brackets that open a span. -/
  | tag (written : List Char)
  /-- In a span. -/
  | content (className : String) (written : List Char)
  /-- In the brackets that close a span. -/
  | ending (atom : Atom) (written : List Char)

/-- The signs that characters spell, if they spell any. -/
def scan : Mode → List Char → Option (List Sign)
  | .between, [] => some []
  | .between, ':' :: ':' :: '=' :: rest => (scan .between rest).map (.defines :: ·)
  | .between, '<' :: rest => scan (.tag []) rest
  | .between, ' ' :: rest => scan .between rest
  | .between, '\n' :: rest => scan .between rest
  | .between, character :: rest =>
    match Sign.ofCharacter? character with
    | some sign => (scan .between rest).map (sign :: ·)
    | none => none
  | .tag written, '>' :: rest =>
    match Atom.classNameOf? written with
    | some className => scan (.content className []) rest
    | none => none
  | .tag written, character :: rest => scan (.tag (written ++ [character])) rest
  | .content className written, '<' :: rest =>
    match Markup.unescaped? written with
    | some content => scan (.ending ⟨className, String.ofList content⟩ []) rest
    | none => none
  | .content className written, character :: rest =>
    scan (.content className (written ++ [character])) rest
  | .ending atom written, '>' :: rest =>
    if written = "/span".toList then (scan .between rest).map (.atom atom :: ·) else none
  | .ending atom written, character :: rest => scan (.ending atom (written ++ [character])) rest
  | _, [] => none

/-- Characters that are read as signs wherever they stand between the spans. -/
def Scans (characters : List Char) (signs : List Sign) : Prop :=
  ∀ rest, scan .between (characters ++ rest) = (scan .between rest).map (signs ++ ·)

/-- No characters are no signs. -/
theorem scans_nil : Scans [] [] := by
  intro rest
  simp

/-- Characters one after the other are read one after the other. -/
theorem Scans.append {first others : List Char} {signs further : List Sign}
    (firstScans : Scans first signs) (othersScans : Scans others further) :
    Scans (first ++ others) (signs ++ further) := by
  intro rest
  rw [List.append_assoc, firstScans, othersScans, Option.map_map]
  simp [Function.comp_def]

/-- The signs of a text that ends there. -/
theorem Scans.scan {characters : List Char} {signs : List Sign} (scans : Scans characters signs) :
    GrammarView.scan .between characters = some signs := by
  have whole := scans []
  rwa [List.append_nil, GrammarView.scan, Option.map_some, List.append_nil] at whole

/-- The content of a span goes on to the bracket that ends it. -/
theorem scan_content (className : String) (written : List Char) {characters : List Char}
    (inside : '<' ∉ characters) (rest : List Char) :
    scan (.content className written) (characters ++ '<' :: rest)
      = scan (.content className (written ++ characters)) ('<' :: rest) := by
  induction characters generalizing written with
  | nil => rw [List.nil_append, List.append_nil]
  | cons character more inductionHypothesis =>
    obtain ⟨different, others⟩ := not_or.mp (mt List.mem_cons.mpr inside)
    have collected : scan (.content className written) (character :: (more ++ '<' :: rest))
        = scan (.content className (written ++ [character])) (more ++ '<' :: rest) := by
      rw [scan]
      exact fun same => different same.symm
    rw [List.cons_append, collected, inductionHypothesis _ others, List.append_assoc,
      List.singleton_append]

/-- The brackets that open a span of a known class lead into it. -/
theorem scan_tag {className : String} (known : className ∈ Atom.classNames) (rest : List Char) :
    scan .between
        ('<' :: "span".toList ++ Markup.writeAttribute ("class", className) ++ '>' :: rest)
      = scan (.content className []) rest := by
  simp only [Atom.classNames, List.mem_cons, List.not_mem_nil, or_false] at known
  rcases known with rfl | rfl | rfl <;> rfl

/-- The brackets that close a span lead out of it. -/
theorem scan_ending (atom : Atom) (rest : List Char) :
    scan (.ending atom []) ('/' :: "span".toList ++ '>' :: rest)
      = (scan .between rest).map (.atom atom :: ·) :=
  rfl

/-- A span that is not empty is written as its content between brackets. -/
theorem write_span (className : String) {content : String} (filled : content ≠ "") :
    Markup.writeTree (Html.span className content)
      = '<' :: "span".toList ++ Markup.writeAttribute ("class", className)
          ++ '>' :: (Markup.escape content ++ '<' :: ('/' :: "span".toList ++ ['>'])) := by
  have some : Markup.escape content ≠ [] := mt Markup.escape_eq_nil_iff.mp filled
  simp [Html.span, Markup.writeTree, Markup.writeTrees, Markup.enclose, some]

/-- A span of a known class is read as an atom with its text. -/
theorem scans_span {className content : String} (known : className ∈ Atom.classNames)
    (filled : content ≠ "") :
    Scans (Markup.writeTree (Html.span className content)) [.atom ⟨className, content⟩] := by
  intro rest
  calc scan .between (Markup.writeTree (Html.span className content) ++ rest)
    _ = scan .between ('<' :: "span".toList ++ Markup.writeAttribute ("class", className)
          ++ '>' :: (Markup.escape content ++ '<' :: ('/' :: "span".toList ++ '>' :: rest))) := by
        rw [write_span className filled]
        simp
    _ = scan (.content className [])
          (Markup.escape content ++ '<' :: ('/' :: "span".toList ++ '>' :: rest)) :=
        scan_tag known _
    _ = scan (.ending ⟨className, content⟩ []) ('/' :: "span".toList ++ '>' :: rest) := by
        rw [scan_content className [] (Markup.less_not_mem_escape content), List.nil_append, scan,
          Markup.unescaped?_escape]
        simp only [String.ofList_toList]
    _ = (scan .between rest).map (.atom ⟨className, content⟩ :: ·) := scan_ending _ rest

/-- A lexeme of a known kind is read as its sign. -/
theorem scans_spell {lexeme : Lexeme} (known : ∀ shown, lexeme ≠ .unknown shown) :
    Scans (Markup.writeTree (Html.spell lexeme)) lexeme.sign?.toList := by
  have filled (first last inner : String) (some : first ≠ "") : first ++ inner ++ last ≠ "" := by
    simp [some]
  cases lexeme with
  | rule name => exact scans_span (by decide) (filled "<" ">" name (by decide))
  | token text => exact scans_span (by decide) (filled "'" "'" text (by decide))
  | terminal text => exact scans_span (by decide) (filled "[" "]" text (by decide))
  | unknown shown => exact absurd rfl (known shown)
  | gap =>
    intro rest
    exact Option.map_id'.symm
  | bar => exact fun rest => rfl
  | opening => exact fun rest => rfl
  | closing => exact fun rest => rfl
  | mark quantifier => cases quantifier <;> exact fun rest => rfl

/-- Trees one after the other are written one after the other. -/
theorem writeTrees_append (first others : List Markup) :
    Markup.writeTrees (first ++ others) = Markup.writeTrees first ++ Markup.writeTrees others := by
  induction first with
  | nil => rfl
  | cons tree rest inductionHypothesis => simp [Markup.writeTrees, inductionHypothesis]

/-- Lexemes of known kinds are read as their signs. -/
theorem scans_lexemes {lexemes : List Lexeme} (known : ∀ shown, .unknown shown ∉ lexemes) :
    Scans (Markup.writeTrees (lexemes.map Html.spell)) (Lexeme.signs lexemes) := by
  induction lexemes with
  | nil => exact scans_nil
  | cons lexeme rest inductionHypothesis =>
    have first : Scans (Markup.writeTree (Html.spell lexeme)) lexeme.sign?.toList :=
      scans_spell fun shown same => known shown (same ▸ .head _)
    have others := inductionHypothesis fun shown member => known shown (.tail _ member)
    have signs : Lexeme.signs (lexeme :: rest) = lexeme.sign?.toList ++ Lexeme.signs rest := by
      rw [Lexeme.signs, List.filterMap_cons, Lexeme.signs]
      cases lexeme.sign? <;> rfl
    rw [signs]
    exact first.append others

/-- What stands between two alternatives, character by character. -/
theorem toList_continuation (width : Nat) : (Production.continuation width).toList
    = '\n' :: List.replicate (width + 3) ' ' ++ ['|', ' '] := by
  rw [Production.continuation, String.toList_ofList]

/-- Nothing in what stands between two alternatives has to be escaped. -/
theorem isPlain_continuation (width : Nat) : Markup.IsPlain (Production.continuation width) := by
  intro character member
  rw [toList_continuation] at member
  rcases List.mem_append.mp member with before | bar
  · rcases List.mem_cons.mp before with rfl | blank
    · decide
    · obtain rfl := List.eq_of_mem_replicate blank
      decide
  · simp only [List.mem_cons, List.not_mem_nil, or_false] at bar
    rcases bar with rfl | rfl <;> decide

/-- A new line with a bar is read as a bar. -/
theorem scans_continuation (width : Nat) :
    Scans (Production.continuation width).toList [.bar] := by
  have blanks (count : Nat) : Scans (List.replicate count ' ') [] := by
    induction count with
    | zero => exact scans_nil
    | succ count inductionHypothesis => exact inductionHypothesis
  rw [toList_continuation]
  exact (blanks (width + 3)).append fun rest => rfl

/-- Verbatim characters alone are written as they are. -/
theorem writeTrees_written (content : String) :
    Markup.writeTrees [.written content] = content.toList :=
  List.append_nil _

/-- Alternatives below each other are read as alternatives with bars between them. -/
theorem scans_alternatives (width : Nat) {alternatives : List (List Lexeme)}
    (known : ∀ lexemes ∈ alternatives, ∀ shown, .unknown shown ∉ lexemes) :
    Scans
      (Markup.writeTrees ([Markup.written (Production.continuation width)].intercalate
        (alternatives.map fun lexemes => lexemes.map Html.spell)))
      (Lexeme.signs ([Lexeme.bar].intercalate alternatives)) := by
  induction alternatives with
  | nil => exact scans_nil
  | cons first rest inductionHypothesis =>
    obtain ⟨knownFirst, knownRest⟩ := List.forall_mem_cons.mp known
    cases rest with
    | nil => simpa using scans_lexemes knownFirst
    | cons next more =>
      rw [List.map_cons, List.map_cons, List.intercalate_cons_cons, writeTrees_append,
        writeTrees_append, writeTrees_written, List.append_assoc, Lexeme.signs_intercalate_bar]
      exact (scans_lexemes knownFirst).append
        ((scans_continuation width).append (inductionHypothesis knownRest))

/-- A written production is read as its name, the sign that defines it, and its alternatives. -/
theorem scans_production {production : Production}
    (known : ∀ lexemes ∈ production.alternatives, ∀ shown, .unknown shown ∉ lexemes) :
    Scans (Markup.writeTrees (Html.trees production))
      (.atom (.rule production.name) :: .defines
        :: Lexeme.signs ([Lexeme.bar].intercalate production.alternatives)) := by
  have name : Scans (Markup.writeTree (Html.spanRule production.name))
      [.atom (.rule production.name)] :=
    @scans_spell (.rule production.name) nofun
  have defines : Scans Production.defines.toList [.defines] := fun rest => rfl
  exact name.append (defines.append (scans_alternatives _ known))

/-- The name and the right-hand side that a written production is read as. -/
def readProduction (written : List Char) : Option (Atom × Phrase) :=
  match scan .between written with
  | some (.atom name :: .defines :: signs) => (Phrase.read signs).map (name, ·)
  | _ => none

end GrammarView
