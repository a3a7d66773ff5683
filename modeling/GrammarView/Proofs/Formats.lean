import GrammarView.Proofs.Calls

/-!
# Recognising a call

The first line that is neither blank nor a comment tells in which form a source is written. In
front of the name of a call stand only blanks and comment lines, so that line begins with the name,
and a name does not begin like a description.
-/

namespace GrammarView.Source

/-- Blanks and comment lines, which tell nothing about the form of what follows. -/
inductive Skipped : List Char → Prop where
  | nil : Skipped []
  | blank {space rest} (blank : isBlank space = true) (others : Skipped rest) :
      Skipped (space :: rest)
  | comment {remark rest} (line : '\n' ∉ remark) (others : Skipped rest) :
      Skipped ('/' :: '/' :: (remark ++ '\n' :: rest))

variable {skipped text commented : List Char} {first : Char}

/-- Blanks in front of what is skipped are skipped. -/
theorem Skipped.append {blanks : List Char} (blank : AllBlank blanks) (others : Skipped skipped) :
    Skipped (blanks ++ skipped) := by
  induction blanks with
  | nil => exact others
  | cons space blanks inductionHypothesis =>
    obtain ⟨here, behind⟩ := List.forall_mem_cons.mp blank
    exact .blank here (inductionHypothesis behind)

/-- In front of a character of the text there are only the blanks before it and comments. -/
theorem Commented.exists_skipped {atLineStart : Bool} {before rest : List Char}
    (blank : AllBlank before) (put : Commented atLineStart (before ++ first :: rest) commented) :
    ∃ skipped others, commented = skipped ++ first :: others ∧ Skipped skipped := by
  generalize whole : before ++ first :: rest = text at put
  induction put generalizing before with
  | nil => simp at whole
  | character others inductionHypothesis =>
    cases before with
    | nil =>
      cases whole
      exact ⟨[], _, rfl, .nil⟩
    | cons space before =>
      cases whole
      obtain ⟨here, behind⟩ := List.forall_mem_cons.mp blank
      obtain ⟨skipped, remaining, rfl, skips⟩ := inductionHypothesis behind rfl
      exact ⟨_ :: skipped, remaining, rfl, .blank here skips⟩
  | @comment text commented blanks remark commentBlank line others inductionHypothesis =>
    obtain ⟨skipped, remaining, rfl, skips⟩ := inductionHypothesis blank whole
    refine ⟨blanks ++ '/' :: '/' :: (remark ++ '\n' :: skipped), remaining, ?_,
      .append commentBlank (.comment line skips)⟩
    simp

section Trimming

/-- A character that is not blank stays with all that stands in front of it. -/
theorem dropTrailingBlanks_append (shown : isBlank first = false) (front rest : List Char) :
    dropTrailingBlanks (front ++ first :: rest) = front ++ first :: dropTrailingBlanks rest := by
  have kept : (rest.reverse ++ first :: front.reverse).dropWhile isBlank =
      rest.reverse.dropWhile isBlank ++ first :: front.reverse := by
    induction rest.reverse with
    | nil => simp [shown]
    | cons character characters inductionHypothesis =>
      by_cases blank : isBlank character = true
      · simpa [blank] using inductionHypothesis
      · simp [blank]
  have turned : (front ++ first :: rest).reverse = rest.reverse ++ first :: front.reverse := by simp
  rw [dropTrailingBlanks, turned, kept, dropTrailingBlanks]
  simp

/-- A line that begins with a character that is not blank still begins with it without blanks. -/
theorem trimBlanks_cons (shown : isBlank first = false) (rest : List Char) :
    trimBlanks (first :: rest) = first :: dropTrailingBlanks rest := by
  rw [trimBlanks, dropBlanks_cons_of_not_blank shown]
  exact dropTrailingBlanks_append shown [] rest

theorem trimBlanks_cons_of_blank {space : Char} (blank : isBlank space = true) (rest : List Char) :
    trimBlanks (space :: rest) = trimBlanks rest := by
  rw [trimBlanks, dropBlanks_cons_of_blank blank, trimBlanks]

/-- What is skipped in front of a character stays so when the blanks at the ends are dropped. -/
theorem Skipped.trim (skips : Skipped skipped) (shown : isBlank first = false) (rest : List Char) :
    ∃ remaining others, trimBlanks (skipped ++ first :: rest) = remaining ++ first :: others ∧
      Skipped remaining := by
  induction skips with
  | nil => exact ⟨[], _, trimBlanks_cons shown rest, .nil⟩
  | blank blank others inductionHypothesis =>
    obtain ⟨remaining, behind, trimmed, skips⟩ := inductionHypothesis
    exact ⟨remaining, behind, (trimBlanks_cons_of_blank blank _).trans trimmed, skips⟩
  | @comment remark skipped line others =>
    refine ⟨'/' :: '/' :: (remark ++ '\n' :: skipped), dropTrailingBlanks rest, ?_,
      .comment line others⟩
    exact dropTrailingBlanks_append shown ('/' :: '/' :: (remark ++ '\n' :: skipped)) rest

end Trimming

section Lines

/-- A character goes to the first line of what follows. -/
theorem linesOf_cons {character : Char} (inLine : character ≠ '\n') (rest : List Char) :
    ∃ line lines, linesOf rest = line :: lines ∧
      linesOf (character :: rest) = (character :: line) :: lines := by
  obtain ⟨line, lines, same⟩ := List.exists_cons_of_ne_nil (linesOf_ne_nil rest)
  exact ⟨line, lines, same, by simp [linesOf, inLine, same]⟩

/-- A line ends at its line feed. -/
theorem linesOf_append {line : List Char} (inLine : '\n' ∉ line) (rest : List Char) :
    linesOf (line ++ '\n' :: rest) = line :: linesOf rest := by
  induction line with
  | nil => simp [linesOf]
  | cons character line inductionHypothesis =>
    rw [List.mem_cons, not_or] at inLine
    simp [linesOf, Ne.symm inLine.1, inductionHypothesis inLine.2]

/-- The first line that tells something begins with the first character that is not skipped. -/
theorem Skipped.find? (skips : Skipped skipped) (shown : isBlank first = false)
    (noSlash : first ≠ '/') (rest : List Char) :
    ∃ line, ((linesOf (skipped ++ first :: rest)).map trimBlanks).find? isTelling =
      some (first :: line) := by
  induction skips with
  | nil =>
    have noFeed : first ≠ '\n' := by
      rintro rfl
      contradiction
    obtain ⟨line, lines, -, same⟩ := linesOf_cons noFeed rest
    refine ⟨dropTrailingBlanks line, ?_⟩
    have telling : isTelling (first :: dropTrailingBlanks line) = true := by
      unfold isTelling
      split <;> simp_all
    rw [List.nil_append, same, List.map_cons, trimBlanks_cons shown, List.find?_cons, telling]
  | @blank space skipped blank others inductionHypothesis =>
    obtain ⟨telling, found⟩ := inductionHypothesis
    refine ⟨telling, ?_⟩
    by_cases feed : space = '\n'
    · subst feed
      exact found
    · obtain ⟨line, lines, before, same⟩ := linesOf_cons feed (skipped ++ first :: rest)
      rw [before] at found
      rw [List.cons_append, same, List.map_cons, trimBlanks_cons_of_blank blank]
      exact found
  | @comment remark skipped line others inductionHypothesis =>
    obtain ⟨telling, found⟩ := inductionHypothesis
    refine ⟨telling, ?_⟩
    have inLine : '\n' ∉ '/' :: '/' :: remark := by simp [line]
    have slashes : trimBlanks ('/' :: '/' :: remark) = '/' :: '/' :: dropTrailingBlanks remark :=
      (trimBlanks_cons rfl ('/' :: remark)).trans
        (congrArg ('/' :: ·) (dropTrailingBlanks_append rfl [] remark))
    have lines := linesOf_append inLine (skipped ++ first :: rest)
    simp only [List.cons_append, List.append_assoc] at lines ⊢
    rw [lines, List.map_cons, slashes]
    exact found

end Lines

/-- A call is recognised, whatever comments and blanks stand around it. -/
theorem detect_around (wrapping : Wrapping) {payload : List Char}
    (put : Commented true (wrapping.around payload) commented) : detect commented = .call := by
  obtain ⟨shown, noSlash, noBrace⟩ := shown_of_beginsName wrapping.firstBegins
  obtain ⟨skipped, others, rfl, skips⟩ := put.exists_skipped wrapping.beforeBlank
  obtain ⟨skipped, rest, trimmed, skips⟩ := skips.trim shown others
  obtain ⟨line, telling⟩ := skips.find? shown noSlash rest
  rw [detect, trimmed, telling]
  split
  case h_1 same => exact absurd (List.cons.inj (Option.some.inj same)).1 noBrace
  case h_2 => rfl
  case h_3 same => contradiction

/-- A source that has been read is that of the value that its text spells. -/
theorem readJson_eq_ok {text : List Char} {source : Source} :
    readJson text = .ok source ↔
      ∃ value, Json.read text = .ok value ∧ ofJson value = .ok source := by
  unfold readJson
  cases Json.read text with
  | ok value => simp
  | error fault => simp

section Meaning

variable {text : List Char} {source : Source} {value : Json}

/-- What is left of a call without its comments has a payload that spells the same value. -/
theorem exists_payload (accepts : Json.Accepts (.value []) text value) (wrapping : Wrapping)
    (put : Commented true (wrapping.around text) commented) :
    ∃ payload, payload? (stripComments true commented) = some payload ∧
      Json.read payload = .ok value := by
  have clean := wrapping.clean_around fun rest => Clean.of_accepts accepts
  have stripped := put.thinned (clean.bare true)
  obtain ⟨other, inner, _, same, thinned⟩ := wrapping.exists_thinned stripped
  rw [same]
  exact ⟨inner, other.payload?_around inner, Json.read_eq_ok.mpr (thinned.accepts accepts)⟩

/-- A source may be read from a call around its description. -/
theorem read_around (accepted : readJson text = .ok source) (wrapping : Wrapping)
    (put : Commented true (wrapping.around text) commented) : read commented = .ok source := by
  obtain ⟨value, reads, describes⟩ := readJson_eq_ok.mp accepted
  obtain ⟨payload, found, readsPayload⟩ := exists_payload (Json.read_eq_ok.mp reads) wrapping put
  rw [read, detect_around wrapping put]
  change readCall commented = .ok source
  rw [readCall, found]
  exact readJson_eq_ok.mpr ⟨value, readsPayload, describes⟩

/-- A description and a call around it, with any comment lines, are the same source. The call is
recognised as one, and its payload spells the same value: no string is changed by taking the
comments out. -/
theorem call_same_as_json (accepted : readJson text = .ok source) (wrapping : Wrapping)
    (put : Commented true (wrapping.around text) commented) :
    read commented = .ok source ∧ detect commented = .call ∧
      ∃ payload, payload? (stripComments true commented) = some payload ∧
        Json.read payload = Json.read text := by
  obtain ⟨value, reads, -⟩ := readJson_eq_ok.mp accepted
  obtain ⟨payload, found, same⟩ := exists_payload (Json.read_eq_ok.mp reads) wrapping put
  exact ⟨read_around accepted wrapping put, detect_around wrapping put, payload, found,
    same.trans reads.symm⟩

/-- A call over several lines, with a space that is not of ASCII. -/
def spacedCall : Wrapping where
  before := ['\n']
  first := '$'
  others := ['.', 'é', '1']
  between := ['\u00a0']
  closing := ['\n', ';', '\t']
  beforeBlank := by decide
  firstBegins := rfl
  othersContinue := List.all_eq_true.mp (by decide +kernel)
  betweenBlank := by decide
  closes := .semicolon (show AllBlank ['\n'] by decide) (show AllBlank ['\t'] by decide)

/-- Slashes, a parenthesis and a semicolon inside a string stay there, and comments are left out on
all the lines around it. -/
theorem commented_call_read :
    readJson "\x7b\"a\": \"//) ;\",\n\"b\": []\x7d".toList =
        .ok ⟨[("a", .str "//) ;"), ("b", .arr [])], []⟩ ∧
      read ("// (\n\n$.é1\u00a0(\x7b\"a\": \"//) ;\",\n".toList ++
          " \t// \"c\": [],\n\"b\": []\x7d)\n//\n;\t".toList) =
        .ok ⟨[("a", .str "//) ;"), ("b", .arr [])], []⟩ := by
  have accepted : readJson "\x7b\"a\": \"//) ;\",\n\"b\": []\x7d".toList =
      .ok ⟨[("a", .str "//) ;"), ("b", .arr [])], []⟩ := by cbv
  -- The comments are put in from the last to the first.
  have ending : Commented true ";\t".toList ([] ++ '/' :: '/' :: ([] ++ '\n' :: ";\t".toList)) :=
    .comment (by decide) (by decide) (.refl _ _)
  have inside : Commented true ("\"b\": []\x7d)".toList ++ '\n' :: ";\t".toList)
      (" \t".toList ++ '/' :: '/' :: (" \"c\": [],".toList ++ '\n' ::
        ("\"b\": []\x7d)".toList ++ '\n' :: ([] ++ '/' :: '/' :: ([] ++ '\n' :: ";\t".toList))))) :=
    .comment (by decide) (by decide) (.line _ ending)
  have call : Commented true ([] ++ '\n' :: ("$.é1\u00a0(\x7b\"a\": \"//) ;\",".toList ++ '\n' ::
      ("\"b\": []\x7d)".toList ++ '\n' :: ";\t".toList))) _ :=
    .line [] (.line _ inside)
  have put := Commented.comment (show AllBlank [] by decide)
    (show '\n' ∉ " (".toList by decide) call
  refine ⟨accepted, (call_same_as_json accepted spacedCall ?_).1⟩
  convert put using 1 <;> cbv

end Meaning

end GrammarView.Source
