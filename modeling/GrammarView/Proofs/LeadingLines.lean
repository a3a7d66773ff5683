import GrammarView.Proofs.Formats

/-!
# Lines in front of a source

Blank lines and whole lines of comment may stand in front of a source. They never change the form
that it is recognised as, and a call behind them is read, or refused, as it is without them. For a
description by itself this is true of blank lines only, and among these only of lines of the four
spaces of JSON: nothing takes comments out of a description, so it is recognised as one behind them
and then refused at the first character that is no space.
-/

namespace GrammarView.Json

section Spaces

variable {text spaces : List Char}

/-- A space in front of a text does not count. -/
theorem accepts_space_iff {state : State} {space : Char} {value : Json}
    (isSpace : isSpace space = true) :
    Accepts state (space :: text) value ↔ Accepts state text value := by
  constructor
  · intro accepts
    cases accepts with
    | space _ others => exact others
    | token spelled =>
      -- No token begins with a space.
      have apart := continuesLiteral_of_isSpace isSpace
      simp only [Json.isSpace, Bool.or_eq_true, beq_iff_eq] at isSpace
      refine absurd rfl (not_head_of_spelled apart ?_ spelled)
      rcases isSpace with ((rfl | rfl) | rfl) | rfl <;> decide
  · exact .space isSpace

/-- Spaces in front of a text do not change the value that it spells. -/
theorem read_spaces (areSpaces : ∀ space ∈ spaces, isSpace space = true) {value : Json} :
    read (spaces ++ text) = .ok value ↔ read text = .ok value := by
  rw [read_eq_ok, read_eq_ok]
  induction spaces with
  | nil => rfl
  | cons space spaces inductionHypothesis =>
    obtain ⟨first, others⟩ := List.forall_mem_cons.mp areSpaces
    rw [List.cons_append, accepts_space_iff first, inductionHypothesis others]

/-- Spaces are passed over on the way to the first token. -/
theorem tokensFrom_spaces (areSpaces : ∀ space ∈ spaces, isSpace space = true) (offset : Nat) :
    tokensFrom offset (spaces ++ text) = tokensFrom (offset + spaces.length) text := by
  induction spaces generalizing offset with
  | nil => rfl
  | cons space spaces inductionHypothesis =>
    obtain ⟨first, others⟩ := List.forall_mem_cons.mp areSpaces
    rw [List.cons_append, tokensFrom, if_pos first, inductionHypothesis others, List.length_cons,
      Nat.add_assoc, Nat.add_comm 1]

/-- Whether a character is none that a token begins with, no space, and no byte order mark. -/
structure Stray (character : Char) : Prop where
  notSpace : isSpace character = false
  notLiteral : continuesLiteral character = false
  notMark : character ∉ ['\x7b', '\x7d', '[', ']', ':', ',', '"']
  notOrder : character ≠ '\uFEFF'

/-- A stray character is no token. -/
theorem Stray.firstToken {character : Char} (stray : Stray character) (offset : Nat)
    (rest : List Char) : firstToken offset character rest = (.stray, 0) := by
  have noLiteral : literal? (character :: rest) = none := by
    by_contra found
    obtain ⟨literal, found⟩ := Option.ne_none_iff_exists'.mp found
    have begins := continuesLiteral_of_literal? found
    rw [stray.notLiteral] at begins
    contradiction
  have notMark := stray.notMark
  simp only [List.mem_cons, List.not_mem_nil, or_false, not_or] at notMark
  obtain ⟨openBrace, closeBrace, openBracket, closeBracket, colon, comma, quote⟩ := notMark
  rw [Json.firstToken, if_neg openBrace, if_neg closeBrace, if_neg openBracket,
    if_neg closeBracket, if_neg colon, if_neg comma, if_neg quote, noLiteral]

/-- A text whose first character but for spaces is a stray one is refused at that character. -/
theorem read_stray (areSpaces : ∀ space ∈ spaces, isSpace space = true) {character : Char}
    (stray : Stray character) (rest : List Char) :
    read (spaces ++ character :: rest) = .error ⟨spaces.length, .expectingValue⟩ := by
  have noOrder : (spaces ++ character :: rest).head? ≠ some '\uFEFF' := by
    cases spaces with
    | nil => exact fun same => stray.notOrder (Option.some.inj same)
    | cons space spaces =>
      intro same
      have first := areSpaces space (.head _)
      rw [Option.some.inj same] at first
      contradiction
  have notSpace : ¬ isSpace character = true := by simp [stray.notSpace]
  rw [read, if_neg noOrder, tokensFrom_spaces areSpaces, tokensFrom, if_neg notSpace,
    stray.firstToken, Nat.zero_add]
  rfl

end Spaces

end GrammarView.Json

namespace GrammarView.Source

/-- A line without its line feed that holds blanks, or a comment behind blanks. -/
inductive Idle : List Char → Prop where
  | blank {line} (blank : AllBlank line) (inLine : '\n' ∉ line) : Idle line
  | comment {blanks remark} (blank : AllBlank blanks) (inLine : '\n' ∉ blanks ++ remark) :
      Idle (blanks ++ '/' :: '/' :: remark)

/-- A text behind lines. -/
def behind (lines : List (List Char)) (text : List Char) : List Char :=
  lines.foldr (fun line rest => line ++ '\n' :: rest) text

/-- An idle line ends in front of its line feed. -/
theorem Idle.inLine {line : List Char} (idle : Idle line) : '\n' ∉ line := by
  cases idle with
  | blank _ inLine => exact inLine
  | comment _ inLine =>
    rw [List.mem_append, not_or] at inLine
    simp [inLine.1, inLine.2]

section Detecting

variable {text line : List Char} {space : Char}

/-- The first line of a text that says something about its form, without the blanks at its ends. -/
def tellingLine? (text : List Char) : Option (List Char) :=
  ((linesOf text).map trimBlanks).find? isTelling

/-- Only the blanks are left out of a line of blanks. -/
theorem trimBlanks_of_blank (blank : AllBlank line) : trimBlanks line = [] := by
  have dropped := dropBlanks_append blank []
  rw [List.append_nil] at dropped
  rw [trimBlanks, dropped]
  rfl

/-- An idle line says nothing. -/
theorem Idle.not_telling (idle : Idle line) : isTelling (trimBlanks line) = false := by
  cases idle with
  | blank blank =>
    rw [trimBlanks_of_blank blank]
    rfl
  | @comment blanks remark blank =>
    have slashes : trimBlanks (blanks ++ '/' :: '/' :: remark)
        = '/' :: '/' :: dropTrailingBlanks remark := by
      rw [trimBlanks, dropBlanks_append blank, dropBlanks_cons_of_not_blank rfl]
      exact dropTrailingBlanks_append rfl ['/'] remark
    rw [slashes]
    rfl

/-- An idle line in front of a text is passed over. -/
theorem Idle.tellingLine? (idle : Idle line) (text : List Char) :
    tellingLine? (line ++ '\n' :: text) = Source.tellingLine? text := by
  rw [Source.tellingLine?, linesOf_append idle.inLine, List.map_cons, List.find?_cons,
    idle.not_telling]
  rfl

/-- A blank in front of a text changes nothing. -/
theorem tellingLine?_cons (blank : isBlank space = true) (text : List Char) :
    tellingLine? (space :: text) = tellingLine? text := by
  by_cases feed : space = '\n'
  · subst feed
    have idle : Idle [] := .blank (fun _ absent => nomatch absent) List.not_mem_nil
    exact idle.tellingLine? text
  · obtain ⟨line, lines, before, same⟩ := linesOf_cons feed text
    rw [tellingLine?, tellingLine?, same, before, List.map_cons, trimBlanks_cons_of_blank blank,
      List.map_cons]

/-- A line feed behind a text begins a further line. -/
theorem linesOf_concat_feed (text : List Char) :
    linesOf (text ++ ['\n']) = linesOf text ++ [[]] := by
  induction text with
  | nil => rfl
  | cons first rest inductionHypothesis =>
    obtain ⟨line, lines, same⟩ := List.exists_cons_of_ne_nil (linesOf_ne_nil rest)
    by_cases feed : first = '\n' <;> simp [linesOf, feed, inductionHypothesis, same]

/-- Any other character behind a text belongs to its last line. -/
theorem linesOf_concat {character : Char} (inLine : character ≠ '\n') (text : List Char) :
    ∃ lines last, linesOf text = lines ++ [last] ∧
      linesOf (text ++ [character]) = lines ++ [last ++ [character]] := by
  induction text with
  | nil => exact ⟨[], [], rfl, by simp [linesOf, inLine]⟩
  | cons first rest inductionHypothesis =>
    obtain ⟨lines, last, before, after⟩ := inductionHypothesis
    by_cases feed : first = '\n'
    · exact ⟨[] :: lines, last, by simp [linesOf, feed, before], by simp [linesOf, feed, after]⟩
    · cases lines with
      | nil =>
        exact ⟨[], first :: last, by simp [linesOf, feed, before], by simp [linesOf, feed, after]⟩
      | cons line lines =>
        exact ⟨(first :: line) :: lines, last, by simp [linesOf, feed, before],
          by simp [linesOf, feed, after]⟩

/-- A blank at the end of a text is dropped with those in front of it. -/
theorem dropTrailingBlanks_concat (blank : isBlank space = true) (text : List Char) :
    dropTrailingBlanks (text ++ [space]) = dropTrailingBlanks text := by
  simp [dropTrailingBlanks, blank]

/-- A blank at the end of a line is left out. -/
theorem trimBlanks_concat (blank : isBlank space = true) (line : List Char) :
    trimBlanks (line ++ [space]) = trimBlanks line := by
  rw [trimBlanks, trimBlanks, dropBlanks, dropBlanks, List.dropWhile_append]
  split
  case isTrue none => simp [List.isEmpty_iff.mp none, blank]
  case isFalse => exact dropTrailingBlanks_concat blank _

/-- A blank behind a text changes nothing. -/
theorem tellingLine?_concat (blank : isBlank space = true) (text : List Char) :
    tellingLine? (text ++ [space]) = tellingLine? text := by
  by_cases feed : space = '\n'
  · have nothing : isTelling (trimBlanks []) = false := rfl
    simp [tellingLine?, feed, linesOf_concat_feed, nothing]
  · obtain ⟨lines, last, before, after⟩ := linesOf_concat feed text
    simp [tellingLine?, before, after, trimBlanks_concat blank]

/-- Without the blanks at its ends a text says the same about its form. -/
theorem tellingLine?_trimBlanks (text : List Char) :
    tellingLine? (trimBlanks text) = tellingLine? text := by
  have front : tellingLine? (dropBlanks text) = tellingLine? text := by
    induction text with
    | nil => rfl
    | cons character rest inductionHypothesis =>
      by_cases blank : isBlank character = true
      · rw [dropBlanks_cons_of_blank blank, inductionHypothesis, tellingLine?_cons blank]
      · rw [dropBlanks_cons_of_not_blank (Bool.eq_false_iff.mpr blank)]
  rw [trimBlanks, ← front]
  induction dropBlanks text using List.reverseRecOn with
  | nil => rfl
  | append_singleton rest character inductionHypothesis =>
    by_cases blank : isBlank character = true
    · rw [dropTrailingBlanks_concat blank, inductionHypothesis, tellingLine?_concat blank]
    · rw [dropTrailingBlanks_append (Bool.eq_false_iff.mpr blank) rest []]
      rfl

/-- The form of a text depends on the first line that says something. -/
theorem detect_congr {other : List Char} (same : tellingLine? text = tellingLine? other) :
    detect text = detect other := by
  rw [← tellingLine?_trimBlanks text, ← tellingLine?_trimBlanks other] at same
  rw [tellingLine?, tellingLine?] at same
  rw [detect, detect, same]

end Detecting

section Calls

variable {text line comment : List Char}

/-- A comment in front of a text is taken out together with the blanks before it. -/
theorem stripComments_of_comment (starts : dropBlanks text = '/' :: '/' :: comment) :
    stripComments true text = stripComments true (afterFirstLine comment) := by
  cases text with
  | nil => cases starts
  | cons character rest =>
    rw [stripComments]
    simp only [if_true]
    split
    case h_1 found =>
      rw [starts] at found
      cases found
      rfl
    case h_2 other => exact absurd starts (other comment)

/-- Inside a line nothing is taken out. -/
theorem stripComments_inside (inLine : '\n' ∉ line) (text : List Char) :
    stripComments false (line ++ '\n' :: text) = line ++ '\n' :: stripComments true text := by
  induction line with
  | nil => simp [stripComments]
  | cons character line inductionHypothesis =>
    rw [List.mem_cons, not_or] at inLine
    simp [stripComments, Ne.symm inLine.1, inductionHypothesis inLine.2]

/-- The first character of a text that is no comment stays. -/
theorem stripComments_cons {character : Char} (free : ¬ IsComment (character :: text)) :
    stripComments true (character :: text)
      = character :: stripComments (character = '\n') text := by
  rw [stripComments]
  simp only [if_true]
  split
  case h_1 comment starts => exact absurd ⟨comment, starts⟩ free
  case h_2 => rfl

/-- A line of blanks stays in front of a text that is no comment. -/
theorem stripComments_blank (blank : AllBlank line) (inLine : '\n' ∉ line)
    (free : ¬ IsComment text) :
    stripComments true (line ++ '\n' :: text) = line ++ '\n' :: stripComments true text := by
  have freeBehind : ¬ IsComment (line ++ '\n' :: text) := by
    rintro ⟨comment, starts⟩
    rw [dropBlanks_append blank, dropBlanks_cons_of_blank rfl] at starts
    exact free ⟨comment, starts⟩
  cases line with
  | nil => exact stripComments_cons freeBehind
  | cons character line =>
    rw [List.mem_cons, not_or] at inLine
    rw [List.cons_append] at freeBehind ⊢
    rw [stripComments_cons freeBehind, decide_eq_false (Ne.symm inLine.1),
      stripComments_inside inLine.2]
    rfl

/-- Of an idle line in front of a text at most blanks are left when comments are taken out. -/
theorem Idle.strip (idle : Idle line) (text : List Char) :
    ∃ blanks, AllBlank blanks ∧
      stripComments true (line ++ '\n' :: text) = blanks ++ stripComments true text := by
  cases idle with
  | blank blank inLine =>
    by_cases free : IsComment text
    case pos =>
      obtain ⟨comment, starts⟩ := free
      have startsBehind : dropBlanks (line ++ '\n' :: text) = '/' :: '/' :: comment := by
        rw [dropBlanks_append blank, dropBlanks_cons_of_blank rfl, starts]
      refine ⟨[], nofun, ?_⟩
      rw [stripComments_of_comment startsBehind, List.nil_append, stripComments_of_comment starts]
    case neg =>
      refine ⟨line ++ ['\n'], ?_, by rw [stripComments_blank blank inLine free]; simp⟩
      exact List.forall_mem_append.mpr ⟨blank, List.forall_mem_singleton.mpr rfl⟩
  | @comment blanks remark blank inLine =>
    rw [List.mem_append, not_or] at inLine
    have starts : dropBlanks (blanks ++ '/' :: '/' :: remark ++ '\n' :: text)
        = '/' :: '/' :: (remark ++ '\n' :: text) := by
      rw [List.append_assoc, dropBlanks_append blank]
      exact dropBlanks_cons_of_not_blank rfl
    refine ⟨[], nofun, ?_⟩
    rw [stripComments_of_comment starts, afterFirstLine_append inLine.2, List.nil_append]

/-- Blanks in front of a call do not change its payload. -/
theorem payload?_append {blanks : List Char} (blank : AllBlank blanks) (text : List Char) :
    payload? (blanks ++ text) = payload? text := by
  rw [payload?, payload?, afterOpening?, afterOpening?, dropBlanks_append blank]

/-- An idle line in front of a call changes nothing. -/
theorem Idle.readCall (idle : Idle line) (text : List Char) :
    readCall (line ++ '\n' :: text) = Source.readCall text := by
  obtain ⟨blanks, blank, stripped⟩ := idle.strip text
  rw [Source.readCall, Source.readCall, stripped, payload?_append blank]

end Calls

section Descriptions

variable {line : List Char} {lines : List (List Char)} {character : Char}

/-- A blank that is no space begins no token. -/
theorem stray_of_blank (blank : isBlank character = true)
    (notSpace : Json.isSpace character = false) : Json.Stray character := by
  refine ⟨notSpace, ?_, ?_, ?_⟩
  · by_contra part
    rw [Bool.not_eq_false] at part
    rw [(shown_of_continuesLiteral part).1] at blank
    contradiction
  · intro mark
    have shown : ∀ mark ∈ ['\x7b', '\x7d', '[', ']', ':', ',', '"'], isBlank mark = false := by
      simp [isBlank]
    rw [shown character mark] at blank
    contradiction
  · rintro rfl
    contradiction

/-- The slashes of a comment begin no token. -/
theorem stray_slash : Json.Stray '/' :=
  ⟨by decide, by decide, by decide, by decide⟩

/-- Blanks are spaces of JSON, or there is a first one that is none. -/
theorem spaces_or_stray {blanks : List Char} (blank : AllBlank blanks) :
    (∀ space ∈ blanks, Json.isSpace space = true) ∨ ∃ spaces character rest,
      blanks = spaces ++ character :: rest ∧ (∀ space ∈ spaces, Json.isSpace space = true) ∧
        Json.Stray character := by
  induction blanks with
  | nil => exact .inl nofun
  | cons first blanks inductionHypothesis =>
    obtain ⟨here, later⟩ := List.forall_mem_cons.mp blank
    cases space : Json.isSpace first with
    | false => exact .inr ⟨[], first, blanks, rfl, nofun, stray_of_blank here space⟩
    | true =>
      rcases inductionHypothesis later with
        allSpaces | ⟨spaces, character, rest, rfl, before, stray⟩
      · exact .inl (List.forall_mem_cons.mpr ⟨space, allSpaces⟩)
      · exact .inr ⟨first :: spaces, character, rest, rfl,
          List.forall_mem_cons.mpr ⟨space, before⟩, stray⟩

/-- An idle line holds spaces of JSON only, or a stray character behind some of them. -/
theorem Idle.spaces_or_stray (idle : Idle line) :
    (∀ space ∈ line, Json.isSpace space = true) ∨ ∃ spaces character rest,
      line = spaces ++ character :: rest ∧ (∀ space ∈ spaces, Json.isSpace space = true) ∧
        Json.Stray character := by
  cases idle with
  | blank blank => exact Source.spaces_or_stray blank
  | @comment blanks remark blank =>
    refine .inr ?_
    rcases Source.spaces_or_stray blank with spaces | ⟨spaces, character, rest, rfl, before, stray⟩
    · exact ⟨blanks, '/', '/' :: remark, rfl, spaces, stray_slash⟩
    · exact ⟨spaces, character, rest ++ '/' :: '/' :: remark, by simp, before, stray⟩

/-- Lines of spaces in front of a text are spaces. -/
theorem exists_spaces (allSpaces : ∀ line ∈ lines, ∀ space ∈ line, Json.isSpace space = true)
    (text : List Char) :
    ∃ spaces, behind lines text = spaces ++ text ∧ ∀ space ∈ spaces, Json.isSpace space = true := by
  induction lines with
  | nil => exact ⟨[], rfl, nofun⟩
  | cons line lines inductionHypothesis =>
    obtain ⟨here, later⟩ := List.forall_mem_cons.mp allSpaces
    obtain ⟨spaces, same, areSpaces⟩ := inductionHypothesis later
    refine ⟨line ++ '\n' :: spaces, ?_, ?_⟩
    · rw [behind, List.foldr_cons, ← behind, same, List.append_assoc, List.cons_append]
    · exact List.forall_mem_append.mpr ⟨here, List.forall_mem_cons.mpr ⟨rfl, areSpaces⟩⟩

/-- Idle lines in front of a text that are not all spaces hold a stray character behind spaces. -/
theorem exists_stray (idle : ∀ line ∈ lines, Idle line)
    (other : ∃ line ∈ lines, ∃ character ∈ line, Json.isSpace character = false)
    (text : List Char) :
    ∃ spaces character rest, behind lines text = spaces ++ character :: rest ∧
      (∀ space ∈ spaces, Json.isSpace space = true) ∧ Json.Stray character := by
  induction lines with
  | nil => obtain ⟨_, absent, -⟩ := other; contradiction
  | cons line lines inductionHypothesis =>
    obtain ⟨here, later⟩ := List.forall_mem_cons.mp idle
    rw [behind, List.foldr_cons, ← behind]
    rcases here.spaces_or_stray with allSpaces | ⟨spaces, character, rest, rfl, before, stray⟩
    · have otherLater : ∃ line ∈ lines, ∃ character ∈ line, Json.isSpace character = false := by
        obtain ⟨found, member, character, inside, notSpace⟩ := other
        rcases List.mem_cons.mp member with rfl | member
        · rw [allSpaces character inside] at notSpace
          contradiction
        · exact ⟨found, member, character, inside, notSpace⟩
      obtain ⟨spaces, character, rest, same, areSpaces, stray⟩ :=
        inductionHypothesis later otherLater
      refine ⟨line ++ '\n' :: spaces, character, rest, by rw [same]; simp, ?_, stray⟩
      exact List.forall_mem_append.mpr
        ⟨allSpaces, List.forall_mem_cons.mpr ⟨rfl, areSpaces⟩⟩
    · exact ⟨spaces, character, rest ++ '\n' :: behind lines text, by simp, before, stray⟩

end Descriptions

section Runs

variable {lines : List (List Char)} (idle : ∀ line ∈ lines, Idle line) (text : List Char)
include idle

/-- Idle lines in front of a text are passed over when its form is recognised. -/
theorem detect_behind : detect (behind lines text) = detect text := by
  refine detect_congr ?_
  induction lines with
  | nil => rfl
  | cons line lines inductionHypothesis =>
    obtain ⟨here, later⟩ := List.forall_mem_cons.mp idle
    exact (here.tellingLine? _).trans (inductionHypothesis later)

/-- Idle lines in front of a call change nothing. -/
theorem readCall_behind : readCall (behind lines text) = readCall text := by
  induction lines with
  | nil => rfl
  | cons line lines inductionHypothesis =>
    obtain ⟨here, later⟩ := List.forall_mem_cons.mp idle
    exact (here.readCall _).trans (inductionHypothesis later)

end Runs

/-- Blank lines and comment lines in front of a source do not change the form that it is recognised
as. A call behind them is read as the same source, or refused for the same reason. A description
behind lines of spaces is read as the same source; behind any other such lines it is refused, at the
first character of them that is no space. -/
theorem read_behind_idle_lines {lines : List (List Char)} (idle : ∀ line ∈ lines, Idle line)
    (text : List Char) :
    detect (behind lines text) = detect text ∧
    (detect text = .call → read (behind lines text) = read text) ∧
    (detect text = .json → (∀ line ∈ lines, ∀ space ∈ line, Json.isSpace space = true) →
      ∀ source, read (behind lines text) = .ok source ↔ read text = .ok source) ∧
    (detect text = .json →
      (∃ line ∈ lines, ∃ character ∈ line, Json.isSpace character = false) →
      ∃ spaces character rest, behind lines text = spaces ++ character :: rest ∧
        (∀ space ∈ spaces, Json.isSpace space = true) ∧ Json.isSpace character = false ∧
        let place := Json.position (behind lines text) spaces.length
        read (behind lines text) = .error (.malformed place.1 place.2 .expectingValue)) := by
  have detected := detect_behind idle text
  refine ⟨detected, ?_, ?_, ?_⟩
  · intro call
    rw [read, read, detected, call]
    exact readCall_behind idle text
  · intro json allSpaces source
    obtain ⟨spaces, same, areSpaces⟩ := exists_spaces allSpaces text
    rw [read, read, detected, json, same]
    change readJson _ = _ ↔ readJson _ = _
    simp only [readJson_eq_ok, Json.read_spaces areSpaces]
  · intro json other
    obtain ⟨spaces, character, rest, same, areSpaces, stray⟩ := exists_stray idle other text
    refine ⟨spaces, character, rest, same, areSpaces, stray.notSpace, ?_⟩
    rw [read, detected, json]
    change readJson _ = _
    rw [readJson, same, Json.read_stray areSpaces stray]

/-- A comment, a line of blanks and a comment behind a blank that is no space of JSON. -/
def idleLines : List (List Char) :=
  ["// (".toList, " \u00a0".toList, "\u3000//".toList]

/-- The lines are idle. -/
theorem idle_idleLines : ∀ line ∈ idleLines, Idle line := by
  have first : Idle "// (".toList := .comment (show AllBlank [] by decide) (by decide)
  have second : Idle " \u00a0".toList := .blank (by decide) (by decide)
  have third : Idle "\u3000//".toList := .comment (show AllBlank ['\u3000'] by decide) (by decide)
  exact List.forall_mem_cons.mpr
    ⟨first, List.forall_mem_cons.mpr ⟨second, List.forall_mem_singleton.mpr third⟩⟩

/-- A call over several lines behind the lines is read as it is without them. -/
theorem call_read_behind_idle_lines :
    (∀ line ∈ idleLines, Idle line) ∧
      detect (spacedCall.around "\x7b\"a\": []\x7d".toList) = .call ∧
      read (behind idleLines (spacedCall.around "\x7b\"a\": []\x7d".toList))
        = .ok ⟨[("a", .arr [])], []⟩ := by
  have accepted : readJson "\x7b\"a\": []\x7d".toList = .ok ⟨[("a", .arr [])], []⟩ := by cbv
  have call : detect (spacedCall.around "\x7b\"a\": []\x7d".toList) = .call :=
    detect_around spacedCall (.refl _ _)
  refine ⟨idle_idleLines, call, ?_⟩
  rw [(read_behind_idle_lines idle_idleLines _).2.1 call]
  exact read_around accepted spacedCall (.refl _ _)

/-- An empty description is a source, and behind a comment and an empty line it is recognised as a
description, but refused. -/
theorem description_refused_behind_comment :
    Idle "// generated".toList ∧ Idle [] ∧ read "\x7b\x7d".toList = .ok ⟨[], []⟩ ∧
      detect (behind ["// generated".toList, []] "\x7b\x7d".toList) = .json ∧
      read (behind ["// generated".toList, []] "\x7b\x7d".toList)
        = .error (.malformed 1 1 .expectingValue) := by
  have comment : Idle "// generated".toList :=
    .comment (show AllBlank [] by decide) (show '\n' ∉ [] ++ " generated".toList by decide)
  have recognised : detect (behind ["// generated".toList, []] "\x7b\x7d".toList) = .json := by cbv
  refine ⟨comment, .blank (by decide) (by decide), by cbv, recognised, ?_⟩
  have noSpaces : ∀ space ∈ ([] : List Char), Json.isSpace space = true :=
    fun _ absent => absurd absent List.not_mem_nil
  have refused := Json.read_stray noSpaces stray_slash "/ generated\n\n\x7b\x7d".toList
  rw [read, recognised]
  change readJson ([] ++ '/' :: "/ generated\n\n\x7b\x7d".toList) = _
  rw [readJson, refused]
  rfl

end GrammarView.Source
