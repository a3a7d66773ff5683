import GrammarView.Proofs.Comments
import GrammarView.Proofs.JsonTexts
import GrammarView.Source.Format
import Mathlib

/-!
# Descriptions inside a call

The two forms of a grammar source mean the same. A description may be put into a call, with blanks
around the name and at the end, and comment lines may be put in wherever a line begins, also inside
the description: no string goes over the end of a line, so nothing is ever left out of one.
-/

namespace GrammarView.Source

section Characters

variable {character : Char}

/-- A visible character of ASCII is not blank. -/
theorem shown_of_between (between : 33 ≤ character.toNat ∧ character.toNat ≤ 126) :
    isBlank character = false := by
  by_contra blank
  rw [Bool.not_eq_false] at blank
  simp only [isBlank, Bool.or_eq_true, Bool.and_eq_true, decide_eq_true_eq, beq_iff_eq] at blank
  omega

/-- The code points of the blanks. -/
def blankCodes : List Nat :=
  [9, 10, 11, 12, 13, 28, 29, 30, 31, 32, 0x85, 0xA0, 0x1680, 0x2000, 0x2001, 0x2002, 0x2003,
    0x2004, 0x2005, 0x2006, 0x2007, 0x2008, 0x2009, 0x200A, 0x2028, 0x2029, 0x202F, 0x205F, 0x3000]

/-- Blanks are told by their code points. -/
theorem mem_blankCodes (blank : isBlank character = true) : character.toNat ∈ blankCodes := by
  simp only [isBlank, Bool.or_eq_true, Bool.and_eq_true, decide_eq_true_eq, beq_iff_eq] at blank
  simp only [blankCodes, List.mem_cons, List.not_mem_nil, or_false]
  omega

/-- No blank is a word character. -/
theorem isWord_of_blank (blank : isBlank character = true) : isWord character = false := by
  have apart : ∀ code ∈ blankCodes,
      (wordRanges.any fun range => range.1 ≤ code && code ≤ range.2) = false := by
    decide +kernel
  exact apart _ (mem_blankCodes blank)

/-- No name goes on with a blank. -/
theorem continuesName_of_blank (blank : isBlank character = true) :
    continuesName character = false := by
  have dollar : character ≠ '$' := by
    rintro rfl
    contradiction
  have point : character ≠ '.' := by
    rintro rfl
    contradiction
  simp [continuesName, isWord_of_blank blank, dollar, point]

/-- A name ends in front of blanks and the opening parenthesis. -/
theorem dropWhile_continuesName {blanks : List Char} (blank : AllBlank blanks)
    (argument : List Char) :
    (blanks ++ '(' :: argument).dropWhile continuesName = blanks ++ '(' :: argument := by
  cases blanks with
  | nil =>
    have opening : continuesName '(' = false := by decide +kernel
    simp [opening]
  | cons space blanks => simp [continuesName_of_blank (blank space (.head _))]

/-- Letters have the code points of ASCII. -/
theorem code_of_isAlpha (letter : character.isAlpha = true) :
    65 ≤ character.toNat ∧ character.toNat ≤ 90 ∨ 97 ≤ character.toNat ∧ character.toNat ≤ 122 := by
  simpa [Char.isAlpha, Char.isUpper, Char.isLower, UInt32.le_iff_toNat_le] using letter

/-- A name begins with a letter, an underscore or a dollar sign. -/
theorem shown_of_beginsName (first : beginsName character = true) :
    isBlank character = false ∧ character ≠ '/' ∧ character ≠ '\x7b' := by
  simp only [beginsName, Bool.or_eq_true, beq_iff_eq] at first
  rcases first with (letter | rfl) | rfl
  · have code := code_of_isAlpha letter
    refine ⟨shown_of_between (by omega), ?_, ?_⟩ <;> rintro rfl <;> contradiction
  all_goals decide

/-- Spaces of JSON are blanks. -/
theorem blank_of_isSpace (space : Json.isSpace character = true) : isBlank character = true := by
  simp only [Json.isSpace, Bool.or_eq_true, beq_iff_eq] at space
  rcases space with ((rfl | rfl) | rfl) | rfl <;> rfl

/-- A literal consists of visible characters. -/
theorem shown_of_continuesLiteral (part : Json.continuesLiteral character = true) :
    isBlank character = false ∧ character ≠ '/' := by
  simp only [Json.continuesLiteral, Char.isAlphanum, Bool.or_eq_true, beq_iff_eq] at part
  rcases part with (((letter | digit) | rfl) | rfl) | rfl
  · have code := code_of_isAlpha letter
    refine ⟨shown_of_between (by omega), ?_⟩
    rintro rfl
    contradiction
  · have code : 48 ≤ character.toNat ∧ character.toNat ≤ 57 := by
      simpa [Char.isDigit, UInt32.le_iff_toNat_le] using digit
    refine ⟨shown_of_between (by omega), ?_⟩
    rintro rfl
    contradiction
  all_goals decide

/-- A character that a token begins with is neither blank nor a slash. -/
theorem shown_of_spelled {inside : List Char} {token : Json.Token}
    (spelled : Json.Spelled (character :: inside) token) :
    isBlank character = false ∧ character ≠ '/' := by
  rcases Json.head_of_spelled spelled with part | mark
  · exact shown_of_continuesLiteral part
  · have visible : ∀ mark ∈ ['\x7b', '\x7d', '[', ']', ':', ',', '"'],
        isBlank mark = false ∧ mark ≠ '/' := by
      simp [isBlank]
    exact visible _ mark

end Characters

section Payloads

variable {state : Json.State} {text thin : List Char} {value : Json} {atLineStart : Bool}

/-- A JSON text holds no comments. -/
theorem Clean.of_accepts (accepts : Json.Accepts state text value) {rest : List Char}
    (clean : Clean rest) : Clean (text ++ rest) := by
  induction accepts with
  | done => exact clean
  | space space others inductionHypothesis =>
    exact inductionHypothesis.blank (blank_of_isSpace space)
  | token spelled step others inductionHypothesis =>
    obtain ⟨shown, noSlash⟩ := shown_of_spelled spelled
    have line := inductionHypothesis.line shown noSlash spelled.inLine
    rwa [← List.append_assoc] at line

/-- Blanks at the beginnings of lines do not count in a JSON text. -/
theorem Thinned.accepts (accepts : Json.Accepts state text value)
    (thinned : Thinned atLineStart text thin) : Json.Accepts state thin value := by
  induction accepts generalizing atLineStart thin with
  | done =>
    cases thinned
    exact .done
  | space space others inductionHypothesis =>
    cases thinned with
    | keep remaining => exact .space space (inductionHypothesis remaining)
    | drop blank remaining => exact inductionHypothesis remaining
  | @token _ _ character _ _ _ _ spelled step others inductionHypothesis =>
    have shown := (shown_of_spelled spelled).1
    cases thinned with
    | keep remaining =>
      have noFeed : character ≠ '\n' := by
        rintro rfl
        contradiction
      rw [decide_eq_false noFeed] at remaining
      obtain ⟨rest, rfl, outer⟩ := remaining.inside spelled.inLine
      exact .token spelled step (inductionHypothesis outer)
    | drop blank remaining =>
      rw [shown] at blank
      contradiction

end Payloads

section Closing

/-- What may stand behind the closing parenthesis of a call: blanks, and a semicolon among them. -/
inductive Closes : List Char → Prop where
  | blanks {after} (blank : AllBlank after) : Closes after
  | semicolon {after ending} (afterBlank : AllBlank after) (endingBlank : AllBlank ending) :
      Closes (after ++ ';' :: ending)

variable {closing : List Char}

/-- Blanks are dropped also when a text is read from its end. -/
theorem dropBlanks_reverse_append {blanks : List Char} (blank : AllBlank blanks)
    (rest : List Char) : dropBlanks (blanks.reverse ++ rest) = dropBlanks rest :=
  dropBlanks_append blank.reverse rest

/-- The payload stands in front of the closing parenthesis. -/
theorem beforeClosing?_of_closes (closes : Closes closing) (payload : List Char) :
    beforeClosing? (payload ++ ')' :: closing) = some payload := by
  have closed : dropBlanks (')' :: payload.reverse) = ')' :: payload.reverse :=
    dropBlanks_cons_of_not_blank rfl
  cases closes with
  | blanks blank =>
    have dropped : dropBlanks (payload ++ ')' :: closing).reverse = ')' :: payload.reverse := by
      rw [List.reverse_append, List.reverse_cons, List.append_assoc,
        dropBlanks_reverse_append blank]
      exact closed
    rw [beforeClosing?, dropped]
    simp
  | @semicolon after ending afterBlank endingBlank =>
    have turned : (payload ++ ')' :: (after ++ ';' :: ending)).reverse =
        ending.reverse ++ ';' :: (after.reverse ++ ')' :: payload.reverse) := by simp
    have dropped : dropBlanks (payload ++ ')' :: (after ++ ';' :: ending)).reverse =
        ';' :: (after.reverse ++ ')' :: payload.reverse) := by
      rw [turned, dropBlanks_reverse_append endingBlank]
      exact dropBlanks_cons_of_not_blank rfl
    rw [beforeClosing?, dropped]
    simp [dropBlanks_reverse_append afterBlank, closed]

/-- Behind the closing parenthesis there are blanks and a semicolon only. -/
theorem Closes.not_mem {character : Char} (closes : Closes closing)
    (shown : isBlank character = false) (other : character ≠ ';') : character ∉ closing := by
  cases closes with
  | blanks blank => exact blank.not_mem shown
  | semicolon afterBlank endingBlank =>
    simp [other, afterBlank.not_mem shown, endingBlank.not_mem shown]

/-- Fewer blanks behind the closing parenthesis close the call too. -/
theorem Closes.thinned {atLineStart : Bool} {thin : List Char} (closes : Closes closing)
    (thinned : Thinned atLineStart closing thin) : Closes thin := by
  cases closes with
  | blanks blank => exact .blanks (thinned.allBlank blank)
  | semicolon afterBlank endingBlank =>
    obtain ⟨after, _, _, rfl, thinAfter, fromSemicolon⟩ := thinned.append
    obtain ⟨ending, rfl, thinEnding⟩ := fromSemicolon.shown rfl
    exact .semicolon (thinAfter.allBlank afterBlank) (thinEnding.allBlank endingBlank)

end Closing

/-- What stands around the payload of a call: a name with blanks around it, and what closes the
call. -/
structure Wrapping where
  before : List Char
  first : Char
  others : List Char
  between : List Char
  closing : List Char
  beforeBlank : AllBlank before
  firstBegins : beginsName first = true
  othersContinue : ∀ character ∈ others, continuesName character = true
  betweenBlank : AllBlank between
  closes : Closes closing

namespace Wrapping

/-- A payload inside its call. -/
def around (wrapping : Wrapping) (payload : List Char) : List Char :=
  wrapping.before ++ wrapping.first :: (wrapping.others ++ (wrapping.between ++
    '(' :: (payload ++ ')' :: wrapping.closing)))

variable (wrapping : Wrapping) (payload : List Char)

/-- Behind the opening parenthesis stand the payload and the end of the call. -/
theorem afterOpening?_around :
    afterOpening? (wrapping.around payload) = some (payload ++ ')' :: wrapping.closing) := by
  have shown := (shown_of_beginsName wrapping.firstBegins).1
  have opening : dropBlanks ((wrapping.others ++ (wrapping.between ++
      '(' :: (payload ++ ')' :: wrapping.closing))).dropWhile continuesName) =
      '(' :: (payload ++ ')' :: wrapping.closing) := by
    rw [List.dropWhile_append_of_pos wrapping.othersContinue,
      dropWhile_continuesName wrapping.betweenBlank, dropBlanks_append wrapping.betweenBlank]
    exact dropBlanks_cons_of_not_blank rfl
  rw [afterOpening?, around, dropBlanks_append wrapping.beforeBlank,
    dropBlanks_cons_of_not_blank shown]
  simp [wrapping.firstBegins, opening]

/-- The payload of a call is what has been put into it. -/
theorem payload?_around : payload? (wrapping.around payload) = some payload := by
  rw [payload?, afterOpening?_around, Option.bind_some]
  exact beforeClosing?_of_closes wrapping.closes payload

/-- What stands in front of the opening parenthesis of a call is blank or belongs to a name. -/
theorem not_mem_front {character : Char} (shown : isBlank character = false)
    (begins : beginsName character = false) (continues : continuesName character = false) :
    character ∉ wrapping.before ++ wrapping.first :: (wrapping.others ++ wrapping.between) := by
  have first : character ≠ wrapping.first := by
    rintro rfl
    rw [wrapping.firstBegins] at begins
    contradiction
  have others : character ∉ wrapping.others := by
    intro member
    rw [wrapping.othersContinue character member] at continues
    contradiction
  simp [first, others, wrapping.beforeBlank.not_mem shown, wrapping.betweenBlank.not_mem shown]

/-- A call around a text without comments is without comments. -/
theorem clean_around {payload : List Char} (clean : ∀ rest, Clean rest → Clean (payload ++ rest)) :
    Clean (wrapping.around payload) := by
  have front : '/' ∉ wrapping.before ++ wrapping.first :: (wrapping.others ++ wrapping.between) :=
    wrapping.not_mem_front rfl rfl (by decide +kernel)
  have behind : Clean (')' :: wrapping.closing) := by
    have noSlash : '/' ∉ ')' :: wrapping.closing :=
      List.not_mem_cons_of_ne_of_not_mem (by decide) (wrapping.closes.not_mem rfl (by decide))
    have clean := clean_nil.append noSlash
    rwa [List.append_nil] at clean
  have inside := (clean _ behind).append (show '/' ∉ ['('] by decide)
  have parted : wrapping.around payload
      = wrapping.before ++ wrapping.first :: (wrapping.others ++ wrapping.between)
        ++ (['('] ++ (payload ++ ')' :: wrapping.closing)) := by
    simp [around]
  rw [parted]
  exact inside.append front

/-- A thinned call is a call around the thinned payload. -/
theorem exists_thinned {payload thin : List Char}
    (thinned : Thinned true (wrapping.around payload) thin) :
    ∃ (other : Wrapping) (inner : List Char) (atLineStart : Bool),
      thin = other.around inner ∧ Thinned atLineStart payload inner := by
  have name : ∀ character ∈ wrapping.others, isBlank character = false := by
    intro character member
    by_contra blank
    rw [Bool.not_eq_false] at blank
    have apart := continuesName_of_blank blank
    rw [wrapping.othersContinue character member] at apart
    contradiction
  have shown := (shown_of_beginsName wrapping.firstBegins).1
  obtain ⟨before, _, _, rfl, thinBefore, fromName⟩ := thinned.append
  obtain ⟨_, rfl, fromOthers⟩ := fromName.shown shown
  obtain ⟨others, _, _, rfl, thinOthers, fromBetween⟩ := fromOthers.append
  obtain rfl := thinOthers.eq_of_shown name
  obtain ⟨between, _, _, rfl, thinBetween, fromOpening⟩ := fromBetween.append
  obtain ⟨_, rfl, fromPayload⟩ := fromOpening.shown rfl
  obtain ⟨inner, _, _, rfl, thinPayload, fromClosing⟩ := fromPayload.append
  obtain ⟨closing, rfl, thinClosing⟩ := fromClosing.shown rfl
  let other : Wrapping := { wrapping with
    before
    between
    closing
    beforeBlank := thinBefore.allBlank wrapping.beforeBlank
    betweenBlank := thinBetween.allBlank wrapping.betweenBlank
    closes := wrapping.closes.thinned thinClosing }
  exact ⟨other, inner, _, rfl, thinPayload⟩

end Wrapping

end GrammarView.Source
