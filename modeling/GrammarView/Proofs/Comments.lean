import GrammarView.Source.Call

/-!
# Comment lines

Whole lines of comment may be put into a text wherever a line begins. Taking them out again gives
the text back but for blanks at the beginnings of lines: blank lines right before a comment go with
it. This needs only that no line of the text is a comment by itself.
-/

namespace GrammarView.Source

/-- A text of blanks. -/
def AllBlank (text : List Char) : Prop :=
  ∀ space ∈ text, isBlank space = true

instance (text : List Char) : Decidable (AllBlank text) :=
  List.decidableBAll _ text

/-- A text with comment lines put in where lines begin; the flag says whether one begins here. -/
inductive Commented : Bool → List Char → List Char → Prop where
  | nil {atLineStart} : Commented atLineStart [] []
  | character {atLineStart character text commented}
      (others : Commented (character = '\n') text commented) :
      Commented atLineStart (character :: text) (character :: commented)
  | comment {text commented blanks remark} (blank : AllBlank blanks) (line : '\n' ∉ remark)
      (others : Commented true text commented) :
      Commented true text (blanks ++ '/' :: '/' :: (remark ++ '\n' :: commented))

/-- A text with blanks left out where lines begin. -/
inductive Thinned : Bool → List Char → List Char → Prop where
  | nil {atLineStart} : Thinned atLineStart [] []
  | keep {atLineStart character text thin} (others : Thinned (character = '\n') text thin) :
      Thinned atLineStart (character :: text) (character :: thin)
  | drop {character text thin} (blank : isBlank character = true)
      (others : Thinned true text thin) : Thinned true (character :: text) thin

/-- A text whose first character that is not blank begins a comment. -/
def IsComment (text : List Char) : Prop :=
  ∃ remark, dropBlanks text = '/' :: '/' :: remark

/-- A text none of whose lines is a comment; the flag says whether a line begins here. -/
def Bare : Bool → List Char → Prop
  | _, [] => True
  | atLineStart, character :: rest =>
    (atLineStart = true → ¬ IsComment (character :: rest)) ∧ Bare (character = '\n') rest

section Blanks

variable {character : Char} {rest : List Char}

/-- A character that is not blank is not among blanks. -/
theorem AllBlank.not_mem {blanks : List Char} (blank : AllBlank blanks)
    (shown : isBlank character = false) : character ∉ blanks := by
  intro member
  rw [blank character member] at shown
  contradiction

/-- Blanks are blanks in the other order too. -/
theorem AllBlank.reverse {blanks : List Char} (blank : AllBlank blanks) : AllBlank blanks.reverse :=
  fun space member => blank space (List.mem_reverse.mp member)

theorem dropBlanks_cons_of_blank (blank : isBlank character = true) :
    dropBlanks (character :: rest) = dropBlanks rest := by
  simp [dropBlanks, blank]

theorem dropBlanks_cons_of_not_blank (shown : isBlank character = false) :
    dropBlanks (character :: rest) = character :: rest := by
  simp [dropBlanks, shown]

/-- Blanks at the beginning of a text are dropped. -/
theorem dropBlanks_append {blanks : List Char} (blank : AllBlank blanks) (rest : List Char) :
    dropBlanks (blanks ++ rest) = dropBlanks rest := by
  induction blanks with
  | nil => rfl
  | cons space blanks inductionHypothesis =>
    obtain ⟨first, others⟩ := List.forall_mem_cons.mp blank
    rw [List.cons_append, dropBlanks_cons_of_blank first, inductionHypothesis others]

/-- The rest of a comment ends with its line. -/
theorem afterFirstLine_append {remark : List Char} (line : '\n' ∉ remark) (rest : List Char) :
    afterFirstLine (remark ++ '\n' :: rest) = rest := by
  induction remark with
  | nil => rfl
  | cons character remark inductionHypothesis =>
    rw [List.mem_cons, not_or] at line
    refine Eq.trans ?_ (inductionHypothesis line.2)
    simp [afterFirstLine, Ne.symm line.1]

end Blanks

section Stripping

variable {atLineStart : Bool} {text commented : List Char}

/-- No comments need to be put in. -/
theorem Commented.refl (text : List Char) (atLineStart : Bool) :
    Commented atLineStart text text := by
  induction text generalizing atLineStart with
  | nil => exact .nil
  | cons character text inductionHypothesis => exact .character (inductionHypothesis _)

/-- Comments may be put in behind a line of the text. -/
theorem Commented.line (line : List Char) (others : Commented true text commented) :
    Commented atLineStart (line ++ '\n' :: text) (line ++ '\n' :: commented) := by
  induction line generalizing atLineStart with
  | nil => exact .character others
  | cons character line inductionHypothesis => exact .character inductionHypothesis

/-- Inside a line every character is one of the text. -/
theorem Commented.inside {character : Char} (put : Commented false text (character :: commented)) :
    ∃ rest, text = character :: rest ∧ Commented (character = '\n') rest commented := by
  cases put with
  | character others => exact ⟨_, rfl, others⟩

/-- A comment that is taken out at the beginning of a line has been put in there, behind blanks of
the text or of its own. -/
theorem Commented.strip (put : Commented atLineStart text commented)
    (bare : Bare atLineStart text) (free : ¬ IsComment text) {comment : List Char}
    (starts : dropBlanks commented = '/' :: '/' :: comment) :
    ∃ rest, Commented true rest (afterFirstLine comment) ∧ Bare true rest ∧
      ∀ thin, Thinned true rest thin → Thinned true text thin := by
  induction put with
  | nil => contradiction
  | @character atLineStart character text commented others inductionHypothesis =>
    by_cases blank : isBlank character = true
    · rw [dropBlanks_cons_of_blank blank] at starts
      have freeRest : ¬ IsComment text := by
        rintro ⟨remark, same⟩
        exact free ⟨remark, (dropBlanks_cons_of_blank blank).trans same⟩
      obtain ⟨rest, remaining, bareRest, thins⟩ := inductionHypothesis bare.2 freeRest starts
      exact ⟨rest, remaining, bareRest, fun thin thinned => .drop blank (thins thin thinned)⟩
    · -- A slash of the text is followed by one of the text, as no comment begins inside a line.
      have shown := Bool.eq_false_iff.mpr blank
      rw [dropBlanks_cons_of_not_blank shown] at starts
      cases starts
      have slash : decide ('/' = '\n') = false := rfl
      rw [slash] at others
      obtain ⟨rest, rfl, -⟩ := others.inside
      exact absurd ⟨rest, dropBlanks_cons_of_not_blank rfl⟩ free
  | comment blank line others inductionHypothesis =>
    rw [dropBlanks_append blank, dropBlanks_cons_of_not_blank rfl] at starts
    cases starts
    rw [afterFirstLine_append line]
    exact ⟨_, others, bare, fun _ thinned => thinned⟩

/-- A line of a bare text is no comment. -/
theorem Bare.free (bare : Bare true text) : ¬ IsComment text := by
  cases text with
  | nil => exact nofun
  | cons character rest => exact bare.1 rfl

/-- Taking comments out gives back the text, but for blanks at the beginnings of lines. -/
theorem Commented.thinned (put : Commented atLineStart text commented)
    (bare : Bare atLineStart text) :
    Thinned atLineStart text (stripComments atLineStart commented) := by
  fun_induction stripComments atLineStart commented generalizing text with
  | case1 =>
    generalize whole : ([] : List Char) = commented at put
    cases put with
    | nil => exact .nil
    | character => contradiction
    | comment => simp at whole
  | case2 character rest comment starts inductionHypothesis =>
    obtain ⟨remaining, others, bareRest, thins⟩ := put.strip bare bare.free starts
    exact thins _ (inductionHypothesis others bareRest)
  | case3 character rest notComment inductionHypothesis =>
    generalize whole : character :: rest = commented at put
    cases put with
    | nil => contradiction
    | character others =>
      cases whole
      exact .keep (inductionHypothesis others bare.2)
    | @comment _ commented blanks remark blank =>
      have starts : dropBlanks (character :: rest) =
          '/' :: '/' :: (remark ++ '\n' :: commented) := by
        rw [whole, dropBlanks_append blank, dropBlanks_cons_of_not_blank rfl]
      exact absurd starts (notComment _)
  | case4 atLineStart character rest inLine inductionHypothesis =>
    obtain rfl := Bool.eq_false_iff.mpr inLine
    obtain ⟨text, rfl, others⟩ := put.inside
    exact .keep (inductionHypothesis others bare.2)

end Stripping

section Thinning

variable {atLineStart : Bool} {text rest thin : List Char}

/-- A text in two parts is thinned part by part. -/
theorem Thinned.append (thinned : Thinned atLineStart (text ++ rest) thin) :
    ∃ first between others, thin = first ++ others ∧ Thinned atLineStart text first ∧
      Thinned between rest others := by
  induction text generalizing atLineStart thin with
  | nil => exact ⟨[], atLineStart, thin, rfl, .nil, thinned⟩
  | cons character text inductionHypothesis =>
    cases thinned with
    | keep others =>
      obtain ⟨first, between, remaining, rfl, inner, outer⟩ := inductionHypothesis others
      exact ⟨character :: first, between, remaining, rfl, .keep inner, outer⟩
    | drop blank others =>
      obtain ⟨first, between, remaining, rfl, inner, outer⟩ := inductionHypothesis others
      exact ⟨first, between, remaining, rfl, .drop blank inner, outer⟩

/-- Nothing is put into a text when it is thinned. -/
theorem Thinned.subset (thinned : Thinned atLineStart text thin) : thin ⊆ text := by
  induction thinned with
  | nil => exact List.Subset.refl _
  | keep others inductionHypothesis => exact List.cons_subset_cons _ inductionHypothesis
  | drop blank others inductionHypothesis => exact List.subset_cons_of_subset _ inductionHypothesis

/-- A text without blanks stays as it is. -/
theorem Thinned.eq_of_shown (thinned : Thinned atLineStart text thin)
    (shown : ∀ character ∈ text, isBlank character = false) : thin = text := by
  induction thinned with
  | nil => rfl
  | keep others inductionHypothesis =>
    rw [inductionHypothesis (List.forall_mem_cons.mp shown).2]
  | drop blank others =>
    rw [(List.forall_mem_cons.mp shown).1] at blank
    contradiction

/-- What is left of blanks are blanks. -/
theorem Thinned.allBlank (thinned : Thinned atLineStart text thin) (blank : AllBlank text) :
    AllBlank thin :=
  fun space member => blank space (thinned.subset member)

/-- A character that is not blank stays. -/
theorem Thinned.shown {character : Char} (shown : isBlank character = false)
    (thinned : Thinned atLineStart (character :: text) thin) :
    ∃ others, thin = character :: others ∧ Thinned (character = '\n') text others := by
  cases thinned with
  | keep others => exact ⟨_, rfl, others⟩
  | drop blank =>
    rw [shown] at blank
    contradiction

/-- Inside a line nothing is left out. -/
theorem Thinned.inside {line : List Char} (inLine : '\n' ∉ line)
    (thinned : Thinned false (line ++ rest) thin) :
    ∃ others, thin = line ++ others ∧ Thinned false rest others := by
  induction line generalizing thin with
  | nil => exact ⟨thin, rfl, thinned⟩
  | cons character line inductionHypothesis =>
    rw [List.mem_cons, not_or] at inLine
    cases thinned with
    | keep others =>
      rw [decide_eq_false (Ne.symm inLine.1)] at others
      obtain ⟨remaining, rfl, outer⟩ := inductionHypothesis inLine.2 others
      exact ⟨remaining, rfl, outer⟩

end Thinning

section Bareness

variable {text rest : List Char} {character : Char}

/-- A text that is no comment and holds none, wherever it stands. -/
structure Clean (text : List Char) : Prop where
  free : ¬ IsComment text
  bare : ∀ atLineStart, Bare atLineStart text

theorem clean_nil : Clean [] :=
  ⟨nofun, fun _ => trivial⟩

/-- A blank in front of a clean text leaves it clean. -/
theorem Clean.blank (clean : Clean rest) (blank : isBlank character = true) :
    Clean (character :: rest) := by
  have free : ¬ IsComment (character :: rest) := by
    rintro ⟨remark, same⟩
    exact clean.free ⟨remark, (dropBlanks_cons_of_blank blank).symm.trans same⟩
  exact ⟨free, fun _ => ⟨fun _ => free, clean.bare _⟩⟩

/-- Inside a line no comment begins. -/
theorem Bare.inside {line : List Char} (inLine : '\n' ∉ line) (bare : Bare false rest) :
    Bare false (line ++ rest) := by
  induction line with
  | nil => exact bare
  | cons character line inductionHypothesis =>
    rw [List.mem_cons, not_or] at inLine
    refine ⟨nofun, ?_⟩
    rw [decide_eq_false (Ne.symm inLine.1)]
    exact inductionHypothesis inLine.2

/-- A piece of a line that begins with neither blank nor slash leaves a clean text clean. -/
theorem Clean.line {line : List Char} (clean : Clean rest) (shown : isBlank character = false)
    (noSlash : character ≠ '/') (inLine : '\n' ∉ line) :
    Clean (character :: (line ++ rest)) := by
  have free : ¬ IsComment (character :: (line ++ rest)) := by
    rintro ⟨remark, same⟩
    rw [dropBlanks_cons_of_not_blank shown] at same
    exact noSlash (List.cons.inj same).1
  have noFeed : character ≠ '\n' := by
    rintro rfl
    contradiction
  refine ⟨free, fun _ => ⟨fun _ => free, ?_⟩⟩
  rw [decide_eq_false noFeed]
  exact Bare.inside inLine (clean.bare false)

/-- A text without slashes in front of a clean text leaves it clean. -/
theorem Clean.append (clean : Clean rest) (noSlash : '/' ∉ text) : Clean (text ++ rest) := by
  induction text with
  | nil => exact clean
  | cons character text inductionHypothesis =>
    rw [List.mem_cons, not_or] at noSlash
    have others := inductionHypothesis noSlash.2
    by_cases blank : isBlank character = true
    · exact others.blank blank
    · have nothing : '\n' ∉ ([] : List Char) := List.not_mem_nil
      exact others.line (Bool.eq_false_iff.mpr blank) (Ne.symm noSlash.1) nothing

end Bareness

end GrammarView.Source
