import GrammarView.Json.Token

/-!
# Strings of a JSON text

What may stand between the quotes of a string, said without offsets: characters that stand for
themselves, short escapes, and the escapes of one code unit or of a pair of them. The reader takes
exactly this up to the closing quote, and what stands behind the quote has no say in it.
-/

namespace GrammarView.Json

/-- Whether a text begins with the escape of the second half of a pair. -/
def beginsLow : List Char → Bool
  | backslash :: mark :: first :: second :: third :: fourth :: _ =>
    backslash == '\\' && mark == 'u' &&
      (hexadecimal? first second third fourth).any isLowSurrogate
  | _ => false

/-- What may stand between the quotes of a string, and the characters that it stands for. -/
inductive Spells : List Char → List Char → Prop where
  | nil : Spells [] []
  | plain {character inside content} (notQuote : character ≠ '"') (notBackslash : character ≠ '\\')
      (notControl : 0x20 ≤ character.toNat) (others : Spells inside content) :
      Spells (character :: inside) (character :: content)
  | short {mark character inside content} (escape : shortEscape? mark = some character)
      (others : Spells inside content) :
      Spells ('\\' :: mark :: inside) (character :: content)
  | unit {first second third fourth unit inside content}
      (digits : hexadecimal? first second third fourth = some unit)
      (single : isHighSurrogate unit = true → beginsLow inside = false)
      (others : Spells inside content) :
      Spells ('\\' :: 'u' :: first :: second :: third :: fourth :: inside) (ofUnit unit :: content)
  | pair {first second third fourth fifth sixth seventh eighth high low inside content}
      (highDigits : hexadecimal? first second third fourth = some high)
      (isHigh : isHighSurrogate high = true)
      (lowDigits : hexadecimal? fifth sixth seventh eighth = some low)
      (isLow : isLowSurrogate low = true) (others : Spells inside content) :
      Spells ('\\' :: 'u' :: first :: second :: third :: fourth :: '\\' :: 'u' :: fifth :: sixth ::
        seventh :: eighth :: inside) (joinSurrogates high low :: content)

variable {inside content tail : List Char} {start offset : Nat}

/-- No short escape is marked like the escape of a code unit. -/
theorem ne_of_shortEscape? {mark character : Char} (escape : shortEscape? mark = some character) :
    mark ≠ 'u' := by
  rintro rfl
  simp [shortEscape?] at escape

/-- A character that is no backslash begins no escape. -/
theorem followingUnit?_of_ne {character : Char} (other : character ≠ '\\') (offset : Nat)
    (rest : List Char) :
    followingUnit? offset (character :: rest) = .ok none ∧
      beginsLow (character :: rest) = false := by
  unfold followingUnit? beginsLow
  constructor <;> split <;> simp_all

/-- A mark other than that of a code unit begins no escape of one. -/
theorem followingUnit?_of_mark {mark : Char} (other : mark ≠ 'u') (offset : Nat)
    (rest : List Char) :
    followingUnit? offset ('\\' :: mark :: rest) = .ok none ∧
      beginsLow ('\\' :: mark :: rest) = false := by
  unfold followingUnit? beginsLow
  constructor <;> split <;> simp_all

/-- What follows a first half inside a string is told before the string ends. -/
theorem followingUnit?_of_spells (spells : Spells inside content) (offset : Nat)
    (tail : List Char) :
    ∃ following, followingUnit? offset (inside ++ '"' :: tail) = .ok following ∧
      following.any isLowSurrogate = beginsLow inside := by
  cases spells with
  | nil => exact ⟨none, (followingUnit?_of_ne (by decide) offset tail).1, rfl⟩
  | @plain _ inside _ _ notBackslash =>
    exact ⟨none, (followingUnit?_of_ne notBackslash offset (inside ++ '"' :: tail)).1,
      (followingUnit?_of_ne notBackslash offset inside).2.symm⟩
  | @short _ _ inside _ escape =>
    have other := ne_of_shortEscape? escape
    exact ⟨none, (followingUnit?_of_mark other offset (inside ++ '"' :: tail)).1,
      (followingUnit?_of_mark other offset inside).2.symm⟩
  | @unit first second third fourth unit inside content digits single others =>
    refine ⟨some unit, ?_, by simp [beginsLow, digits]⟩
    cases inside <;> simp [followingUnit?, digits]
  | @pair _ _ _ _ _ _ _ _ high low inside content highDigits isHigh lowDigits isLow others =>
    refine ⟨some high, ?_, by simp [beginsLow, highDigits]⟩
    simp [followingUnit?, highDigits]

/-- The escape of a single unit is complete after its digits. -/
theorem completeUnit_single {unit : Nat} (spells : Spells inside content)
    (single : isHighSurrogate unit = true → beginsLow inside = false) (offset : Nat)
    (tail : List Char) :
    completeUnit offset unit (inside ++ '"' :: tail) = .ok (ofUnit unit, 0) := by
  unfold completeUnit
  split
  case isFalse => rfl
  case isTrue high =>
    obtain ⟨following, read, low⟩ := followingUnit?_of_spells spells (offset + 6) tail
    rw [read]
    cases following with
    | none => rfl
    | some unit =>
      have notLow : isLowSurrogate unit = false := low.trans (single high)
      simp [notLow]

/-- A text in front of a quote has a first character. -/
theorem exists_append_quote (inside tail : List Char) :
    ∃ next rest, inside ++ '"' :: tail = next :: rest := by
  cases inside <;> simp

/-- The escape of a single unit takes its four digits. -/
theorem readEscape_unit {first second third fourth : Char} {unit : Nat}
    (digits : hexadecimal? first second third fourth = some unit)
    (single : isHighSurrogate unit = true → beginsLow inside = false)
    (others : Spells inside content) :
    readEscape offset 'u' (first :: second :: third :: fourth :: (inside ++ '"' :: tail)) =
      .ok (ofUnit unit, 4) := by
  have complete := completeUnit_single others single offset tail
  obtain ⟨next, rest, split⟩ := exists_append_quote inside tail
  rw [split] at complete ⊢
  simp [readEscape, digits, complete, Except.map]

/-- The escape of a pair takes the four digits of its first half and all of the second. -/
theorem readEscape_pair {first second third fourth fifth sixth seventh eighth : Char}
    {high low : Nat} (highDigits : hexadecimal? first second third fourth = some high)
    (isHigh : isHighSurrogate high = true)
    (lowDigits : hexadecimal? fifth sixth seventh eighth = some low)
    (isLow : isLowSurrogate low = true) (offset : Nat) (inside tail : List Char) :
    readEscape offset 'u' (first :: second :: third :: fourth :: '\\' :: 'u' :: fifth :: sixth ::
      seventh :: eighth :: (inside ++ '"' :: tail)) = .ok (joinSurrogates high low, 10) := by
  obtain ⟨next, rest, split⟩ := exists_append_quote inside tail
  rw [split]
  simp [readEscape, completeUnit, followingUnit?, highDigits, isHigh, lowDigits, isLow, Except.map]

/-- A string goes on after a character that stands for itself. -/
theorem readText_plain {character : Char} {rest : List Char} {stop : Nat}
    (notQuote : character ≠ '"') (notBackslash : character ≠ '\\')
    (notControl : 0x20 ≤ character.toNat)
    (others : readText start (offset + 1) rest = .ok (content, stop)) :
    readText start offset (character :: rest) = .ok (character :: content, stop) := by
  rw [readText.eq_5 _ _ _ _ notQuote (fun same => absurd same notBackslash)
    (fun _ _ same => absurd same notBackslash), if_neg (Nat.not_lt.mpr notControl), others]
  rfl

/-- A string goes on after an escape. -/
theorem readText_escape {mark character : Char} {rest : List Char} {width stop : Nat}
    (escape : readEscape offset mark rest = .ok (character, width))
    (others : readText start (offset + 2 + width) (rest.drop width) = .ok (content, stop)) :
    readText start offset ('\\' :: mark :: rest) = .ok (character :: content, stop) := by
  rw [readText, escape]
  simp [others, Except.map]

/-- The inside of a string is read up to its closing quote, whatever stands behind it. -/
theorem readText_of_spells (spells : Spells inside content) (start : Nat) (tail : List Char)
    {offset stop : Nat} (ends : stop = offset + inside.length + 1) :
    readText start offset (inside ++ '"' :: tail) = .ok (content, stop) := by
  induction spells generalizing offset with
  | nil => simp [readText, ends]
  | plain notQuote notBackslash notControl others inductionHypothesis =>
    refine readText_plain notQuote notBackslash notControl (inductionHypothesis ?_)
    simp only [List.length_cons] at ends
    omega
  | @short mark character _ _ escape others inductionHypothesis =>
    have read (rest : List Char) : readEscape offset mark rest = .ok (character, 0) := by
      unfold readEscape
      rw [if_neg (ne_of_shortEscape? escape), escape]
    refine readText_escape (read _) (inductionHypothesis ?_)
    simp only [List.length_cons] at ends
    omega
  | unit digits single others inductionHypothesis =>
    refine readText_escape (readEscape_unit digits single others) (inductionHypothesis ?_)
    simp only [List.length_cons] at ends
    omega
  | pair highDigits isHigh lowDigits isLow others inductionHypothesis =>
    have read := readEscape_pair highDigits isHigh lowDigits isLow offset
    refine readText_escape (read _ tail) (inductionHypothesis ?_)
    simp only [List.length_cons] at ends
    omega

/-- What counts as the escape of a code unit is one. -/
theorem eq_of_followingUnit? {rest : List Char} {unit : Nat}
    (read : followingUnit? offset rest = .ok (some unit)) :
    ∃ first second third fourth others,
      rest = '\\' :: 'u' :: first :: second :: third :: fourth :: others ∧
        hexadecimal? first second third fourth = some unit := by
  unfold followingUnit? at read
  split at read
  case h_2 => cases read
  case h_1 first second third fourth next others =>
    split at read
    case isFalse => cases read
    case isTrue escape =>
      obtain ⟨rfl, rfl⟩ := escape
      split at read
      case h_2 => contradiction
      case h_1 digits =>
        cases read
        exact ⟨first, second, third, fourth, next :: others, rfl, digits⟩

/-- The escape of a code unit that is completed in front of the inside of a string. -/
theorem spells_of_completeUnit {first second third fourth character : Char} {rest : List Char}
    {unit width : Nat} (digits : hexadecimal? first second third fourth = some unit)
    (complete : completeUnit offset unit rest = .ok (character, width))
    (remaining : rest.drop width = inside ++ '"' :: tail) (others : Spells inside content) :
    Spells ('\\' :: 'u' :: first :: second :: third :: fourth :: (rest.take width ++ inside))
      (character :: content) := by
  unfold completeUnit at complete
  split at complete
  case isFalse notHigh =>
    cases complete
    exact .unit digits (absurd · notHigh) others
  case isTrue high =>
    -- Where no second half counts, nothing but the inside of the string follows.
    have alone (inner : rest = inside ++ '"' :: tail) {following : Option Nat}
        (read : followingUnit? (offset + 6) rest = .ok following)
        (notLow : following.any isLowSurrogate = false) : beginsLow inside = false := by
      obtain ⟨same, again, low⟩ := followingUnit?_of_spells others (offset + 6) tail
      rw [← inner, read] at again
      cases again
      exact low.symm.trans notLow
    split at complete
    case h_1 => contradiction
    case h_2 read =>
      cases complete
      exact .unit digits (fun _ => alone remaining read rfl) others
    case h_3 low read =>
      split at complete
      case isTrue isLow =>
        obtain ⟨rfl, rfl⟩ := Prod.mk.inj (Except.ok.inj complete)
        obtain ⟨fifth, sixth, seventh, eighth, rest, rfl, lowDigits⟩ := eq_of_followingUnit? read
        exact .pair digits high lowDigits isLow others
      case isFalse notLow =>
        cases complete
        have single := alone remaining read (Bool.eq_false_iff.mpr notLow)
        exact .unit digits (fun _ => single) others

/-- An escape that is read in front of the inside of a string makes it longer. -/
theorem spells_of_readEscape {mark character : Char} {rest : List Char} {width : Nat}
    (escape : readEscape offset mark rest = .ok (character, width))
    (remaining : rest.drop width = inside ++ '"' :: tail) (others : Spells inside content) :
    Spells ('\\' :: mark :: (rest.take width ++ inside)) (character :: content) := by
  unfold readEscape at escape
  split at escape
  case isFalse =>
    split at escape
    case h_2 => contradiction
    case h_1 short =>
      cases escape
      exact .short short others
  case isTrue same =>
    subst same
    split at escape
    case h_2 => contradiction
    case h_1 first second third fourth next rest =>
      split at escape
      case h_2 => contradiction
      case h_1 unit digits =>
        cases complete : completeUnit offset unit (next :: rest) with
        | error fault =>
          rw [complete] at escape
          contradiction
        | ok completed =>
          rw [complete] at escape
          cases escape
          exact spells_of_completeUnit digits complete remaining others

/-- What is read as the inside of a string is one, and it ends before a quote. -/
theorem spells_of_readText {text : List Char} {stop : Nat}
    (read : readText start offset text = .ok (content, stop)) :
    ∃ inside tail, text = inside ++ '"' :: tail ∧ Spells inside content ∧
      stop = offset + inside.length + 1 := by
  fun_induction readText start offset text generalizing content stop with
  | case2 =>
    cases read
    exact ⟨[], _, rfl, .nil, rfl⟩
  | case5 offset mark rest character width escape inductionHypothesis =>
    cases others : readText start (offset + 2 + width) (rest.drop width) with
    | error fault =>
      rw [others] at read
      contradiction
    | ok remaining =>
      rw [others] at read
      cases read
      obtain ⟨inside, tail, same, spells, ends⟩ := inductionHypothesis others
      refine ⟨'\\' :: mark :: (rest.take width ++ inside), tail, ?_,
        spells_of_readEscape escape same spells, ?_⟩
      · have whole := List.take_append_drop width rest
        rw [same] at whole
        simp [whole]
      · have long : width < rest.length := by
          have lengths := congrArg List.length same
          simp only [List.length_drop, List.length_append, List.length_cons] at lengths
          omega
        simp only [List.length_cons, List.length_append, List.length_take]
        omega
  | case7 offset character rest notQuote notLast notEscape printable inductionHypothesis =>
    have notBackslash : character ≠ '\\' := by
      intro same
      cases rest with
      | nil => exact notLast same rfl
      | cons mark rest => exact notEscape mark rest same rfl
    cases others : readText start (offset + 1) rest with
    | error fault =>
      rw [others] at read
      contradiction
    | ok remaining =>
      rw [others] at read
      cases read
      obtain ⟨inside, tail, rfl, spells, ends⟩ := inductionHypothesis others
      refine ⟨character :: inside, tail, rfl, ?_, ?_⟩
      · exact .plain notQuote notBackslash (Nat.not_lt.mp printable) spells
      · simp only [List.length_cons]
        omega
  | _ => contradiction

/-- The digits of a code unit are no line feeds. -/
theorem inLine_of_hexadecimal? {first second third fourth : Char} {unit : Nat}
    (digits : hexadecimal? first second third fourth = some unit) :
    '\n' ∉ [first, second, third, fourth] := by
  have feed : hexadecimalDigit? '\n' = none := rfl
  intro member
  simp only [List.mem_cons, List.not_mem_nil, or_false] at member
  rcases member with rfl | rfl | rfl | rfl <;>
    simp [hexadecimal?, feed] at digits

/-- A string ends on the line that it begins on. -/
theorem Spells.inLine (spells : Spells inside content) : '\n' ∉ inside := by
  induction spells with
  | nil => exact List.not_mem_nil
  | plain notQuote notBackslash notControl others inductionHypothesis =>
    rw [List.mem_cons, not_or]
    refine ⟨?_, inductionHypothesis⟩
    rintro rfl
    contradiction
  | short escape others inductionHypothesis =>
    simp only [List.mem_cons, not_or]
    refine ⟨by decide, ?_, inductionHypothesis⟩
    rintro rfl
    contradiction
  | unit digits single others inductionHypothesis =>
    have unit := inLine_of_hexadecimal? digits
    simp_all
  | pair highDigits isHigh lowDigits isLow others inductionHypothesis =>
    have high := inLine_of_hexadecimal? highDigits
    have low := inLine_of_hexadecimal? lowDigits
    simp_all

/-- Whether an escape of half a pair stands without the other half somewhere in a text. -/
def escapesHalf (characters : List Char) : Bool :=
  match characters with
  | '\\' :: 'u' :: first :: second :: third :: fourth :: rest =>
    match hexadecimal? first second third fourth with
    | some unit =>
      if isHighSurrogate unit then !beginsLow rest || escapesHalf (rest.drop 6)
      else isLowSurrogate unit || escapesHalf rest
    | none => escapesHalf (first :: second :: third :: fourth :: rest)
  | '\\' :: _ :: rest => escapesHalf rest
  | _ :: rest => escapesHalf rest
  | [] => false
termination_by characters.length
decreasing_by all_goals simp <;> omega

/-- Where no half of a pair stands alone, a single code unit is read as its character and not
replaced. -/
theorem ofUnit_of_whole {first second third fourth : Char} {unit : Nat} {inside : List Char}
    (digits : hexadecimal? first second third fourth = some unit)
    (single : isHighSurrogate unit = true → beginsLow inside = false)
    (whole : escapesHalf ('\\' :: 'u' :: first :: second :: third :: fourth :: inside) = false) :
    ofUnit unit = Char.ofNat unit := by
  rw [escapesHalf, digits] at whole
  cases high : isHighSurrogate unit with
  | true => simp [high, single high] at whole
  | false =>
    have low : isLowSurrogate unit = false := by
      simp only [high] at whole
      exact (Bool.or_eq_false_iff.mp whole).1
    simp [ofUnit, high, low]

/-- Both halves of a pair stand together. -/
example : escapesHalf "\\ud83d\\ude00".toList = false := by
  cbv

/-- Half a pair stands alone, also behind a backslash that is escaped. -/
example : escapesHalf "\\\\\\ud83d ".toList = true := by
  cbv

end GrammarView.Json
