import GrammarView.Json.Writer
import GrammarView.Proofs.Digits
import GrammarView.Proofs.Formats

/-!
# Written values read back

What is written of a value reads back as the value: every string with its escapes, every integer,
every object with its members in order. So a grammar source that is written out as one object is
read as the same source, plain and inside a call.
-/

namespace GrammarView.Json

section Digits

/-- The four digits of a code unit. -/
theorem paddedDigits_four {unit : Nat} (small : unit < 0x10000) :
    paddedDigits 16 4 unit = [Nat.digitChar (unit / 16 / 16 / 16),
      Nat.digitChar (unit / 16 / 16 % 16), Nat.digitChar (unit / 16 % 16),
      Nat.digitChar (unit % 16)] := by
  have first : unit / 16 / 16 / 16 < 16 := by omega
  rw [paddedDigits_succ (by decide) (by decide), paddedDigits_succ (by decide) (by decide),
    paddedDigits_succ (by decide) (by decide), paddedDigits, Nat.toDigits_of_lt_base first]
  rfl

/-- A hexadecimal digit has its value. -/
theorem hexadecimalDigit?_digitChar {digit : Nat} (small : digit < 16) :
    hexadecimalDigit? (Nat.digitChar digit) = some digit := by
  have all : ∀ digit < 16, hexadecimalDigit? (Nat.digitChar digit) = some digit := by decide
  exact all digit small

/-- The four digits of a code unit have its value. -/
theorem hexadecimal?_digits {unit : Nat} (small : unit < 0x10000) :
    hexadecimal? (Nat.digitChar (unit / 16 / 16 / 16)) (Nat.digitChar (unit / 16 / 16 % 16))
      (Nat.digitChar (unit / 16 % 16)) (Nat.digitChar (unit % 16)) = some unit := by
  have value : ((unit / 16 / 16 / 16 * 16 + unit / 16 / 16 % 16) * 16 + unit / 16 % 16) * 16 +
      unit % 16 = unit := by omega
  have first : unit / 16 / 16 / 16 < 16 := by omega
  have below (number : Nat) : number % 16 < 16 := Nat.mod_lt number (by decide)
  simp [hexadecimal?, hexadecimalDigit?_digitChar first, hexadecimalDigit?_digitChar (below _),
    value]

end Digits

section Escapes

variable {inside content : List Char}

/-- The code point of a character is no half of a pair. -/
theorem code_of_char (character : Char) :
    character.toNat < 0xD800 ∨ 0xDFFF < character.toNat ∧ character.toNat < 0x110000 := by
  have valid : character.toNat.isValidChar := character.valid
  exact valid

/-- The code unit of a character that needs no pair stands for it. -/
theorem ofUnit_toNat (character : Char) : ofUnit character.toNat = character := by
  have code := code_of_char character
  have noHigh : isHighSurrogate character.toNat = false := by
    simp only [isHighSurrogate, Bool.and_eq_false_iff, decide_eq_false_iff_not]
    omega
  have noLow : isLowSurrogate character.toNat = false := by
    simp only [isLowSurrogate, Bool.and_eq_false_iff, decide_eq_false_iff_not]
    omega
  simp [ofUnit, noHigh, noLow]

/-- An escaped code unit spells its character. -/
theorem spells_unicodeEscape {character : Char} (small : character.toNat < 0x10000)
    (others : Spells inside content) :
    Spells (unicodeEscape character.toNat ++ inside) (character :: content) := by
  have noHigh : isHighSurrogate character.toNat = false := by
    have code := code_of_char character
    simp only [isHighSurrogate, Bool.and_eq_false_iff, decide_eq_false_iff_not]
    omega
  have spells := Spells.unit (hexadecimal?_digits small) (by simp [noHigh]) others
  rw [ofUnit_toNat] at spells
  rw [unicodeEscape, paddedDigits_four small]
  exact spells

/-- An escaped pair of code units spells its character. -/
theorem spells_pair {character : Char} (large : 0x10000 ≤ character.toNat)
    (others : Spells inside content) :
    Spells (unicodeEscape (0xD800 + (character.toNat - 0x10000) / 0x400)
      ++ unicodeEscape (0xDC00 + (character.toNat - 0x10000) % 0x400) ++ inside)
      (character :: content) := by
  have code := code_of_char character
  generalize highValue : 0xD800 + (character.toNat - 0x10000) / 0x400 = high
  generalize lowValue : 0xDC00 + (character.toNat - 0x10000) % 0x400 = low
  have highSmall : high < 0x10000 := by omega
  have lowSmall : low < 0x10000 := by omega
  have isHigh : isHighSurrogate high = true := by
    simp only [isHighSurrogate, Bool.and_eq_true, decide_eq_true_eq]
    omega
  have isLow : isLowSurrogate low = true := by
    simp only [isLowSurrogate, Bool.and_eq_true, decide_eq_true_eq]
    omega
  have joined : joinSurrogates high low = character := by
    have whole : 0x10000 + (high - 0xD800) * 0x400 + (low - 0xDC00) = character.toNat := by omega
    rw [joinSurrogates, whole, Char.ofNat_toNat]
  have spells := Spells.pair (hexadecimal?_digits highSmall) isHigh (hexadecimal?_digits lowSmall)
    isLow others
  rw [joined] at spells
  rw [unicodeEscape, unicodeEscape, paddedDigits_four highSmall, paddedDigits_four lowSmall]
  exact spells

/-- A written character in front of the inside of a string stands for itself. -/
theorem spells_escapeCharacter (character : Char) (others : Spells inside content) :
    Spells (escapeCharacter character ++ inside) (character :: content) := by
  have short {mark : Char} (escape : shortEscape? mark = some character) :
      Spells (['\\', mark] ++ inside) (character :: content) := .short escape others
  unfold escapeCharacter
  split_ifs with quote backslash feed carriage tab form bell
  case neg =>
    simp only
    split_ifs with printable small
    · exact .plain quote backslash printable.1 others
    · exact spells_unicodeEscape small others
    · exact spells_pair (Nat.not_lt.mp small) others
  all_goals
    subst character
    exact short rfl

/-- A written string spells its characters. -/
theorem spells_writeText (characters : List Char) :
    Spells (characters.flatMap escapeCharacter) characters := by
  induction characters with
  | nil => exact .nil
  | cons character characters inductionHypothesis =>
    rw [List.flatMap_cons]
    exact spells_escapeCharacter character inductionHypothesis

/-- A written string is one token. -/
theorem spelled_writeText (content : String) : Spelled (writeText content) (.text content) := by
  have spelled := Spelled.text (spells_writeText content.toList)
  rwa [String.ofList_toList] at spelled

end Escapes

section Numerals

/-- All digits of a number stand before its point. -/
theorem wholeOf_toDigits (value : Nat) :
    wholeOf (Nat.toDigits 10 value) = Nat.toDigits 10 value := by
  have digits : (Nat.toDigits 10 value).takeWhile Char.isDigit = Nat.toDigits 10 value :=
    List.takeWhile_eq_self_iff.mpr (allDigits_toDigits value)
  rcases Nat.eq_zero_or_pos value with rfl | positive
  · rw [Nat.toDigits_zero]
    rfl
  · have head := head_toDigits positive
    unfold wholeOf
    split
    case h_1 same => simp [same] at head
    case h_2 => exact digits

/-- The numeral of a number is read as that number. -/
theorem unsignedNumber?_toDigits (negative : Bool) (value : Nat) :
    unsignedNumber? negative (Nat.toDigits 10 value) =
      some (.int (if negative then -Int.ofNat value else Int.ofNat value),
        (Nat.toDigits 10 value).length) := by
  have given : (Nat.toDigits 10 value).isEmpty = false :=
    List.isEmpty_eq_false_iff.mpr Nat.toDigits_ne_nil
  simp [unsignedNumber?, wholeOf_toDigits, given, fractionOf, exponentOf, valueOfDigits_toDigits]

/-- The numeral of a number begins with a digit. -/
theorem exists_head_toDigits (value : Nat) :
    ∃ digit rest, Nat.toDigits 10 value = digit :: rest ∧ digit.isDigit = true := by
  have given : Nat.toDigits 10 value ≠ [] := Nat.toDigits_ne_nil
  obtain ⟨digit, rest, same⟩ := List.exists_cons_of_ne_nil given
  have member : digit ∈ Nat.toDigits 10 value := same ▸ .head _
  exact ⟨digit, rest, same, allDigits_toDigits value digit member⟩

/-- No word for a value begins with a digit, also behind a sign. -/
theorem find?_words {digit : Char} (isDigit : digit.isDigit = true) (rest : List Char) :
    words.find? (fun word => word.1.isPrefixOf (digit :: rest)) = none ∧
      words.find? (fun word => word.1.isPrefixOf ('-' :: digit :: rest)) = none := by
  have other {letter : Char} (apart : letter.isDigit = false) : letter ≠ digit := by
    rintro rfl
    rw [isDigit] at apart
    contradiction
  constructor
  all_goals
    refine List.find?_eq_none.mpr fun word member => ?_
    simp only [words, List.mem_cons, List.not_mem_nil, or_false] at member
    rcases member with rfl | rfl | rfl | rfl | rfl | rfl <;> simp [List.isPrefixOf, other]

/-- A written integer is one token. -/
theorem spelled_toString (value : Int) :
    Spelled (toString value).toList (.literal (.int value)) := by
  refine .literal ?_
  cases value with
  | ofNat value =>
    obtain ⟨digit, rest, same, isDigit⟩ := exists_head_toDigits value
    have numeral : (toString (Int.ofNat value)).toList = digit :: rest := by
      simp [Int.repr_eq_if, same]
    have number := unsignedNumber?_toDigits false value
    have minus : digit ≠ '-' := by
      rintro rfl
      contradiction
    rw [same] at number
    rw [numeral]
    simpa [literal?, find?_words isDigit, minus] using number
  | negSucc value =>
    obtain ⟨digit, rest, same, isDigit⟩ := exists_head_toDigits (value + 1)
    have numeral : (toString (Int.negSucc value)).toList = '-' :: digit :: rest := by
      simp [Int.repr_eq_if, same]
    have number := unsignedNumber?_toDigits true (value + 1)
    have negative : -(Int.ofNat (value + 1)) = Int.negSucc value := rfl
    rw [same, if_pos rfl, negative] at number
    rw [numeral]
    simp [literal?, find?_words isDigit, number]

end Numerals

section Values

/-- The values that are written without loss: there are no doubles in them, no integers that are too
long to be written, and no name twice in an object. -/
inductive Plain : Json → Prop where
  | null : Plain .null
  | bool (value : Bool) : Plain (.bool value)
  | int {value : Int} (short : value.natAbs < 10 ^ 4300) : Plain (.int value)
  | str (content : String) : Plain (.str content)
  | arr {items : List Json} (plain : ∀ item ∈ items, Plain item) : Plain (.arr items)
  | obj {members : Entries Json} (distinct : members.Distinct)
      (plain : ∀ member ∈ members, Plain member.2) : Plain (.obj members)

/-- A value whose written form is read where a value may come, whatever follows. -/
def ReadsBack (value : Json) : Prop :=
  ∀ frames rest whole, Accepts (.done value frames) rest whole →
    Accepts (.value frames) (writeValue value ++ rest) whole

variable {frames : List Frame} {rest : List Char} {whole : Json}

/-- A literal in the place of a value is that value. -/
theorem readsBack_of_literal {value : Json}
    (spelled : Spelled (writeValue value) (.literal value)) : ReadsBack value := by
  intro frames rest whole accepts
  generalize writeValue value = spelling at spelled
  cases spelling with
  | nil =>
    cases spelled with
    | literal found => exact absurd (literal?_width found).1 (Nat.lt_irrefl 0)
  | cons character inside => exact .token spelled rfl accepts

/-- What may come first in an array may come first behind its bracket. -/
theorem Accepts.firstItem {text : List Char}
    (accepts : Accepts (.value (.items [] :: frames)) text whole) :
    Accepts (.firstItem frames) text whole := by
  generalize same : State.value (.items [] :: frames) = state at accepts
  induction accepts with
  | done => contradiction
  | space space others inductionHypothesis => exact .space space (inductionHypothesis same)
  | @token _ _ _ _ _ token _ spelled step others =>
    subst same
    refine .token spelled ?_ others
    cases token with
    | closeBracket => contradiction
    | _ => exact step

/-- A name may come first behind the brace of an object. -/
theorem Accepts.firstName {text : List Char} (accepts : Accepts (.name [] frames) text whole) :
    Accepts (.firstName frames) text whole := by
  generalize same : State.name [] frames = state at accepts
  induction accepts with
  | done => contradiction
  | space space others inductionHypothesis => exact .space space (inductionHypothesis same)
  | @token _ _ _ _ _ token _ spelled step others =>
    subst same
    refine .token spelled ?_ others
    cases token with
    | closeBrace => contradiction
    | _ => exact step

/-- A mark of one character leads to the next state. -/
theorem Accepts.mark {state next : State} (character : Char) (token : Token) {text : List Char}
    (listed : (character, token) ∈ marks) (step : state.next (0, token) = .ok next)
    (accepts : Accepts next text whole) : Accepts state (character :: text) whole :=
  .token (.mark listed) step accepts

/-- Written items are read behind other items. -/
theorem accepts_writeItems {items before : List Json} (readBack : ∀ item ∈ items, ReadsBack item)
    (given : items ≠ [])
    (accepts : Accepts (.done (.arr (before.reverse ++ items)) frames) rest whole) :
    Accepts (.value (.items before :: frames)) (writeItems items ++ ']' :: rest) whole := by
  induction items generalizing before with
  | nil => contradiction
  | cons item others inductionHypothesis =>
    obtain ⟨first, behind⟩ := List.forall_mem_cons.mp readBack
    have collected : before.reverse ++ item :: others = (item :: before).reverse ++ others := by
      simp
    rw [collected] at accepts
    cases others with
    | nil =>
      rw [List.append_nil] at accepts
      exact first _ _ _ (.mark ']' .closeBracket (by simp [marks]) rfl accepts)
    | cons second more =>
      have remaining := inductionHypothesis behind (List.cons_ne_nil _ _) accepts
      have comma : Accepts (.done item (.items before :: frames))
          (',' :: ' ' :: (writeItems (second :: more) ++ ']' :: rest)) whole :=
        .mark ',' .comma (by simp [marks]) rfl (.space rfl remaining)
      have whole := first _ _ _ comma
      simpa [writeItems] using whole

/-- Written members are read behind other members. -/
theorem accepts_writeMembers {members before : Entries Json}
    (readBack : ∀ member ∈ members, ReadsBack member.2) (given : members ≠ [])
    (distinct : Entries.Distinct (before ++ members))
    (accepts : Accepts (.done (.obj (before ++ members)) frames) rest whole) :
    Accepts (.name before frames) (writeMembers members ++ '\x7d' :: rest) whole := by
  induction members generalizing before with
  | nil => contradiction
  | cons member others inductionHypothesis =>
    obtain ⟨name, value⟩ := member
    obtain ⟨first, behind⟩ := List.forall_mem_cons.mp readBack
    have fresh : name ∉ before.names := by
      intro known
      rw [Entries.Distinct, Entries.names, List.map_append] at distinct
      exact (List.nodup_append.mp distinct).2.2 name known name (.head _) rfl
    have collected := before.insert_of_not_mem value fresh
    rw [List.append_cons, ← collected] at distinct accepts
    have named {text : List Char}
        (value : Accepts (.value (.members before name :: frames)) text whole) :
        Accepts (.name before frames) (writeText name ++ ':' :: ' ' :: text) whole :=
      .token (spelled_writeText name) rfl
        (.mark ':' .colon (by simp [marks]) rfl (.space rfl value))
    cases others with
    | nil =>
      rw [List.append_nil] at accepts
      have closed : Accepts (.done value (.members before name :: frames)) ('\x7d' :: rest) whole :=
        .mark '\x7d' .closeBrace (by simp [marks]) rfl accepts
      simpa [writeMembers] using named (first _ _ _ closed)
    | cons second more =>
      have remaining := inductionHypothesis behind (List.cons_ne_nil _ _) distinct accepts
      have comma : Accepts (.done value (.members before name :: frames))
          (',' :: ' ' :: (writeMembers (second :: more) ++ '\x7d' :: rest)) whole :=
        .mark ',' .comma (by simp [marks]) rfl (.space rfl remaining)
      simpa [writeMembers] using named (first _ _ _ comma)

/-- Plain values read back. -/
theorem Plain.readsBack {value : Json} (plain : Plain value) : ReadsBack value := by
  induction plain with
  | null => exact readsBack_of_literal (.literal rfl)
  | bool value => cases value <;> exact readsBack_of_literal (.literal rfl)
  | int => exact readsBack_of_literal (spelled_toString _)
  | str content =>
    intro frames rest whole accepts
    exact .token (spelled_writeText content) rfl accepts
  | @arr items _ inductionHypothesis =>
    intro frames rest whole accepts
    rw [writeValue]
    cases items with
    | nil =>
      exact .mark '[' .openBracket (by simp [marks]) rfl
        (.mark ']' .closeBracket (by simp [marks]) rfl accepts)
    | cons item others =>
      have inner : Accepts (.value (.items [] :: frames))
          (writeItems (item :: others) ++ ']' :: rest) whole :=
        accepts_writeItems inductionHypothesis (List.cons_ne_nil _ _) accepts
      have opened : Accepts (.value frames)
          ('[' :: (writeItems (item :: others) ++ ']' :: rest)) whole :=
        .mark '[' .openBracket (by simp [marks]) rfl inner.firstItem
      simpa using opened
  | @obj members distinct _ inductionHypothesis =>
    intro frames rest whole accepts
    rw [writeValue]
    cases members with
    | nil =>
      exact .mark '\x7b' .openBrace (by simp [marks]) rfl
        (.mark '\x7d' .closeBrace (by simp [marks]) rfl accepts)
    | cons member others =>
      have inner : Accepts (.name [] frames)
          (writeMembers (member :: others) ++ '\x7d' :: rest) whole :=
        accepts_writeMembers inductionHypothesis (List.cons_ne_nil _ _) distinct accepts
      have opened : Accepts (.value frames)
          ('\x7b' :: (writeMembers (member :: others) ++ '\x7d' :: rest)) whole :=
        .mark '\x7b' .openBrace (by simp [marks]) rfl inner.firstName
      simpa using opened

/-- What is written of a plain value is read as that value. -/
theorem read_writeValue {value : Json} (plain : Plain value) :
    read (writeValue value) = .ok value := by
  have accepts := plain.readsBack [] [] value .done
  rw [List.append_nil] at accepts
  exact read_eq_ok.mpr accepts

end Values

end GrammarView.Json

namespace GrammarView.Source

open Json (writeValue)

variable {source : Source}

/-- Overlays as the members of an object. -/
def asMembers (variations : Entries (Entries Json)) : Entries Json :=
  variations.map fun variation => (variation.1, .obj variation.2)

/-- A source as one object. -/
def toJson (source : Source) : Json :=
  .obj [("rules", .obj source.rules), ("variations", .obj (asMembers source.variations))]

/-- The sources whose rules and variations are written without loss. -/
structure Plain (source : Source) : Prop where
  rules : Json.Plain (.obj source.rules)
  variations : ∀ variation ∈ source.variations, Json.Plain (.obj variation.2)
  distinct : source.variations.Distinct

/-- The object of a plain source is plain. -/
theorem Plain.toJson (plain : source.Plain) : Json.Plain source.toJson := by
  have distinct : (asMembers source.variations).Distinct := by
    simpa [Entries.Distinct, Entries.names, asMembers, Function.comp_def] using plain.distinct
  have overlays : Json.Plain (.obj (asMembers source.variations)) := by
    refine .obj distinct fun member listed => ?_
    obtain ⟨variation, given, rfl⟩ := List.mem_map.mp listed
    exact plain.variations variation given
  refine .obj (by simp [Entries.Distinct, Entries.names]) ?_
  simp [plain.rules, overlays]

/-- Overlays that are objects are taken as they are. -/
theorem overlaysOf_asMembers (variations : Entries (Entries Json)) :
    overlaysOf (asMembers variations) = .ok variations := by
  induction variations with
  | nil => rfl
  | cons variation others inductionHypothesis =>
    rw [asMembers] at inductionHypothesis
    simp [overlaysOf, membersOf, asMembers, inductionHypothesis, bind, Except.bind, pure,
      Except.pure]

/-- The object of a source describes that source. -/
theorem ofJson_toJson (source : Source) : ofJson source.toJson = .ok source := by
  have overlays := overlaysOf_asMembers source.variations
  simp only [ofJson, toJson, membersOf, Entries.get?_cons_self,
    Entries.get?_cons_of_ne (show "rules" ≠ "variations" by decide), bind, Except.bind, pure,
    Except.pure, Option.getD_some, overlays]
  obtain ⟨rules, variations⟩ := source
  -- Variations that hold nothing are left out.
  cases variations <;> rfl

/-- An object without rules under that name describes its members as rules. -/
theorem ofJson_rules {rules : Entries Json} (bare : "rules" ∉ rules.names) :
    ofJson (.obj rules) = .ok ⟨rules, []⟩ := by
  simp [ofJson, membersOf, Entries.get?_eq_none_iff.mpr bare, bind, Except.bind, pure, Except.pure]

/-- A text that begins with a brace is plain. -/
theorem detect_brace (rest : List Char) : detect ('\x7b' :: rest) = .json := by
  have shown : isBlank '\x7b' = false := rfl
  obtain ⟨line, telling⟩ := Skipped.nil.find? shown (by decide) (dropTrailingBlanks rest)
  rw [List.nil_append] at telling
  rw [detect, trimBlanks_cons shown, telling]
  rfl

/-- What is written of a plain object is read as the source that it describes. -/
theorem read_written_object {members : Entries Json} (plain : Json.Plain (.obj members))
    (describes : ofJson (.obj members) = .ok source) :
    readJson (writeValue (.obj members)) = .ok source ∧
      read (writeValue (.obj members)) = .ok source := by
  have reads : readJson (writeValue (.obj members)) = .ok source :=
    readJson_eq_ok.mpr ⟨_, Json.read_writeValue plain, describes⟩
  refine ⟨reads, ?_⟩
  rw [writeValue, List.cons_append] at reads ⊢
  rw [read, detect_brace]
  exact reads

/-- Reading undoes writing: a source that is written as one object is read as itself, with its
rules, its variations and all their members in order, as it stands and in every call. Rules alone
are read as a source without variations, unless one of them has the name under which rules are
looked up. -/
theorem read_written (plain : source.Plain) :
    read (writeValue source.toJson) = .ok source ∧
      (∀ wrapping : Wrapping, read (wrapping.around (writeValue source.toJson)) = .ok source) ∧
      ("rules" ∉ source.rules.names →
        read (writeValue (.obj source.rules)) = .ok ⟨source.rules, []⟩) := by
  obtain ⟨accepted, reads⟩ := read_written_object plain.toJson source.ofJson_toJson
  refine ⟨reads, fun wrapping => ?_, fun bare => ?_⟩
  · exact read_around accepted wrapping (.refl _ _)
  · exact (read_written_object plain.rules (ofJson_rules bare)).2

/-- A source with a name and texts that are written with escapes. -/
def escaped : Source where
  rules := [("say \"😀\"", .obj [("tokens", .arr [.str "\\\n\t\u007f", .str "é", .arr [], .null]),
    ("left", .int (-12))])]
  variations := [("short", [("say \"😀\"", .null), ("rules", .bool true)]), ("", [])]

/-- A call without any blanks. -/
def bareCall : Wrapping where
  before := []
  first := 'c'
  others := ['b']
  between := []
  closing := [';']
  beforeBlank := nofun
  firstBegins := rfl
  othersContinue := List.all_eq_true.mp (by decide +kernel)
  betweenBlank := nofun
  closes := .semicolon (show AllBlank [] by decide) (show AllBlank [] by decide)

/-- The source with escapes is read as it was. -/
theorem escaped_read :
    escaped.Plain ∧ "rules" ∉ escaped.rules.names ∧
      read (writeValue escaped.toJson) = .ok escaped ∧
      read ('c' :: 'b' :: '(' :: (writeValue escaped.toJson ++ [')', ';'])) = .ok escaped ∧
      read (writeValue (.obj escaped.rules)) = .ok ⟨escaped.rules, []⟩ := by
  have tokens : Json.Plain (.arr [.str "\\\n\t\u007f", .str "é", .arr [], .null]) := by
    refine .arr ?_
    simp [Json.Plain.str, Json.Plain.null, Json.Plain.arr]
  have twelve : Json.Plain (.int (-12)) := .int (by decide +kernel)
  have rule : Json.Plain (.obj [("tokens", .arr [.str "\\\n\t\u007f", .str "é", .arr [], .null]),
      ("left", .int (-12))]) :=
    .obj (by decide) (by simp [tokens, twelve])
  have plain : escaped.Plain := by
    refine ⟨.obj (by decide) (List.forall_mem_singleton.mpr rule), ?_, by decide⟩
    refine List.forall_mem_cons.mpr ⟨.obj (by decide) ?_, ?_⟩
    · simp [Json.Plain.null, Json.Plain.bool]
    · exact List.forall_mem_singleton.mpr (.obj (by decide) nofun)
  have bare : "rules" ∉ escaped.rules.names := by decide
  obtain ⟨reads, called, alone⟩ := read_written plain
  exact ⟨plain, bare, reads, called bareCall, alone bare⟩

end GrammarView.Source
