import GrammarView.Markup
import Mathlib.Data.List.Basic

/-!
# Reading markup

A plain reader of elements, and what it makes of written tags and texts. The reader knows nothing
of what was to be written. It goes over the characters once and cuts them into tags and texts,
refuses every bracket and every ampersand that stands for itself, and refuses tags that are not
properly nested.
-/

namespace GrammarView.Markup

/-- A character that may stand in the name of an element or of an attribute. -/
def isNameCharacter (character : Char) : Bool :=
  character.isAlphanum || character == '-'

/-- Whether a text is a name of an element or of an attribute. -/
def IsName (name : String) : Prop :=
  name ≠ "" ∧ ∀ character ∈ name.toList, isNameCharacter character = true

instance (name : String) : Decidable (IsName name) :=
  decidable_of_iff (name ≠ "" ∧ name.toList.all isNameCharacter = true) (by simp [IsName])

/-- Whether all keys of attributes are names. -/
def Keyed (attributes : Entries String) : Prop :=
  ∀ named ∈ attributes, IsName named.1

instance (attributes : Entries String) : Decidable (Keyed attributes) :=
  inferInstanceAs (Decidable (∀ named ∈ attributes, IsName named.1))

/-- Attributes are keyed if their keys are given names. -/
theorem keyed_of_names {attributes : Entries String} (names : List String)
    (same : attributes.names = names) (named : ∀ name ∈ names, IsName name) :
    Keyed attributes := by
  subst same
  exact List.forall_mem_map.mp named

/-- Attributes are keyed together. -/
theorem Keyed.append {first second : Entries String} (firstKeyed : Keyed first)
    (secondKeyed : Keyed second) : Keyed (first ++ second) :=
  List.forall_mem_append.mpr ⟨firstKeyed, secondKeyed⟩

/-- Inserting under a name keeps keys names. -/
theorem Keyed.insert {attributes : Entries String} (keyed : Keyed attributes) {name : String}
    (isName : IsName name) (value : String) : Keyed (attributes.insert name value) := by
  intro named member
  rcases Entries.mem_names_insert.mp (List.mem_map_of_mem member) with same | known
  · exact same ▸ isName
  · obtain ⟨other, listed, same⟩ := List.mem_map.mp known
    exact same ▸ keyed other listed

/-- The text that was escaped; none if a character was left that has to be escaped. -/
def unescaped? : List Char → Option (List Char)
  | [] => some []
  | '&' :: 'a' :: 'm' :: 'p' :: ';' :: rest => (unescaped? rest).map ('&' :: ·)
  | '&' :: 'l' :: 't' :: ';' :: rest => (unescaped? rest).map ('<' :: ·)
  | '&' :: 'g' :: 't' :: ';' :: rest => (unescaped? rest).map ('>' :: ·)
  | '&' :: 'q' :: 'u' :: 'o' :: 't' :: ';' :: rest => (unescaped? rest).map ('"' :: ·)
  | character :: rest =>
    if character ∈ ['&', '<', '>'] then none else (unescaped? rest).map (character :: ·)

/-- What stands in the brackets at the beginning of an element. -/
structure Tag where
  name : String
  attributes : List (String × String)
  deriving DecidableEq, Repr

/-- The smallest parts of written markup. -/
inductive Piece where
  | text (content : String)
  | opening (tag : Tag)
  /-- The tag of an element that closes itself. -/
  | empty (tag : Tag)
  | closing (name : String)
  deriving DecidableEq, Repr

/-- Where in written markup the reader is. -/
inductive Place where
  /-- Outside all brackets. -/
  | text
  /-- In the name of an element. -/
  | name
  /-- After a quoted value. -/
  | gap (tag : Tag)
  /-- In the name of an attribute. -/
  | key (tag : Tag)
  /-- In front of a quoted value. -/
  | equal (tag : Tag) (key : String)
  /-- In a quoted value. -/
  | value (tag : Tag) (key : String)
  /-- After the slash of an element that closes itself. -/
  | slash (tag : Tag)
  /-- In the brackets at the end of an element. -/
  | ending

/-- Whether a character belongs to what is being collected at a place. -/
def Place.collects (character : Char) : Place → Bool
  | .text => character ≠ '<'
  | .value _ _ => character ≠ '"'
  | .name | .key _ | .ending => isNameCharacter character
  | .gap _ | .equal _ _ | .slash _ => false

/-- A place with what has been collected there. -/
structure Reader where
  place : Place
  collected : List Char

/-- The reader at a place where nothing has been collected yet. -/
def Place.enter (place : Place) : Reader :=
  ⟨place, []⟩

/-- What a text adds to the pieces; an empty one adds nothing. -/
def Piece.texts (content : List Char) : List Piece :=
  if content.isEmpty then [] else [.text (String.ofList content)]

/-- Where a character after a tag leads. -/
def Tag.after (tag : Tag) (character : Char) : Option (Reader × List Piece) :=
  if character = ' ' then some (Place.enter (.key tag), [])
  else if character = '>' then some (Place.enter .text, [.opening tag])
  else if character = '/' then some (Place.enter (.slash tag), [])
  else none

/-- Where a character leads that does not belong to what is being collected. -/
def Reader.leave (character : Char) : Reader → Option (Reader × List Piece)
  | ⟨.text, collected⟩ =>
    (unescaped? collected).map fun content => (Place.enter .name, Piece.texts content)
  | ⟨.name, []⟩ => if character = '/' then some (Place.enter .ending, []) else none
  | ⟨.name, collected⟩ => Tag.after ⟨String.ofList collected, []⟩ character
  | ⟨.gap tag, _⟩ => tag.after character
  | ⟨.key tag, collected⟩ =>
    if character = '=' ∧ collected ≠ [] then
      some (Place.enter (.equal tag (String.ofList collected)), [])
    else none
  | ⟨.equal tag key, _⟩ =>
    if character = '"' then some (Place.enter (.value tag key), []) else none
  | ⟨.value tag key, collected⟩ =>
    (unescaped? collected).map fun value =>
      (Place.enter (.gap ⟨tag.name, tag.attributes ++ [(key, String.ofList value)]⟩), [])
  | ⟨.slash tag, _⟩ => if character = '>' then some (Place.enter .text, [.empty tag]) else none
  | ⟨.ending, collected⟩ =>
    if character = '>' ∧ collected ≠ [] then
      some (Place.enter .text, [.closing (String.ofList collected)])
    else none

/-- Where a character leads, and the pieces that it completes. -/
def Reader.step (reader : Reader) (character : Char) : Option (Reader × List Piece) :=
  if reader.place.collects character then
    some (⟨reader.place, reader.collected ++ [character]⟩, [])
  else reader.leave character

/-- The pieces that characters spell from where the reader is. They must end outside all
brackets. -/
def Reader.pieces (reader : Reader) : List Char → Option (List Piece)
  | [] =>
    match reader.place with
    | .text => (unescaped? reader.collected).map Piece.texts
    | _ => none
  | character :: rest => do
    let (next, completed) ← reader.step character
    let later ← next.pieces rest
    return completed ++ later

/-- An element that has been opened, after what stands before it. -/
structure Level where
  before : List Markup
  tag : Tag

/-- What has been read: the elements that are still open, from the inside outwards, and the content
of the innermost one so far. -/
structure Progress where
  around : List Level
  content : List Markup

/-- The progress with a tree after the content. -/
def Progress.add (progress : Progress) (tree : Markup) : Progress :=
  ⟨progress.around, progress.content ++ [tree]⟩

/-- The progress after a piece; none if it closes an element that is not the innermost one. -/
def Progress.take : Progress → Piece → Option Progress
  | progress, .text content => some (progress.add (.text content))
  | progress, .empty tag => some (progress.add (.element tag.name tag.attributes []))
  | progress, .opening tag => some ⟨⟨progress.content, tag⟩ :: progress.around, []⟩
  | ⟨[], _⟩, .closing _ => none
  | ⟨level :: around, content⟩, .closing name =>
    if level.tag.name = name then
      some (Progress.add ⟨around, level.before⟩ (.element name level.tag.attributes content))
    else none

/-- The trees that characters spell: a sequence of texts and of properly nested elements. -/
def read? (characters : List Char) : Option (List Markup) := do
  let pieces ← (Place.enter .text).pieces characters
  let progress ← pieces.foldlM Progress.take ⟨[], []⟩
  if progress.around.isEmpty then some progress.content else none

example : read? "<a b=\"&lt;\">x<c/></a>".toList
    = some [.element "a" [("b", "<")] [.text "x", .element "c" [] []]] := by
  cbv

example : read? "<a><c></a></c>".toList = none := by
  cbv

section Escaping

variable {character : Char} {rest : List Char}

/-- A character that escapes nothing stands for itself. -/
theorem unescaped?_cons (plain : character ∉ ['&', '<', '>']) (rest : List Char) :
    unescaped? (character :: rest) = (unescaped? rest).map (character :: ·) := by
  have other : character ≠ '&' := fun same => plain (same ▸ .head _)
  rw [unescaped?]
  · rw [if_neg plain]
  all_goals exact fun _ same => absurd same other

/-- An escaped character of a text is read as that character. -/
theorem unescaped?_escapeCharacter (character : Char) (rest : List Char) :
    unescaped? (escapeCharacter character ++ rest) = (unescaped? rest).map (character :: ·) := by
  unfold escapeCharacter
  by_cases ampersand : character = '&'
  · subst ampersand
    rfl
  · by_cases less : character = '<'
    · subst less
      rfl
    · by_cases greater : character = '>'
      · subst greater
        rfl
      · rw [if_neg ampersand, if_neg less, if_neg greater]
        exact unescaped?_cons (by simp [ampersand, less, greater]) rest

/-- An escaped character of a value is read as that character. -/
theorem unescaped?_escapeQuoted (character : Char) (rest : List Char) :
    unescaped? (escapeQuoted character ++ rest) = (unescaped? rest).map (character :: ·) := by
  unfold escapeQuoted
  split
  case isTrue quote =>
    subst quote
    rfl
  case isFalse => exact unescaped?_escapeCharacter character rest

/-- What is escaped character by character can be read again. -/
theorem unescaped?_flatMap {escape : Char → List Char}
    (escaped : ∀ character rest,
      unescaped? (escape character ++ rest) = (unescaped? rest).map (character :: ·))
    (characters : List Char) : unescaped? (characters.flatMap escape) = some characters := by
  induction characters with
  | nil => rfl
  | cons character rest inductionHypothesis =>
    rw [List.flatMap_cons, escaped, inductionHypothesis, Option.map_some]

end Escaping

/-- An escaped text can be read again. -/
theorem unescaped?_escape (content : String) :
    unescaped? (escape content) = some content.toList :=
  unescaped?_flatMap unescaped?_escapeCharacter content.toList

/-- Only an empty text is written as nothing. -/
theorem escape_eq_nil_iff {content : String} : escape content = [] ↔ content = "" := by
  constructor
  · intro empty
    have read := unescaped?_escape content
    rw [empty, unescaped?, Option.some_inj] at read
    exact String.toList_eq_nil_iff.mp read.symm
  · rintro rfl
    rfl

/-- An escaped text holds no bracket that could begin markup. -/
theorem less_not_mem_escape (content : String) : '<' ∉ escape content := by
  intro member
  obtain ⟨original, -, escaped⟩ := List.mem_flatMap.mp member
  rw [escapeCharacter] at escaped
  split_ifs at escaped with ampersand less greater
  case neg => exact less (List.mem_singleton.mp escaped).symm
  all_goals exact absurd escaped (by decide)

/-- No escaped text goes on over a bracket. -/
theorem collects_of_mem_escape {character : Char} {content : String}
    (member : character ∈ escape content) : Place.text.collects character = true := by
  simp only [Place.collects, decide_eq_true_eq]
  rintro rfl
  exact less_not_mem_escape content member

/-- Whether no character of a text has to be escaped. -/
def IsPlain (content : String) : Prop :=
  ∀ character ∈ content.toList, character ∉ ['&', '<', '>']

instance (content : String) : Decidable (IsPlain content) :=
  List.decidableBAll (fun character => character ∉ ['&', '<', '>']) content.toList

/-- A text without characters that have to be escaped is written as it is. -/
theorem IsPlain.escape_eq {content : String} (plain : IsPlain content) :
    escape content = content.toList := by
  have kept : ∀ character ∈ content.toList, escapeCharacter character = [character] := by
    intro character member
    have free := plain character member
    simp only [List.mem_cons, List.not_mem_nil, or_false, not_or] at free
    rw [escapeCharacter, if_neg free.1, if_neg free.2.1, if_neg free.2.2]
  rw [escape, List.flatMap_congr kept, List.flatMap_singleton']

/-- No escaped value goes on over a quote. -/
theorem collects_of_mem_value {character : Char} {value : String} {tag : Tag} {key : String}
    (member : character ∈ value.toList.flatMap escapeQuoted) :
    (Place.value tag key).collects character = true := by
  obtain ⟨original, -, escaped⟩ := List.mem_flatMap.mp member
  rw [escapeQuoted, escapeCharacter] at escaped
  simp only [Place.collects, decide_eq_true_eq]
  rintro rfl
  split_ifs at escaped with quote ampersand less greater
  case neg => exact quote (List.mem_singleton.mp escaped).symm
  all_goals exact absurd escaped (by decide)

section Scanning

variable {reader next last : Reader} {characters more tail : List Char}
  {completed further : List Piece} {name key value : String} {tag : Tag}
  {attributes : List (String × String)}

/-- The reader goes over characters, completes pieces, and is somewhere else then. -/
def Passes (reader : Reader) (characters : List Char) (next : Reader) (completed : List Piece) :
    Prop :=
  ∀ rest, reader.pieces (characters ++ rest) = (next.pieces rest).map (completed ++ ·)

/-- Characters one after the other are passed one after the other. -/
theorem Passes.trans (first : Passes reader characters next completed)
    (second : Passes next more last further) :
    Passes reader (characters ++ more) last (completed ++ further) := by
  intro rest
  rw [List.append_assoc, first, second, Option.map_map]
  simp [Function.comp_def]

/-- A single character is passed by a step. -/
theorem Passes.single {character : Char} (step : reader.step character = some (next, completed)) :
    Passes reader [character] next completed := by
  intro rest
  simp only [List.singleton_append, Reader.pieces, step, Option.bind_eq_bind, Option.bind_some]
  cases next.pieces rest <;> rfl

/-- Characters that are collected complete nothing. -/
theorem passes_collected {place : Place} {collected : List Char}
    (collects : ∀ character ∈ characters, place.collects character = true) :
    Passes ⟨place, collected⟩ characters ⟨place, collected ++ characters⟩ [] := by
  induction characters generalizing collected with
  | nil =>
    intro rest
    simp
  | cons character characters inductionHypothesis =>
    obtain ⟨first, others⟩ := List.forall_mem_cons.mp collects
    have step : Passes ⟨place, collected⟩ [character] ⟨place, collected ++ [character]⟩ [] :=
      .single (by simp [Reader.step, first])
    simpa using step.trans (inductionHypothesis others)

/-- An attribute is added to the tag that it stands in. -/
theorem passes_attribute (isName : IsName key) :
    Passes (Place.enter (.gap tag)) (writeAttribute (key, value))
      (Place.enter (.gap ⟨tag.name, tag.attributes ++ [(key, value)]⟩)) [] := by
  have gap : Passes (Place.enter (.gap tag)) [' '] (Place.enter (.key tag)) [] := .single rfl
  have key' : Passes (Place.enter (.key tag)) key.toList ⟨.key tag, key.toList⟩ [] :=
    passes_collected isName.2
  have equal : Passes ⟨.key tag, key.toList⟩ ['='] (Place.enter (.equal tag key)) [] := by
    refine .single ?_
    have plain : isNameCharacter '=' = false := by decide
    simp [Reader.step, Place.collects, Reader.leave, plain, isName.1]
  have quote : Passes (Place.enter (.equal tag key)) ['"'] (Place.enter (.value tag key)) [] :=
    .single rfl
  have value' : Passes (Place.enter (.value tag key)) (value.toList.flatMap escapeQuoted)
      ⟨.value tag key, value.toList.flatMap escapeQuoted⟩ [] :=
    passes_collected fun character => collects_of_mem_value
  have last : Passes ⟨.value tag key, value.toList.flatMap escapeQuoted⟩ ['"']
      (Place.enter (.gap ⟨tag.name, tag.attributes ++ [(key, value)]⟩)) [] := by
    refine .single ?_
    simp [Reader.step, Place.collects, Reader.leave, unescaped?_flatMap unescaped?_escapeQuoted]
  simpa [writeAttribute] using
    ((((gap.trans key').trans equal).trans quote).trans value').trans last

/-- Attributes are added to the tag that they stand in, in order. -/
theorem passes_attributes (keyed : Keyed attributes) :
    Passes (Place.enter (.gap tag)) (attributes.flatMap writeAttribute)
      (Place.enter (.gap ⟨tag.name, tag.attributes ++ attributes⟩)) [] := by
  induction attributes generalizing tag with
  | nil =>
    intro rest
    simp
  | cons named attributes inductionHypothesis =>
    obtain ⟨first, others⟩ := List.forall_mem_cons.mp keyed
    simpa using (passes_attribute first).trans (inductionHypothesis others)

/-- After its name a tag is read on as in a gap. -/
theorem pieces_name {character : Char} (isName : IsName name)
    (other : isNameCharacter character = false) (rest : List Char) :
    (⟨.name, name.toList⟩ : Reader).pieces (character :: rest)
      = (Place.enter (.gap ⟨name, []⟩)).pieces (character :: rest) := by
  have step : (⟨.name, name.toList⟩ : Reader).step character
      = (Place.enter (.gap ⟨name, []⟩)).step character := by
    have spelled : String.ofList name.toList = name := String.ofList_toList
    cases collected : name.toList with
    | nil => exact absurd (String.toList_eq_nil_iff.mp collected) isName.1
    | cons first others =>
      rw [collected] at spelled
      simp [Reader.step, Place.collects, Reader.leave, Place.enter, other, spelled]
  rw [Reader.pieces, step, Reader.pieces]

/-- A tag is passed if its end is passed with all of its attributes. -/
theorem passes_tag {mark : Char} (isName : IsName name)
    (keyed : Keyed attributes) (other : isNameCharacter mark = false)
    (ends : Passes (Place.enter (.gap ⟨name, attributes⟩)) (mark :: more) next completed) :
    Passes (Place.enter .text)
      ('<' :: name.toList ++ attributes.flatMap writeAttribute ++ mark :: more) next completed := by
  have bracket : Passes (Place.enter .text) ['<'] (Place.enter .name) [] := .single rfl
  have named : Passes (Place.enter .name) name.toList ⟨.name, name.toList⟩ [] :=
    passes_collected isName.2
  have others : Passes ⟨.name, name.toList⟩ (attributes.flatMap writeAttribute ++ mark :: more)
      next completed := by
    have gap : Passes (Place.enter (.gap ⟨name, []⟩))
        (attributes.flatMap writeAttribute ++ mark :: more) next completed :=
      (passes_attributes keyed).trans ends
    intro rest
    rw [← gap rest]
    -- The name ends at a blank or at the mark that ends the tag.
    cases attributes with
    | nil => exact pieces_name isName other _
    | cons => exact pieces_name isName (by decide) _
  simpa using (bracket.trans named).trans others

/-- The tag in front of the content of an element is passed. -/
theorem passes_opening (isName : IsName name) (keyed : Keyed attributes) :
    Passes (Place.enter .text)
      ('<' :: name.toList ++ attributes.flatMap writeAttribute ++ ['>']) (Place.enter .text)
      [.opening ⟨name, attributes⟩] :=
  passes_tag isName keyed (by decide) (.single rfl)

/-- The tag of an element that closes itself is passed. -/
theorem passes_empty (isName : IsName name) (keyed : Keyed attributes) :
    Passes (Place.enter .text)
      ('<' :: name.toList ++ attributes.flatMap writeAttribute ++ ['/', '>']) (Place.enter .text)
      [.empty ⟨name, attributes⟩] := by
  refine passes_tag isName keyed (by decide) ?_
  have slash : Passes (Place.enter (.gap ⟨name, attributes⟩)) ['/']
      (Place.enter (.slash ⟨name, attributes⟩)) [] := .single rfl
  exact slash.trans (.single rfl)

/-- The tag at the end of an element is passed. -/
theorem passes_closing (isName : IsName name) :
    Passes (Place.enter .text) ('<' :: '/' :: name.toList ++ ['>']) (Place.enter .text)
      [.closing name] := by
  have bracket : Passes (Place.enter .text) ['<'] (Place.enter .name) [] := .single rfl
  have slash : Passes (Place.enter .name) ['/'] (Place.enter .ending) [] := .single rfl
  have named : Passes (Place.enter .ending) name.toList ⟨.ending, name.toList⟩ [] :=
    passes_collected isName.2
  have last : Passes ⟨.ending, name.toList⟩ ['>'] (Place.enter .text) [.closing name] := by
    refine .single ?_
    have plain : isNameCharacter '>' = false := by decide
    simp [Reader.step, Place.collects, Reader.leave, plain, isName.1]
  simpa using ((bracket.trans slash).trans named).trans last

/-- Whether no text goes on with these characters. -/
def EndsText (tail : List Char) : Prop :=
  tail = [] ∨ ∃ rest, tail = '<' :: rest

/-- A text that has been collected is completed where no text goes on. -/
theorem pieces_text (content : String) (ends : EndsText tail) :
    (⟨.text, escape content⟩ : Reader).pieces tail
      = ((Place.enter .text).pieces tail).map (Piece.texts content.toList ++ ·) := by
  obtain rfl | ⟨rest, rfl⟩ := ends
  · simp [Reader.pieces, Place.enter, unescaped?_escape, unescaped?, Piece.texts]
  · have bracket : Passes (Place.enter .text) ['<'] (Place.enter .name) [] := .single rfl
    have text : Passes ⟨.text, escape content⟩ ['<'] (Place.enter .name)
        (Piece.texts content.toList) := by
      refine .single ?_
      simp [Reader.step, Place.collects, Reader.leave, unescaped?_escape]
    have here := text rest
    have there := bracket rest
    simp only [List.singleton_append, List.nil_append] at here there
    simp [here, there]

end Scanning

end GrammarView.Markup
