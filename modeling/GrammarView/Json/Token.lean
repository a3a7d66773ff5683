import GrammarView.Json.Basic
import GrammarView.Json.Fault
import GrammarView.Decimal.Numeral

/-!
# Tokens of a JSON text

Cuts a JSON text into marks, literals and strings, each with its offset. Where a token begins
does not depend on what was expected there, so a text that cannot be cut further is kept as a
token too, and the reader decides what is wrong in the light of what it expects.
-/

namespace GrammarView.Json

/-- A token of a JSON text. -/
inductive Token where
  | openBrace
  | closeBrace
  | openBracket
  | closeBracket
  | colon
  | comma
  /-- A number or one of the words for a value. -/
  | literal (value : Json)
  /-- A string, its escapes resolved. -/
  | text (content : String)
  /-- A string that cannot be read to its end. -/
  | brokenText (fault : Fault)
  /-- A character that begins no token. -/
  | stray

/-- The blanks that may stand between tokens. -/
def isSpace (character : Char) : Bool :=
  character == ' ' || character == '\t' || character == '\n' || character == '\r'

/-- The value of a hexadecimal digit. -/
def hexadecimalDigit? (character : Char) : Option Nat :=
  if character.isDigit then some (character.toNat - 48)
  else if 'a' ≤ character ∧ character ≤ 'f' then some (character.toNat - 87)
  else if 'A' ≤ character ∧ character ≤ 'F' then some (character.toNat - 55)
  else none

/-- The value of four hexadecimal digits. -/
def hexadecimal? (first second third fourth : Char) : Option Nat := do
  let first ← hexadecimalDigit? first
  let second ← hexadecimalDigit? second
  let third ← hexadecimalDigit? third
  let fourth ← hexadecimalDigit? fourth
  return ((first * 16 + second) * 16 + third) * 16 + fourth

/-- Whether a code unit is the first of a pair. -/
def isHighSurrogate (unit : Nat) : Bool :=
  0xD800 ≤ unit && unit < 0xDC00

/-- Whether a code unit is the second of a pair. -/
def isLowSurrogate (unit : Nat) : Bool :=
  0xDC00 ≤ unit && unit < 0xE000

/-- The character that a pair of code units stands for. -/
def joinSurrogates (high low : Nat) : Char :=
  Char.ofNat (0x10000 + (high - 0xD800) * 0x400 + (low - 0xDC00))

/-- The character of a code unit that is not half of a pair. Half a pair alone is no character, and
no text can hold it here: it is read as the replacement character. What is stated of the files that
are written leaves out the grammars in which the escape of half a pair stands alone. -/
def ofUnit (unit : Nat) : Char :=
  if isHighSurrogate unit || isLowSurrogate unit then '\uFFFD' else Char.ofNat unit

/-- The character that a short escape stands for. -/
def shortEscape? (mark : Char) : Option Char :=
  if mark = '"' ∨ mark = '\\' ∨ mark = '/' then some mark
  else if mark = 'b' then some '\x08'
  else if mark = 'f' then some '\x0c'
  else if mark = 'n' then some '\n'
  else if mark = 'r' then some '\r'
  else if mark = 't' then some '\t'
  else none

/-- The code unit of an escape that directly follows the first half of a pair. It counts only when
a character comes after it, and its digits have to be digits as soon as it counts. -/
def followingUnit? (offset : Nat) : List Char → Except Fault (Option Nat)
  | backslash :: mark :: first :: second :: third :: fourth :: _ :: _ =>
    if backslash = '\\' ∧ mark = 'u' then
      match hexadecimal? first second third fourth with
      | some unit => .ok (some unit)
      | none => .error ⟨offset + 1, .invalidUnicodeEscape⟩
    else .ok none
  | _ => .ok none

/-- Completes the escape of a code unit at an offset with what follows its digits. The answer is
the character and how many characters of what follows belong to it. -/
def completeUnit (offset unit : Nat) (rest : List Char) : Except Fault (Char × Nat) :=
  if isHighSurrogate unit then
    match followingUnit? (offset + 6) rest with
    | .error fault => .error fault
    | .ok none => .ok (ofUnit unit, 0)
    | .ok (some low) =>
      if isLowSurrogate low then .ok (joinSurrogates unit low, 6) else .ok (ofUnit unit, 0)
  else .ok (ofUnit unit, 0)

/-- Reads the escape whose backslash stands at an offset. The answer is the character and how many
characters after the mark belong to the escape. -/
def readEscape (offset : Nat) (mark : Char) (rest : List Char) : Except Fault (Char × Nat) :=
  if mark = 'u' then
    match rest with
    | first :: second :: third :: fourth :: next :: rest =>
      match hexadecimal? first second third fourth with
      | some unit =>
        (completeUnit offset unit (next :: rest)).map fun (character, width) =>
          (character, width + 4)
      | none => .error ⟨offset + 1, .invalidUnicodeEscape⟩
    | _ => .error ⟨offset + 1, .invalidUnicodeEscape⟩
  else
    match shortEscape? mark with
    | some character => .ok (character, 0)
    | none => .error ⟨offset, .invalidEscape⟩

/-- Reads the inside of a string from an offset up to its closing quote. The answer is the
characters and the offset after the quote. -/
def readText (start offset : Nat) : List Char → Except Fault (List Char × Nat)
  | [] => .error ⟨start, .unterminatedText⟩
  | '"' :: _ => .ok ([], offset + 1)
  | ['\\'] => .error ⟨start, .unterminatedText⟩
  | '\\' :: mark :: rest =>
    match readEscape offset mark rest with
    | .error fault => .error fault
    | .ok (character, width) =>
      (readText start (offset + 2 + width) (rest.drop width)).map fun (content, stop) =>
        (character :: content, stop)
  | character :: rest =>
    if character.toNat < 0x20 then .error ⟨offset, .controlCharacter⟩
    else
      (readText start (offset + 1) rest).map fun (content, stop) => (character :: content, stop)
termination_by characters => characters.length
decreasing_by
  · simp only [List.length_drop, List.length_cons]
    omega
  · simp

/-- The digits of the fraction at the beginning of a text, the point left out. -/
def fractionOf : List Char → List Char
  | '.' :: rest => rest.takeWhile Char.isDigit
  | _ => []

/-- The sign and the digits of the exponent at the beginning of a text, and how many characters
they take with their mark. -/
def exponentOf : List Char → Option (Bool × List Char × Nat)
  | [] => none
  | mark :: rest =>
    if mark = 'e' ∨ mark = 'E' then
      let (negative, digits, width) :=
        match rest with
        | '-' :: digits => (true, digits.takeWhile Char.isDigit, 2)
        | '+' :: digits => (false, digits.takeWhile Char.isDigit, 2)
        | digits => (false, digits.takeWhile Char.isDigit, 1)
      if digits.isEmpty then none else some (negative, digits, width + digits.length)
    else none

/-- The digits before the point: a zero alone, or digits that do not begin with zero. -/
def wholeOf : List Char → List Char
  | '0' :: _ => ['0']
  | characters => characters.takeWhile Char.isDigit

/-- The number without sign at the beginning of a text and how many characters it takes. A point
or an exponent makes it a double. -/
def unsignedNumber? (negative : Bool) (characters : List Char) : Option (Json × Nat) :=
  let whole := wholeOf characters
  if whole.isEmpty then none
  else
    let afterWhole := characters.drop whole.length
    let fraction := fractionOf afterWhole
    let fractionWidth := if fraction.isEmpty then 0 else fraction.length + 1
    let afterFraction := afterWhole.drop fractionWidth
    match exponentOf afterFraction with
    | some (below, exponentDigits, exponentWidth) =>
      let power := Int.ofNat (Decimal.valueOfDigits exponentDigits)
      let exponent := (if below then -power else power) - Int.ofNat fraction.length
      let digits := Decimal.valueOfDigits (whole ++ fraction)
      some (.real (Double.ofDecimal negative digits exponent),
        whole.length + fractionWidth + exponentWidth)
    | none =>
      if fraction.isEmpty then
        let value := Int.ofNat (Decimal.valueOfDigits whole)
        some (.int (if negative then -value else value), whole.length)
      else
        let digits := Decimal.valueOfDigits (whole ++ fraction)
        some (.real (Double.ofDecimal negative digits (-Int.ofNat fraction.length)),
          whole.length + fractionWidth)

/-- The words that stand for values. -/
def words : List (List Char × Json) :=
  [("null".toList, .null), ("true".toList, .bool true), ("false".toList, .bool false),
    ("NaN".toList, .real (Double.ofBits false Double.undefinedBits)),
    ("Infinity".toList, .real (Double.ofBits false Double.infinityBits)),
    ("-Infinity".toList, .real (Double.ofBits true Double.infinityBits))]

/-- The literal at the beginning of a text and how many characters it takes. -/
def literal? (characters : List Char) : Option (Json × Nat) :=
  match words.find? fun word => word.1.isPrefixOf characters with
  | some word => some (word.2, word.1.length)
  | none =>
    match characters with
    | '-' :: rest => (unsignedNumber? true rest).map fun (value, width) => (value, width + 1)
    | _ => unsignedNumber? false characters

/-- The token that begins with a character, and how many characters after that one belong
to it. -/
def firstToken (offset : Nat) (character : Char) (rest : List Char) : Token × Nat :=
  if character = '\x7b' then (.openBrace, 0)
  else if character = '\x7d' then (.closeBrace, 0)
  else if character = '[' then (.openBracket, 0)
  else if character = ']' then (.closeBracket, 0)
  else if character = ':' then (.colon, 0)
  else if character = ',' then (.comma, 0)
  else if character = '"' then
    match readText offset (offset + 1) rest with
    | .ok (content, stop) => (.text (String.ofList content), stop - (offset + 1))
    | .error fault => (.brokenText fault, 0)
  else
    match literal? (character :: rest) with
    | some (value, width) => (.literal value, width - 1)
    | none => (.stray, 0)

/-- The tokens of a text that begins at an offset, each with the offset of its first
character. -/
def tokensFrom (offset : Nat) : List Char → List (Nat × Token)
  | [] => []
  | character :: rest =>
    if isSpace character then tokensFrom (offset + 1) rest
    else
      let token := firstToken offset character rest
      (offset, token.1) :: tokensFrom (offset + 1 + token.2) (rest.drop token.2)
termination_by characters => characters.length
decreasing_by
  · simp
  · simp only [List.length_drop, List.length_cons]
    omega

end GrammarView.Json
