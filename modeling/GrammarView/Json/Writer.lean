import GrammarView.Json.Basic
import GrammarView.Decimal.Shortest
import GrammarView.Text.Digit

/-!
# Writing JSON

Writes a value on one line, with a blank after every comma and colon. Only printable ASCII
appears in a written string; everything else is escaped, characters beyond the first plane as a
pair of code units.
-/

namespace GrammarView.Json

/-- The long escape of a code unit. -/
def unicodeEscape (unit : Nat) : List Char :=
  '\\' :: 'u' :: paddedDigits 16 4 unit

/-- A character as it stands inside a written string. -/
def escapeCharacter (character : Char) : List Char :=
  if character = '"' then ['\\', '"']
  else if character = '\\' then ['\\', '\\']
  else if character = '\n' then ['\\', 'n']
  else if character = '\r' then ['\\', 'r']
  else if character = '\t' then ['\\', 't']
  else if character = '\x0c' then ['\\', 'f']
  else if character = '\x08' then ['\\', 'b']
  else
    let code := character.toNat
    if 0x20 ≤ code ∧ code < 0x7F then [character]
    else if code < 0x10000 then unicodeEscape code
    else
      unicodeEscape (0xD800 + (code - 0x10000) / 0x400)
        ++ unicodeEscape (0xDC00 + (code - 0x10000) % 0x400)

/-- A string between its quotes. -/
def writeText (content : String) : List Char :=
  '"' :: content.toList.flatMap escapeCharacter ++ ['"']

/-- A shortest decimal as a numeral: positional from a ten thousandth up to sixteen digits before
the point, with an exponent of at least two digits beyond. -/
def writeDigits (decimal : Decimal.Digits) : List Char :=
  let written := Nat.toDigits 10 decimal.digits
  let digits := dropTrailing '0' written
  let dropped := written.length - digits.length
  let last : Int := decimal.exponent + Int.ofNat dropped
  let leading := last + Int.ofNat digits.length - 1
  if leading < -4 ∨ 16 ≤ leading then
    let mantissa :=
      match digits with
      | first :: second :: rest => first :: '.' :: second :: rest
      | digits => digits
    mantissa ++ 'e' :: (if leading < 0 then '-' else '+') :: paddedDigits 10 2 leading.natAbs
  else
    match last with
    | .ofNat zeros => digits ++ List.replicate zeros '0' ++ ['.', '0']
    | .negSucc places =>
      let places := places + 1
      if places < digits.length then
        digits.take (digits.length - places) ++ '.' :: digits.drop (digits.length - places)
      else '0' :: '.' :: List.replicate (places - digits.length) '0' ++ digits

/-- A double as a numeral that reads back as the same double. -/
def writeReal (value : Float) : List Char :=
  match Double.parts value with
  | .undefined => "NaN".toList
  | .infinite negative => if negative then "-Infinity".toList else "Infinity".toList
  | .finite negative mantissa exponent =>
    let digits :=
      if mantissa = 0 then "0.0".toList else writeDigits (Decimal.shortest mantissa exponent)
    if negative then '-' :: digits else digits

mutual

/-- The characters of a written value. -/
def writeValue : Json → List Char
  | .null => "null".toList
  | .bool true => "true".toList
  | .bool false => "false".toList
  | .int value => (toString value).toList
  | .real value => writeReal value
  | .str value => writeText value
  | .arr items => '[' :: writeItems items ++ [']']
  | .obj members => '\x7b' :: writeMembers members ++ ['\x7d']

/-- The items of an array, a comma and a blank between them. -/
def writeItems : List Json → List Char
  | [] => []
  | [item] => writeValue item
  | item :: rest => writeValue item ++ ',' :: ' ' :: writeItems rest

/-- The members of an object, a comma and a blank between them. -/
def writeMembers : List (String × Json) → List Char
  | [] => []
  | [(name, value)] => writeText name ++ ':' :: ' ' :: writeValue value
  | (name, value) :: rest =>
    writeText name ++ ':' :: ' ' :: writeValue value ++ ',' :: ' ' :: writeMembers rest

end

/-- The written form of a value. -/
def write (value : Json) : String :=
  String.ofList (writeValue value)

end GrammarView.Json
