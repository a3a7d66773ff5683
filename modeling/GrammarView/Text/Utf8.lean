import GrammarView.Text.Digit

/-!
# Reading UTF-8

Turns the bytes of a file into text and says exactly where a file stops being UTF-8. The reader
walks the bytes once and remembers the character it is in the middle of, so a fault always spans
the bytes of one broken character. The line ends of a text file are folded afterwards.
-/

namespace GrammarView.Utf8

/-- The ways in which bytes can fail to be UTF-8. -/
inductive Reason where
  /-- No character begins with this byte. -/
  | invalidStart
  /-- A byte does not continue the character begun before it. -/
  | invalidContinuation
  /-- The bytes end in the middle of a character. -/
  | unexpectedEnd
  deriving DecidableEq, Repr

/-- The words for a reason. -/
def Reason.message : Reason → String
  | .invalidStart => "invalid start byte"
  | .invalidContinuation => "invalid continuation byte"
  | .unexpectedEnd => "unexpected end of data"

/-- A broken character: its first byte, the positions of its first byte and of the byte after
its last, and what is wrong with it. -/
structure Fault where
  first : UInt8
  start : Nat
  stop : Nat
  reason : Reason
  deriving DecidableEq, Repr

/-- The report of a fault names the byte when the fault spans one byte, and its positions when it
spans several. -/
def Fault.message (fault : Fault) : String :=
  let place :=
    if fault.stop = fault.start + 1 then
      "byte 0x" ++ String.ofList (paddedDigits 16 2 fault.first.toNat) ++ " in position " ++ toString fault.start
    else
      "bytes in position " ++ toString fault.start ++ "-" ++ toString (fault.stop - 1)
  "'utf-8' codec can't decode " ++ place ++ ": " ++ fault.reason.message

/-- A character of which some bytes have been read: where it began, how many bytes are still to
come, the range that the next of them must lie in, and the value read so far. -/
structure Begun where
  first : UInt8
  start : Nat
  missing : Nat
  low : UInt8
  high : UInt8
  value : Nat
  deriving Repr

/-- What the first byte of a character of several bytes promises. The range of the second byte
leaves out overlong forms, surrogates and values above the last code point. -/
def leading? (byte : UInt8) (start : Nat) : Option Begun :=
  if byte < 0xC2 then none
  else if byte < 0xE0 then some ⟨byte, start, 1, 0x80, 0xBF, byte.toNat - 0xC0⟩
  else if byte < 0xF0 then
    some ⟨byte, start, 2, if byte = 0xE0 then 0xA0 else 0x80, if byte = 0xED then 0x9F else 0xBF,
      byte.toNat - 0xE0⟩
  else if byte < 0xF5 then
    some ⟨byte, start, 3, if byte = 0xF0 then 0x90 else 0x80, if byte = 0xF4 then 0x8F else 0xBF,
      byte.toNat - 0xF0⟩
  else none

/-- Reads on from a position, in the middle of a character or between two. -/
def decodeFrom (position : Nat) : Option Begun → List UInt8 → Except Fault (List Char)
  | none, [] => .ok []
  | some begun, [] => .error ⟨begun.first, begun.start, position, .unexpectedEnd⟩
  | none, byte :: rest =>
    if byte < 0x80 then
      (Char.ofNat byte.toNat :: ·) <$> decodeFrom (position + 1) none rest
    else
      match leading? byte position with
      | none => .error ⟨byte, position, position + 1, .invalidStart⟩
      | some begun => decodeFrom (position + 1) (some begun) rest
  | some begun, byte :: rest =>
    if begun.low ≤ byte ∧ byte ≤ begun.high then
      let value := begun.value * 64 + (byte.toNat - 0x80)
      if begun.missing ≤ 1 then
        (Char.ofNat value :: ·) <$> decodeFrom (position + 1) none rest
      else
        decodeFrom (position + 1)
          (some ⟨begun.first, begun.start, begun.missing - 1, 0x80, 0xBF, value⟩) rest
    else
      .error ⟨begun.first, begun.start, position, .invalidContinuation⟩

/-- The text that bytes spell, or the first place where they spell none. -/
def decode (bytes : List UInt8) : Except Fault (List Char) :=
  decodeFrom 0 none bytes

/-- The text with each of the line ends of text files, a carriage return with or without a line
feed, written as one line feed. -/
def foldLineEnds : List Char → List Char
  | [] => []
  | '\r' :: '\n' :: rest => '\n' :: foldLineEnds rest
  | '\r' :: rest => '\n' :: foldLineEnds rest
  | character :: rest => character :: foldLineEnds rest

/-- The text of a text file. -/
def readText (bytes : List UInt8) : Except Fault (List Char) :=
  foldLineEnds <$> decode bytes

end GrammarView.Utf8
