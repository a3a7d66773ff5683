import GrammarView.Json.Token

/-!
# Reading JSON

Reads the tokens of a text one by one. What has been opened and not yet closed stands on a stack
of frames, and the state says what may come next; the first token that may not come decides what
is wrong with the text, and the end of the text is judged in the same way.
-/

namespace GrammarView.Json

/-- An array or object that is still open. -/
inductive Frame where
  /-- An array with its items so far, the last one first. -/
  | items (before : List Json)
  /-- An object with its members so far, and the name whose value comes next. -/
  | members (before : Entries Json) (name : String)

/-- What has been read and what may come next. -/
inductive State where
  /-- A value. -/
  | value (frames : List Frame)
  /-- The first item of an array, or its end. -/
  | firstItem (frames : List Frame)
  /-- The first name of an object, or its end. -/
  | firstName (frames : List Frame)
  /-- A name. -/
  | name (before : Entries Json) (frames : List Frame)
  /-- The colon after a name. -/
  | colon (before : Entries Json) (name : String) (frames : List Frame)
  /-- A value has been read in full. -/
  | done (value : Json) (frames : List Frame)

/-- Begins a value with a token. -/
def beginValue (frames : List Frame) (offset : Nat) : Token → Except Fault State
  | .literal value => .ok (.done value frames)
  | .text content => .ok (.done (.str content) frames)
  | .openBracket => .ok (.firstItem frames)
  | .openBrace => .ok (.firstName frames)
  | .brokenText fault => .error fault
  | _ => .error ⟨offset, .expectingValue⟩

/-- Begins a member of an object with a token. -/
def beginMember (before : Entries Json) (frames : List Frame) (offset : Nat) :
    Token → Except Fault State
  | .text content => .ok (.colon before content frames)
  | .brokenText fault => .error fault
  | _ => .error ⟨offset, .expectingName⟩

/-- Goes on with a token after a value that belongs into the given frames. -/
def afterValue (item : Json) (offset : Nat) : List Frame → Token → Except Fault State
  | [], _ => .error ⟨offset, .extraData⟩
  | .items before :: frames, .comma => .ok (.value (.items (item :: before) :: frames))
  | .items before :: frames, .closeBracket => .ok (.done (.arr (item :: before).reverse) frames)
  | .members before key :: frames, .comma => .ok (.name (before.insert key item) frames)
  | .members before key :: frames, .closeBrace =>
    .ok (.done (.obj (before.insert key item)) frames)
  | _ :: _, _ => .error ⟨offset, .expectingComma⟩

/-- Reads one token. -/
def State.next (state : State) (placed : Nat × Token) : Except Fault State :=
  match state, placed with
  | .value frames, (offset, token) => beginValue frames offset token
  | .firstItem frames, (_, .closeBracket) => .ok (.done (.arr []) frames)
  | .firstItem frames, (offset, token) => beginValue (.items [] :: frames) offset token
  | .firstName frames, (_, .closeBrace) => .ok (.done (.obj []) frames)
  | .firstName frames, (offset, token) => beginMember [] frames offset token
  | .name before frames, (offset, token) => beginMember before frames offset token
  | .colon before key frames, (_, .colon) => .ok (.value (.members before key :: frames))
  | .colon .., (offset, _) => .error ⟨offset, .expectingColon⟩
  | .done item frames, (offset, token) => afterValue item offset frames token

/-- Judges the end of the text, at the given offset. -/
def State.finish (offset : Nat) : State → Except Fault Json
  | .done item [] => .ok item
  | .done _ (_ :: _) => .error ⟨offset, .expectingComma⟩
  | .value _ | .firstItem _ => .error ⟨offset, .expectingValue⟩
  | .firstName _ | .name .. => .error ⟨offset, .expectingName⟩
  | .colon .. => .error ⟨offset, .expectingColon⟩

/-- Reads the remaining tokens of a text of the given length. -/
def State.run (length : Nat) (state : State) : List (Nat × Token) → Except Fault Json
  | [] => state.finish length
  | token :: tokens =>
    match state.next token with
    | .ok state => state.run length tokens
    | .error fault => .error fault

/-- The value that a text spells, or the first thing that is wrong with it. -/
def read (characters : List Char) : Except Fault Json :=
  if characters.head? = some '\uFEFF' then .error ⟨0, .byteOrderMark⟩
  else (State.value []).run characters.length (tokensFrom 0 characters)

end GrammarView.Json
