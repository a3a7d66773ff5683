import GrammarView.Json.Reader
import GrammarView.Proofs.JsonLiterals
import GrammarView.Proofs.JsonStrings

/-!
# What a JSON text spells

The texts that the reader accepts, said without offsets and without the order in which the reader
looks at them: a text is blanks and tokens, each of which leads from one state to the next. Where a
token ends does not depend on what stands behind it, and that makes it possible to change a text
between its tokens.
-/

namespace GrammarView.Json

section Tokens

/-- The marks with their characters. -/
def marks : List (Char × Token) :=
  [('\x7b', .openBrace), ('\x7d', .closeBrace), ('[', .openBracket), (']', .closeBracket),
    (':', .colon), (',', .comma)]

/-- The characters of a token. -/
inductive Spelled : List Char → Token → Prop where
  | mark {character token} (listed : (character, token) ∈ marks) : Spelled [character] token
  | literal {spelling value} (found : literal? spelling = some (value, spelling.length)) :
      Spelled spelling (.literal value)
  | text {inside content} (spells : Spells inside content) :
      Spelled ('"' :: (inside ++ ['"'])) (.text (String.ofList content))

variable {character : Char} {inside rest : List Char} {token : Token} {offset : Nat}

/-- The characters that a token can begin with. -/
theorem head_of_spelled (spelled : Spelled (character :: inside) token) :
    continuesLiteral character = true ∨
      character ∈ ['\x7b', '\x7d', '[', ']', ':', ',', '"'] := by
  generalize whole : character :: inside = spelling at spelled
  cases spelled with
  | mark listed =>
    cases whole
    simp only [marks, List.mem_cons, List.not_mem_nil, or_false, Prod.mk.injEq] at listed
    rcases listed with ⟨rfl, -⟩ | ⟨rfl, -⟩ | ⟨rfl, -⟩ | ⟨rfl, -⟩ | ⟨rfl, -⟩ | ⟨rfl, -⟩ <;> simp
  | literal found =>
    subst whole
    exact .inl (continuesLiteral_of_literal? found)
  | text =>
    cases whole
    simp

/-- A character that begins no token and is no space begins no text. -/
theorem not_head_of_spelled {other : Char} (apart : continuesLiteral other = false)
    (unmarked : other ∉ ['\x7b', '\x7d', '[', ']', ':', ',', '"'])
    (spelled : Spelled (character :: inside) token) : character ≠ other := by
  rintro rfl
  rcases head_of_spelled spelled with part | mark
  · rw [apart] at part
    contradiction
  · exact unmarked mark

/-- A token is read from its characters, whatever stands behind them; only behind a literal the
text has to be one in front of which literals end. -/
theorem firstToken_of_spelled (spelled : Spelled (character :: inside) token) (offset : Nat)
    (rest : List Char) (stops : ∀ value, token = .literal value → Stops rest) :
    firstToken offset character (inside ++ rest) = (token, inside.length) := by
  generalize whole : character :: inside = spelling at spelled
  cases spelled with
  | mark listed =>
    cases whole
    simp only [marks, List.mem_cons, List.not_mem_nil, or_false, Prod.mk.injEq] at listed
    rcases listed with ⟨rfl, rfl⟩ | ⟨rfl, rfl⟩ | ⟨rfl, rfl⟩ | ⟨rfl, rfl⟩ | ⟨rfl, rfl⟩ | ⟨rfl, rfl⟩
    all_goals rfl
  | literal found =>
    subst whole
    have part := continuesLiteral_of_literal? found
    have ne (mark : Char) (apart : continuesLiteral mark = false) : character ≠ mark := by
      rintro rfl
      rw [part] at apart
      contradiction
    rw [firstToken, if_neg (ne _ rfl), if_neg (ne _ rfl), if_neg (ne _ rfl), if_neg (ne _ rfl),
      if_neg (ne _ rfl), if_neg (ne _ rfl), if_neg (ne _ rfl), ← List.cons_append,
      literal?_append (stops _ rfl), found]
    rfl
  | @text inside content spells =>
    cases whole
    have read : readText offset (offset + 1) (inside ++ '"' :: rest) =
        .ok (content, offset + 1 + inside.length + 1) :=
      readText_of_spells spells offset rest rfl
    simp [firstToken, read]
    omega

/-- A token that can be used is spelled by the characters that it takes. -/
theorem spelled_of_firstToken {text : List Char} {width : Nat}
    (first : firstToken offset character text = (token, width))
    (usable : token ≠ .stray ∧ ∀ fault, token ≠ .brokenText fault)
    (stops : ∀ value, token = .literal value → Stops (text.drop width)) :
    Spelled (character :: text.take width) token ∧ width ≤ text.length := by
  by_cases mark : ∃ mark, (character, mark) ∈ marks
  · obtain ⟨mark, listed⟩ := mark
    have noLiteral : ∀ value, mark = .literal value → Stops text := by
      rintro value rfl
      simp [marks] at listed
    have known := firstToken_of_spelled (.mark listed) offset text noLiteral
    rw [List.nil_append, first] at known
    cases known
    exact ⟨.mark listed, Nat.zero_le _⟩
  simp only [marks, List.mem_cons, List.not_mem_nil, or_false, Prod.mk.injEq, exists_or,
    exists_and_left, exists_eq, and_true, not_or] at mark
  obtain ⟨openBrace, closeBrace, openBracket, closeBracket, colon, comma⟩ := mark
  rw [firstToken, if_neg openBrace, if_neg closeBrace, if_neg openBracket, if_neg closeBracket,
    if_neg colon, if_neg comma] at first
  split at first
  case isTrue quote =>
    split at first
    case h_2 fault _ =>
      cases first
      exact absurd rfl (usable.2 fault)
    case h_1 content stop read =>
      cases first
      obtain ⟨inside, tail, rfl, spells, rfl⟩ := spells_of_readText read
      have width : offset + 1 + inside.length + 1 - (offset + 1) = (inside ++ ['"']).length := by
        simp only [List.length_append, List.length_singleton]
        omega
      have whole : inside ++ '"' :: tail = (inside ++ ['"']) ++ tail := by simp
      rw [quote, width, whole, List.take_left]
      exact ⟨.text spells, (List.sublist_append_left _ _).length_le⟩
  case isFalse =>
    split at first
    case h_2 =>
      cases first
      exact absurd rfl usable.1
    case h_1 value taken found =>
      cases first
      obtain ⟨positive, long⟩ := literal?_width found
      rw [List.length_cons] at long
      have inner : taken - 1 ≤ text.length := by omega
      have whole : character :: text =
          (character :: text.take (taken - 1)) ++ text.drop (taken - 1) := by simp
      have length : (character :: text.take (taken - 1)).length = taken := by
        rw [List.length_cons, List.length_take]
        omega
      rw [whole, literal?_append (stops value rfl)] at found
      refine ⟨.literal ?_, inner⟩
      rw [length]
      exact found

/-- A token ends on the line that it begins on. -/
theorem Spelled.inLine (spelled : Spelled (character :: inside) token) : '\n' ∉ inside := by
  generalize whole : character :: inside = spelling at spelled
  cases spelled with
  | mark =>
    cases whole
    exact List.not_mem_nil
  | literal found =>
    subst whole
    intro feed
    obtain ⟨before, after, rfl⟩ := List.append_of_mem feed
    -- In front of a line feed the literal would have ended.
    have stops : Stops ('\n' :: after) := by
      rintro _ ⟨⟩
      rfl
    rw [← List.cons_append, literal?_append stops] at found
    have short := (literal?_width found).2
    simp only [List.length_cons, List.length_append] at short
    omega
  | text spells =>
    cases whole
    simp [spells.inLine]

end Tokens

section Texts

/-- A text that is read to its end from a state, with the value that it spells. -/
inductive Accepts : State → List Char → Json → Prop where
  | done {value} : Accepts (.done value []) [] value
  | space {state blank rest value} (space : isSpace blank = true)
      (others : Accepts state rest value) : Accepts state (blank :: rest) value
  | token {state next : State} {character inside rest token value}
      (spelled : Spelled (character :: inside) token) (step : state.next (0, token) = .ok next)
      (others : Accepts next rest value) : Accepts state (character :: (inside ++ rest)) value

variable {state next : State} {token : Token} {offset : Nat} {text : List Char} {value : Json}

/-- Where a token stands does not matter as long as it may stand there. -/
theorem next_offset (step : state.next (offset, token) = .ok next) (other : Nat) :
    state.next (other, token) = .ok next := by
  cases state with
  | done item frames =>
    cases frames with
    | nil => simp [State.next, afterValue] at step
    | cons frame frames => cases frame <;> cases token <;> simp_all [State.next, afterValue]
  | _ => cases token <;> simp_all [State.next, beginValue, beginMember]

/-- Only a token that can be used leads to a state. -/
theorem usable_of_next (step : state.next (offset, token) = .ok next) :
    token ≠ .stray ∧ ∀ fault, token ≠ .brokenText fault := by
  cases state with
  | done item frames =>
    cases frames with
    | nil => simp [State.next, afterValue] at step
    | cons frame frames => cases frame <;> cases token <;> simp_all [State.next, afterValue]
  | _ => cases token <;> simp_all [State.next, beginValue, beginMember]

/-- After a literal a value has been read in full. -/
theorem done_of_literal {literal : Json} (step : state.next (offset, .literal literal) = .ok next) :
    ∃ frames, next = .done literal frames := by
  cases state with
  | done item frames =>
    cases frames with
    | nil => simp [State.next, afterValue] at step
    | cons frame frames => cases frame <;> simp [State.next, afterValue] at step
  | value frames | firstItem frames =>
    cases step
    exact ⟨_, rfl⟩
  | _ => simp [State.next, beginMember] at step

/-- After a value only three marks may come. -/
theorem mark_of_done {item : Json} {frames : List Frame}
    (step : (State.done item frames).next (offset, token) = .ok next) :
    token = .comma ∨ token = .closeBracket ∨ token = .closeBrace := by
  cases frames with
  | nil => simp [State.next, afterValue] at step
  | cons frame frames => cases frame <;> cases token <;> simp_all [State.next, afterValue]

/-- No literal goes on with a space. -/
theorem continuesLiteral_of_isSpace {blank : Char} (space : isSpace blank = true) :
    continuesLiteral blank = false := by
  simp only [isSpace, Bool.or_eq_true, beq_iff_eq] at space
  rcases space with ((rfl | rfl) | rfl) | rfl <;> rfl

/-- A literal ends in front of what may follow a value. -/
theorem Accepts.stops {item : Json} {frames : List Frame}
    (accepts : Accepts (.done item frames) text value) : Stops text := by
  cases accepts with
  | done => exact nofun
  | space space =>
    rintro _ ⟨⟩
    exact continuesLiteral_of_isSpace space
  | token spelled step =>
    rintro _ ⟨⟩
    rcases mark_of_done step with rfl | rfl | rfl <;> cases spelled with
    | mark listed =>
      simp [marks] at listed
      subst listed
      rfl

/-- What is read is accepted. -/
theorem accepts_of_run {length : Nat}
    (run : state.run length (tokensFrom offset text) = .ok value) : Accepts state text value := by
  fun_induction tokensFrom offset text generalizing state with
  | case1 offset =>
    cases state with
    | done item frames =>
      cases frames with
      | nil =>
        cases run
        exact .done
      | cons => cases run
    | _ => cases run
  | case2 offset blank rest space inductionHypothesis =>
    exact .space space (inductionHypothesis run)
  | case3 offset character rest notSpace token =>
    rename_i inductionHypothesis
    rw [State.run] at run
    split at run
    case h_2 => contradiction
    case h_1 next step =>
      have others := inductionHypothesis run
      have stops : ∀ value, token.1 = .literal value → Stops (rest.drop token.2) := by
        intro literal same
        rw [same] at step
        obtain ⟨frames, rfl⟩ := done_of_literal step
        exact others.stops
      have first : firstToken offset character rest = (token.1, token.2) := rfl
      have spelled := (spelled_of_firstToken first (usable_of_next step) stops).1
      have accepts := Accepts.token spelled (next_offset step 0) others
      rwa [List.take_append_drop] at accepts

/-- What is accepted is read, whatever its place and length are counted as. -/
theorem Accepts.run (accepts : Accepts state text value) (length offset : Nat) :
    state.run length (tokensFrom offset text) = .ok value := by
  induction accepts generalizing offset with
  | done => simp [tokensFrom, State.run, State.finish]
  | space space others inductionHypothesis =>
    rw [tokensFrom, if_pos space]
    exact inductionHypothesis (offset + 1)
  | @token state next character inside rest token value spelled step others inductionHypothesis =>
    have stops : ∀ value, token = .literal value → Stops rest := by
      rintro literal rfl
      obtain ⟨frames, rfl⟩ := done_of_literal step
      exact others.stops
    have first := firstToken_of_spelled spelled offset rest stops
    have notSpace : ¬ isSpace character = true := by
      intro space
      have apart := continuesLiteral_of_isSpace space
      simp only [isSpace, Bool.or_eq_true, beq_iff_eq] at space
      refine not_head_of_spelled apart ?_ spelled rfl
      rcases space with ((rfl | rfl) | rfl) | rfl <;> decide
    rw [tokensFrom, if_neg notSpace, first]
    simp only [List.drop_left]
    rw [State.run, next_offset step offset]
    exact inductionHypothesis _

/-- The reader accepts exactly the texts that blanks and tokens lead through. -/
theorem read_eq_ok : read text = .ok value ↔ Accepts (.value []) text value := by
  unfold read
  constructor
  · intro reads
    split at reads
    · contradiction
    · exact accepts_of_run reads
  · intro accepts
    rw [if_neg ?_, accepts.run]
    -- The byte order mark is no space and begins no token.
    intro mark
    cases accepts with
    | space space =>
      cases mark
      contradiction
    | token spelled =>
      exact not_head_of_spelled (by decide) (by decide) spelled (Option.some.inj mark)

end Texts

end GrammarView.Json
