import GrammarView.Proofs.Calls
import GrammarView.Proofs.SourceShapes

/-!
# Taking a call apart

Which texts are calls, and what their payload is. The reader looks for the payload from both ends,
so it sees the first opening and the last closing parenthesis and nothing between them. Whatever
stands in the payload, further parentheses, semicolons and line feeds included, a text is a call
around one payload at most.
-/

namespace GrammarView.Source

/-- Whether a text is one call around a payload. -/
def IsCallOf (text payload : List Char) : Prop :=
  ∃ wrapping : Wrapping, text = wrapping.around payload

section Parting

variable {text payload argument : List Char}

/-- What is dropped at the beginning of a text are blanks. -/
theorem exists_blanks (text : List Char) :
    ∃ blanks, AllBlank blanks ∧ text = blanks ++ dropBlanks text :=
  ⟨text.takeWhile isBlank, fun _ member => List.mem_takeWhile_imp member,
    List.takeWhile_append_dropWhile.symm⟩

/-- In front of what is found behind an opening parenthesis stands a name with blanks around it. -/
theorem exists_name (found : afterOpening? text = some argument) :
    ∃ before first others between,
      text = before ++ first :: (others ++ (between ++ '(' :: argument))
      ∧ AllBlank before ∧ beginsName first = true
      ∧ (∀ character ∈ others, continuesName character = true) ∧ AllBlank between := by
  obtain ⟨before, beforeBlank, whole⟩ := exists_blanks text
  rw [afterOpening?] at found
  split at found
  case h_1 => contradiction
  case h_2 first rest shown =>
    split at found
    case isFalse => contradiction
    case isTrue begins =>
      obtain ⟨between, betweenBlank, behind⟩ := exists_blanks (rest.dropWhile continuesName)
      split at found
      case h_2 => contradiction
      case h_1 opening =>
        cases found
        refine ⟨before, first, rest.takeWhile continuesName, between, ?_, beforeBlank, begins,
          fun _ member => List.mem_takeWhile_imp member, betweenBlank⟩
        rw [← opening, ← behind, List.takeWhile_append_dropWhile, ← shown]
        exact whole

/-- Behind a payload that is found stand its closing parenthesis and what may close a call. -/
theorem exists_closing (found : beforeClosing? text = some payload) :
    ∃ closing, text = payload ++ ')' :: closing ∧ Closes closing := by
  obtain ⟨ending, endingBlank, turned⟩ := exists_blanks text.reverse
  have whole : text = (dropBlanks text.reverse).reverse ++ ending.reverse := by
    rw [← List.reverse_append, ← turned, List.reverse_reverse]
  rw [beforeClosing?] at found
  split at found
  case h_2 => contradiction
  case h_1 reversed closed =>
    cases found
    split at closed
    case h_1 rest semicolon =>
      obtain ⟨after, afterBlank, before⟩ := exists_blanks rest
      refine ⟨after.reverse ++ ';' :: ending.reverse, ?_,
        .semicolon afterBlank.reverse endingBlank.reverse⟩
      rw [whole, semicolon, before, closed]
      simp
    case h_2 =>
      refine ⟨ending.reverse, ?_, .blanks endingBlank.reverse⟩
      rw [whole, closed]
      simp

/-- The payload that is found is the one that the text is a call around. -/
theorem payload?_eq_some : payload? text = some payload ↔ IsCallOf text payload := by
  constructor
  · intro found
    obtain ⟨argument, opened, closed⟩ := Option.bind_eq_some_iff.mp found
    obtain ⟨before, first, others, between, rfl, beforeBlank, firstBegins, othersContinue,
      betweenBlank⟩ := exists_name opened
    obtain ⟨closing, rfl, closes⟩ := exists_closing closed
    exact ⟨⟨before, first, others, between, closing, beforeBlank, firstBegins, othersContinue,
      betweenBlank, closes⟩, rfl⟩
  · rintro ⟨wrapping, rfl⟩
    exact wrapping.payload?_around payload

/-- A text is a call around one payload at most. -/
theorem IsCallOf.unique {other : List Char} (call : IsCallOf text payload)
    (again : IsCallOf text other) : other = payload :=
  Option.some.inj ((payload?_eq_some.mpr again).symm.trans (payload?_eq_some.mpr call))

/-- The payload reaches from the first opening to the last closing parenthesis. -/
theorem IsCallOf.outermost (call : IsCallOf text payload) :
    ∃ front back, text = front ++ '(' :: (payload ++ ')' :: back) ∧ '(' ∉ front ∧ ')' ∉ back := by
  obtain ⟨wrapping, rfl⟩ := call
  refine ⟨wrapping.before ++ wrapping.first :: (wrapping.others ++ wrapping.between),
    wrapping.closing, by simp [Wrapping.around], ?_, ?_⟩
  · exact wrapping.not_mem_front rfl rfl (by decide +kernel)
  · exact wrapping.closes.not_mem rfl (by decide)

end Parting

/-- Nothing is taken out of a text without comments. -/
theorem stripComments_of_bare {atLineStart : Bool} {text : List Char}
    (bare : Bare atLineStart text) : stripComments atLineStart text = text := by
  fun_induction stripComments atLineStart text with
  | case1 => rfl
  | case2 character rest comment starts => exact absurd ⟨comment, starts⟩ (bare.1 rfl)
  | case3 character rest _ inductionHypothesis
  | case4 _ character rest _ inductionHypothesis => rw [inductionHypothesis bare.2]

/-- A description by itself is never reported as no call. -/
theorem readJson_ne_notCall (text : List Char) : readJson text ≠ .error .notCall := by
  intro refused
  rw [readJson] at refused
  split at refused
  case h_1 value _ =>
    obtain ⟨_, _, _, same⟩ := ofJson_eq_error.mp refused
    contradiction
  case h_2 => cases refused

/-- A text without comments is read as a call exactly when it is blanks, a name, blanks and a
payload in parentheses, with blanks and at most one semicolon behind it. The payload is then the
only one that the text can be parted into; it reaches from the first opening to the last closing
parenthesis, and reading the call comes to what reading the payload comes to, be it a source or a
fault. Any other text is reported as no call. -/
theorem bare_call_unwrapped {text : List Char} (bare : Bare true text) :
    (∀ payload, IsCallOf text payload →
      readCall text = readJson payload ∧ (∀ other, IsCallOf text other → other = payload) ∧
      ∃ front back, text = front ++ '(' :: (payload ++ ')' :: back) ∧ '(' ∉ front ∧ ')' ∉ back) ∧
    (readCall text = .error .notCall ↔ ∀ payload, ¬ IsCallOf text payload) := by
  have unwrapped {payload : List Char} (call : IsCallOf text payload) :
      readCall text = readJson payload := by
    rw [readCall, stripComments_of_bare bare, payload?_eq_some.mpr call]
  refine ⟨fun payload call => ⟨unwrapped call, fun _ => call.unique, call.outermost⟩, ?_⟩
  constructor
  · intro refused payload call
    exact readJson_ne_notCall payload ((unwrapped call).symm.trans refused)
  · intro none
    have nothing : payload? text = Option.none := Option.eq_none_iff_forall_ne_some.mpr
      fun payload found => none payload (payload?_eq_some.mp found)
    rw [readCall, stripComments_of_bare bare, nothing]

/-- Parentheses, a semicolon and a line feed in the payload of a call over several lines belong to
the payload. -/
theorem parentheses_in_payload_kept :
    Bare true (spacedCall.around "\x7b\"a\":\n\");(\"\x7d".toList) ∧
      readCall (spacedCall.around "\x7b\"a\":\n\");(\"\x7d".toList)
        = .ok ⟨[("a", .str ");(")], []⟩ := by
  have noSlash : '/' ∉ spacedCall.around "\x7b\"a\":\n\");(\"\x7d".toList := by decide
  have bare : Bare true (spacedCall.around "\x7b\"a\":\n\");(\"\x7d".toList) := by
    have clean := clean_nil.append noSlash
    rw [List.append_nil] at clean
    exact clean.bare true
  refine ⟨bare, ?_⟩
  rw [((bare_call_unwrapped bare).1 _ ⟨spacedCall, rfl⟩).1]
  cbv

end GrammarView.Source
