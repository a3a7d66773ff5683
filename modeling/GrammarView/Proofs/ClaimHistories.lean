import GrammarView.Proofs.Claims

/-!
# Histories of claims

What holds of claims that are made one after the other, on any rules and from any definitions. The
nesting that answers a claim is known from the answers before it: its targets are those that it
began with, and what it has opened are the root and the panels that were granted. So each answer
follows from the history alone.
-/

namespace GrammarView

namespace Nesting

section Answers

variable {nesting after : Nesting} {name : String} {context : Option String}
  {expansion : Expansion}

/-- A rule that has been opened is a box. -/
theorem Claims.of_opened (claim : nesting.Claims name context expansion after)
    (opened : name ∈ nesting.opened.names) : expansion = .box := by
  cases claim with
  | again | away => rfl
  | first fresh | home fresh | spliced fresh => exact absurd opened fresh

/-- A rule without a target that has not been opened gets its panel. -/
theorem Claims.of_free (claim : nesting.Claims name context expansion after)
    (fresh : name ∉ nesting.opened.names) (free : nesting.targets.get? name = none) :
    expansion = .definition := by
  cases claim with
  | again opened => exact absurd opened fresh
  | first | home => rfl
  | away _ tied | spliced _ tied => exact nomatch free.symm.trans tied

/-- A rule that is tied to no definition and has not been opened is spliced. -/
theorem Claims.of_untied (claim : nesting.Claims name context expansion after)
    (fresh : name ∉ nesting.opened.names) (untied : nesting.targets.get? name = some none) :
    expansion = .splice := by
  cases claim with
  | again opened => exact absurd opened fresh
  | spliced => rfl
  | first _ free => exact nomatch free.symm.trans untied
  | home _ tied | away _ tied => exact nomatch tied.symm.trans untied

/-- A panel is granted to a rule that has not been opened and, if the rule has a target, from that
definition; it is opened then. -/
theorem Claims.granted (claim : nesting.Claims name context .definition after) :
    name ∉ nesting.opened.names ∧ after = nesting.opening name context ∧
      ∀ target, nesting.targets.get? name = some target → target ≠ none ∧ context = target := by
  cases claim with
  | first fresh free => exact ⟨fresh, rfl, fun target tied => nomatch free.symm.trans tied⟩
  | home fresh tied here =>
    refine ⟨fresh, rfl, fun target tiedTo => ?_⟩
    obtain rfl := Option.some.inj (tied.symm.trans tiedTo)
    exact ⟨nofun, here⟩

/-- Any other answer leaves the nesting as it is. -/
theorem Claims.unchanged (claim : nesting.Claims name context expansion after)
    (refused : expansion ≠ .definition) : after = nesting := by
  cases claim with
  | first | home => exact absurd rfl refused
  | again | away | spliced => rfl

end Answers

/-- A claim on a rule from a definition, with its answer and the nesting that it left. -/
structure Turn where
  name : String
  context : Option String
  expansion : Expansion
  after : Nesting

/-- Claims that are made one after the other, each answered by the nesting that the one before it
left. -/
def history (nesting : Nesting) : List (String × Option String) → List Turn
  | [] => []
  | (name, context) :: rest =>
    let answer := nesting.claim name context
    ⟨name, context, answer.1, answer.2⟩ :: answer.2.history rest

/-- The nesting that turns have left. -/
def reached (nesting : Nesting) : List Turn → Nesting
  | [] => nesting
  | turn :: rest => turn.after.reached rest

/-- The panels that turns have granted, each with the definition from which it was claimed. -/
def panelsOf (turns : List Turn) : Entries (Option String) :=
  (turns.filter (·.expansion = .definition)).map fun turn => (turn.name, turn.context)

/-- The panels of more turns come behind those before them. -/
theorem panelsOf_append (before after : List Turn) :
    panelsOf (before ++ after) = panelsOf before ++ panelsOf after := by
  simp [panelsOf]

/-- The rules with panels are those whose claims were answered so. -/
theorem mem_names_panelsOf {turns : List Turn} {name : String} :
    name ∈ (panelsOf turns).names ↔
      ∃ turn ∈ turns, turn.expansion = .definition ∧ turn.name = name := by
  simp [panelsOf, Entries.names, and_assoc]

/-- What a nesting has recorded of the turns that led to it. -/
structure Recorded (targets : Entries (Option String)) (root : String) (turns : List Turn)
    (nesting : Nesting) : Prop where
  targets : nesting.targets = targets
  opened : nesting.opened = (root, none) :: panelsOf turns
  distinct : nesting.opened.Distinct

section Histories

variable {targets : Entries (Option String)} {root name : String} {nesting : Nesting}
  {before later : List Turn} {turn : Turn} {claims : List (String × Option String)}

/-- At the start no panel has been granted. -/
theorem recorded_start (targets : Entries (Option String)) (root : String) :
    Recorded targets root [] (.start targets root) where
  targets := rfl
  opened := rfl
  distinct := List.nodup_singleton root

/-- Every turn keeps the record. -/
theorem Recorded.onward (recorded : Recorded targets root before nesting)
    (claim : nesting.Claims turn.name turn.context turn.expansion turn.after) :
    Recorded targets root (before ++ [turn]) turn.after := by
  by_cases answer : turn.expansion = .definition
  · rw [answer] at claim
    obtain ⟨fresh, opened, -⟩ := claim.granted
    have panel : panelsOf [turn] = [(turn.name, turn.context)] := by simp [panelsOf, answer]
    rw [opened]
    refine ⟨recorded.targets, ?_, distinct_opening turn.context fresh recorded.distinct⟩
    rw [opening, recorded.opened, panelsOf_append, panel, List.cons_append]
  · have nothing : panelsOf [turn] = [] := by simp [panelsOf, answer]
    rw [claim.unchanged answer]
    refine ⟨recorded.targets, ?_, recorded.distinct⟩
    rw [recorded.opened, panelsOf_append, nothing, List.append_nil]

/-- A history goes on from a nesting that has recorded what came before it: every turn of it is a
claim on a nesting that has recorded all turns before. -/
theorem Recorded.history {past : List Turn} (recorded : Recorded targets root past nesting)
    (turns : nesting.history claims = before ++ later) :
    Recorded targets root (past ++ before) (nesting.reached before) ∧
      ∀ turn rest, later = turn :: rest →
        (nesting.reached before).Claims turn.name turn.context turn.expansion turn.after := by
  induction claims generalizing nesting past before with
  | nil =>
    obtain ⟨rfl, rfl⟩ := List.append_eq_nil_iff.mp turns.symm
    exact ⟨by rwa [List.append_nil], nofun⟩
  | cons claim rest inductionHypothesis =>
    cases before with
    | nil =>
      rw [List.nil_append] at turns
      refine ⟨by rwa [List.append_nil], ?_⟩
      rintro turn others rfl
      obtain ⟨rfl, -⟩ := List.cons.inj turns
      exact nesting.claims_claim claim.1 claim.2
    | cons first before =>
      obtain ⟨same, others⟩ := List.cons.inj turns
      -- The turns that are left are those of the nesting that the first one has left.
      have answered : nesting.Claims first.name first.context first.expansion first.after :=
        same ▸ nesting.claims_claim claim.1 claim.2
      have left : first.after.history rest = before ++ later := same ▸ others
      have further := inductionHypothesis (recorded.onward answered) left
      rwa [List.append_assoc] at further

/-- The record at a turn of a history, with what is known of the turn. -/
theorem history_turn (turns : (start targets root).history claims = before ++ turn :: later) :
    Recorded targets root before ((start targets root).reached before) ∧
      ((start targets root).reached before).Claims turn.name turn.context turn.expansion
        turn.after := by
  obtain ⟨recorded, claimed⟩ := (recorded_start targets root).history turns
  exact ⟨recorded, claimed turn later rfl⟩

/-- Every claim has its turn in a history. -/
theorem history_claims (nesting : Nesting) (claims : List (String × Option String)) :
    (nesting.history claims).map (fun turn => (turn.name, turn.context)) = claims := by
  induction claims generalizing nesting with
  | nil => rfl
  | cons claim rest inductionHypothesis =>
    rw [history, List.map_cons, inductionHypothesis]

/-- The rules that have been opened are the root and those that were granted panels. -/
theorem Recorded.mem_opened (recorded : Recorded targets root before nesting) :
    name ∈ nesting.opened.names ↔
      name = root ∨ ∃ turn ∈ before, turn.expansion = .definition ∧ turn.name = name := by
  rw [recorded.opened, ← mem_names_panelsOf]
  exact List.mem_cons

end Histories

/-- What a nesting answers to claims, told by the claims and the answers alone. -/
structure Answers (targets : Entries (Option String)) (root : String)
    (claims : List (String × Option String)) (turns : List Turn) : Prop where
  /-- Every claim has its turn. -/
  claimed : turns.map (fun turn => (turn.name, turn.context)) = claims
  /-- No rule is granted a panel twice, and the root is granted none. -/
  once : (root :: (panelsOf turns).names).Nodup
  /-- When a rule has been granted its panel, it is a box from then on. -/
  settled : ∀ before turn later, turns = before ++ turn :: later → ∀ earlier ∈ before,
    earlier.expansion = .definition → earlier.name = turn.name → turn.expansion = .box
  /-- A rule that has a target is granted a panel only there. -/
  home : ∀ turn ∈ turns, turn.expansion = .definition →
    ∀ target, targets.get? turn.name = some target → target ≠ none ∧ turn.context = target
  /-- A rule that is tied to no definition is spliced. -/
  spliced : ∀ turn ∈ turns, turn.name ≠ root → targets.get? turn.name = some none →
    turn.expansion = .splice
  /-- A rule that has no target is granted a panel at its first claim. -/
  first : ∀ before turn later, turns = before ++ turn :: later → turn.name ≠ root →
    targets.get? turn.name = none → (∀ earlier ∈ before, earlier.name ≠ turn.name) →
    turn.expansion = .definition
  /-- At all times the root has been opened, and the panels granted so far in their order. -/
  opened : ∀ before later, turns = before ++ later →
    ((start targets root).reached before).opened = (root, none) :: panelsOf before
  /-- At no time has a rule been opened that is tied to no definition. -/
  unopened : ∀ before later, turns = before ++ later → ∀ name, name ≠ root →
    targets.get? name = some none → name ∉ ((start targets root).reached before).opened.names
  /-- The targets are always the same. -/
  targets : ∀ before later, turns = before ++ later →
    ((start targets root).reached before).targets = targets

/-- Claims in any order are answered as their history says. -/
theorem answers_follow_history (targets : Entries (Option String)) (root : String)
    (claims : List (String × Option String)) :
    Answers targets root claims ((start targets root).history claims) := by
  have recorded {before later : List Turn}
      (turns : (start targets root).history claims = before ++ later) :=
    ((recorded_start targets root).history turns).1
  have home : ∀ turn ∈ (start targets root).history claims, turn.expansion = .definition →
      ∀ target, targets.get? turn.name = some target → target ≠ none ∧ turn.context = target := by
    intro turn member answer
    obtain ⟨before, later, turns⟩ := List.append_of_mem member
    obtain ⟨record, claim⟩ := history_turn turns
    rw [answer] at claim
    rw [← record.targets]
    exact claim.granted.2.2
  have unopened {before later : List Turn}
      (turns : (start targets root).history claims = before ++ later) (name : String)
      (different : name ≠ root) (untied : targets.get? name = some none) :
      name ∉ ((start targets root).reached before).opened.names := by
    rw [(recorded turns).mem_opened]
    rintro (same | ⟨turn, member, answer, rfl⟩)
    · exact different same
    · exact (home turn (turns ▸ List.mem_append_left later member) answer none untied).1 rfl
  constructor
  case claimed => exact history_claims _ claims
  case once =>
    have whole := recorded (List.append_nil _).symm
    have distinct := whole.distinct
    rwa [whole.opened] at distinct
  case settled =>
    intro before turn later turns earlier member answer same
    obtain ⟨record, claim⟩ := history_turn turns
    exact claim.of_opened (record.mem_opened.mpr (.inr ⟨earlier, member, answer, same⟩))
  case home => exact home
  case spliced =>
    intro turn member different untied
    obtain ⟨before, later, turns⟩ := List.append_of_mem member
    obtain ⟨record, claim⟩ := history_turn turns
    exact claim.of_untied (unopened turns _ different untied) (by rwa [record.targets])
  case first =>
    intro before turn later turns different free never
    obtain ⟨record, claim⟩ := history_turn turns
    refine claim.of_free ?_ (by rwa [record.targets])
    rw [record.mem_opened]
    rintro (same | ⟨earlier, member, -, same⟩)
    · exact different same
    · exact never earlier member same
  case opened => exact fun before later turns => (recorded turns).opened
  case unopened => exact fun before later turns => unopened turns
  case targets => exact fun before later turns => (recorded turns).targets

/-- A rule that is tied to a definition is a box elsewhere before and after it has its panel there,
and one that is tied to none is spliced; the root is a box though it is tied to a definition. -/
example :
    ((start [("row", some "table"), ("cell", none), ("table", some "row")] "table").history
        [("row", some "page"), ("row", some "table"), ("cell", some "row"), ("table", some "row"),
          ("row", some "table"), ("page", none)]).map Turn.expansion =
      [.box, .definition, .splice, .box, .box, .definition] := by
  decide

end Nesting

end GrammarView
