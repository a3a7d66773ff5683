import GrammarView.Diagram.Nesting
import Mathlib.Data.List.Nodup

/-!
# How a claim is answered

The relation between a claim in a composite diagram and its answer: one rule for every reason that
an answer may have.
-/

namespace GrammarView

namespace Nesting

/-- A panel that is opened comes last. -/
@[simp]
theorem names_opening (nesting : Nesting) (name : String) (context : Option String) :
    (nesting.opening name context).opened.names = nesting.opened.names ++ [name] := by
  simp [opening, Entries.names]

/-- Opening a panel for the first time keeps the panels distinct. -/
theorem distinct_opening {nesting : Nesting} {name : String} (context : Option String)
    (fresh : name ∉ nesting.opened.names) (distinct : nesting.opened.Distinct) :
    (nesting.opening name context).opened.Distinct := by
  rw [Entries.Distinct, names_opening, ← List.concat_eq_append]
  exact distinct.concat fresh

/-- The answers to a claim on a rule from a definition, with the nesting afterwards. -/
inductive Claims (nesting : Nesting) (name : String) (context : Option String) :
    Expansion → Nesting → Prop where
  /-- A panel that has been opened is not opened again. -/
  | again (opened : name ∈ nesting.opened.names) : Claims nesting name context .box nesting
  /-- A rule that is tied to no definition gets its panel where it is first met. -/
  | first (fresh : name ∉ nesting.opened.names) (free : nesting.targets.get? name = none) :
      Claims nesting name context .definition (nesting.opening name context)
  /-- A rule that is tied to the definition gets its panel there. -/
  | home {target} (fresh : name ∉ nesting.opened.names)
      (tied : nesting.targets.get? name = some (some target)) (here : context = some target) :
      Claims nesting name context .definition (nesting.opening name context)
  /-- A rule that is tied to another definition has no panel here. -/
  | away {target} (fresh : name ∉ nesting.opened.names)
      (tied : nesting.targets.get? name = some (some target)) (elsewhere : context ≠ some target) :
      Claims nesting name context .box nesting
  /-- A rule that is tied to none has no panel at all. -/
  | spliced (fresh : name ∉ nesting.opened.names)
      (tied : nesting.targets.get? name = some none) : Claims nesting name context .splice nesting

/-- Every claim is answered as the relation says. -/
theorem claims_claim (nesting : Nesting) (name : String) (context : Option String) :
    Claims nesting name context (nesting.claim name context).1 (nesting.claim name context).2 := by
  unfold claim
  split
  case isTrue opened => exact .again (Entries.has_iff_mem_names.mp opened)
  case isFalse notOpened =>
    have fresh : name ∉ nesting.opened.names := mt Entries.has_iff_mem_names.mpr notOpened
    split
    case h_1 free => exact .first fresh free
    case h_2 tied => exact .spliced fresh tied
    case h_3 target notNone tied =>
      obtain ⟨definition, rfl⟩ : ∃ definition, target = some definition :=
        Option.ne_none_iff_exists'.mp notNone
      by_cases here : some definition = context
      · simpa [here] using Claims.home fresh tied here.symm
      · simpa [here] using Claims.away fresh tied (Ne.symm here)

/-- The answer to a claim together with what the relation says of it. -/
theorem claims_of_claim {nesting after : Nesting} {name : String} {context : Option String}
    {expansion : Expansion} (answered : nesting.claim name context = (expansion, after)) :
    Claims nesting name context expansion after := by
  have claims := nesting.claims_claim name context
  rwa [answered] at claims

/-- What the relation says is how the claim is answered. -/
theorem Claims.claim_eq {nesting after : Nesting} {name : String} {context : Option String}
    {expansion : Expansion} (claims : Claims nesting name context expansion after) :
    nesting.claim name context = (expansion, after) := by
  have unopened (fresh : name ∉ nesting.opened.names) : ¬ nesting.opened.has name = true :=
    mt Entries.has_iff_mem_names.mp fresh
  unfold claim
  cases claims with
  | again opened => rw [if_pos (Entries.has_iff_mem_names.mpr opened)]
  | first fresh free => rw [if_neg (unopened fresh), free]
  | home fresh tied here =>
    rw [if_neg (unopened fresh), tied]
    exact if_pos here.symm
  | away fresh tied elsewhere =>
    rw [if_neg (unopened fresh), tied]
    exact if_neg elsewhere.symm
  | spliced fresh tied => rw [if_neg (unopened fresh), tied]

end Nesting

end GrammarView
