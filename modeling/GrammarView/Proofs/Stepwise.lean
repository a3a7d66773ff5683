/-!
# Work in steps

What is done step by step over a state that every step may change. Such work may go on for ever,
which gives nothing, or stop with an error. That it gives a result is therefore a statement of its
own, and it is proved of work in several steps by proving it of each of them.
-/

namespace GrammarView

/-- A name under which no rule was found. -/
structure UnknownRule where
  name : String

/-- Work in steps over a state. -/
abbrev Stepwise (σ ε β : Type) := StateT σ (ExceptT ε Option) β

namespace Stepwise

variable {σ ε β γ : Type}

/-- Whether work that begins in a state ends with a result, in the state that is given after it. -/
def Gives (work : Stepwise σ ε β) (before : σ) (result : β) (after : σ) : Prop :=
  (work.run before).run = some (.ok (result, after))

/-- Work without a step ends at once. -/
theorem gives_pure {result final : β} {before after : σ} :
    (pure result : Stepwise σ ε β).Gives before final after ↔ final = result ∧ after = before := by
  constructor
  · rintro ⟨⟩
    exact ⟨rfl, rfl⟩
  · rintro ⟨rfl, rfl⟩
    rfl

/-- Work in two steps ends when both steps end. -/
theorem gives_bind {first : Stepwise σ ε β} {next : β → Stepwise σ ε γ} {before after : σ}
    {final : γ} :
    (first >>= next).Gives before final after ↔
      ∃ result between, first.Gives before result between ∧
        (next result).Gives between final after := by
  unfold Gives
  rw [StateT.run_bind, ExceptT.run_bind]
  constructor
  · intro gives
    obtain ⟨outcome, begins, goesOn⟩ := Option.bind_eq_some_iff.mp gives
    cases outcome with
    | error problem => cases goesOn
    | ok result => exact ⟨result.1, result.2, begins, goesOn⟩
  · rintro ⟨result, between, begins, goesOn⟩
    rw [begins]
    exact goesOn

/-- Work goes on with what its first step gives. -/
theorem Gives.bind {first : Stepwise σ ε β} {next : β → Stepwise σ ε γ} {before between after : σ}
    {result : β} {final : γ} (begins : first.Gives before result between)
    (goesOn : (next result).Gives between final after) :
    (first >>= next).Gives before final after :=
  gives_bind.mpr ⟨result, between, begins, goesOn⟩

end Stepwise

end GrammarView
