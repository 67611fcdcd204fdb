import Mathlib.Computability.StateTransition

/-!
# Machines that stop and machines that do not

A machine is a partial step function; it stops where there is no next step.
Two rules besides those of state transitions: what every step preserves holds
wherever the machine gets to, and a machine that can always get back to a set
of states never stops.
-/

namespace SidepoolFormal.Library

open StateTransition

variable {S : Type} {step : S → Option S}

theorem reaches_invariant {I : S → Prop} (preserved : ∀ s s', I s → step s = some s' → I s')
    {s t : S} (reaches : Reaches step s t) (init : I s) : I t := by
  induction reaches with
  | refl => exact init
  | tail _ next ih => exact preserved _ _ ih next

theorem eval_step {s s' : S} (next : step s = some s') : eval step s = eval step s' :=
  reaches_eval (Relation.ReflTransGen.single next)

theorem mem_eval_stop {s : S} (stop : step s = none) : s ∈ eval step s :=
  mem_eval.mpr ⟨.refl, stop⟩

/-- From where it can get to `P`, it can get to `P` after a step. -/
theorem step_toward {P : S → Prop} (again : ∀ s, P s → ∃ s', step s = some s' ∧ P s') {s p : S}
    (reaches : Reaches step s p) (holds : P p) :
    ∃ s', step s = some s' ∧ ∃ p', Reaches step s' p' ∧ P p' := by
  induction reaches using Relation.ReflTransGen.head_induction_on with
  | refl =>
      obtain ⟨s', next, holds'⟩ := again p holds
      exact ⟨s', next, s', .refl, holds'⟩
  | head next rest _ => exact ⟨_, next, p, rest, holds⟩

/-- A machine that gets to where every step stays never stops. -/
theorem not_mem_eval {P : S → Prop} (again : ∀ s, P s → ∃ s', step s = some s' ∧ P s') {s p t : S}
    (reaches : Reaches step s p) (holds : P p) : t ∉ eval step s := by
  intro stops
  have never : ¬∃ p, Reaches step s p ∧ P p := by
    refine evalInduction (C := fun s => ¬∃ p, Reaches step s p ∧ P p) stops ?_
    rintro a _ ih ⟨p, reaches, holds⟩
    obtain ⟨a', next, toward⟩ := step_toward again reaches holds
    exact ih a' next toward
  exact never ⟨p, reaches, holds⟩

end SidepoolFormal.Library
