import SidepoolFormal.S.Replay
import SidepoolFormal.S.Walk

/-!
# What a call of `iterate` visits

The list is sound after every run, and a call visits leases at most once and in
the order of subscription.  It visits all the leases that are live throughout
exactly where no walk is cut short.
-/

namespace SidepoolFormal.S

open Library Registry

variable {E : Type}

/-- A call of `iterate` that ends has visited every lease that was there when it
began and is still live. -/
def Complete (trace : List (Label E)) (s : State E) (label : Label E) : Prop :=
  ∀ r, label = .ends r → ∀ n, .raises r n ∈ trace →
    ∀ l, s.registry.live l = true → l < n → l ∈ visits r trace

theorem kept_initial : Kept ([] : List (Label E)) initial := by
  refine ⟨nofun, [], ⟨⟨.nil, rfl, .nil, nofun, fun l _ => rfl, nofun⟩, ?_⟩, nofun⟩
  intro l
  constructor
  · rintro ⟨r, ⟨⟩⟩
  · rintro ⟨⟨⟩, -⟩

theorem walking_initial : Walking ([] : List (Label E)) initial :=
  ⟨.nil, fun _ _ => ⟨rfl, nofun⟩, nofun, fun _ => .nil, nofun⟩

section Run

variable {trace : List (Label E)} {s : State E}

theorem kept_of_run (run : Run Step initial trace s) : Kept trace s :=
  run.invariant kept_initial fun _ _ _ _ kept step => kept.step step

theorem walking_of_run (run : Run Step initial trace s) : Walking trace s := by
  induction run with
  | nil => exact walking_initial
  | snoc run next ih => exact ih.step (kept_of_run run) (called_of_run run) next

theorem seen_of_run (run : Run Step initial trace s) (meets : Run.Meets Step initial Uncut trace) :
    Seen trace s := by
  refine meets.invariant nofun ?_ run
  intro trace s label s' run seen step uncut
  exact seen.step (kept_of_run run) (walking_of_run run) (called_of_run run) step uncut

end Run

/-- Once it has come to the end of the list, `iterate` only ends. -/
theorem ends_of_step {s s' : State E} {label : Label E} {r : Nat} {prev : Option Nat}
    {stack : List Frame} (control : s.stack = .iterate r prev none :: stack)
    (step : Step s label s') : label = .ends r := by
  cases step with
  | ends control' =>
      cases control.symm.trans control'
      rfl
  | makes free' | raises free' =>
      rw [control] at free'
      cases free'
  | subscribes free' _ | destroys free' _ =>
      rw [control] at free'
      cases free'
  | runs free' _ _ _ | completes free' _ _ _ =>
      rw [control] at free'
      cases free'
  | returns control' | leaves control' => cases control.symm.trans control'
  | removes control' _ | calls control' _ => cases control.symm.trans control'
  | throws control' _ | crashes control' _ => cases control.symm.trans control'
  | starts control' _ _ | joins control' _ _ => cases control.symm.trans control'

theorem complete_of_uncut {trace : List (Label E)} {s : State E} (run : Run Step initial trace s)
    (uncut : Run.Meets Step initial Uncut trace) : Run.Meets Step initial Complete trace := by
  rintro pre label s₁ ⟨post, rfl⟩ before r rfl n raised l alive bound
  have part : pre <+: pre ++ [.ends r] ++ post := List.append_assoc .. ▸ List.prefix_append _ _
  have seen := seen_of_run before (uncut.of_prefix part)
  rw [List.append_assoc] at run
  obtain ⟨s₂, before', behind⟩ := run.split
  obtain ⟨s₃, step, -⟩ := behind.uncons
  cases run_deterministic before before'
  cases step with
  | @ends r prev stack control =>
      have here : .iterate r prev none ∈ s₁.stack := control ▸ List.mem_cons_self
      exact seen _ here r rfl n raised l alive bound trivial

/-- Where a walk is cut short, its call of `iterate` ends and has left something out. -/
theorem uncut_of_complete {trace : List (Label E)} {s : State E} (run : Run Step initial trace s)
    (control : free s.stack = true) (complete : Run.Meets Step initial Complete trace) :
    Run.Meets Step initial Uncut trace := by
  rintro pre label s₁ ⟨post, rfl⟩ before r l r' rfl removed n raised l' further bound
  obtain ⟨chain, history, -⟩ := (kept_of_run before).list
  have apart := ((history.gone l).mp ⟨r', removed⟩).2
  have last : s₁.registry.next l = none := history.listed.apart l apart
  rw [List.append_assoc] at run
  obtain ⟨s₁', before', behind⟩ := run.split
  cases run_deterministic before before'
  obtain ⟨s₂, step, rest⟩ := behind.uncons
  have after : Run Step initial (pre ++ [.returns r l]) s₂ := .snoc before step
  cases step with
  | @returns r l prev stack control' =>
      cases post with
      | nil =>
          cases rest.eq_of_nil
          cases control
      | cons label post =>
          obtain ⟨s₃, step, -⟩ := rest.uncons
          cases ends_of_step (congrArg (Frame.iterate r (some l) · :: stack) last) step
          by_contra alive
          rw [Bool.not_eq_false] at alive
          have ended := complete (pre ++ [.returns r l]) (.ends r) _ (by simp) after
          have visited := ended r rfl n (later _ raised) l' alive bound
          rw [visits_of_silent pre rfl] at visited
          have here : .function r prev l ∈ s₁.stack := control' ▸ List.mem_cons_self
          have reached := (walking_of_run before).ahead _ here r rfl l' visited
          exact Nat.not_le_of_lt further reached

/-- After every run the list of the registry is sound, and every call of `iterate`
has visited leases at most once and in the order of subscription.  Its calls have
visited all the leases that were live throughout if and only if, whenever a
function returned after its lease had been removed by another walk, none of the
leases behind it was live. -/
theorem visits_all_iff {trace : List (Label E)} {s : State E} (run : Run Step initial trace s) :
    (∃ chain, Listed s.registry chain) ∧ (∀ r, (visits r trace).Pairwise (· < ·)) ∧
      (Run.Meets Step initial Uncut trace → Run.Meets Step initial Complete trace) ∧
      (free s.stack = true → Run.Meets Step initial Complete trace →
        Run.Meets Step initial Uncut trace) := by
  obtain ⟨chain, history, -⟩ := (kept_of_run run).list
  exact ⟨⟨chain, history.listed⟩, (walking_of_run run).order, complete_of_uncut run,
    uncut_of_complete run⟩

/-- Two lessees subscribe a function each. -/
def subscribing : List (Label Unit) := [.makes 0, .subscribes 0 0, .makes 1, .subscribes 1 1]

/-- Both functions only return. -/
def returning : List (Label Unit) :=
  [.calls 0 0, .returns 0 0, .calls 0 1, .returns 0 1, .ends 0]

theorem visits_all_iff_returning :
    ∃ s, Run Step initial (subscribing ++ .raises 0 2 :: returning) s ∧
      (∃ chain, Listed s.registry chain) ∧
      Run.Meets Step initial Complete (subscribing ++ .raises 0 2 :: returning) := by
  have run : ∃ s, Run Step initial (subscribing ++ .raises 0 2 :: returning) s :=
    ⟨_, run_of_replay rfl⟩
  obtain ⟨s, run⟩ := run
  obtain ⟨sound, -, complete, -⟩ := visits_all_iff run
  refine ⟨s, run, sound, complete ?_⟩
  intro pre label s₁ inside before r l r' same removed
  have part : pre <+: subscribing ++ .raises 0 2 :: returning :=
    (List.prefix_append _ _).trans inside
  have there := part.subset removed
  simp [subscribing, returning] at there

/-- The function of the first destroys its lessee and raises once more. -/
def renested : List (Label Unit) :=
  [.calls 0 0, .destroys 0, .raises 1 2, .removes 1 0, .calls 1 1, .returns 1 1, .ends 1,
    .returns 0 0]

/-- The outer call of `iterate` ends without a look at the second lease, which is
live all the time. -/
theorem not_visits_all :
    (∃ s, Run Step initial (subscribing ++ .raises 0 2 :: renested ++ [.ends 0]) s) ∧
    ¬ Run.Meets Step initial Complete (subscribing ++ .raises 0 2 :: renested ++ [.ends 0]) := by
  refine ⟨⟨_, run_of_replay rfl⟩, ?_⟩
  intro complete
  have ended := complete (subscribing ++ .raises 0 2 :: renested) (.ends 0) _ (List.prefix_refl _)
    (run_of_replay rfl)
  have visited := ended 0 rfl 2 (by simp) 1 rfl (by decide)
  revert visited
  decide

end SidepoolFormal.S
