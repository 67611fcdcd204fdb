import SidepoolFormal.S.Code

/-!
# Steps that are computed

The label of a step tells everything that is open in it, so what a step leads to
can be computed, and a trace be replayed.
-/

namespace SidepoolFormal.S

open Library

variable {E : Type}

/-- Where the step with a label leads, if it can be taken. -/
def next (s : State E) : Label E → Option (State E)
  | .makes k =>
      if free s.stack = true ∧ k = s.lessees.length then
        some { s with lessees := s.lessees ++ [⟨[], true⟩] }
      else none
  | .subscribes k l =>
      match s.lessees[k]? with
      | some ⟨leases, true⟩ =>
          if free s.stack = true ∧ l = s.registry.leases.length then
            some { s with
              registry := s.registry.addLease
              lessees := s.lessees.set k ⟨s.registry.leases.length :: leases, true⟩ }
          else none
      | _ => none
  | .destroys k =>
      match s.lessees[k]? with
      | some ⟨leases, true⟩ =>
          if free s.stack = true then
            some { s with
              registry := Lessee.destroy ⟨leases, true⟩ s.registry
              lessees := s.lessees.set k ⟨leases, false⟩ }
          else none
      | _ => none
  | .raises r n =>
      if free s.stack = true ∧ r = s.raises.length ∧ n = s.registry.leases.length then
        some { s with
          raises := s.raises ++ [Raise.initial]
          stack := .iterate s.raises.length none s.registry.first :: s.stack }
      else none
  | .removes r l =>
      match s.stack with
      | .iterate r' prev (some l') :: stack =>
          if s.registry.live l = false ∧ r = r' ∧ l = l' then
            some { s with
              registry := s.registry.remove prev l
              stack := .iterate r prev (s.registry.next l) :: stack }
          else none
      | _ => none
  | .calls r l =>
      match s.stack with
      | .iterate r' prev (some l') :: stack =>
          if s.registry.live l = true ∧ r = r' ∧ l = l' then
            some { s.modify r Raise.incr with stack := .function r prev l :: stack }
          else none
      | _ => none
  | .returns r l =>
      match s.stack with
      | .function r' _ l' :: stack =>
          if r = r' ∧ l = l' then
            some { s.modify r (Raise.collect · l) with
              stack := .iterate r (some l) (s.registry.next l) :: stack }
          else none
      | _ => none
  | .throws r l _ =>
      match s.stack with
      | .function r' _ l' :: stack =>
          if r = r' ∧ l = l' then some { s with stack := stack } else none
      | _ => none
  | .ends r =>
      match s.stack with
      | .iterate r' _ none :: stack =>
          if r = r' then
            some { s.modify r ({ · with returned := true }) with stack := stack }
          else none
      | _ => none
  | .runs r =>
      match s.raises[r]? with
      | some raise =>
          if free s.stack = true ∧ raise.returned = true ∧ raise.ran = false then
            some { s.modify r ({ · with ran := true }) with stack := .chain r 0 :: s.stack }
          else none
      | none => none
  | .starts r i l =>
      match s.stack, s.raises[r]? with
      | .chain r' i' :: stack, some raise =>
          match raise.acts[i]? with
          | some act =>
              if r = r' ∧ i = i' ∧ l = act.lease then
                some { s.modify r (Raise.start · i) with stack := .act r i :: stack }
              else none
          | none => none
      | _, _ => none
  | .leaves r i =>
      match s.stack with
      | .act r' i' :: stack =>
          if r = r' ∧ i = i' then some { s with stack := .chain r (i + 1) :: stack } else none
      | _ => none
  | .crashes r i e =>
      match s.stack with
      | .act r' i' :: stack =>
          if r = r' ∧ i = i' then
            some { s.modify r (Raise.complete · i (some e)) with
              stack := .chain r (i + 1) :: stack }
          else none
      | _ => none
  | .joins r =>
      match s.stack, s.raises[r]? with
      | .chain r' i :: stack, some raise =>
          if r = r' ∧ raise.acts[i]? = none then
            some { s.modify r Raise.join with stack := stack }
          else none
      | _, _ => none
  | .completes r i result =>
      match s.raises[r]? with
      | some raise =>
          match raise.acts[i]? with
          | some ⟨_, some _⟩ =>
              if free s.stack = true then some (s.modify r (Raise.complete · i result)) else none
          | _ => none
      | none => none

theorem next_of_step {s s' : State E} {label : Label E} (step : Step s label s') :
    next s label = some s' := by
  cases step with
  | makes control => simp [next, control]
  | subscribes control lessee => simp [next, control, lessee]
  | destroys control lessee => simp [next, control, lessee]
  | raises control => simp [next, control]
  | removes control cleared => simp [next, control, cleared]
  | calls control live => simp [next, control, live]
  | returns control => simp [next, control]
  | throws control e => simp [next, control]
  | ends control => simp [next, control]
  | runs control found returned ran => simp [next, control, found, returned, ran]
  | starts control found inside => simp [next, control, found, inside]
  | leaves control => simp [next, control]
  | crashes control e => simp [next, control]
  | joins control found none => simp [next, control, found, none]
  | completes control found started result => simp [next, control, found, started]

theorem Step.deterministic {s s₁ s₂ : State E} {label : Label E} (first : Step s label s₁)
    (second : Step s label s₂) : s₁ = s₂ :=
  Option.some.inj ((next_of_step first).symm.trans (next_of_step second))

/-- So a trace tells which state it leads to. -/
theorem run_deterministic {s s₁ s₂ : State E} {trace : List (Label E)} (first : Run Step s trace s₁)
    (second : Run Step s trace s₂) : s₁ = s₂ := by
  refine Run.deterministic ?_ first second
  intro s label s₁ s₂ step step'
  exact step.deterministic step'

theorem step_of_next {s s' : State E} {label : Label E} (computed : next s label = some s') :
    Step s label s' := by
  cases label with
  | makes k =>
      simp only [next, Option.ite_none_right_eq_some, Option.some.injEq] at computed
      obtain ⟨⟨control, rfl⟩, rfl⟩ := computed
      exact .makes control
  | subscribes k l =>
      simp only [next] at computed
      split at computed
      · rename_i leases lessee
        simp only [Option.ite_none_right_eq_some, Option.some.injEq] at computed
        obtain ⟨⟨control, rfl⟩, rfl⟩ := computed
        exact .subscribes control lessee
      · cases computed
  | destroys k =>
      simp only [next] at computed
      split at computed
      · rename_i leases lessee
        simp only [Option.ite_none_right_eq_some, Option.some.injEq] at computed
        obtain ⟨control, rfl⟩ := computed
        exact .destroys control lessee
      · cases computed
  | raises r n =>
      simp only [next, Option.ite_none_right_eq_some, Option.some.injEq] at computed
      obtain ⟨⟨control, rfl, rfl⟩, rfl⟩ := computed
      exact .raises control
  | removes r l =>
      simp only [next] at computed
      split at computed
      · rename_i r' prev l' stack control
        simp only [Option.ite_none_right_eq_some, Option.some.injEq] at computed
        obtain ⟨⟨cleared, rfl, rfl⟩, rfl⟩ := computed
        exact .removes control cleared
      · cases computed
  | calls r l =>
      simp only [next] at computed
      split at computed
      · rename_i r' prev l' stack control
        simp only [Option.ite_none_right_eq_some, Option.some.injEq] at computed
        obtain ⟨⟨live, rfl, rfl⟩, rfl⟩ := computed
        exact .calls control live
      · cases computed
  | returns r l =>
      simp only [next] at computed
      split at computed
      · rename_i r' prev l' stack control
        simp only [Option.ite_none_right_eq_some, Option.some.injEq] at computed
        obtain ⟨⟨rfl, rfl⟩, rfl⟩ := computed
        exact .returns control
      · cases computed
  | throws r l e =>
      simp only [next] at computed
      split at computed
      · rename_i r' prev l' stack control
        simp only [Option.ite_none_right_eq_some, Option.some.injEq] at computed
        obtain ⟨⟨rfl, rfl⟩, rfl⟩ := computed
        exact .throws control e
      · cases computed
  | ends r =>
      simp only [next] at computed
      split at computed
      · rename_i r' prev stack control
        simp only [Option.ite_none_right_eq_some, Option.some.injEq] at computed
        obtain ⟨rfl, rfl⟩ := computed
        exact .ends control
      · cases computed
  | runs r =>
      simp only [next] at computed
      split at computed
      · rename_i raise found
        simp only [Option.ite_none_right_eq_some, Option.some.injEq] at computed
        obtain ⟨⟨control, returned, ran⟩, rfl⟩ := computed
        exact .runs control found returned ran
      · cases computed
  | starts r i l =>
      simp only [next] at computed
      split at computed
      · rename_i r' i' stack raise control found
        split at computed
        · rename_i act inside
          simp only [Option.ite_none_right_eq_some, Option.some.injEq] at computed
          obtain ⟨⟨rfl, rfl, rfl⟩, rfl⟩ := computed
          exact .starts control found inside
        · cases computed
      · cases computed
  | leaves r i =>
      simp only [next] at computed
      split at computed
      · rename_i r' i' stack control
        simp only [Option.ite_none_right_eq_some, Option.some.injEq] at computed
        obtain ⟨⟨rfl, rfl⟩, rfl⟩ := computed
        exact .leaves control
      · cases computed
  | crashes r i e =>
      simp only [next] at computed
      split at computed
      · rename_i r' i' stack control
        simp only [Option.ite_none_right_eq_some, Option.some.injEq] at computed
        obtain ⟨⟨rfl, rfl⟩, rfl⟩ := computed
        exact .crashes control e
      · cases computed
  | joins r =>
      simp only [next] at computed
      split at computed
      · rename_i r' i stack raise control found
        simp only [Option.ite_none_right_eq_some, Option.some.injEq] at computed
        obtain ⟨⟨rfl, none⟩, rfl⟩ := computed
        exact .joins control found none
      · cases computed
  | completes r i result =>
      simp only [next] at computed
      split at computed
      · rename_i raise found
        split at computed
        · rename_i l completed started
          simp only [Option.ite_none_right_eq_some, Option.some.injEq] at computed
          obtain ⟨control, rfl⟩ := computed
          exact .completes control found started result
        · cases computed
      · cases computed

/-- The state that a trace leads to. -/
def replay (s : State E) : List (Label E) → Option (State E)
  | [] => some s
  | label :: trace => (next s label).bind (replay · trace)

theorem run_of_replay {s s' : State E} {trace : List (Label E)}
    (replayed : replay s trace = some s') : Run Step s trace s' := by
  induction trace generalizing s with
  | nil =>
      cases replayed
      exact .nil
  | cons label trace ih =>
      obtain ⟨between, first, rest⟩ := Option.bind_eq_some_iff.mp replayed
      have one : Run Step s [label] between := .snoc .nil (step_of_next first)
      exact one.append (ih rest)

end SidepoolFormal.S
