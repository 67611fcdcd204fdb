import SidepoolFormal.S.Calls
import SidepoolFormal.S.Replay

/-!
# Destroying a `Lessee`

A function is called only while its lease is live, the destruction of the lessee
clears all its leases, and a cleared lease stays so.  What a raise has collected
before, it still starts.
-/

namespace SidepoolFormal.S

open Library Registry

variable {E : Type}

/-! ## Leases that have been cleared -/

/-- A lease that has been subscribed and cleared. -/
def Dead (s : State E) (l : Nat) : Prop :=
  l < s.registry.leases.length ∧ s.registry.live l = false

theorem Dead.congr {s s' : State E} {l : Nat} (dead : Dead s l)
    (registry : s'.registry = s.registry) : Dead s' l := by
  rw [Dead, registry]
  exact dead

theorem Dead.step {s s' : State E} {l : Nat} {label : Label E} (dead : Dead s l)
    (step : Step s label s') : Dead s' l := by
  obtain ⟨bound, cleared⟩ := dead
  have dead : Dead s l := ⟨bound, cleared⟩
  cases step with
  | subscribes control lessee =>
      refine ⟨?_, ?_⟩
      · rw [length_addLease]
        exact Nat.lt_succ_of_lt bound
      · rw [← Bool.not_eq_true]
        intro alive
        rcases live_addLease l alive with old | new
        · rw [cleared] at old
          cases old
        · exact Nat.ne_of_lt bound new
  | @destroys k leases control lessee =>
      refine ⟨(length_destroy leases).symm ▸ bound, ?_⟩
      rw [← Bool.not_eq_true]
      intro alive
      have old := ((live_destroy leases l).mp alive).1
      rw [cleared] at old
      cases old
  | removes control _ =>
      refine ⟨(length_remove ..).symm ▸ bound, ?_⟩
      rw [live_remove]
      exact cleared
  | _ => exact dead.congr rfl

theorem Dead.not_called {s s' : State E} {r l : Nat} (dead : Dead s l) :
    ¬ Step s (.calls r l) s' := by
  intro step
  cases step with
  | calls control live =>
      rw [dead.2] at live
      cases live

theorem Dead.run {s s' : State E} {l : Nat} {trace : List (Label E)} (dead : Dead s l)
    (run : Run Step s trace s') : Dead s' l ∧ ∀ r, .calls r l ∉ trace := by
  induction run with
  | nil => exact ⟨dead, nofun⟩
  | snoc run next ih =>
      obtain ⟨dead, silent⟩ := ih
      refine ⟨dead.step next, ?_⟩
      intro r member
      rcases List.mem_append.mp member with before | now
      · exact silent r before
      · cases List.mem_singleton.mp now
        exact dead.not_called next

/-! ## Leases of a lessee -/

/-- A lessee that is alive has all the leases that were subscribed under it. -/
structure Held (trace : List (Label E)) (s : State E) : Prop where
  known : ∀ k l, .subscribes k l ∈ trace → k < s.lessees.length ∧ l < s.registry.leases.length
  leases : ∀ k leases, s.lessees[k]? = some ⟨leases, true⟩ →
    ∀ l, .subscribes k l ∈ trace → l ∈ leases

namespace Held

variable {trace : List (Label E)} {s s' : State E} {label : Label E}

theorem quiet (held : Held trace s) (other : ∀ k l, label ≠ .subscribes k l)
    (lessees : s'.lessees = s.lessees)
    (length : s'.registry.leases.length = s.registry.leases.length) :
    Held (trace ++ [label]) s' := by
  refine ⟨?_, ?_⟩
  · intro k l member
    rw [lessees, length]
    exact held.known k l (earlier member (other k l))
  · intro k leases found l member
    rw [lessees] at found
    exact held.leases k leases found l (earlier member (other k l))

theorem step (held : Held trace s) (step : Step s label s') : Held (trace ++ [label]) s' := by
  cases step with
  | makes control =>
      refine ⟨?_, ?_⟩
      · intro k l member
        obtain ⟨known, bound⟩ := held.known k l (earlier member nofun)
        refine ⟨?_, bound⟩
        rw [List.length_append]
        exact Nat.lt_add_right _ known
      · intro k leases found l member
        have before := earlier member nofun
        rw [List.getElem?_append_left (held.known k l before).1] at found
        exact held.leases k leases found l before
  | @subscribes k leases control lessee =>
      have here : k < s.lessees.length := (List.getElem?_eq_some_iff.mp lessee).1
      refine ⟨?_, ?_⟩
      · intro k' l member
        rw [List.length_set, length_addLease]
        rcases List.mem_append.mp member with before | now
        · obtain ⟨known, bound⟩ := held.known k' l before
          exact ⟨known, Nat.lt_succ_of_lt bound⟩
        · cases List.mem_singleton.mp now
          exact ⟨here, Nat.lt_succ_self _⟩
      · intro k' leases' found l member
        by_cases same : k = k'
        · subst same
          rw [List.getElem?_set_self here] at found
          cases found
          rcases List.mem_append.mp member with before | now
          · exact List.mem_cons_of_mem _ (held.leases k leases lessee l before)
          · cases List.mem_singleton.mp now
            exact List.mem_cons_self
        · rw [List.getElem?_set_ne same] at found
          refine held.leases k' leases' found l (earlier member ?_)
          rintro ⟨⟩
          exact same rfl
  | @destroys k leases control lessee =>
      refine ⟨?_, ?_⟩
      · intro k' l member
        obtain ⟨known, bound⟩ := held.known k' l (earlier member nofun)
        rw [List.length_set]
        exact ⟨known, (length_destroy leases).symm ▸ bound⟩
      · intro k' leases' found l member
        by_cases same : k = k'
        · subst same
          rw [List.getElem?_set_self (List.getElem?_eq_some_iff.mp lessee).1] at found
          cases found
        · rw [List.getElem?_set_ne same] at found
          exact held.leases k' leases' found l (earlier member nofun)
  | removes control cleared => exact held.quiet nofun rfl (length_remove ..)
  | _ => exact held.quiet nofun rfl rfl

theorem destroyed (held : Held trace s) {k l : Nat} (step : Step s (.destroys k) s')
    (subscribed : .subscribes k l ∈ trace) : Dead s' l := by
  cases step with
  | @destroys k leases control lessee =>
      refine ⟨(length_destroy leases).symm ▸ (held.known k l subscribed).2, ?_⟩
      rw [← Bool.not_eq_true]
      intro alive
      exact ((live_destroy leases l).mp alive).2 (held.leases k leases lessee l subscribed)

end Held

theorem held_of_run {trace : List (Label E)} {s : State E} (run : Run Step initial trace s) :
    Held trace s :=
  run.invariant ⟨nofun, nofun⟩ fun _ _ _ _ held step => held.step step

/-- A raise starts the actions of functions that it has called. -/
theorem called_of_starts {trace : List (Label E)} {s : State E} (run : Run Step initial trace s)
    {r i l : Nat} (member : .starts r i l ∈ trace) : .calls r l ∈ trace := by
  induction run with
  | nil => cases member
  | @snoc trace s s' label run next ih =>
      rcases List.mem_append.mp member with before | now
      · exact later label (ih before)
      · cases List.mem_singleton.mp now
        generalize same : Label.starts r i l = label at next
        cases next with
        | @starts r i raise act stack control found inside =>
            cases same
            have collected : act.lease ∈ raise.leases :=
              List.mem_map_of_mem (List.mem_of_getElem? inside)
            exact later _ ((called_of_run run).of_leases found collected)
        | _ => cases same

/-- After a lessee has been destroyed, none of the functions that were subscribed
under it is called, and no action of theirs is started unless a raise had called
the function before. -/
theorem destroyed_silent {pre post : List (Label E)} {s : State E} {k l : Nat}
    (run : Run Step initial (pre ++ .destroys k :: post) s) (subscribed : .subscribes k l ∈ pre) :
    (∀ r, .calls r l ∉ post) ∧ ∀ r i, .starts r i l ∈ post → .calls r l ∈ pre := by
  obtain ⟨s₁, before, behind⟩ := run.split
  obtain ⟨s₂, step, rest⟩ := behind.uncons
  have silent := (((held_of_run before).destroyed step subscribed).run rest).2
  refine ⟨silent, ?_⟩
  intro r i member
  have called := called_of_starts run (List.mem_append_right pre (List.mem_cons_of_mem _ member))
  rcases List.mem_append.mp called with old | new
  · exact old
  · rcases List.mem_cons.mp new with same | new
    · cases same
    · exact absurd new (silent r)

/-- A function is called, and its lessee destroyed before what it returned is run. -/
def collected : List (Label Unit) :=
  [.makes 0, .subscribes 0 0, .raises 0 1, .calls 0 0, .returns 0 0, .ends 0]

theorem destroyed_silent_collected :
    (∃ s, Run Step initial (collected ++ .destroys 0 :: [.runs 0, .starts 0 0 0]) s) ∧
      .calls 0 0 ∈ collected := by
  have run : ∃ s, Run Step initial (collected ++ .destroys 0 :: [.runs 0, .starts 0 0 0]) s :=
    ⟨_, run_of_replay rfl⟩
  obtain ⟨s, run⟩ := run
  have silent := destroyed_silent (l := 0) run (by simp [collected])
  exact ⟨⟨s, run⟩, silent.2 0 0 (by simp)⟩

theorem not_destroyed_silent : ¬ ∀ (pre post : List (Label Unit)) (s : State Unit) (k l : Nat),
    Run Step initial (pre ++ .destroys k :: post) s → .subscribes k l ∈ pre →
      (∀ r, .calls r l ∉ post) ∧ ∀ r i, .starts r i l ∉ post := by
  intro silent
  have run : Run Step initial (collected ++ .destroys 0 :: [.runs 0, .starts 0 0 0]) _ :=
    run_of_replay rfl
  exact (silent _ _ _ 0 0 run (by simp [collected])).2 0 0 (by simp)

end SidepoolFormal.S
