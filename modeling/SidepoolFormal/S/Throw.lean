import SidepoolFormal.S.Answer
import SidepoolFormal.S.Iterate

/-!
# Functions that throw

A raise whose functions do nothing but return or throw.  It goes on to the end
of the list, and collects the action of every live lease, only if none throws.
-/

namespace SidepoolFormal.S

open Library Registry

variable {E : Type}

/-- Which functions throw, and what, when the r-th raise calls them. -/
structure Follows (throwing : Nat → Option E) (r : Nat) (label : Label E) : Prop where
  returns : ∀ l, label = .returns r l → throwing l = none
  throws : ∀ l e, label = .throws r l e → throwing l = some e

/-- The steps of a raise whose functions only return or throw. -/
inductive Plain (r : Nat) : Label E → Prop
  | removes (l : Nat) : Plain r (.removes r l)
  | calls (l : Nat) : Plain r (.calls r l)
  | returns (l : Nat) : Plain r (.returns r l)
  | throws (l : Nat) (e : E) : Plain r (.throws r l e)
  | ends : Plain r (.ends r)

/-- The lease whose function the r-th raise calls. -/
def called (r : Nat) : Label E → Option Nat
  | .calls r' l => if r' = r then some l else none
  | _ => none

theorem called_of_silent {r : Nat} (trace : List (Label E)) {label : Label E}
    (silent : called r label = none) :
    (trace ++ [label]).filterMap (called r) = trace.filterMap (called r) := by
  rw [List.filterMap_append, List.filterMap_cons_none silent, List.filterMap_nil, List.append_nil]

section Stages

variable {throwing : Nat → Option E} {s₀ : State E} {r : Nat} {trace : List (Label E)}
  {s s' : State E} {done rest calling : List Nat} {l : Nat}

/-- The leases that are called among those a raise has passed. -/
def passed (s₀ : State E) (done : List Nat) : List Nat := done.filter s₀.registry.live

theorem passed_live (done : List Nat) (live : s₀.registry.live l = true) :
    passed s₀ (done ++ [l]) = passed s₀ done ++ [l] := by
  rw [passed, List.filter_append, passed]
  simp [live]

theorem passed_cleared (done : List Nat) (cleared : s₀.registry.live l = false) :
    passed s₀ (done ++ [l]) = passed s₀ done := by
  rw [passed, List.filter_append, passed]
  simp [cleared]

/-- What a raise has done once it has passed a part of the list. -/
structure Half (throwing : Nat → Option E) (s₀ : State E) (r : Nat) (trace : List (Label E))
    (s : State E) (done rest calling : List Nat) : Prop where
  listed : Listed s.registry (passed s₀ done ++ rest)
  live : s.registry.live = s₀.registry.live
  raise : ∃ raise, s.raises[r]? = some raise ∧ raise.leases = passed s₀ done
  calls : trace.filterMap (called r) = passed s₀ done ++ calling
  quiet : ∀ l ∈ passed s₀ done, throwing l = none

namespace Half

theorem removes (half : Half throwing s₀ r trace s done (l :: rest) [])
    (cleared : s.registry.live l = false) (raises : s'.raises = s.raises)
    (registry : s'.registry = s.registry.remove (passed s₀ done).getLast? l) :
    Half throwing s₀ r (trace ++ [.removes r l]) s' (done ++ [l]) rest [] := by
  have same := passed_cleared done (half.live ▸ cleared)
  refine ⟨?_, ?_, ?_, ?_, ?_⟩
  · rw [registry, same]
    exact half.listed.remove cleared
  · rw [registry, live_remove]
    exact half.live
  · rw [raises, same]
    exact half.raise
  · rw [called_of_silent trace rfl, same]
    exact half.calls
  · rw [same]
    exact half.quiet

theorem call (half : Half throwing s₀ r trace s done (l :: rest) [])
    (raises : s'.raises = (s.modify r Raise.incr).raises) (registry : s'.registry = s.registry) :
    Half throwing s₀ r (trace ++ [.calls r l]) s' done (l :: rest) [l] := by
  obtain ⟨raise, found, leases⟩ := half.raise
  have here : called r (.calls r l : Label E) = some l := if_pos rfl
  refine ⟨?_, ?_, ⟨raise.incr, ?_, leases⟩, ?_, half.quiet⟩
  · rw [registry]
    exact half.listed
  · rw [registry]
    exact half.live
  · rw [raises]
    exact found_self found Raise.incr
  · rw [List.filterMap_append, half.calls, List.append_nil, List.filterMap_cons_some here]
    rfl

theorem returns (half : Half throwing s₀ r trace s done (l :: rest) [l])
    (live : s₀.registry.live l = true) (passes : throwing l = none)
    (raises : s'.raises = (s.modify r (Raise.collect · l)).raises)
    (registry : s'.registry = s.registry) :
    Half throwing s₀ r (trace ++ [.returns r l]) s' (done ++ [l]) rest [] := by
  obtain ⟨raise, found, leases⟩ := half.raise
  have more := passed_live done live
  refine ⟨?_, ?_, ⟨raise.collect l, ?_, ?_⟩, ?_, ?_⟩
  · rw [registry, more, List.append_assoc]
    exact half.listed
  · rw [registry]
    exact half.live
  · rw [raises]
    exact found_self found (Raise.collect · l)
  · rw [Raise.leases_collect, leases, more]
  · rw [called_of_silent trace rfl, half.calls, more, List.append_nil]
  · rw [more]
    intro l' member
    rcases List.mem_append.mp member with old | new
    · exact half.quiet l' old
    · exact List.mem_singleton.mp new ▸ passes

theorem ends (half : Half throwing s₀ r trace s done [] [])
    (raises : s'.raises = (s.modify r ({ · with returned := true })).raises)
    (registry : s'.registry = s.registry) :
    Half throwing s₀ r (trace ++ [.ends r]) s' done [] [] := by
  obtain ⟨raise, found, leases⟩ := half.raise
  refine ⟨?_, ?_, ⟨{ raise with returned := true }, ?_, leases⟩, ?_, half.quiet⟩
  · rw [registry]
    exact half.listed
  · rw [registry]
    exact half.live
  · rw [raises]
    exact found_self found ({ · with returned := true })
  · rw [called_of_silent trace rfl]
    exact half.calls

end Half

/-- Where a raise is on its way through a list. -/
inductive Stage (throwing : Nat → Option E) (s₀ : State E) (r : Nat) (chain : List Nat)
    (trace : List (Label E)) (s : State E) : Prop
  | looks (done rest : List Nat) (split : chain = done ++ rest)
      (half : Half throwing s₀ r trace s done rest [])
      (control : s.stack = .iterate r (passed s₀ done).getLast? rest.head? :: s₀.stack)
      (going : .ends r ∉ trace)
  | calls (done : List Nat) (l : Nat) (rest : List Nat) (split : chain = done ++ l :: rest)
      (half : Half throwing s₀ r trace s done (l :: rest) [l]) (live : s₀.registry.live l = true)
      (prev : Option Nat) (control : s.stack = .function r prev l :: s₀.stack)
      (going : .ends r ∉ trace)
  | ended (half : Half throwing s₀ r trace s chain [] []) (control : s.stack = s₀.stack)
      (ends : .ends r ∈ trace)
  | threw (l : Nat) (e : E) (live : s₀.registry.live l = true) (throws : throwing l = some e)
      (control : s.stack = s₀.stack) (going : .ends r ∉ trace)

/-- Only what is on top of the stack takes a step. -/
theorem Plain.own {label : Label E} (plain : Plain r label) (step : Step s label s') :
    ∃ frame stack, s.stack = frame :: stack ∧ frame.raise = r := by
  cases plain with
  | removes l =>
      cases step with
      | removes control _ => exact ⟨_, _, control, rfl⟩
  | calls l =>
      cases step with
      | calls control _ => exact ⟨_, _, control, rfl⟩
  | returns l =>
      cases step with
      | returns control => exact ⟨_, _, control, rfl⟩
  | throws l e =>
      cases step with
      | throws control _ => exact ⟨_, _, control, rfl⟩
  | ends =>
      cases step with
      | ends control => exact ⟨_, _, control, rfl⟩

theorem Stage.step {chain : List Nat} (fresh : r ∉ s₀.stack.map Frame.raise)
    (stage : Stage throwing s₀ r chain trace s) {label : Label E} (plain : Plain r label)
    (follows : Follows throwing r label) (step : Step s label s') :
    Stage throwing s₀ r chain (trace ++ [label]) s' := by
  have gone (control : s.stack = s₀.stack) : False := by
    obtain ⟨frame, stack, control', own⟩ := plain.own step
    refine fresh (List.mem_map.mpr ⟨frame, ?_, own⟩)
    rw [← control, control']
    exact List.mem_cons_self
  cases stage with
  | ended half control ends => exact (gone control).elim
  | threw l e live throws control going => exact (gone control).elim
  | looks done rest split half control going =>
      cases plain with
      | removes l =>
          cases step with
          | removes control' cleared =>
              rw [control] at control'
              cases rest with
              | nil => cases control'
              | cons l rest =>
                  cases control'
                  have same := passed_cleared done (half.live ▸ cleared)
                  refine .looks (done ++ [l]) rest (by simp [split])
                    (half.removes cleared rfl rfl) ?_ (fun ends => going (earlier ends nofun))
                  rw [same, ← half.listed.next_eq]
      | calls l =>
          cases step with
          | calls control' live =>
              rw [control] at control'
              cases rest with
              | nil => cases control'
              | cons l rest =>
                  cases control'
                  exact .calls done l rest split (half.call rfl rfl) (half.live ▸ live) _ rfl
                    (fun ends => going (earlier ends nofun))
      | returns l =>
          cases step with
          | returns control' => cases control.symm.trans control'
      | throws l e =>
          cases step with
          | throws control' e => cases control.symm.trans control'
      | ends =>
          cases step with
          | ends control' =>
              rw [control] at control'
              cases rest with
              | nil =>
                  cases control'
                  rw [List.append_nil] at split
                  subst split
                  exact .ended (half.ends rfl rfl) rfl (now trace _)
              | cons l rest => cases control'
  | calls done l rest split half live prev control going =>
      cases plain with
      | removes l =>
          cases step with
          | removes control' cleared => cases control.symm.trans control'
      | calls l =>
          cases step with
          | calls control' live => cases control.symm.trans control'
      | returns l =>
          cases step with
          | returns control' =>
              rw [control] at control'
              cases control'
              refine .looks (done ++ [l]) rest (by simp [split])
                (half.returns live (follows.returns l rfl) rfl rfl) ?_
                (fun ends => going (earlier ends nofun))
              rw [passed_live done live, List.getLast?_concat, ← half.listed.next_eq]
      | throws l e =>
          cases step with
          | throws control' e =>
              rw [control] at control'
              cases control'
              exact .threw l e live (follows.throws l e rfl) rfl
                (fun ends => going (earlier ends nofun))
      | ends =>
          cases step with
          | ends control' => cases control.symm.trans control'

theorem Stage.run {chain : List Nat} (fresh : r ∉ s₀.stack.map Frame.raise) {s₁ : State E}
    (stage : Stage throwing s₀ r chain [] s₁) (run : Run Step s₁ trace s)
    (plain : ∀ label ∈ trace, Plain r label) (follows : ∀ label ∈ trace, Follows throwing r label) :
    Stage throwing s₀ r chain trace s := by
  induction run with
  | nil => exact stage
  | snoc run next ih =>
      have before := ih (fun label member => plain label (later _ member))
        fun label member => follows label (later _ member)
      exact before.step fresh (plain _ (now _ _)) (follows _ (now _ _)) next

theorem Stage.begin {chain : List Nat} (listed : Listed s₀.registry chain) {s₁ : State E} {n : Nat}
    (step : Step s₀ (.raises r n) s₁) : Stage throwing s₀ r chain [] s₁ := by
  cases step with
  | raises control =>
      refine .looks [] chain rfl ⟨listed, rfl, ⟨Raise.initial, ?_, rfl⟩, rfl, nofun⟩ ?_ nofun
      · exact List.getElem?_concat_length
      · rw [listed.linked.head]
        rfl

end Stages

/-- The raise does what it does where every function returns an action: all live
leases are called, in order, their actions are collected and joined, and only
cleared leases leave the list. -/
structure Behaves (pre inner : List (Label E)) (s₀ s : State E) (chain : List Nat) : Prop where
  returns : .ends s₀.raises.length ∈ inner
  calls : inner.filterMap (called s₀.raises.length) = chain.filter s₀.registry.live
  collects : ∃ raise, s.raises[s₀.raises.length]? = some raise ∧
    raise.leases = chain.filter s₀.registry.live
  list : Listed s.registry (chain.filter s₀.registry.live)
  joins : ∀ later s', Run Step s later s' → ∀ raise, s'.raises[s₀.raises.length]? = some raise →
    Joins (pre ++ .raises s₀.raises.length s₀.registry.leases.length :: inner ++ later) s'
      s₀.raises.length raise

section Raises

variable {pre inner : List (Label E)} {s₀ s : State E} {throwing : Nat → Option E}

/-- A raise returns its `Io` if and only if none of the functions that it calls
throws, whatever else they do. -/
theorem ends_iff (run : Run Step initial pre s₀)
    (raised : Run Step s₀ (.raises s₀.raises.length s₀.registry.leases.length :: inner) s)
    (follows : ∀ label ∈ inner, Follows throwing s₀.raises.length label)
    (left : s₀.raises.length ∉ s.stack.map Frame.raise) :
    .ends s₀.raises.length ∈ inner ↔
      ∀ l, .calls s₀.raises.length l ∈ inner → throwing l = none := by
  have answers := answers_of_run (run.append raised)
  have whole {label : Label E} (member : label ∈ inner) :
      label ∈ pre ++ .raises s₀.raises.length s₀.registry.leases.length :: inner :=
    List.mem_append_right _ (List.mem_cons_of_mem _ member)
  have within {label : Label E} (about : label.about = some s₀.raises.length)
      (other : label ≠ .raises s₀.raises.length s₀.registry.leases.length)
      (member : label ∈ pre ++ .raises s₀.raises.length s₀.registry.leases.length :: inner) :
      label ∈ inner := by
    rcases List.mem_append.mp member with before | rest
    · exact absurd ((raised_of_run run).known label before _ about) (Nat.lt_irrefl _)
    · exact (List.mem_cons.mp rest).resolve_left other
  constructor
  · intro ends l calls
    rcases answers.answered _ l (whole calls) with returns | ⟨e, throws⟩ | ⟨prev, frame⟩
    · have answer := within rfl (by nofun) returns
      exact (follows _ answer).returns l rfl
    · exact absurd (whole ends) (answers.threw _ l e throws).2.1
    · exact absurd (List.mem_map.mpr ⟨_, frame, rfl⟩) left
  · intro silent
    have began : .raises s₀.raises.length s₀.registry.leases.length ∈
        pre ++ .raises s₀.raises.length s₀.registry.leases.length :: inner :=
      List.mem_append_right _ List.mem_cons_self
    rcases answers.left _ _ began left with ends | ⟨l, e, throws⟩
    · exact within rfl nofun ends
    · have passes := silent l (within rfl nofun (answers.threw _ l e throws).1)
      have answer := within rfl (by nofun) throws
      cases passes.symm.trans ((follows _ answer).throws l e rfl)

theorem plain_iff (run : Run Step initial pre s₀)
    (raised : Run Step s₀ (.raises s₀.raises.length s₀.registry.leases.length :: inner) s)
    (follows : ∀ label ∈ inner, Follows throwing s₀.raises.length label)
    (left : s₀.raises.length ∉ s.stack.map Frame.raise)
    (plain : ∀ label ∈ inner, Plain s₀.raises.length label) :
    ∃ chain, Listed s₀.registry chain ∧ (Behaves pre inner s₀ s chain ↔
      ∀ l, s₀.registry.live l = true → throwing l = none) := by
  obtain ⟨chain, history, -⟩ := (kept_of_run run).list
  have listed := history.listed
  have fresh : s₀.raises.length ∉ s₀.stack.map Frame.raise := by
    intro member
    obtain ⟨frame, inside, same⟩ := List.mem_map.mp member
    exact Nat.lt_irrefl _ (same ▸ (raised_of_run run).bound frame inside)
  obtain ⟨s₁, step, rest⟩ := raised.uncons
  have stage := (Stage.begin listed step).run fresh rest plain follows
  have whole := run.append raised
  refine ⟨chain, listed, ?_⟩
  cases stage with
  | looks done rest split half control going => simp [control, Frame.raise] at left
  | calls done l rest split half live prev control going => simp [control, Frame.raise] at left
  | threw l e live throws control going =>
      constructor
      · exact fun behaves => absurd behaves.returns going
      · intro silent
        cases throws.symm.trans (silent l live)
  | ended half control ends =>
      constructor
      · intro behaves l live
        exact half.quiet l (List.mem_filter.mpr ⟨listed.live l live, live⟩)
      · intro silent
        refine ⟨ends, half.calls.trans (List.append_nil _), half.raise, ?_, ?_⟩
        · have all : passed s₀ chain ++ [] = chain.filter s₀.registry.live := List.append_nil _
          exact all ▸ half.listed
        · intro later s' onward raise found
          have all := whole.append onward
          have marks := ((raised_of_run all).sound _ raise found).marks
          exact raise_joins all found (marks.ends.mp (by simp [ends]))

end Raises

/-- A raise returns its `Io` if and only if none of the functions that it calls
throws.  Where they do nothing but return or throw, it behaves as it should if and
only if no function of a live lease throws. -/
theorem behaves_iff {pre inner : List (Label E)} {s₀ s : State E} {throwing : Nat → Option E}
    (run : Run Step initial pre s₀)
    (raised : Run Step s₀ (.raises s₀.raises.length s₀.registry.leases.length :: inner) s)
    (follows : ∀ label ∈ inner, Follows throwing s₀.raises.length label)
    (left : s₀.raises.length ∉ s.stack.map Frame.raise) :
    (.ends s₀.raises.length ∈ inner ↔
      ∀ l, .calls s₀.raises.length l ∈ inner → throwing l = none) ∧
    ((∀ label ∈ inner, Plain s₀.raises.length label) →
      ∃ chain, Listed s₀.registry chain ∧ (Behaves pre inner s₀ s chain ↔
        ∀ l, s₀.registry.live l = true → throwing l = none)) :=
  ⟨ends_iff run raised follows left, plain_iff run raised follows left⟩

theorem behaves_iff_returning : ∃ s₀ s chain, Run Step initial subscribing s₀ ∧
    Run Step s₀ (.raises 0 2 :: returning) s ∧ Behaves subscribing returning s₀ s chain := by
  have run : ∃ s₀ : State Unit, replay initial subscribing = some s₀ ∧ s₀.raises.length = 0 ∧
      s₀.registry.leases.length = 2 ∧
        ∃ s, replay s₀ (.raises 0 2 :: returning) = some s ∧ s.stack = [] :=
    ⟨_, rfl, rfl, rfl, _, rfl, rfl⟩
  obtain ⟨s₀, replayed, raises, leases, s, again, left⟩ := run
  have run := run_of_replay replayed
  have raised := run_of_replay again
  have follows : ∀ label ∈ returning, Follows (fun _ => none) 0 label := by
    intro label member
    refine ⟨fun _ _ => rfl, ?_⟩
    rintro l e rfl
    simp [returning] at member
  have plain : ∀ label ∈ returning, Plain 0 label := by
    simp [returning, Plain.calls, Plain.returns, Plain.ends]
  rw [← raises, ← leases] at raised
  rw [← raises] at follows plain
  have sound := (behaves_iff run raised follows (by simp [left])).2 plain
  obtain ⟨chain, -, behaves⟩ := sound
  rw [raises, leases] at raised
  exact ⟨s₀, s, chain, run, raised, behaves.mpr fun _ _ => rfl⟩

/-- The function of the first lease throws. -/
theorem not_behaves : ∃ s₀ s, Run Step initial subscribing s₀ ∧
    Run Step s₀ (.raises 0 2 :: [.calls 0 0, .throws 0 0 ()]) s ∧ s.stack = s₀.stack ∧
      ∀ chain, ¬ Behaves subscribing [.calls 0 0, .throws 0 0 ()] s₀ s chain := by
  refine ⟨_, _, run_of_replay rfl, run_of_replay rfl, rfl, ?_⟩
  intro chain behaves
  have ends := behaves.returns
  simp at ends

end SidepoolFormal.S
