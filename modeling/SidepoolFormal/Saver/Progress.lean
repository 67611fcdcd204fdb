import SidepoolFormal.Library.Contention
import SidepoolFormal.Saver.Crud
import SidepoolFormal.Saver.Rmw
import SidepoolFormal.Saver.Thread

/-!
# Progress under contention

A call that is told of a conflict is made again.  Of a saver that reports a
conflict only where there is one, each conflict is somebody else's write since
the call has read the entry, so calls cannot keep each other from passing.
-/

namespace SidepoolFormal.Saver

open Library Contention

variable {ι V A : Type}

/-- A write that passed. -/
def Event.wrote : Event ι V A → Bool
  | ⟨_, .create _, .ok _, _, _⟩ => true
  | ⟨_, .update _ _, .ok _, _, _⟩ => true
  | ⟨_, .del _, .ok _, _, _⟩ => true
  | _ => false

/-- A write after whose failure the call is made again. -/
def Event.conflicted (conflicts : Op V A → Exn → Bool) : Event ι V A → Bool
  | ⟨_, op, .error e, _, _⟩ => conflicts op e
  | _ => false

/-- A conflict is reported only where there is one. -/
def Event.Honest : Event ι V A → Prop
  | ⟨_, .create _, .error .keyExists, before, _⟩ => before ≠ none
  | ⟨_, .update _ _, .error .keyNotFound, before, _⟩ => before = none
  | ⟨_, .update g _, .error .wrongGeneration, before, _⟩ => before.map Prod.fst ≠ some g
  | ⟨_, .del _, .error .keyNotFound, before, _⟩ => before = none
  | ⟨_, .del g, .error .wrongGeneration, before, _⟩ => before.map Prod.fst ≠ some g
  | _ => True

/-! ## Calls as clients -/

def Event.kind (conflicts : Op V A → Exn → Bool) (e : Event ι V A) : Kind :=
  if e.wrote then .commit else if e.conflicted conflicts then .conflict else .advance

def Event.move (conflicts : Op V A → Exn → Bool) (e : Event ι V A) : Move ι :=
  match e.who with
  | some i => .turn i (e.kind conflicts)
  | none => if e.wrote then .write else .nothing

theorem kind_error (conflicts : Op V A → Exn → Bool) (who : Option ι) (op : Op V A) (e : Exn)
    (before after : Option (Nat × V)) :
    Event.kind conflicts ⟨who, op, .error e, before, after⟩ =
      if conflicts op e = true then .conflict else .advance := by
  cases op <;> rfl

/-- What a call relies on: the entry has the generation that it has read. -/
abbrev Same : Option (Nat × V) → Option (Nat × V) → Prop := Optimistic.Matches

/-- The stages of a kind of call: each of its operations is a client's step. -/
structure Staged (ι : Type) (program : Io V A A) (conflicts : Op V A → Exn → Bool)
    (At : Io V A A → Stage (Option (Nat × V)) → Prop) : Prop where
  start : At program .idle
  turn : ∀ {stage : Stage (Option (Nat × V))} {op : Op V A} {k : Except Exn op.Ans → Io V A A}
    {answers : A → A → Prop} {r : Except Exn op.Ans} {entry entry' : Option (Nat × V)} (i : ι),
    At (.ask op k) stage → Performs answers op r entry entry' →
    Event.Honest (⟨some i, op, r, entry, entry'⟩ : Event ι V A) →
    ∃ stage', Turn Same entry stage
      (Event.kind conflicts (⟨some i, op, r, entry, entry'⟩ : Event ι V A)) entry' stage' ∧
      At (enter program (k r)) stage'

section Simulation

variable [DecidableEq ι] {program : Io V A A} {conflicts : Op V A → Exn → Bool}
  {At : Io V A A → Stage (Option (Nat × V)) → Prop} {answers : ι → A → A → Prop}
  {trace : List (Event ι V A)} {entry : Option (Nat × V)} {s s' : System ι V A} {e : Event ι V A}

/-- The calls stand where the clients of a run of their own stand. -/
def Shadows (conflicts : Op V A → Exn → Bool)
    (At : Io V A A → Stage (Option (Nat × V)) → Prop) (entry : Option (Nat × V))
    (trace : List (Event ι V A)) (s : System ι V A) : Prop :=
  ∃ c, Run (Contention.Step Same) (Contention.initial entry) (trace.map (Event.move conflicts)) c ∧
    c.cell = s.entry ∧ ∀ i, At (s.call i) (c.stage i)

theorem Staged.step (staged : Staged ι program conflicts At) (step : Step answers program s e s')
    (honest : e.Honest) (shadows : Shadows conflicts At entry trace s) :
    Shadows conflicts At entry (trace ++ [e]) s' := by
  obtain ⟨entry₁, call⟩ := s
  obtain ⟨⟨cell, stage⟩, run, rfl, stands⟩ := shadows
  rw [Shadows, List.map_append, List.map_singleton]
  cases step with
  | @perform i op k r after next performs =>
      have at_ := stands i
      rw [next] at at_
      obtain ⟨stage', turn, at'⟩ := staged.turn i at_ performs honest
      refine ⟨_, run.snoc (.turn turn), rfl, ?_⟩
      intro j
      by_cases mine : j = i
      · subst mine
        simpa using at'
      · simpa [mine] using stands j
  | @direct g v r after performs =>
      cases performs with
      | update g g' v w higher => exact ⟨_, run.snoc (.write _), rfl, stands⟩
      | updateFails g v e entry => exact ⟨_, run.snoc .nothing, rfl, stands⟩

theorem Staged.run (staged : Staged ι program conflicts At)
    (run : Run (Step answers program) ⟨entry, fun _ => program⟩ trace s)
    (honest : ∀ e ∈ trace, e.Honest) : Shadows conflicts At entry trace s := by
  induction run with
  | nil => exact ⟨_, .nil, rfl, fun _ => staged.start⟩
  | @snoc trace s s' e run step ih =>
      refine staged.step step (honest e (by simp)) (ih ?_)
      intro e' member
      exact honest e' (List.mem_append_left _ member)

end Simulation

/-! ## `rmw` -/

namespace Rmw

inductive At : Io V V V → Stage (Option (Nat × V)) → Prop
  | start : At rmw .idle
  | reading : At reading .looking
  | asking (entry : Nat × V) : At (asking entry) (.holding (some entry))
  | writing (entry : Nat × V) (n : V) : At (writing entry.1 n) (.proposing (some entry))
  | done (r : Except Exn V) : At (.done r) .done

theorem staged : Staged ι (rmw : Io V V V) conflicts At where
  start := .start
  turn := by
    intro stage op k answers r entry entry' i at_ performs honest
    generalize same : Task.ask op k = t at at_
    cases at_ with
    | start =>
        rw [rmw_eq] at same
        cases same
        cases performs with
        | yield => exact ⟨_, .begins, .reading⟩
    | reading =>
        rw [reading_eq] at same
        cases same
        cases performs with
        | read g v => exact ⟨_, .looks, .asking (g, v)⟩
        | readFails e _ found => exact ⟨.done, .ends (by simp), .done _⟩
    | asking seen =>
        rw [asking_eq] at same
        cases same
        cases performs with
        | func answer => exact ⟨_, .proposes _, .writing seen _⟩
        | funcFails e => exact ⟨.done, .ends (by simp), .done _⟩
    | writing seen n =>
        rw [writing_eq] at same
        cases same
        cases performs with
        | update g g' v w higher => exact ⟨_, .commits _ _, .done _⟩
        | updateFails g v e entry =>
            rw [kind_error]
            by_cases conflict : isWrongGeneration e = true
            · obtain rfl : e = .wrongGeneration := by simpa [isWrongGeneration] using conflict
              refine ⟨.idle, .conflicts (fun same => honest same.symm), ?_⟩
              exact (enter_again rmw).symm ▸ .start
            · rw [conflicts, if_neg conflict]
              dsimp only
              rw [if_neg conflict]
              exact ⟨.done, .ends (by simp), .done _⟩
    | done r => cases same

end Rmw

/-! ## `crud` -/

namespace Crud

inductive At : Io V (Option V) (Option V) → Stage (Option (Nat × V)) → Prop
  | start : At crud .idle
  | reading : At reading .looking
  | asking (seen : Option (Nat × V)) : At (asking seen) (.holding seen)
  | writing (seen : Option (Nat × V)) (n : Option V) (some : seen ≠ none ∨ n ≠ none) :
      At (writing seen n) (.proposing seen)
  | done (r : Except Exn (Option V)) : At (.done r) .done

/-- There is nothing to write where there is no entry and none is wanted. -/
theorem at_writing (seen : Option (Nat × V)) (n : Option V) :
    At (writing seen n) .done ∨ At (writing seen n) (.proposing seen) := by
  rcases write_tracks seen n with ⟨rfl, rfl⟩ | some
  · exact .inl (.done (.ok none))
  · exact .inr (.writing seen n some)

section Writes

variable {entry : Option (Nat × V)} {seen : Option (Nat × V)} {op : Op V (Option V)} {i : ι}

/-- An entry that is not found, or has another generation, is not what the call
has read. -/
theorem stale {e : Exn} {x : Nat × V} (found : e = .keyNotFound → entry = none)
    (generation : e = .wrongGeneration → entry.map Prod.fst ≠ some x.1)
    (conflict : (isKeyNotFound e || isWrongGeneration e) = true) : ¬Same (some x) entry := by
  intro same
  rcases Bool.or_eq_true_iff.mp conflict with absent | wrong
  · rw [found (by simpa [isKeyNotFound] using absent)] at same
    cases same
  · exact generation (by simpa [isWrongGeneration] using wrong) same.symm

/-- A write that failed is made again, or ends the call. -/
theorem failed (e : Exn) (stale : conflicts op e = true → ¬Same seen entry) :
    ∃ stage', Turn Same entry (.proposing seen)
      (Event.kind conflicts (⟨some i, op, .error e, entry, entry⟩ : Event ι V (Option V)))
      entry stage' ∧
      At (enter crud (if conflicts op e then again else .done (.error e))) stage' := by
  rw [kind_error]
  by_cases conflict : conflicts op e = true
  · rw [if_pos conflict, if_pos conflict]
    exact ⟨.idle, .conflicts (stale conflict), (enter_again crud).symm ▸ .start⟩
  · rw [if_neg conflict, if_neg conflict]
    exact ⟨.done, .ends (by simp), .done _⟩

end Writes

theorem staged : Staged ι (crud : Io V (Option V) (Option V)) conflicts At where
  start := .start
  turn := by
    intro stage op k answers r entry entry' i at_ performs honest
    generalize same : Task.ask op k = t at at_
    cases at_ with
    | start =>
        rw [crud_eq] at same
        cases same
        cases performs with
        | yield => exact ⟨_, .begins, .reading⟩
    | reading =>
        rw [reading_eq] at same
        cases same
        cases performs with
        | read g v => exact ⟨_, .looks, .asking (some (g, v))⟩
        | readFails e _ found =>
            by_cases absent : isKeyNotFound e = true
            · obtain rfl := found (by simpa [isKeyNotFound] using absent)
              dsimp only
              rw [if_pos absent]
              exact ⟨_, .looks, .asking none⟩
            · dsimp only
              rw [if_neg absent]
              exact ⟨.done, .ends (by simp), .done _⟩
    | asking seen =>
        rw [asking_eq] at same
        cases same
        cases performs with
        | @func _ n answer entry =>
            dsimp only
            rw [enter_writing]
            rcases at_writing seen n with nothing | proposed
            · exact ⟨.done, .ends (by simp), nothing⟩
            · exact ⟨_, .proposes seen, proposed⟩
        | funcFails e => exact ⟨.done, .ends (by simp), .done _⟩
    | writing seen n some =>
        cases seen with
        | none =>
            cases n with
            | none => cases same
            | some w =>
                rw [writing_create] at same
                cases same
                cases performs with
                | create w g => exact ⟨_, .commits _ _, .done _⟩
                | createFails w e entry =>
                    refine failed e ?_
                    intro conflict absent
                    obtain rfl : e = .keyExists := by simpa [conflicts, isKeyExists] using conflict
                    exact honest (Option.map_eq_none_iff.mp absent.symm)
        | some x =>
            obtain ⟨g, u⟩ := x
            cases n with
            | none =>
                rw [writing_del] at same
                cases same
                cases performs with
                | del g u => exact ⟨_, .commits _ _, .done _⟩
                | delFails g e entry =>
                    exact failed e (stale (fun is => by subst is; exact honest)
                      fun is => by subst is; exact honest)
            | some w =>
                rw [writing_update] at same
                cases same
                cases performs with
                | update g g' u w higher => exact ⟨_, .commits _ _, .done _⟩
                | updateFails g w e entry =>
                    exact failed e (stale (fun is => by subst is; exact honest)
                      fun is => by subst is; exact honest)
    | done r => cases same

end Crud

/-! ## Counting -/

section Runs

variable [DecidableEq ι]

/-- How often a call was made again. -/
def retries (conflicts : Op V A → Exn → Bool) (i : ι) (trace : List (Event ι V A)) : Nat :=
  trace.countP fun e => decide (e.who = some i) && e.conflicted conflicts

/-- How often somebody else has written. -/
def disturbances (i : ι) (trace : List (Event ι V A)) : Nat :=
  trace.countP fun e => decide (e.who ≠ some i) && e.wrote

omit [DecidableEq ι] in
theorem kind_commit (conflicts : Op V A → Exn → Bool) (e : Event ι V A) :
    e.kind conflicts = .commit ↔ e.wrote = true := by
  rw [Event.kind]
  cases e.wrote <;> cases e.conflicted conflicts <;> simp

omit [DecidableEq ι] in
theorem kind_conflict (conflicts : Op V A → Exn → Bool) (e : Event ι V A) :
    e.kind conflicts = .conflict ↔ e.conflicted conflicts = true := by
  obtain ⟨who, op, r, before, after⟩ := e
  cases r with
  | ok r =>
      rw [Event.kind]
      cases Event.wrote _ <;> simp [Event.conflicted]
  | error e =>
      rw [kind_error]
      cases same : conflicts op e <;> simp [Event.conflicted, same]

variable (conflicts : Op V A → Exn → Bool) (i : ι)

/-- What an operation adds to a call's tally. -/
theorem tally_move (t : Tally) (e : Event ι V A) :
    (t.move i (e.move conflicts)).restarts =
        t.restarts + (if (decide (e.who = some i) && e.conflicted conflicts) = true then 1 else 0) ∧
      (t.move i (e.move conflicts)).disturbances =
        t.disturbances + (if (decide (e.who ≠ some i) && e.wrote) = true then 1 else 0) := by
  rw [Event.move]
  cases who : e.who with
  | none => cases e.wrote <;> simp [Tally.move, Tally.disturbed]
  | some j =>
      dsimp only
      rw [restarts_turn, disturbances_turn]
      by_cases mine : j = i
      · simp [mine, kind_conflict]
      · simp [mine, kind_commit]

/-- The tally counts what the trace has. -/
theorem tally_counts (trace : List (Event ι V A)) :
    (tally i (trace.map (Event.move conflicts))).restarts = retries conflicts i trace ∧
      (tally i (trace.map (Event.move conflicts))).disturbances = disturbances i trace := by
  induction trace using List.reverseRecOn with
  | nil => exact ⟨rfl, rfl⟩
  | append_singleton trace e ih =>
      obtain ⟨restarts, others⟩ := ih
      have move := tally_move conflicts i (tally i (trace.map (Event.move conflicts))) e
      rw [restarts, others] at move
      rw [List.map_append, List.map_singleton, tally_snoc, retries, disturbances,
        List.countP_append, List.countP_append, List.countP_singleton, List.countP_singleton]
      exact move

/-- A call is made again at most as often as others write, and calls among
themselves take at most four operations for each pair of them. -/
structure Bounded (trace : List (Event ι V A)) : Prop where
  retries : ∀ i, retries conflicts i trace ≤ disturbances i trace
  length : ∀ [Fintype ι], (∀ e ∈ trace, e.who ≠ none) → trace.length ≤ 4 * Fintype.card ι ^ 2

variable {conflicts} {program : Io V A A} {At : Io V A A → Stage (Option (Nat × V)) → Prop}
  {answers : ι → A → A → Prop}

theorem Staged.bounded (staged : Staged ι program conflicts At) {entry : Option (Nat × V)}
    {trace : List (Event ι V A)} {s : System ι V A}
    (run : Run (Step answers program) ⟨entry, fun _ => program⟩ trace s)
    (honest : ∀ e ∈ trace, e.Honest) : Bounded conflicts trace := by
  obtain ⟨c, moves, -, -⟩ := staged.run run honest
  have refl (entry : Option (Nat × V)) : Same entry entry := rfl
  constructor
  · intro i
    obtain ⟨restarts, others⟩ := tally_counts conflicts i trace
    rw [← restarts, ← others]
    exact restarts_le refl moves i
  · intro finite own
    rw [← List.length_map (f := Event.move conflicts)]
    refine length_le refl moves ?_
    intro move member
    obtain ⟨e, listed, rfl⟩ := List.mem_map.mp member
    obtain ⟨i, who⟩ := Option.ne_none_iff_exists'.mp (own e listed)
    exact ⟨i, e.kind conflicts, by rw [Event.move, who]⟩

end Runs

end SidepoolFormal.Saver
