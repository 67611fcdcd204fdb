import SidepoolFormal.Library.Run
import Mathlib.Algebra.BigOperators.Fin
import Mathlib.Algebra.Order.BigOperators.Group.Finset
import Mathlib.Data.List.Induction
import Mathlib.Logic.Function.Basic
import Mathlib.Tactic.Ring

/-!
# Contention for a cell

Clients look at a cell, propose a new content, and start over when the cell is
no longer the same as the one they have seen.  Each time this happens somebody
else has written, so a client starts over at most as often as others write.
Where nobody else writes and a client is done once it has written, all clients
together take a number of steps that is quadratic in their number.
-/

namespace SidepoolFormal.Library.Contention

variable {ι C : Type}

/-- Where a client stands. -/
inductive Stage (C : Type) where
  | idle
  | looking
  | holding (seen : C)
  | proposing (seen : C)
  | done

namespace Stage

/-- The steps that the attempt has taken. -/
def rank : Stage C → Nat
  | idle => 0
  | looking => 1
  | holding _ => 2
  | proposing _ => 3
  | done => 4

/-- The cell that the client relies on. -/
def seen : Stage C → Option C
  | holding seen => some seen
  | proposing seen => some seen
  | _ => none

/-- How often the client may have written. -/
def written : Stage C → Nat
  | done => 1
  | _ => 0

theorem rank_le (stage : Stage C) : stage.rank ≤ 4 := by
  cases stage <;> simp [rank]

end Stage

/-- What a step of a client comes to. -/
inductive Kind where
  | advance
  | conflict
  | commit
  deriving DecidableEq

variable (Same : C → C → Prop)

/-- A step of a client; `Same` tells whether the cell is what it has seen. -/
inductive Turn (cell : C) : Stage C → Kind → C → Stage C → Prop
  | begins : Turn cell .idle .advance cell .looking
  | looks : Turn cell .looking .advance cell (.holding cell)
  | proposes (seen : C) : Turn cell (.holding seen) .advance cell (.proposing seen)
  | ends {stage : Stage C} (open_ : stage ≠ .done) : Turn cell stage .advance cell .done
  | conflicts {seen : C} (stale : ¬Same seen cell) :
      Turn cell (.proposing seen) .conflict cell .idle
  | commits (seen cell' : C) : Turn cell (.proposing seen) .commit cell' .done

structure State (ι C : Type) where
  cell : C
  stage : ι → Stage C

inductive Move (ι : Type) where
  | turn (i : ι) (kind : Kind)
  | write
  | nothing

/-- A client makes a step, or somebody else writes or does not. -/
inductive Step [DecidableEq ι] (s : State ι C) : Move ι → State ι C → Prop
  | turn {i : ι} {kind : Kind} {cell : C} {stage : Stage C}
      (turn : Turn Same s.cell (s.stage i) kind cell stage) :
      Step s (.turn i kind) ⟨cell, Function.update s.stage i stage⟩
  | write (cell : C) : Step s .write ⟨cell, s.stage⟩
  | nothing : Step s .nothing s

/-! ## Counting -/

/-- The steps, the restarts and the writes of a client, and the writes of
others. -/
structure Tally where
  steps : Nat
  restarts : Nat
  writes : Nat
  disturbances : Nat

def Tally.own (tally : Tally) : Kind → Tally
  | .advance => { tally with steps := tally.steps + 1 }
  | .conflict => { tally with steps := tally.steps + 1, restarts := tally.restarts + 1 }
  | .commit => { tally with steps := tally.steps + 1, writes := tally.writes + 1 }

def Tally.disturbed (tally : Tally) : Tally :=
  { tally with disturbances := tally.disturbances + 1 }

/-- Where a client stands, with the cell as it is. -/
structure Stands (tally : Tally) (cell : C) (stage : Stage C) : Prop where
  paced : tally.steps ≤ 4 * tally.restarts + stage.rank
  once : tally.writes ≤ stage.written
  charged : tally.restarts ≤ tally.disturbances
  stale : ∀ seen, stage.seen = some seen → ¬Same seen cell → tally.restarts < tally.disturbances

section Client

variable {Same} {tally : Tally} {cell cell' : C} {stage stage' : Stage C}

/-- What a client's own step does to it. -/
theorem Stands.turn (refl : ∀ c, Same c c) (stands : Stands Same tally cell stage) {kind : Kind}
    (turn : Turn Same cell stage kind cell' stage') :
    Stands Same (tally.own kind) cell' stage' := by
  obtain ⟨paced, once, charged, stale⟩ := stands
  cases turn with
  | begins => exact ⟨Nat.succ_le_succ paced, once, charged, fun _ absurd => nomatch absurd⟩
  | looks =>
      refine ⟨Nat.succ_le_succ paced, once, charged, ?_⟩
      intro seen same changed
      cases same
      exact absurd (refl cell) changed
  | proposes seen => exact ⟨Nat.succ_le_succ paced, once, charged, stale⟩
  | ends open_ =>
      have early : stage.rank ≤ 3 ∧ stage.written = 0 := by
        cases stage with
        | done => exact absurd rfl open_
        | _ => simp [Stage.rank, Stage.written]
      refine ⟨?_, ?_, charged, fun _ absurd => nomatch absurd⟩
      · simp only [Tally.own, Stage.rank]
        omega
      · simp only [Tally.own, Stage.written]
        omega
  | conflicts changed =>
      have charge := stale _ rfl changed
      refine ⟨?_, once, charge, fun _ absurd => nomatch absurd⟩
      simp only [Tally.own, Stage.rank] at paced ⊢
      omega
  | commits seen cell' =>
      exact ⟨Nat.succ_le_succ paced, Nat.succ_le_succ once, charged, fun _ absurd => nomatch absurd⟩

/-- What a write by somebody else does to it. -/
theorem Stands.disturbed (stands : Stands Same tally cell stage) (cell' : C) :
    Stands Same tally.disturbed cell' stage where
  paced := stands.paced
  once := stands.once
  charged := Nat.le_succ_of_le stands.charged
  stale _ _ _ := Nat.lt_succ_of_le stands.charged

/-- The cell changes only with a write. -/
theorem Turn.cell_eq {kind : Kind} (turn : Turn Same cell stage kind cell' stage')
    (quiet : kind ≠ .commit) : cell' = cell := by
  cases turn with
  | commits => exact absurd rfl quiet
  | _ => rfl

end Client

/-! ## Runs -/

section Runs

variable [DecidableEq ι]

/-- What a move adds to a client's tally. -/
def Tally.move (i : ι) (tally : Tally) : Move ι → Tally
  | .turn j kind =>
      if j = i then tally.own kind else if kind = .commit then tally.disturbed else tally
  | .write => tally.disturbed
  | .nothing => tally

def tally (i : ι) (trace : List (Move ι)) : Tally :=
  trace.foldl (Tally.move i) ⟨0, 0, 0, 0⟩

theorem tally_snoc (i : ι) (trace : List (Move ι)) (move : Move ι) :
    tally i (trace ++ [move]) = (tally i trace).move i move := List.foldl_concat _ _ _ _

variable {Same} {s s' : State ι C} {trace : List (Move ι)}

theorem stands_step (refl : ∀ c, Same c c) {move : Move ι}
    (stands : ∀ i, Stands Same (tally i trace) s.cell (s.stage i)) (step : Step Same s move s')
    (i : ι) : Stands Same (tally i (trace ++ [move])) s'.cell (s'.stage i) := by
  rw [tally_snoc]
  cases step with
  | @turn j kind cell stage turn =>
      by_cases mine : j = i
      · subst mine
        simpa [Tally.move] using (stands j).turn refl turn
      · have other : (Function.update s.stage j stage) i = s.stage i :=
          Function.update_of_ne (Ne.symm mine) _ _
        simp only [Tally.move, if_neg mine, other]
        by_cases writes : kind = .commit
        · rw [if_pos writes]
          exact (stands i).disturbed cell
        · rw [if_neg writes, turn.cell_eq writes]
          exact stands i
  | write cell => exact (stands i).disturbed cell
  | nothing => exact stands i

/-- Nobody has begun. -/
def initial (cell : C) : State ι C := ⟨cell, fun _ => .idle⟩

theorem stands_run (refl : ∀ c, Same c c) {cell : C} (run : Run (Step Same) (initial cell) trace s)
    (i : ι) : Stands Same (tally i trace) s.cell (s.stage i) := by
  refine run.invariant (I := fun trace s => ∀ i, Stands Same (tally i trace) s.cell (s.stage i))
    ?_ (fun _ _ _ _ stands step i => stands_step refl stands step i) i
  intro i
  exact ⟨le_refl 0, le_refl 0, le_refl 0, fun _ absurd => nomatch absurd⟩

/-- A client starts over at most as often as others write. -/
theorem restarts_le (refl : ∀ c, Same c c) {cell : C}
    (run : Run (Step Same) (initial cell) trace s) (i : ι) :
    (tally i trace).restarts ≤ (tally i trace).disturbances := (stands_run refl run i).charged

/-! ## Clients among themselves -/

variable [Fintype ι]

section Turns

omit [Fintype ι]

variable (t : Tally) (i j : ι) (kind : Kind)

theorem steps_turn : (t.move i (.turn j kind)).steps = t.steps + if j = i then 1 else 0 := by
  rw [Tally.move]
  by_cases mine : j = i
  · rw [if_pos mine, if_pos mine]
    cases kind <;> rfl
  · rw [if_neg mine, if_neg mine]
    split <;> rfl

theorem writes_turn : (t.move i (.turn j kind)).writes =
    t.writes + if j = i then (if kind = .commit then 1 else 0) else 0 := by
  rw [Tally.move]
  by_cases mine : j = i
  · rw [if_pos mine, if_pos mine]
    cases kind <;> rfl
  · rw [if_neg mine, if_neg mine]
    split <;> rfl

theorem restarts_turn : (t.move i (.turn j kind)).restarts =
    t.restarts + if j = i then (if kind = .conflict then 1 else 0) else 0 := by
  rw [Tally.move]
  by_cases mine : j = i
  · rw [if_pos mine, if_pos mine]
    cases kind <;> rfl
  · rw [if_neg mine, if_neg mine]
    split <;> rfl

theorem disturbances_turn : (t.move i (.turn j kind)).disturbances =
    t.disturbances + if j = i then 0 else (if kind = .commit then 1 else 0) := by
  rw [Tally.move]
  by_cases mine : j = i
  · rw [if_pos mine, if_pos mine]
    cases kind <;> rfl
  · rw [if_neg mine, if_neg mine]
    split <;> rfl

end Turns

/-- Every move is somebody's step. -/
theorem length_eq_sum (own : ∀ move ∈ trace, ∃ i kind, move = .turn i kind) :
    trace.length = ∑ i, (tally i trace).steps := by
  induction trace using List.reverseRecOn with
  | nil => simp [tally]
  | append_singleton trace move ih =>
      obtain ⟨j, kind, rfl⟩ := own move (by simp)
      have before := ih fun move member => own move (List.mem_append_left _ member)
      simp only [tally_snoc, steps_turn, Finset.sum_add_distrib, ← before, List.length_append,
        List.length_singleton, Finset.sum_ite_eq, Finset.mem_univ, if_true]

/-- Every write disturbs all clients but its own. -/
theorem disturbances_eq_sum (own : ∀ move ∈ trace, ∃ i kind, move = .turn i kind) (i : ι) :
    (tally i trace).disturbances = ∑ j ∈ Finset.univ.erase i, (tally j trace).writes := by
  induction trace using List.reverseRecOn with
  | nil => simp [tally]
  | append_singleton trace move ih =>
      obtain ⟨j, kind, rfl⟩ := own move (by simp)
      have before := ih fun move member => own move (List.mem_append_left _ member)
      simp only [tally_snoc, disturbances_turn, writes_turn, Finset.sum_add_distrib, ← before,
        Finset.sum_ite_eq, Finset.mem_erase, Finset.mem_univ, and_true]
      by_cases mine : j = i
      · simp [mine]
      · simp [mine]

/-- All clients together take at most four steps for each pair of clients. -/
theorem length_le (refl : ∀ c, Same c c) {cell : C} (run : Run (Step Same) (initial cell) trace s)
    (own : ∀ move ∈ trace, ∃ i kind, move = .turn i kind) :
    trace.length ≤ 4 * Fintype.card ι ^ 2 := by
  have each (i : ι) : (tally i trace).steps ≤ 4 * Fintype.card ι := by
    have stands := stands_run refl run i
    have paced := stands.paced
    have charged := stands.charged
    have rank := (s.stage i).rank_le
    have once : ∀ j ∈ Finset.univ.erase i, (tally j trace).writes ≤ 1 := by
      intro j _
      refine (stands_run refl run j).once.trans ?_
      cases s.stage j <;> simp [Stage.written]
    have others := Finset.sum_le_card_nsmul _ _ 1 once
    rw [← disturbances_eq_sum own, Finset.card_erase_of_mem (Finset.mem_univ i), Finset.card_univ,
      smul_eq_mul, mul_one] at others
    have some : 0 < Fintype.card ι := Fintype.card_pos_iff.mpr ⟨i⟩
    omega
  have total := Finset.sum_le_card_nsmul Finset.univ _ _ fun i _ => each i
  rw [← length_eq_sum own, Finset.card_univ, smul_eq_mul] at total
  calc
    trace.length ≤ Fintype.card ι * (4 * Fintype.card ι) := total
    _ = 4 * Fintype.card ι ^ 2 := by ring

end Runs

end SidepoolFormal.Library.Contention
