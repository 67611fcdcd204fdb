import SidepoolFormal.Saver.Atomicity
import SidepoolFormal.Saver.Progress

/-!
# How often calls are made again

A call is made once more only when the saver has reported a conflict on its write, as
long as nothing that comes back into it is mistaken.  So the bounds on the tasks
(`Saver.Progress`) are bounds on the calls.
-/

namespace SidepoolFormal.Saver

open Library
open Threads (Label history restarts)

variable {ι V A X : Type}

/-! ## Conflicts come before attempts -/

/-- The call will be made once more: it is about to, or the conflict that the saver has
found has not been reported yet. -/
inductive Owes (conflicts : Op V A → Exn → Bool) : Threads.Lane V A → Prop
  | again {k : Except Exn A → Code V A} {tries : List (Open V A)}
      {performed : Option (Σ o : Op V A, Except Exn o.Ans)} {told : Option (Except Exn A)} :
      Owes conflicts ⟨.asks (.op .again) k tries, performed, told⟩
  | conflict {o : Op V A} {k : Except Exn o.Ans → Code V A} {e : Exn}
      {told : Option (Except Exn A)} (conflict : conflicts o e = true) :
      Owes conflicts ⟨.waits (.op o) k, some ⟨o, .error e⟩, told⟩

theorem Owes.asks {conflicts : Op V A → Exn → Bool} {s : Stop V A} {told : Option (Except Exn A)}
    (owes : Owes conflicts ⟨s, none, told⟩) : ∃ k tries, s = .asks (.op .again) k tries := by
  cases owes with
  | again => exact ⟨_, _, rfl⟩

theorem owes_of_retried {program : Call V A A} {conflicts : Op V A → Exn → Bool}
    {c : Threads.Lane V A} {s' : Stop V A} {ev : Happening V A}
    (step : Thread.Step program c.stop ev s') (retry : retried ev = true) : Owes conflicts c := by
  obtain ⟨stop, performed, told⟩ := c
  obtain ⟨step, allowed⟩ := step
  cases step with
  | enters own =>
      cases allowed with
      | again => exact .again
  | now foreign r guarded => cases retry
  | raises foreign e => cases retry
  | later foreign => cases retry
  | resumed r guarded => cases retry

/-- Only a conflict makes a call go on to another attempt. -/
theorem Owes.before {p : Plan V A X} {kept : A → A → Prop} {answers : A → A → Prop} {i : ι}
    {before after : Option (Nat × V)} {c : Threads.Lane V A} {s' : Stop V A}
    {ev : Happening V A} (turn : p.Turn c.stop ev s') (touches : c.Touches answers before after ev)
    (fair : Threads.Fair kept c ev) (owes : Owes p.conflicts (c.next s')) :
    retried ev = false ∧ (Owes p.conflicts c ∨
      ∃ e : Event ι V A, c.event i before after ev = some e ∧ e.who = some i ∧
        e.conflicted p.conflicts = true) := by
  obtain ⟨stop, performed, told⟩ := c
  obtain ⟨k, tries, same⟩ := owes.asks
  cases turn with
  | conflict writes ends conflicts next =>
      have stored := Plan.stored_of_writes writes
      cases ends with
      | @now k tries guarded =>
          refine ⟨rfl, .inr ⟨⟨some i, _, .error _, before, after⟩, ?_, rfl, conflicts⟩⟩
          rw [Threads.Lane.event, if_pos (by simp [stored])]
      | resumed guarded =>
          rw [Threads.Lane.Touches, if_pos stored] at touches
          obtain ⟨known, -⟩ := touches
          cases known
          exact ⟨rfl, .inl (.conflict conflicts)⟩
  | @thrown r e k tries framed =>
      cases tries with
      | nil => cases same
      | cons t rest =>
          cases t with
          | code handler =>
              rw [Proc.unwind_code, fair.thrown r k handler rest e rfl rfl] at same
              cases same
          | prim op k =>
              cases (List.forall_mem_cons.mp framed).1 with
              | func handed => cases same
  | enters => cases same
  | later => cases same
  | yielded => cases same
  | found => cases same
  | foundLate => cases same
  | absent ends missing => cases same
  | unread ends missing => cases same
  | called => cases same
  | writes ends written writes =>
      cases same
      cases writes
  | kept ends written => cases same
  | funcFails ends returns => cases same
  | accepted writes ends => cases same
  | refused writes ends conflicts => cases same
  | passed => cases same
  | failed => cases same

/-! ## Runs -/

section

variable [DecidableEq ι] {answers : ι → A → A → Prop} {entry : Option (Nat × V)}

theorem retries_append (conflicts : Op V A → Exn → Bool) (i : ι)
    (trace trace' : List (Event ι V A)) :
    retries conflicts i (trace ++ trace') =
      retries conflicts i trace + retries conflicts i trace' := List.countP_append

theorem retries_conflicted {conflicts : Op V A → Exn → Bool} {i : ι} {e : Event ι V A}
    (who : e.who = some i) (conflict : e.conflicted conflicts = true) :
    retries conflicts i [e] = 1 := by
  simp [retries, who, conflict]

/-- Each attempt after the first has a conflict of its own before it. -/
structure Counted (conflicts : Op V A → Exn → Bool) (i : ι) (trace : List (Label ι V A))
    (c : Threads.Lane V A) : Prop where
  bound : restarts i trace ≤ retries conflicts i (history trace)
  owed : Owes conflicts c → restarts i trace + 1 ≤ retries conflicts i (history trace)

theorem counts_snoc (conflicts : Op V A → Exn → Bool) (i : ι) (trace : List (Label ι V A))
    (l : Label ι V A) :
    restarts i (trace ++ [l]) = restarts i trace + restarts i [l] ∧
      retries conflicts i (history (trace ++ [l])) =
        retries conflicts i (history trace) + retries conflicts i l.event.toList := by
  refine ⟨List.countP_append, ?_⟩
  rw [Plan.history_snoc, retries_append]

namespace Counted

variable {conflicts : Op V A → Exn → Bool} {i : ι} {trace : List (Label ι V A)}
  {c : Threads.Lane V A}

/-- Another call goes on. -/
theorem other (counted : Counted conflicts i trace c) {l : Label ι V A}
    (silent : restarts i [l] = 0) : Counted conflicts i (trace ++ [l]) c := by
  obtain ⟨attempts, conflicted⟩ := counts_snoc conflicts i trace l
  have bound := counted.bound
  refine ⟨by omega, fun owes => ?_⟩
  have owed := counted.owed owes
  omega

/-- The saver performs what the call waits for. -/
theorem performs (counted : Counted conflicts i trace c) {o : Op V A}
    {k : Except Exn o.Ans → Code V A} (waits : c.stop = .waits (.op o) k) (r : Except Exn o.Ans)
    (before after : Option (Nat × V)) :
    Counted conflicts i (trace ++ [⟨none, some ⟨some i, o, r, before, after⟩⟩])
      { c with performed := some ⟨o, r⟩ } := by
  obtain ⟨attempts, conflicted⟩ :=
    counts_snoc conflicts i trace ⟨none, some ⟨some i, o, r, before, after⟩⟩
  have silent : restarts i [(⟨none, some ⟨some i, o, r, before, after⟩⟩ : Label ι V A)] = 0 := rfl
  have bound := counted.bound
  refine ⟨by omega, fun owes => ?_⟩
  obtain ⟨stop, performed, told⟩ := c
  cases waits
  cases owes with
  | @conflict _ _ e _ conflict =>
      have one : retries conflicts i [⟨some i, o, .error e, before, after⟩] = 1 :=
        retries_conflicted rfl conflict
      rw [Option.toList_some, one] at conflicted
      omega

/-- The call goes on. -/
theorem happens {p : Plan V A X} {kept : A → A → Prop} {answer : A → A → Prop}
    {before after : Option (Nat × V)} (counted : Counted p.conflicts i trace c) {s' : Stop V A}
    {ev : Happening V A} (point : p.At c.stop) (step : Thread.Step p.program c.stop ev s')
    (touches : c.Touches answer before after ev) (fair : Threads.Fair kept c ev) :
    Counted p.conflicts i (trace ++ [⟨some (i, ev), c.event i before after ev⟩]) (c.next s') := by
  obtain ⟨attempts, conflicted⟩ :=
    counts_snoc p.conflicts i trace ⟨some (i, ev), c.event i before after ev⟩
  have turn := (point.turn step).2
  have one : restarts i [(⟨some (i, ev), c.event i before after ev⟩ : Label ι V A)] =
      if retried ev = true then 1 else 0 := by
    cases retry : retried ev <;> simp [restarts, retry]
  rw [one] at attempts
  have bound := counted.bound
  cases retry : retried ev with
  | true =>
      rw [if_pos retry] at attempts
      have earlier := counted.owed (owes_of_retried step retry)
      refine ⟨by omega, fun owes => ?_⟩
      cases retry.symm.trans (owes.before (i := i) turn touches fair).1
  | false =>
      rw [if_neg (Bool.eq_false_iff.mp retry)] at attempts
      refine ⟨by omega, fun owes => ?_⟩
      rcases (owes.before (i := i) turn touches fair).2 with earlier | ⟨e, event, who, conflict⟩
      · have owed := counted.owed earlier
        omega
      · have one : retries p.conflicts i (c.event i before after ev).toList = 1 := by
          rw [event]
          exact retries_conflicted who conflict
        dsimp only at conflicted
        omega

end Counted

theorem Plan.run_counted {p : Plan V A X} {kept : A → A → Prop} {trace : List (Label ι V A)}
    {s : Threads.State ι V A}
    (run : Run (Threads.Step answers p.program) (Threads.start p.program entry) trace s)
    (fairly : Threads.Fairly answers p.program kept entry trace) (i : ι) :
    p.At (s.lane i).stop ∧ Counted p.conflicts i trace (s.lane i) := by
  refine fairly.invariant
    (I := fun trace s => p.At (s.lane i).stop ∧ Counted p.conflicts i trace (s.lane i)) ?_ ?_ run
  · refine ⟨Plan.run_at .nil, Nat.le_refl _, fun owes => ?_⟩
    obtain ⟨k, tries, absurd⟩ := owes.asks
    cases absurd
  · rintro trace s l s' - ⟨point, counted⟩ next fair
    cases next with
    | @performs j o k r after waits stored undone performs =>
        by_cases same : i = j
        · subst same
          dsimp only
          rw [Function.update_self]
          exact ⟨point, counted.performs waits r s.entry after⟩
        · dsimp only
          rw [Function.update_of_ne same]
          exact ⟨point, counted.other rfl⟩
    | @happens j ev stop after step touches =>
        by_cases same : i = j
        · subst same
          dsimp only
          rw [Function.update_self]
          exact ⟨(point.turn step).1, counted.happens point step touches (fair i ev rfl)⟩
        · dsimp only
          rw [Function.update_of_ne same]
          exact ⟨point, counted.other (by simp [restarts, Ne.symm same])⟩
    | direct performs => exact ⟨point, counted.other rfl⟩

/-- A call is made once more at most as often as others write, and calls among
themselves take at most four operations for each pair of them. -/
structure Attempted (trace : List (Label ι V A)) : Prop where
  restarts : ∀ i, restarts i trace ≤ disturbances i (history trace)
  operations : ∀ [Fintype ι], (∀ e ∈ history trace, e.who ≠ none) →
    (history trace).length ≤ 4 * Fintype.card ι ^ 2

/-- The calls are bounded as their tasks are. -/
theorem Plan.attempted {p : Plan V A X} {program : Io V A A} {kept : A → A → Prop}
    {At : Io V A A → Contention.Stage (Option (Nat × V)) → Prop} {trace : List (Label ι V A)}
    {s : Threads.State ι V A} (tasks : p.Tasks program)
    (staged : Staged ι program p.conflicts At)
    (keeps : ∀ x v, kept (p.content x) v → p.written x v = none)
    (run : Run (Threads.Step answers p.program) (Threads.start p.program entry) trace s)
    (fairly : Threads.Fairly answers p.program kept entry trace)
    (honest : ∀ e ∈ history trace, e.Honest) : Attempted trace := by
  obtain ⟨sys, run', -⟩ := Plan.simulates keeps tasks run fairly
  have bounded := staged.bounded run' honest
  constructor
  · intro i
    exact Nat.le_trans (Plan.run_counted run fairly i).2.bound (bounded.retries i)
  · exact bounded.length

end

/-! ## `rmw` and `crud` -/

section

variable [DecidableEq ι]

/-- `rmw` is made once more at most as often as others write. -/
theorem rmw_bounded (answers : ι → V → V → Prop) (entry : Option (Nat × V))
    (trace : List (Label ι V V)) (s : Threads.State ι V V)
    (run : Run (Threads.Step answers rmwCore) (Threads.start rmwCore entry) trace s)
    (fairly : Threads.Fairly answers rmwCore Rmw.kept entry trace)
    (honest : ∀ e ∈ history trace, e.Honest) : Attempted trace :=
  Rmw.plan.attempted Rmw.tasks Rmw.staged (fun _ _ absurd => absurd.elim) run fairly honest

/-- `crud` is made once more at most as often as others write. -/
theorem crud_bounded (answers : ι → Option V → Option V → Prop) (entry : Option (Nat × V))
    (trace : List (Label ι V (Option V))) (s : Threads.State ι V (Option V))
    (run : Run (Threads.Step answers crudCore) (Threads.start crudCore entry) trace s)
    (fairly : Threads.Fairly answers crudCore Crud.kept entry trace)
    (honest : ∀ e ∈ history trace, e.Honest) : Attempted trace :=
  Crud.plan.attempted Crud.tasks Crud.staged Crud.keeps run fairly honest

end

/-- Two calls that each add one, the first made once more. -/
theorem rmw_bounded_overtaken : ∃ trace s, Rmw.Adds Bool trace s ∧ restarts false trace = 1 ∧
    disturbances false (history trace) = 1 ∧ (history trace).length = 12 ∧ Attempted trace := by
  obtain ⟨trace, s, run, calm, again, -, -, -, same⟩ := Rmw.adds_overtaken
  refine ⟨trace, s, run, again, by rw [same]; rfl, by rw [same]; rfl, ?_⟩
  refine rmw_bounded _ _ _ _ run (Threads.fairly_of_calm (p := Rmw.plan) calm) ?_
  rw [same]
  simp [Event.Honest]

/-- One call adds one and is made once more when the other deletes. -/
theorem crud_bounded_deleted : ∃ trace s,
    Run (Threads.Step Crud.leaving crudCore) (Threads.start crudCore (some (0, 10))) trace s ∧
    restarts false trace = 1 ∧ disturbances false (history trace) = 1 ∧
    (history trace).length = 11 ∧ Attempted trace := by
  obtain ⟨trace, s, run, calm, again, -, -, -, same⟩ := Crud.deleted
  refine ⟨trace, s, run, again, by rw [same]; rfl, by rw [same]; rfl, ?_⟩
  refine crud_bounded _ _ _ _ run (Threads.fairly_of_calm (p := Crud.plan) calm) ?_
  rw [same]
  simp [Event.Honest]

end SidepoolFormal.Saver
