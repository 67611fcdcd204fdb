import SidepoolFormal.Idler.Drain
import SidepoolFormal.Library.Fifo
import Mathlib.Data.List.Nodup

/-!
# The order in which functions are called

Only the loops of `now_idle` take from the queue, each time the front; all else
only adds to its back.  How the loops are nested, and how they are left, does
not matter.
-/

namespace SidepoolFormal.Idler.Drain

open Library

variable {C Io : Type}

namespace Label

/-- The entries that are queued in a step. -/
def pushed : Label C → List (Job C)
  | .does jobs => jobs
  | _ => []

/-- The entry that is taken from the queue in a step. -/
def popped : Label C → List (Job C)
  | .enters n f => [(n, some f)]
  | .skips n => [(n, none)]
  | _ => []

end Label

/-- `to_call` is a queue. -/
def fifo (program : Program C Io) : Fifo (Step program) (Job C) where
  queue := State.toCall
  pushed := Label.pushed
  popped := Label.popped
  moves := by
    intro s l s' next
    cases next with
    | begins c quiet outside => exact List.append_nil _
    | does quiet top next => rfl
    | enters quiet top front =>
        rw [front]
        exact List.append_nil _
    | skips quiet top front =>
        rw [front]
        exact List.append_nil _
    | idle quiet top empty => exact List.append_nil _
    | catches thrown top caught => exact List.append_nil _
    | unwinds thrown top => exact List.append_nil _
    | escapes thrown outside => exact List.append_nil _

/-! ## What is queued and what is entered -/

/-- The function of an entry, unless it is empty. -/
def Job.function : Job C → Option (Nat × C)
  | (n, some f) => some (n, f)
  | (_, none) => none

/-- The functions queued in a run, with their numbers. -/
def enqueued (trace : List (Label C)) : List (Nat × C) :=
  (trace.flatMap Label.pushed).filterMap Job.function

/-- The functions entered in a run. -/
def entered (trace : List (Label C)) : List (Nat × C) :=
  trace.filterMap fun
    | .enters n f => some (n, f)
    | _ => none

theorem entered_eq (trace : List (Label C)) :
    entered trace = (trace.flatMap Label.popped).filterMap Job.function := by
  induction trace with
  | nil => rfl
  | cons l rest ih =>
      rw [List.flatMap_cons, List.filterMap_append, ← ih]
      cases l <;> rfl

/-! ## Numbers -/

theorem map_entries (queued : Nat) (fs : List (Option C)) :
    (entries queued fs).map Prod.fst = List.range' queued fs.length := by
  induction fs generalizing queued with
  | nil => rfl
  | cons f rest ih => rw [entries, List.map_cons, ih, List.length_cons, List.range'_succ]

/-- A step numbers what it queues on from what was queued before. -/
theorem Step.numbers {program : Program C Io} {s s' : State C} {l : Label C}
    (next : Step program s l s') :
    ∃ k, l.pushed.map Prod.fst = List.range' s.queued k ∧ s'.queued = s.queued + k := by
  cases next with
  | does quiet top next => exact ⟨_, map_entries s.queued _, rfl⟩
  | begins c quiet outside => exact ⟨0, rfl, rfl⟩
  | enters quiet top front => exact ⟨0, rfl, rfl⟩
  | skips quiet top front => exact ⟨0, rfl, rfl⟩
  | idle quiet top empty => exact ⟨0, rfl, rfl⟩
  | catches thrown top caught => exact ⟨0, rfl, rfl⟩
  | unwinds thrown top => exact ⟨0, rfl, rfl⟩
  | escapes thrown outside => exact ⟨0, rfl, rfl⟩

theorem numbers_of_run {program : Program C Io} {trace : List (Label C)} {s : State C}
    (run : Run (Step program) State.initial trace s) :
    (trace.flatMap Label.pushed).map Prod.fst = List.range s.queued := by
  induction run with
  | nil => rfl
  | @snoc trace s s' l run next ih =>
      obtain ⟨k, numbers, count⟩ := next.numbers
      have joined := List.range'_append_1 (s := 0) (m := s.queued) (n := k)
      rw [List.flatMap_append, List.map_append, ih, List.flatMap_singleton, numbers, count,
        List.range_eq_range', List.range_eq_range', ← joined, Nat.zero_add]

theorem map_function_sublist (jobs : List (Job C)) :
    ((jobs.filterMap Job.function).map Prod.fst).Sublist (jobs.map Prod.fst) := by
  induction jobs with
  | nil => exact .slnil
  | cons job rest ih =>
      rcases job with ⟨n, - | f⟩
      · exact ih.cons n
      · exact ih.cons_cons n

theorem nodup_enqueued {program : Program C Io} {trace : List (Label C)} {s : State C}
    (run : Run (Step program) State.initial trace s) : (enqueued trace).Nodup := by
  have numbers : ((trace.flatMap Label.pushed).map Prod.fst).Nodup := by
    rw [numbers_of_run run]
    exact List.nodup_range
  exact List.Nodup.of_map Prod.fst (numbers.sublist (map_function_sublist _))

/-! ## Runs -/

theorem entered_prefix {program : Program C Io} {trace : List (Label C)} {s : State C}
    (run : Run (Step program) State.initial trace s) : entered trace <+: enqueued trace := by
  rw [entered_eq]
  exact ((fifo program).outs_in_order run rfl).filterMap Job.function

/-- When the queue is empty, everything has been entered. -/
theorem entered_of_empty {program : Program C Io} {trace : List (Label C)} {s : State C}
    (run : Run (Step program) State.initial trace s) (empty : s.toCall = []) :
    entered trace = enqueued trace := by
  rw [entered_eq]
  exact congrArg (List.filterMap Job.function) ((fifo program).outs_eq run rfl empty)

/-- The owner starts a greenthread and drains the queue; the greenthread yields
and drains it too. -/
def nested : Program Nat Unit where
  next c act := act =
    match c with
    | 0 => .start () 1
    | 1 => .nowIdle 2
    | 10 => .yield (some 11) 12
    | 12 => .nowIdle 13
    | _ => .returns
  catches _ _ := False
  starting _ := 10

theorem nested_run : ∃ s, Run (Step nested) State.initial
    [.begins 0, .does [(0, some 10)], .does [], .enters 0 10, .does [(1, some 11)], .does [],
      .enters 1 11, .does [], .idle] s := by
  have begun : Run (Step nested) State.initial [.begins 0] ⟨[], 0, false, [.code 0]⟩ :=
    Run.nil.snoc (.begins 0 rfl rfl)
  have started := begun.snoc (.does rfl rfl rfl)
  have outer := started.snoc (.does rfl rfl rfl)
  have entered := outer.snoc (.enters rfl rfl rfl)
  have yielded := entered.snoc (.does rfl rfl rfl)
  have inner := yielded.snoc (.does rfl rfl rfl)
  have resumed := inner.snoc (.enters rfl rfl rfl)
  have returned := resumed.snoc (.does rfl rfl rfl)
  exact ⟨_, returned.snoc (.idle rfl rfl rfl)⟩

end SidepoolFormal.Idler.Drain
