import SidepoolFormal.Saver.Crud
import SidepoolFormal.Saver.Rmw
import SidepoolFormal.Saver.Stands

/-!
# What calls that run side by side come to

The tasks of `rmw` and `crud` are what the calls stand for as long as nothing that
comes back into a call is mistaken for an exception of the saver.  Then no update is
lost, and the calls are serial in the order of their writes.
-/

namespace SidepoolFormal.Saver

open Library
open Threads (Label history)

variable {ι V : Type}

/-! ## The tasks of the calls -/

namespace Rmw

def tasks : plan.Tasks (rmw : Io V V V) where
  reading := reading
  asking := asking
  writing entry nvalue := writing entry.1 nvalue
  begins := by
    rw [rmw_eq]
    apply Task.ask_congr
    intro r
    cases r <;> rfl
  reads := by
    rw [reading_eq]
    apply Task.ask_congr
    intro r
    cases r <;> rfl
  asks seen := by
    rw [asking_eq]
    apply Task.ask_congr
    intro r
    cases r <;> rfl
  keeps := by
    intro entry nvalue absurd
    cases absurd
  writes := by
    intro entry nvalue o written
    cases written
    rw [writing_eq]
    apply Task.ask_congr
    intro r
    cases r <;> rfl

end Rmw

namespace Crud

def tasks : plan.Tasks (crud : Io V (Option V) (Option V)) where
  reading := reading
  asking := asking
  writing := writing
  begins := by
    rw [crud_eq]
    apply Task.ask_congr
    intro r
    cases r <;> rfl
  reads := by
    rw [reading_eq]
    apply Task.ask_congr
    intro r
    cases r with
    | ok entry => rfl
    | error e => cases e <;> rfl
  asks seen := by
    rw [asking_eq]
    apply Task.ask_congr
    intro r
    cases r <;> rfl
  keeps := by
    rintro (- | ⟨g, u⟩) (- | w) same
    · rfl
    · cases same
    · cases same
    · cases same
  writes := by
    rintro (- | ⟨g, u⟩) (- | w) o written
    · cases written
    · cases written
      rw [writing_create]
      apply Task.ask_congr
      intro r
      cases r <;> rfl
    · cases written
      rw [writing_del]
      apply Task.ask_congr
      intro r
      cases r <;> rfl
    · cases written
      rw [writing_update]
      apply Task.ask_congr
      intro r
      cases r <;> rfl

/-- Where there is no entry and none is wanted there is nothing to write. -/
theorem keeps (seen : Option (Nat × V)) (n : Option V) (same : kept (seen.map Prod.snd) n) :
    written seen n = none := by
  obtain ⟨absent, rfl⟩ := same
  rw [Option.map_eq_none_iff.mp absent]
  rfl

end Crud

section

variable [DecidableEq ι]

/-- In every run whose steps are fair, no update of an entry is lost. -/
theorem rmw_atomic (answers : ι → V → V → Prop) (g : Nat) (c : V) (trace : List (Label ι V V))
    (s : Threads.State ι V V)
    (run : Run (Threads.Step answers rmwCore) (Threads.start rmwCore (some (g, c))) trace s)
    (fairly : Threads.Fairly answers rmwCore Rmw.kept (some (g, c)) trace) :
    Rmw.Atomic answers (some c) (ledger record (history trace)) (s.entry.map Prod.snd)
      fun i => (s.lane i).told := by
  obtain ⟨sys, run', simulates⟩ :=
    Plan.simulates (fun _ _ absurd => absurd.elim) Rmw.tasks run fairly
  have atomic := Rmw.run_atomic run'
  rw [simulates.entry] at atomic
  exact ⟨atomic.applied, atomic.calls.later fun i r told => (simulates.stands i).ended told⟩

/-- In every run whose steps are fair, and none of which gives the entry a generation
that another call relies on, `crud` calls are serial in the order of their writes. -/
theorem crud_serialised (answers : ι → Option V → Option V → Prop) (entry : Option (Nat × V))
    (trace : List (Label ι V (Option V))) (s : Threads.State ι V (Option V))
    (run : Run (Threads.Step answers crudCore) (Threads.start crudCore entry) trace s)
    (fairly : Threads.Fairly answers crudCore Crud.kept entry trace)
    (undisturbed : Undisturbed (history trace)) :
    Serialised id answers (entry.map Prod.snd) (ledger Crud.record (history trace))
      (s.entry.map Prod.snd) fun i => (s.lane i).told := by
  obtain ⟨sys, run', simulates⟩ := Plan.simulates Crud.keeps Crud.tasks run fairly
  have serialised := Crud.run_serialised run' undisturbed
  rw [simulates.entry] at serialised
  exact ⟨serialised.serial,
    serialised.calls.later fun i r told => (simulates.stands i).ended told⟩

end

/-! ## Runs of `rmw` -/

namespace Rmw

/-- Every call adds one. -/
def adding (c n : Nat) : Prop := n = c + 1

abbrev Adds (ι : Type) [DecidableEq ι] :
    List (Label ι Nat Nat) → Threads.State ι Nat Nat → Prop :=
  Run (Threads.Step (fun _ => adding) rmwCore) (Threads.start rmwCore (some (0, 10)))

/-- Two calls, the second between the read and the update of the first, which is made
once more. -/
theorem adds_overtaken : ∃ trace s, Adds Bool trace s ∧ Threads.Calm trace ∧
    Threads.restarts false trace = 1 ∧ s.entry = some (2, 12) ∧
    (s.lane false).told = some (.ok 12) ∧ (s.lane true).told = some (.ok 11) ∧
    history trace = [
      ⟨some false, .yield, .ok (), some (0, 10), some (0, 10)⟩,
      ⟨some false, .read, .ok (0, 10), some (0, 10), some (0, 10)⟩,
      ⟨some true, .yield, .ok (), some (0, 10), some (0, 10)⟩,
      ⟨some true, .read, .ok (0, 10), some (0, 10), some (0, 10)⟩,
      ⟨some true, .func 10, .ok 11, some (0, 10), some (0, 10)⟩,
      ⟨some true, .update 0 11, .ok 1, some (0, 10), some (1, 11)⟩,
      ⟨some false, .func 10, .ok 11, some (1, 11), some (1, 11)⟩,
      ⟨some false, .update 0 11, .error .wrongGeneration, some (1, 11), some (1, 11)⟩,
      ⟨some false, .yield, .ok (), some (1, 11), some (1, 11)⟩,
      ⟨some false, .read, .ok (1, 11), some (1, 11), some (1, 11)⟩,
      ⟨some false, .func 11, .ok 12, some (1, 11), some (1, 11)⟩,
      ⟨some false, .update 1 12, .ok 2, some (1, 11), some (2, 12)⟩] := by
  have adds (c : Nat) : adding c (c + 1) := rfl
  have run : Adds Bool _ _ := .nil
  have run := run.snoc (.happens (i := false) ⟨.later rfl, .yields⟩ rfl)
  have run := run.snoc (.happens (i := false) ⟨.resumed _ _, .yielded⟩ (.yield _))
  have run := run.snoc (.happens (i := false) ⟨.later rfl, .storedLater rfl⟩ rfl)
  have run := run.snoc (.performs (i := false) rfl rfl rfl (.read 0 10))
  have run := run.snoc (.happens (i := true) ⟨.later rfl, .yields⟩ rfl)
  have run := run.snoc (.happens (i := true) ⟨.resumed _ _, .yielded⟩ (.yield _))
  have run := run.snoc (.happens (i := true) ⟨.now rfl _ _, .stored rfl _⟩ (.read 0 10))
  have run := run.snoc (.happens (i := true) ⟨.now rfl _ _, .called _⟩ rfl)
  have run := run.snoc (.happens (i := true) ⟨.now rfl (.ok 11) false, .func _ _ _⟩
    (.func (adds 10) _))
  have run := run.snoc (.happens (i := true) ⟨.now rfl _ _, .stored rfl _⟩
    (.update 0 1 10 11 (by decide)))
  have run := run.snoc (.happens (i := false) ⟨.resumed _ _, .storedResumed rfl _⟩ ⟨rfl, rfl⟩)
  have run := run.snoc (.happens (i := false) ⟨.now rfl _ _, .called _⟩ rfl)
  have run := run.snoc (.happens (i := false) ⟨.now rfl (.ok 11) false, .func _ _ _⟩
    (.func (adds 10) _))
  have run := run.snoc (.happens (i := false) ⟨.now rfl _ _, .stored rfl _⟩
    (.updateFails 0 11 .wrongGeneration _))
  have run := run.snoc (.happens (i := false) ⟨.enters rfl, .again⟩ rfl)
  have run := run.snoc (.happens (i := false) ⟨.later rfl, .yields⟩ rfl)
  have run := run.snoc (.happens (i := false) ⟨.resumed _ _, .yielded⟩ (.yield _))
  have run := run.snoc (.happens (i := false) ⟨.now rfl _ _, .stored rfl _⟩ (.read 1 11))
  have run := run.snoc (.happens (i := false) ⟨.now rfl _ _, .called _⟩ rfl)
  have run := run.snoc (.happens (i := false) ⟨.now rfl (.ok 12) false, .func _ _ _⟩
    (.func (adds 11) _))
  have run := run.snoc (.happens (i := false) ⟨.now rfl _ _, .stored rfl _⟩
    (.update 1 2 11 12 (by decide)))
  exact ⟨_, _, run, by simp [Threads.Calm], rfl, rfl, rfl, rfl, rfl⟩

/-- Both calls commit, one after the other. -/
theorem atomic_overtaken : ∃ trace s, Adds Bool trace s ∧ s.entry = some (2, 12) ∧
    Rmw.Atomic (fun _ => adding) (some 10) (ledger record (history trace))
      (s.entry.map Prod.snd) fun i => (s.lane i).told := by
  obtain ⟨trace, s, run, calm, -, entry, -⟩ := adds_overtaken
  exact ⟨trace, s, run, entry,
    rmw_atomic _ _ _ _ _ run (Threads.fairly_of_calm (p := plan) calm)⟩

/-- The only call commits once more when its caller throws a `WrongGeneration`. -/
theorem committed_again : ∃ trace s, Adds Unit trace s ∧
    ¬ Rmw.Atomic (fun _ => adding) (some 10) (ledger record (history trace))
      (s.entry.map Prod.snd) fun i => (s.lane i).told := by
  have adds (c : Nat) : adding c (c + 1) := rfl
  have run : Adds Unit _ _ := .nil
  have run := run.snoc (.happens (i := ()) ⟨.later rfl, .yields⟩ rfl)
  have run := run.snoc (.happens (i := ()) ⟨.resumed _ _, .yielded⟩ (.yield _))
  have run := run.snoc (.happens (i := ()) ⟨.now rfl _ _, .stored rfl _⟩ (.read 0 10))
  have run := run.snoc (.happens (i := ()) ⟨.now rfl _ _, .called _⟩ rfl)
  have run := run.snoc (.happens (i := ()) ⟨.now rfl (.ok 11) false, .func _ _ _⟩
    (.func (adds 10) _))
  have run := run.snoc (.happens (i := ()) ⟨.now rfl _ _, .stored rfl _⟩
    (.update 0 1 10 11 (by decide)))
  have run := run.snoc (.happens (i := ()) ⟨.raises rfl .wrongGeneration, .passedThrows _ _⟩ rfl)
  have run := run.snoc (.happens (i := ()) ⟨.enters rfl, .again⟩ rfl)
  have run := run.snoc (.happens (i := ()) ⟨.later rfl, .yields⟩ rfl)
  have run := run.snoc (.happens (i := ()) ⟨.resumed _ _, .yielded⟩ (.yield _))
  have run := run.snoc (.happens (i := ()) ⟨.now rfl _ _, .stored rfl _⟩ (.read 1 11))
  have run := run.snoc (.happens (i := ()) ⟨.now rfl _ _, .called _⟩ rfl)
  have run := run.snoc (.happens (i := ()) ⟨.now rfl (.ok 12) false, .func _ _ _⟩
    (.func (adds 11) _))
  have run := run.snoc (.happens (i := ()) ⟨.now rfl _ _, .stored rfl _⟩
    (.update 1 2 11 12 (by decide)))
  refine ⟨_, _, run, fun atomic => ?_⟩
  obtain ⟨c, -, once⟩ := atomic.calls.passed () 11 rfl
  have twice : 2 = 1 := congrArg List.length once
  cases twice

end Rmw

/-! ## Runs of `crud` -/

namespace Crud

/-- One call adds one, and one deletes. -/
def leaving (i : Bool) (c n : Option Nat) : Prop := n = if i then none else c.map (· + 1)

/-- The entry is deleted before the other call has written it; that call is made once
more, and finds nothing to do. -/
theorem deleted : ∃ trace s,
    Run (Threads.Step leaving crudCore) (Threads.start crudCore (some (0, 10))) trace s ∧
    Threads.Calm trace ∧ Threads.restarts false trace = 1 ∧ s.entry = none ∧
    (s.lane false).told = some (.ok none) ∧ (s.lane true).told = some (.ok none) ∧
    history trace = [
      ⟨some false, .yield, .ok (), some (0, 10), some (0, 10)⟩,
      ⟨some false, .read, .ok (0, 10), some (0, 10), some (0, 10)⟩,
      ⟨some true, .yield, .ok (), some (0, 10), some (0, 10)⟩,
      ⟨some true, .read, .ok (0, 10), some (0, 10), some (0, 10)⟩,
      ⟨some true, .func (some 10), .ok none, some (0, 10), some (0, 10)⟩,
      ⟨some true, .del 0, .ok (), some (0, 10), none⟩,
      ⟨some false, .func (some 10), .ok (some 11), none, none⟩,
      ⟨some false, .update 0 11, .error .keyNotFound, none, none⟩,
      ⟨some false, .yield, .ok (), none, none⟩,
      ⟨some false, .read, .error .keyNotFound, none, none⟩,
      ⟨some false, .func none, .ok none, none, none⟩] := by
  have adds (c : Option Nat) : leaving false c (c.map (· + 1)) := rfl
  have deletes (c : Option Nat) : leaving true c none := rfl
  have run : Run (Threads.Step leaving crudCore) (Threads.start crudCore (some (0, 10))) _ _ := .nil
  have run := run.snoc (.happens (i := false) ⟨.later rfl, .yields⟩ rfl)
  have run := run.snoc (.happens (i := false) ⟨.resumed _ _, .yielded⟩ (.yield _))
  have run := run.snoc (.happens (i := false) ⟨.now rfl _ _, .stored rfl _⟩ (.read 0 10))
  have run := run.snoc (.happens (i := false) ⟨.now rfl _ _, .called _⟩ rfl)
  have run := run.snoc (.happens (i := false) ⟨.later rfl, .funcLater _⟩ rfl)
  have run := run.snoc (.happens (i := true) ⟨.later rfl, .yields⟩ rfl)
  have run := run.snoc (.happens (i := true) ⟨.resumed _ _, .yielded⟩ (.yield _))
  have run := run.snoc (.happens (i := true) ⟨.now rfl _ _, .stored rfl _⟩ (.read 0 10))
  have run := run.snoc (.happens (i := true) ⟨.now rfl _ _, .called _⟩ rfl)
  have run := run.snoc (.happens (i := true) ⟨.now rfl (.ok none) false, .func _ _ _⟩
    (by exact .func (deletes (some 10)) _))
  have run := run.snoc (.happens (i := true) ⟨.later rfl, .storedLater rfl⟩ rfl)
  have run := run.snoc (.performs (i := true) rfl rfl rfl (.del 0 10))
  have run := run.snoc (.happens (i := true) ⟨.resumed _ _, .storedResumed rfl _⟩ ⟨rfl, rfl⟩)
  have run := run.snoc (.happens (i := false) ⟨.resumed (.ok (some 11)) false, .funcResumed _ _ _⟩
    (by exact .func (adds (some 10)) _))
  have run := run.snoc (.happens (i := false) ⟨.now rfl _ _, .stored rfl _⟩
    (.updateFails 0 11 .keyNotFound _))
  have run := run.snoc (.happens (i := false) ⟨.enters rfl, .again⟩ rfl)
  have run := run.snoc (.happens (i := false) ⟨.later rfl, .yields⟩ rfl)
  have run := run.snoc (.happens (i := false) ⟨.resumed _ _, .yielded⟩ (.yield _))
  have run := run.snoc (.happens (i := false) ⟨.now rfl _ _, .stored rfl _⟩
    (.readFails .keyNotFound none fun _ => rfl))
  have run := run.snoc (.happens (i := false) ⟨.now rfl _ _, .called _⟩ rfl)
  have run := run.snoc (.happens (i := false) ⟨.now rfl (.ok none) false, .func _ _ _⟩
    (by exact .func (adds none) _))
  exact ⟨_, _, run, by simp [Threads.Calm], rfl, rfl, rfl, rfl, rfl⟩

/-- Operations that leave the entry as it was, or delete it, disturb nobody. -/
theorem undisturbed_of_absent [DecidableEq ι] {trace : List (Event ι V (Option V))}
    (absent : ∀ e ∈ trace, e.after = none ∨ e.before = e.after) : Undisturbed trace := by
  intro pre e inside g w now writes
  rcases absent e (inside.subset (by simp)) with none | same
  · cases none.symm.trans now
  · exact absurd same writes

/-- The deletion comes first, and then the call that finds no entry. -/
theorem serialised_deleted : ∃ trace s,
    Run (Threads.Step leaving crudCore) (Threads.start crudCore (some (0, 10))) trace s ∧
    (s.lane false).told = some (.ok none) ∧
    Serialised id leaving (some 10) (ledger record (history trace)) (s.entry.map Prod.snd)
      fun i => (s.lane i).told := by
  obtain ⟨trace, s, run, calm, -, -, told, -, same⟩ := deleted
  refine ⟨trace, s, run, told, crud_serialised _ _ _ _ run
    (Threads.fairly_of_calm (p := plan) calm) (undisturbed_of_absent ?_)⟩
  rw [same]
  simp

/-- One call adds one, one deletes, one creates. -/
def contention (i : Fin 3) (c n : Option Nat) : Prop :=
  n = if i = 0 then c.map (· + 1) else if i = 1 then none else some 20

/-- A run that is not serial. -/
abbrev Breaks [DecidableEq ι] (answers : ι → Option Nat → Option Nat → Prop)
    (trace : List (Label ι Nat (Option Nat))) (s : Threads.State ι Nat (Option Nat)) : Prop :=
  Run (Threads.Step answers crudCore) (Threads.start crudCore (some (0, 10))) trace s ∧
  ¬ Serialised id answers (some 10) (ledger record (history trace)) (s.entry.map Prod.snd)
    fun i => (s.lane i).told

/-- The entry is deleted and created again, with the same generation, between the read
and the update of the first call, and the creation is overwritten: nothing throws. -/
theorem created_overwritten : ∃ trace s, Breaks contention trace s ∧ Threads.Calm trace := by
  have adds : contention 0 (some 10) (some 11) := rfl
  have deletes : contention 1 (some 10) none := rfl
  have creates : contention 2 none (some 20) := rfl
  have run : Run (Threads.Step contention crudCore) (Threads.start crudCore (some (0, 10))) _ _ :=
    .nil
  have run := run.snoc (.happens (i := 0) ⟨.later rfl, .yields⟩ rfl)
  have run := run.snoc (.happens (i := 0) ⟨.resumed _ _, .yielded⟩ (.yield _))
  have run := run.snoc (.happens (i := 0) ⟨.now rfl _ _, .stored rfl _⟩ (.read 0 10))
  have run := run.snoc (.happens (i := 0) ⟨.now rfl _ _, .called _⟩ rfl)
  have run := run.snoc (.happens (i := 0) ⟨.later rfl, .funcLater _⟩ rfl)
  have run := run.snoc (.happens (i := 1) ⟨.later rfl, .yields⟩ rfl)
  have run := run.snoc (.happens (i := 1) ⟨.resumed _ _, .yielded⟩ (.yield _))
  have run := run.snoc (.happens (i := 1) ⟨.now rfl _ _, .stored rfl _⟩ (.read 0 10))
  have run := run.snoc (.happens (i := 1) ⟨.now rfl _ _, .called _⟩ rfl)
  have run := run.snoc (.happens (i := 1) ⟨.now rfl (.ok none) false, .func _ _ _⟩
    (by exact .func deletes _))
  have run := run.snoc (.happens (i := 1) ⟨.now rfl _ _, .stored rfl _⟩ (.del 0 10))
  have run := run.snoc (.happens (i := 2) ⟨.later rfl, .yields⟩ rfl)
  have run := run.snoc (.happens (i := 2) ⟨.resumed _ _, .yielded⟩ (.yield _))
  have run := run.snoc (.happens (i := 2) ⟨.now rfl _ _, .stored rfl _⟩
    (.readFails .keyNotFound none fun _ => rfl))
  have run := run.snoc (.happens (i := 2) ⟨.now rfl _ _, .called _⟩ rfl)
  have run := run.snoc (.happens (i := 2) ⟨.now rfl (.ok (some 20)) false, .func _ _ _⟩
    (by exact .func creates _))
  have run := run.snoc (.happens (i := 2) ⟨.now rfl _ _, .stored rfl _⟩ (.create 20 0))
  have run := run.snoc (.happens (i := 0) ⟨.resumed (.ok (some 11)) false, .funcResumed _ _ _⟩
    (by exact .func adds _))
  have run := run.snoc (.happens (i := 0) ⟨.now rfl _ _, .stored rfl _⟩
    (.update 0 1 20 11 (by decide)))
  refine ⟨_, _, ⟨run, fun serialised => ?_⟩, by simp [Threads.Calm]⟩
  obtain ⟨c, answer, once⟩ := serialised.calls.passed 0 (some 11) rfl
  have before : [some 20] = [c] := congrArg (List.map Optimistic.Commit.before) once
  cases before
  cases answer

/-- The only call disturbs nobody. -/
theorem undisturbed_of_alone {trace : List (Event Unit V (Option V))}
    (alone : trace.all (fun e => e.who.isSome) = true) : Undisturbed trace := by
  intro pre e inside g w now writes j other
  have some := List.all_eq_true.mp alone e (inside.subset (by simp))
  obtain ⟨i, mine⟩ := Option.isSome_iff_exists.mp some
  exact absurd mine other

/-- It commits once more when its caller throws a `WrongGeneration`. -/
theorem updated_again : ∃ trace s,
    Breaks (fun _ : Unit => leaving false) trace s ∧ Undisturbed (history trace) := by
  have adds (c : Option Nat) : leaving false c (c.map (· + 1)) := rfl
  have run : Run (Threads.Step (fun _ : Unit => leaving false) crudCore)
    (Threads.start crudCore (some (0, 10))) _ _ := .nil
  have run := run.snoc (.happens (i := ()) ⟨.later rfl, .yields⟩ rfl)
  have run := run.snoc (.happens (i := ()) ⟨.resumed _ _, .yielded⟩ (.yield _))
  have run := run.snoc (.happens (i := ()) ⟨.now rfl _ _, .stored rfl _⟩ (.read 0 10))
  have run := run.snoc (.happens (i := ()) ⟨.now rfl _ _, .called _⟩ rfl)
  have run := run.snoc (.happens (i := ()) ⟨.now rfl (.ok (some 11)) false, .func _ _ _⟩
    (by exact .func (adds (some 10)) _))
  have run := run.snoc (.happens (i := ()) ⟨.now rfl _ _, .stored rfl _⟩
    (.update 0 1 10 11 (by decide)))
  have run := run.snoc (.happens (i := ()) ⟨.raises rfl .wrongGeneration, .passedThrows _ _⟩ rfl)
  have run := run.snoc (.happens (i := ()) ⟨.enters rfl, .again⟩ rfl)
  have run := run.snoc (.happens (i := ()) ⟨.later rfl, .yields⟩ rfl)
  have run := run.snoc (.happens (i := ()) ⟨.resumed _ _, .yielded⟩ (.yield _))
  have run := run.snoc (.happens (i := ()) ⟨.now rfl _ _, .stored rfl _⟩ (.read 1 11))
  have run := run.snoc (.happens (i := ()) ⟨.now rfl _ _, .called _⟩ rfl)
  have run := run.snoc (.happens (i := ()) ⟨.now rfl (.ok (some 12)) false, .func _ _ _⟩
    (by exact .func (adds (some 11)) _))
  have run := run.snoc (.happens (i := ()) ⟨.now rfl _ _, .stored rfl _⟩
    (.update 1 2 11 12 (by decide)))
  refine ⟨_, _, ⟨run, fun serialised => ?_⟩, ?_⟩
  · obtain ⟨c, -, once⟩ := serialised.calls.passed () (some 11) rfl
    have twice : 2 = 1 := congrArg List.length once
    cases twice
  · exact undisturbed_of_alone rfl

/-- Either is enough to break the order: a generation that is given twice, or an
exception that is taken for a conflict. -/
theorem calls_not_serialised :
    (∃ trace s, Breaks contention trace s ∧ Threads.Calm trace) ∧
    ∃ trace s, Breaks (fun _ : Unit => leaving false) trace s ∧ Undisturbed (history trace) :=
  ⟨created_overwritten, updated_again⟩

end Crud

end SidepoolFormal.Saver
