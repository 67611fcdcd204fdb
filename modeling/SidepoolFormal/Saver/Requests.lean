import SidepoolFormal.Saver.Atomic
import SidepoolFormal.Saver.Errors

/-!
# `rmw` and `crud` over a C saver

Both only write what their functions answer.  So where these answer strings
without a NUL, calls on any entries, with requests that overlap, come to the
same as the calls of each entry with atomic operations.
-/

namespace SidepoolFormal.Saver.Binding

open Library

variable {ι : Type}

/-! ## What the calls write -/

/-- What is left of a `rmw` that writes no NUL. -/
inductive RmwAt : Io Str Str Str → Prop
  | start : RmwAt rmw
  | reading : RmwAt Rmw.reading
  | asking (entry : Nat × Str) : RmwAt (Rmw.asking entry)
  | writing (g : Nat) {value : Str} (proper : 0 ∉ value) : RmwAt (Rmw.writing g value)
  | done (r : Except Exn Str) : RmwAt (.done r)

theorem rmw_tame {answers : ι → Str → Str → Prop}
    (proper : ∀ i a b, answers i a b → 0 ∉ b) : Tame answers rmw RmwAt where
  start := .start
  proper := by
    intro op k at_
    generalize same : Task.ask op k = t at at_
    cases at_ with
    | start => rw [Rmw.rmw_eq] at same; cases same; trivial
    | reading => rw [Rmw.reading_eq] at same; cases same; trivial
    | asking entry => rw [Rmw.asking_eq] at same; cases same; trivial
    | writing g proper => rw [Rmw.writing_eq] at same; cases same; exact proper
    | done r => cases same
  next := by
    intro op k r before after i at_ performs
    generalize same : Task.ask op k = t at at_
    cases at_ with
    | start =>
        rw [Rmw.rmw_eq] at same
        cases same
        cases performs
        exact .reading
    | reading =>
        rw [Rmw.reading_eq] at same
        cases same
        cases r with
        | ok entry => exact .asking entry
        | error e => exact .done _
    | asking entry =>
        rw [Rmw.asking_eq] at same
        cases same
        cases performs with
        | func answer => exact .writing entry.1 (proper i _ _ answer)
        | funcFails => exact .done _
    | @writing g value proper =>
        rw [Rmw.writing_eq] at same
        cases same
        cases r with
        | ok g' => exact .done _
        | error e =>
            dsimp only
            split
            · rw [enter_again]
              exact .start
            · exact .done _
    | done r => cases same

/-- What is left of a `crud` that writes no NUL. -/
inductive CrudAt : Io Str (Option Str) (Option Str) → Prop
  | start : CrudAt crud
  | reading : CrudAt Crud.reading
  | asking (seen : Option (Nat × Str)) : CrudAt (Crud.asking seen)
  | writing (seen : Option (Nat × Str)) {n : Option Str} (proper : ∀ w, n = some w → 0 ∉ w) :
      CrudAt (Crud.writing seen n)
  | done (r : Except Exn (Option Str)) : CrudAt (.done r)

/-- A call that is told of a conflict is at its start, and any other has failed. -/
theorem crudAt_retried {conflict : Bool} {e : Exn} :
    CrudAt (enter crud (if conflict = true then again else .done (.error e))) := by
  split
  · rw [enter_again]
    exact .start
  · exact .done _

theorem crud_tame {answers : ι → Option Str → Option Str → Prop}
    (proper : ∀ i a w, answers i a (some w) → 0 ∉ w) : Tame answers crud CrudAt where
  start := .start
  proper := by
    intro op k at_
    generalize same : Task.ask op k = t at at_
    cases at_ with
    | start => rw [Crud.crud_eq] at same; cases same; trivial
    | reading => rw [Crud.reading_eq] at same; cases same; trivial
    | asking seen => rw [Crud.asking_eq] at same; cases same; trivial
    | @writing seen n proper =>
        cases seen with
        | none =>
            cases n with
            | none => cases same
            | some w => rw [Crud.writing_create] at same; cases same; exact proper w rfl
        | some entry =>
            obtain ⟨g, v⟩ := entry
            cases n with
            | none => rw [Crud.writing_del] at same; cases same; trivial
            | some w => rw [Crud.writing_update] at same; cases same; exact proper w rfl
    | done r => cases same
  next := by
    intro op k r before after i at_ performs
    generalize same : Task.ask op k = t at at_
    cases at_ with
    | start =>
        rw [Crud.crud_eq] at same
        cases same
        cases performs
        exact .reading
    | reading =>
        rw [Crud.reading_eq] at same
        cases same
        cases r with
        | ok entry => exact .asking (some entry)
        | error e =>
            dsimp only
            split
            · exact .asking none
            · exact .done _
    | asking seen =>
        rw [Crud.asking_eq] at same
        cases same
        cases performs with
        | @func _ n answer =>
            have clean : CrudAt (Crud.writing seen n) :=
              .writing seen fun w same => proper i _ w (same ▸ answer)
            -- no call asks to be made again before it has asked the saver
            cases seen <;> cases n <;> exact clean
        | funcFails => exact .done _
    | @writing seen n proper =>
        cases seen with
        | none =>
            cases n with
            | none => cases same
            | some w =>
                rw [Crud.writing_create] at same
                cases same
                cases r with
                | ok g => exact .done _
                | error e => exact crudAt_retried
        | some entry =>
            obtain ⟨g, v⟩ := entry
            cases n with
            | none =>
                rw [Crud.writing_del] at same
                cases same
                cases r with
                | ok g => exact .done _
                | error e => exact crudAt_retried
            | some w =>
                rw [Crud.writing_update] at same
                cases same
                cases r with
                | ok g => exact .done _
                | error e => exact crudAt_retried
    | done r => cases same

/-! ## Runs -/

section

variable [DecidableEq ι]

/-- Calls of `rmw`, or of `crud`, with requests that overlap are at each entry calls with
atomic operations. -/
theorem calls_atomic (c : Cerrno) (keys : ι → Str × Str) (disk : Key → Cell CStr) :
    (∀ (answers : ι → Str → Str → Prop), (∀ i a b, answers i a b → 0 ∉ b) →
      ∀ trace s, Run (Step c answers rmw keys) (State.start disk rmw) trace s →
        Atomic c answers rmw keys disk trace s) ∧
    ∀ (answers : ι → Option Str → Option Str → Prop), (∀ i a w, answers i a (some w) → 0 ∉ w) →
      ∀ trace s, Run (Step c answers crud keys) (State.start disk crud) trace s →
        Atomic c answers crud keys disk trace s :=
  ⟨fun _ proper trace s run => requests_atomic (rmw_tame proper) disk trace s run,
    fun _ proper trace s run => requests_atomic (crud_tame proper) disk trace s run⟩

end

/-- Every call puts an `x` behind what it finds. -/
def extending (_ : Bool) (a b : Str) : Prop := 0 ∉ a ∧ b = a ++ [120]

def zeros : CStr := ⟨[48], by decide⟩

/-- Two calls on one entry read it, and the update of the second overtakes that of the
first, which is told of it and is made again. -/
theorem calls_atomic_overtaken : ∃ trace s,
    s.disk (cStr [97], cStr [98]) = some (1, cStr [48, 120]) ∧
      s.thread true = .at_ (.done (.ok [48, 120])) ∧
        Atomic linux extending rmw (fun _ => ([97], [98])) (fun _ => some (0, zeros)) trace s := by
  have proper (i : Bool) (a b : Str) (answer : extending i a b) : 0 ∉ b := by
    obtain ⟨clean, rfl⟩ := answer
    simp [clean]
  have answer (i : Bool) : extending i [48] [48, 120] := ⟨by decide, rfl⟩
  have overtaken : linux.EPERM ∈ validErrno linux (.update 0 (cStr [48, 120]) : Op CStr Str) := by
    decide
  have run : Run (Step linux extending rmw fun _ => ([97], [98]))
    (State.start (fun _ => some (0, zeros)) rmw) _ _ := .nil
  have run := run.snoc (.acts (i := false) rfl rfl (.yield _))
  have run := run.snoc (.acts (i := true) rfl rfl (.yield _))
  have run := run.snoc (.requests (i := false) rfl rfl)
  have run := run.snoc (.requests (i := true) rfl rfl)
  have run := run.snoc (.decides (n := 1) rfl rfl (.read 0 zeros) rfl)
  have run := run.snoc (.decides (n := 0) rfl rfl (.read 0 zeros) rfl)
  have run := run.snoc (.answers (n := 0) rfl rfl)
  have run := run.snoc (.answers (n := 1) rfl rfl)
  have run := run.snoc (.acts (i := false) rfl rfl (.func (answer false) _))
  have run := run.snoc (.acts (i := true) rfl rfl (.func (answer true) _))
  have run := run.snoc (.requests (i := false) rfl rfl)
  have run := run.snoc (.requests (i := true) rfl rfl)
  have run := run.snoc (.decides (n := 3) rfl rfl (.update 0 1 zeros _ (by decide)) rfl)
  have run := run.snoc (.decides (n := 2) rfl rfl
    (.fails overtaken _ fun absurd => by cases absurd) rfl)
  have run := run.snoc (.answers (n := 2) rfl rfl)
  have run := run.snoc (.answers (n := 3) rfl rfl)
  exact ⟨_, _, rfl, rfl, (calls_atomic linux _ _).1 extending proper _ _ run⟩

end SidepoolFormal.Saver.Binding
