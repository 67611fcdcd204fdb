import SidepoolFormal.Io.Task
import SidepoolFormal.Saver.Code

/-!
# `rmw` and `crud` as the source builds them

The source builds the calls with `then` and `catching`.  Given continuations
that do not throw, these do what the calls do as tasks.
-/

namespace SidepoolFormal.Saver

open Library

variable {σ V A : Type}

/-- The idler, the saver, the user's function and the call itself, each as the
`Io` that it returns. -/
abbrev Primitives (σ V A : Type) := (op : Op V A) → SidepoolFormal.Io σ Exn op.Ans

/-! ## The source's terms -/

def tryReadIo (perform : Primitives σ V A) : SidepoolFormal.Io σ Exn (Option (Nat × V)) :=
  Io.catching isKeyNotFound
    (Io.thenVal (perform .read) fun entry => pure (Io.lift (some entry)))
    fun _ => pure (Io.lift none)

namespace Rmw

def writeIo (perform : Primitives σ V V) (generation : Nat) (nvalue : V) :
    SidepoolFormal.Io σ Exn (Option V) :=
  Io.catching isWrongGeneration
    (Io.thenVal (perform (.update generation nvalue)) fun _ => pure (Io.lift (some nvalue)))
    fun _ => pure (Io.lift none)

def finishIo (perform : Primitives σ V V) : Option V → SidepoolFormal.Io σ Exn V
  | none => perform .again
  | some result => Io.lift result

end Rmw

def rmwIo (perform : Primitives σ V V) : SidepoolFormal.Io σ Exn V :=
  Io.thenVal
    (Io.thenVal
      (Io.thenVoid (perform .yield) (pure (perform .read)))
      fun entry => pure
        (Io.thenVal (perform (.func entry.2)) fun nvalue =>
          pure (Rmw.writeIo perform entry.1 nvalue)))
    fun result => pure (Rmw.finishIo perform result)

namespace Crud

def conflictIo (_ : Exn) : SidepoolFormal.Io σ Exn (Option (Option V)) := Io.lift none

def writeIo (perform : Primitives σ V (Option V)) (entr : Option (Nat × V)) (nvalue : Option V) :
    SidepoolFormal.Io σ Exn (Option (Option V)) :=
  match entr, nvalue with
  | none, none => Io.lift (some none)
  | none, some nvalue =>
      Io.catching isKeyExists
        (Io.thenVal (perform (.create nvalue)) fun _ => pure (Io.lift (some (some nvalue))))
        fun e => pure (conflictIo e)
  | some (generation, _), none =>
      Io.catching isWrongGeneration
        (Io.catching isKeyNotFound
          (Io.thenVoid (perform (.del generation)) (pure (Io.lift (some none))))
          fun e => pure (conflictIo e))
        fun e => pure (conflictIo e)
  | some (generation, _), some nvalue =>
      Io.catching isWrongGeneration
        (Io.catching isKeyNotFound
          (Io.thenVal (perform (.update generation nvalue)) fun _ =>
            pure (Io.lift (some (some nvalue))))
          fun e => pure (conflictIo e))
        fun e => pure (conflictIo e)

def finishIo (perform : Primitives σ V (Option V)) :
    Option (Option V) → SidepoolFormal.Io σ Exn (Option V)
  | none => perform .again
  | some result => Io.lift result

end Crud

def crudIo (perform : Primitives σ V (Option V)) : SidepoolFormal.Io σ Exn (Option V) :=
  Io.thenVal
    (Io.thenVal
      (Io.thenVoid (perform .yield) (pure (tryReadIo perform)))
      fun entr => pure
        (Io.thenVal (perform (.func (entr.map Prod.snd))) fun nvalue =>
          pure (Crud.writeIo perform entr nvalue)))
    fun result => pure (Crud.finishIo perform result)

/-! ## They do what the tasks do -/

theorem tryRead_runs {perform : Primitives σ V A} (tame : ∀ op, Io.Tame (perform op)) :
    Io.Runs perform (tryReadIo perform) tryRead := by
  apply Io.Runs.catching tame
  · apply Io.Runs.thenVal tame (Io.Runs.request Op.read)
    intro entry
    exact Io.Runs.lift (some entry)
  · intro e
    exact Io.Runs.lift none

namespace Rmw

variable {perform : Primitives σ V V}

theorem write_runs (tame : ∀ op, Io.Tame (perform op)) (generation : Nat) (nvalue : V) :
    Io.Runs perform (writeIo perform generation nvalue) (write generation nvalue) := by
  apply Io.Runs.catching tame
  · apply Io.Runs.thenVal tame (Io.Runs.request (Op.update generation nvalue))
    intro _
    exact Io.Runs.lift (some nvalue)
  · intro e
    exact Io.Runs.lift none

theorem finish_runs (result : Option V) :
    Io.Runs perform (finishIo perform result) (finish result) := by
  cases result with
  | none => exact Io.Runs.request Op.again
  | some v => exact Io.Runs.lift v

end Rmw

/-- `rmw` as the source builds it. -/
theorem rmw_runs {perform : Primitives σ V V} (tame : ∀ op, Io.Tame (perform op)) :
    Io.Runs perform (rmwIo perform) rmw := by
  apply Io.Runs.thenVal tame
  · apply Io.Runs.thenVal tame
    · exact Io.Runs.thenVoid tame (Io.Runs.request Op.yield) (Io.Runs.request Op.read)
    · intro entry
      apply Io.Runs.thenVal tame (Io.Runs.request (Op.func entry.2))
      intro nvalue
      exact Rmw.write_runs tame entry.1 nvalue
  · exact Rmw.finish_runs

namespace Crud

variable {perform : Primitives σ V (Option V)}

/-- The two handlers around a checked write. -/
theorem checked_runs (tame : ∀ op, Io.Tame (perform op))
    {core : SidepoolFormal.Io σ Exn (Option (Option V))}
    {t : Io V (Option V) (Option (Option V))} (runs : Io.Runs perform core t) :
    Io.Runs perform
      (Io.catching isWrongGeneration
        (Io.catching isKeyNotFound core fun e => pure (conflictIo e))
        fun e => pure (conflictIo e))
      ((t.catching isKeyNotFound conflict).catching isWrongGeneration conflict) := by
  have failed (e : Exn) : Io.Runs perform (conflictIo e) (conflict e) := Io.Runs.lift none
  exact Io.Runs.catching tame (Io.Runs.catching tame runs failed) failed

theorem write_runs (tame : ∀ op, Io.Tame (perform op)) (entr : Option (Nat × V))
    (nvalue : Option V) : Io.Runs perform (writeIo perform entr nvalue) (write entr nvalue) := by
  rcases entr with - | ⟨generation, value⟩
  · cases nvalue with
    | none => exact Io.Runs.lift (some none)
    | some nvalue =>
        rw [writeIo, write]
        apply Io.Runs.catching tame
        · apply Io.Runs.thenVal tame (Io.Runs.request (Op.create nvalue))
          intro _
          exact Io.Runs.lift (some (some nvalue))
        · intro e
          exact Io.Runs.lift none
  · cases nvalue with
    | none =>
        rw [writeIo, write]
        apply checked_runs tame
        exact Io.Runs.thenVoid tame (Io.Runs.request (Op.del generation))
          (Io.Runs.lift (some none))
    | some nvalue =>
        rw [writeIo, write]
        apply checked_runs tame
        apply Io.Runs.thenVal tame (Io.Runs.request (Op.update generation nvalue))
        intro _
        exact Io.Runs.lift (some (some nvalue))

theorem finish_runs (result : Option (Option V)) :
    Io.Runs perform (finishIo perform result) (finish result) := by
  cases result with
  | none => exact Io.Runs.request Op.again
  | some v => exact Io.Runs.lift v

end Crud

/-- `crud` as the source builds it. -/
theorem crud_runs {perform : Primitives σ V (Option V)} (tame : ∀ op, Io.Tame (perform op)) :
    Io.Runs perform (crudIo perform) crud := by
  apply Io.Runs.thenVal tame
  · apply Io.Runs.thenVal tame
    · exact Io.Runs.thenVoid tame (Io.Runs.request Op.yield) (tryRead_runs tame)
    · intro entr
      apply Io.Runs.thenVal tame (Io.Runs.request (Op.func (entr.map Prod.snd)))
      intro nvalue
      exact Crud.write_runs tame entr nvalue
  · exact Crud.finish_runs

end SidepoolFormal.Saver
