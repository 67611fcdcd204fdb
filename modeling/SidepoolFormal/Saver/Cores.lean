import SidepoolFormal.Io.Core
import SidepoolFormal.Saver.Combinators

/-!
# `rmw` and `crud` for operations that complete late

The calls of `Saver.Combinators` as code that gives control away: to the idler,
to the saver, to the user's function, and to the caller's continuations.  The
user's function is called first, and may throw then; the `Io` that it returns is
started afterwards.
-/

namespace SidepoolFormal.Saver

open Library

inductive Req (V A : Type) where
  | op (o : Op V A)
  | calls (content : A)
  | passed (result : A)
  | failed (e : Exn)

@[reducible]
def Req.Ans {V A : Type} : Req V A → Type
  | .op o => o.Ans
  | .calls _ => Unit
  | .passed _ => Unit
  | .failed _ => Unit

abbrev Code (V A : Type) := Proc (Req V A) Req.Ans Exn

abbrev Call (V A a : Type) := Core (Req V A) Req.Ans Exn a

variable {V A a X : Type}

def perform (o : Op V A) : Call V A o.Ans := Core.perform (Req.op o)

/-- Call the user's function and go on with what its `Io` gives. -/
def calling (content : A) (next : A → Call V A a) : Call V A a := fun pass fail =>
  .ask (.calls content) fun
    | .ok _ => Core.thenVal (perform (.func content)) (fun nvalue => .ok (next nvalue)) pass fail
    | .error e => .throw e

/-- Return the result, or make the call once more. -/
def finishCore : Option A → Call V A A
  | none => perform .again
  | some result => Core.lift result

/-- What `rmw` and `crud` share: how the entry is read, what of it the function
is given, and how its value is written. -/
def call (reading : Call V A X) (content : X → A) (writing : X → A → Call V A (Option A)) :
    Call V A A :=
  Core.thenVal
    (Core.thenVal
      (Core.thenVoid (perform .yield) (.ok reading))
      fun entry => .ok (calling (content entry) (writing entry)))
    fun result => .ok (finishCore result)

def tryReadCore : Call V A (Option (Nat × V)) :=
  Core.catching isKeyNotFound
    (Core.thenVal (perform .read) fun entry => .ok (Core.lift (some entry)))
    fun _ => .ok (Core.lift none)

namespace Rmw

def writeCore (entry : Nat × V) (nvalue : V) : Call V V (Option V) :=
  Core.catching isWrongGeneration
    (Core.thenVal (perform (.update entry.1 nvalue)) fun _ => .ok (Core.lift (some nvalue)))
    fun _ => .ok (Core.lift none)

end Rmw

def rmwCore : Call V V V := call (perform .read) Prod.snd Rmw.writeCore

namespace Crud

def conflictCore (_ : Exn) : Except Exn (Call V (Option V) (Option (Option V))) :=
  .ok (Core.lift none)

def writeCore : Option (Nat × V) → Option V → Call V (Option V) (Option (Option V))
  | none, none => Core.lift (some none)
  | none, some nvalue =>
      Core.catching isKeyExists
        (Core.thenVal (perform (.create nvalue)) fun _ => .ok (Core.lift (some (some nvalue))))
        conflictCore
  | some (generation, _), none =>
      Core.catching isWrongGeneration
        (Core.catching isKeyNotFound
          (Core.thenVoid (perform (.del generation)) (.ok (Core.lift (some none))))
          conflictCore)
        conflictCore
  | some (generation, _), some nvalue =>
      Core.catching isWrongGeneration
        (Core.catching isKeyNotFound
          (Core.thenVal (perform (.update generation nvalue)) fun _ =>
            .ok (Core.lift (some (some nvalue))))
          conflictCore)
        conflictCore

end Crud

def crudCore : Call V (Option V) (Option V) :=
  call tryReadCore (Option.map Prod.snd) Crud.writeCore

/-! ## They are the calls, where the operations complete at once -/

variable {σ : Type}

/-- How requests are answered; the user's function returns an `Io` when it is
called. -/
structure Answers (σ V A : Type) where
  answer : (r : Req V A) → Effect σ Exn (Except Exn r.Ans)
  calls_returns : ∀ content, answer (.calls content) = pure (.ok ())

namespace Answers

variable (answers : Answers σ V A)

def primitives : Primitives σ V A := fun o pass fail =>
  answers.answer (.op o) >>= fun
    | .ok v => pass v
    | .error e => fail e

theorem agrees_perform (o : Op V A) :
    Core.Agrees answers.answer (perform o) (answers.primitives o) := by
  intro pass fail
  change (answers.answer (.op o) >>= _) = (answers.answer (.op o) >>= _)
  congr 1
  funext r
  cases r with
  | ok v => rfl
  | error e => rfl

theorem agrees_calling (content : A) {next : A → Call V A a}
    {nextIo : A → SidepoolFormal.Io σ Exn a}
    (agrees : ∀ v, Core.Agrees answers.answer (next v) (nextIo v)) :
    Core.Agrees answers.answer (calling content next)
      (Io.thenVal (answers.primitives (.func content)) fun v => pure (nextIo v)) := by
  intro pass fail
  rw [calling, Proc.exec, answers.calls_returns]
  exact (answers.agrees_perform (.func content)).thenVal_ok agrees pass fail

/-- The calls agree if their parts do. -/
theorem agrees_call {reading : Call V A X} {readIo : SidepoolFormal.Io σ Exn X} {content : X → A}
    {writing : X → A → Call V A (Option A)}
    {writeIo : X → A → SidepoolFormal.Io σ Exn (Option A)}
    {finishIo : Option A → SidepoolFormal.Io σ Exn A}
    (reads : Core.Agrees answers.answer reading readIo)
    (writes : ∀ x v, Core.Agrees answers.answer (writing x v) (writeIo x v))
    (finishes : ∀ r, Core.Agrees answers.answer (finishCore r) (finishIo r)) :
    Core.Agrees answers.answer (call reading content writing)
      (Io.thenVal
        (Io.thenVal
          (Io.thenVoid (answers.primitives .yield) (pure readIo))
          fun x => pure
            (Io.thenVal (answers.primitives (.func (content x))) fun v => pure (writeIo x v)))
        fun result => pure (finishIo result)) := by
  have first := (answers.agrees_perform .yield).thenVoid_ok reads
  have modified (x : X) := answers.agrees_calling (content x) (writes x)
  exact (first.thenVal_ok modified).thenVal_ok finishes

theorem agrees_tryRead :
    Core.Agrees answers.answer tryReadCore (tryReadIo answers.primitives) := by
  have found := (answers.agrees_perform .read).thenVal_ok fun entry =>
    Core.Agrees.lift (some entry)
  exact found.catching_ok fun _ => .lift none

end Answers

theorem Rmw.agrees_write (answers : Answers σ V V) (entry : Nat × V) (nvalue : V) :
    Core.Agrees answers.answer (Rmw.writeCore entry nvalue)
      (Rmw.writeIo answers.primitives entry.1 nvalue) := by
  have written := (answers.agrees_perform (.update entry.1 nvalue)).thenVal_ok fun _ =>
    Core.Agrees.lift (some nvalue)
  exact written.catching_ok fun _ => .lift none

theorem agrees_rmw (answers : Answers σ V V) :
    Core.Agrees answers.answer rmwCore (rmwIo answers.primitives) := by
  refine answers.agrees_call (answers.agrees_perform .read) (Rmw.agrees_write answers) ?_
  intro result
  cases result with
  | none => exact answers.agrees_perform .again
  | some v => exact .lift v

namespace Crud

variable (answers : Answers σ V (Option V))

/-- The two handlers around a checked write. -/
theorem agrees_checked {core : Call V (Option V) (Option (Option V))}
    {io : SidepoolFormal.Io σ Exn (Option (Option V))}
    (agrees : Core.Agrees answers.answer core io) :
    Core.Agrees answers.answer
      (Core.catching isWrongGeneration (Core.catching isKeyNotFound core conflictCore)
        conflictCore)
      (Io.catching isWrongGeneration
        (Io.catching isKeyNotFound io fun e => pure (conflictIo e))
        fun e => pure (conflictIo e)) := by
  have conflicts (_ : Exn) : Core.Agrees answers.answer (Core.lift (none : Option (Option V)))
      (Io.lift none) := .lift none
  exact (agrees.catching_ok conflicts).catching_ok conflicts

theorem agrees_write (entr : Option (Nat × V)) (nvalue : Option V) :
    Core.Agrees answers.answer (writeCore entr nvalue)
      (writeIo answers.primitives entr nvalue) := by
  rcases entr with - | ⟨generation, value⟩
  · cases nvalue with
    | none => exact .lift (some none)
    | some nvalue =>
        have created := (answers.agrees_perform (.create nvalue)).thenVal_ok fun _ =>
          Core.Agrees.lift (some (some nvalue))
        exact created.catching_ok fun _ => .lift none
  · cases nvalue with
    | none =>
        have deleted := (answers.agrees_perform (.del generation)).thenVoid_ok
          (Core.Agrees.lift (some (none : Option V)))
        exact agrees_checked answers deleted
    | some nvalue =>
        have updated := (answers.agrees_perform (.update generation nvalue)).thenVal_ok fun _ =>
          Core.Agrees.lift (some (some nvalue))
        exact agrees_checked answers updated

end Crud

theorem agrees_crud (answers : Answers σ V (Option V)) :
    Core.Agrees answers.answer crudCore (crudIo answers.primitives) := by
  refine answers.agrees_call answers.agrees_tryRead (Crud.agrees_write answers) ?_
  intro result
  cases result with
  | none => exact answers.agrees_perform .again
  | some v => exact .lift v

end SidepoolFormal.Saver
