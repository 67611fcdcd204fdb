import SidepoolFormal.Io.Code
import SidepoolFormal.Library.Task

/-!
# Tasks run by the combinators

As long as no continuation throws, no try block of the combinators catches
anything but what it is meant to.  The combinators are then those of the
exception monad: they do what tasks do.
-/

namespace SidepoolFormal.Io

open Library

variable {σ E a b Op : Type} {Ans : Op → Type}

/-- Continuations that never throw. -/
structure Calm (pass : a → Effect σ E Unit) (fail : E → Effect σ E Unit) : Prop where
  pass : ∀ v, (pass v).Quiet
  fail : ∀ e, (fail e).Quiet

/-- An `Io` that never throws unless one of its continuations does. -/
def Tame (core : Io σ E a) : Prop := ∀ pass fail, Calm pass fail → (core pass fail).Quiet

/-- What a task asks for is performed, and it goes on inside the continuations. -/
def ofTask (perform : (op : Op) → Io σ E (Ans op)) : Task Op Ans E a → Io σ E a
  | .done (.ok v) => lift v
  | .done (.error e) => fun _ fail => fail e
  | .ask op k => fun pass fail =>
      perform op (fun v => ofTask perform (k (.ok v)) pass fail)
        fun e => ofTask perform (k (.error e)) pass fail

variable {perform : (op : Op) → Io σ E (Ans op)}

theorem ofTask_tame (tame : ∀ op, Tame (perform op)) (t : Task Op Ans E a) :
    Tame (ofTask perform t) := by
  intro pass fail calm
  induction t with
  | done r =>
      cases r with
      | ok v => exact calm.pass v
      | error e => exact calm.fail e
  | ask op k ih => exact tame op _ _ ⟨fun v => ih (.ok v), fun e => ih (.error e)⟩

theorem ofTask_continue (t : Task Op Ans E a) (f : Except E a → Task Op Ans E b)
    (pass : b → Effect σ E Unit) (fail : E → Effect σ E Unit) :
    ofTask perform (t.continue_ f) pass fail =
      ofTask perform t (fun v => ofTask perform (f (.ok v)) pass fail)
        fun e => ofTask perform (f (.error e)) pass fail := by
  induction t with
  | done r => cases r <;> rfl
  | ask op k ih => simp only [Task.continue_, ofTask, ih]

/-- With continuations that do not throw, an `Io` does what a task does. -/
def Runs (perform : (op : Op) → Io σ E (Ans op)) (core : Io σ E a) (t : Task Op Ans E a) : Prop :=
  ∀ pass fail, Calm pass fail → core pass fail = ofTask perform t pass fail

namespace Runs

theorem lift (v : a) : Runs perform (Io.lift v) (Task.lift v) := fun _ _ _ => rfl

theorem request (op : Op) : Runs perform (perform op) (Task.request op) := fun _ _ _ => rfl

theorem thenVal (tame : ∀ op, Tame (perform op)) {core : Io σ E a} {t : Task Op Ans E a}
    {func : a → Io σ E b} {f : a → Task Op Ans E b} (first : Runs perform core t)
    (second : ∀ v, Runs perform (func v) (f v)) :
    Runs perform (Io.thenVal core fun v => pure (func v)) (t.andThen f) := by
  intro pass fail calm
  have next (v : a) : (pure (func v) >>= fun io : Io σ E b => io pass fail) =
      ofTask perform (f v) pass fail := second v pass fail calm
  have inner : Calm (fun v => ofTask perform (f v) pass fail) fail :=
    ⟨fun v => ofTask_tame tame (f v) pass fail calm, calm.fail⟩
  rw [Task.andThen, ofTask_continue]
  simp only [Io.thenVal, next]
  rw [first _ _ inner]
  exact Effect.tryCatch_quiet (ofTask_tame tame t _ _ inner) _

theorem thenVoid (tame : ∀ op, Tame (perform op)) {core : Io σ E Unit} {t : Task Op Ans E Unit}
    {func : Io σ E b} {f : Task Op Ans E b} (first : Runs perform core t)
    (second : Runs perform func f) :
    Runs perform (Io.thenVoid core (pure func)) (t.andThen fun _ => f) := by
  intro pass fail calm
  have next : (pure func >>= fun io : Io σ E b => io pass fail) = ofTask perform f pass fail :=
    second pass fail calm
  have quiet : (ofTask perform f pass fail).Quiet := ofTask_tame tame f pass fail calm
  have inner : Calm (fun _ : Unit => ofTask perform f pass fail) fail :=
    ⟨fun _ => quiet, calm.fail⟩
  rw [Task.andThen, ofTask_continue]
  simp only [Io.thenVoid, next, Effect.tryCatch_quiet quiet]
  rw [first _ _ inner]
  exact Effect.tryCatch_quiet (ofTask_tame tame t _ _ inner) _

theorem catching (tame : ∀ op, Tame (perform op)) {core : Io σ E a} {t : Task Op Ans E a}
    {isA : E → Bool} {handler : E → Io σ E a} {h : E → Task Op Ans E a}
    (first : Runs perform core t) (handled : ∀ e, Runs perform (handler e) (h e)) :
    Runs perform (Io.catching isA core fun e => pure (handler e)) (t.catching isA h) := by
  intro pass fail calm
  have next (e : E) : (pure (handler e) >>= fun io : Io σ E a => io pass fail) =
      ofTask perform (h e) pass fail := handled e pass fail calm
  have quiet (e : E) : (ofTask perform (h e) pass fail).Quiet :=
    ofTask_tame tame (h e) pass fail calm
  have subFail (e : E) : ofTask perform (if isA e then h e else .done (.error e)) pass fail =
      if isA e then ofTask perform (h e) pass fail else fail e := by
    split <;> rfl
  have inner : Calm pass fun e => if isA e then ofTask perform (h e) pass fail else fail e := by
    constructor
    · exact calm.pass
    · intro e
      split
      · exact quiet e
      · exact calm.fail e
  rw [Task.catching, ofTask_continue]
  simp only [Io.catching, next, Effect.tryCatch_quiet (quiet _), subFail]
  exact first _ _ inner

end Runs

end SidepoolFormal.Io
