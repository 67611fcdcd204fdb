import SidepoolFormal.Io.Code
import SidepoolFormal.Library.Proc

/-!
# Cores

The combinators once more, for primitives that may complete after their core
has returned.  What a core does with its two continuations is then code that
gives control away.  Where every primitive completes at once these are the
combinators of `Io`.
-/

namespace SidepoolFormal

open Library

/-- `CoreFunc`: what the core does, given what is done with a value and what is
done with an exception. -/
abbrev Core (Op : Type) (Ans : Op → Type) (E a : Type) :=
  (a → Proc Op Ans E) → (E → Proc Op Ans E) → Proc Op Ans E

namespace Core

variable {Op : Type} {Ans : Op → Type} {E a b : Type}

def lift (val : a) : Core Op Ans E a := fun pass _ => pass val

/-- A primitive that is an operation. -/
def perform (op : Op) : Core Op Ans E (Ans op) := fun pass fail =>
  .ask op fun
    | .ok v => pass v
    | .error e => fail e

/-- Call a function, which may throw instead of returning, and run what it
returns. -/
def enter (func : Except E (Core Op Ans E a)) : Core Op Ans E a := fun pass fail =>
  match func with
  | .error e => .throw e
  | .ok io => io pass fail

/-- `Io<a>::then`. -/
def thenVal (core : Core Op Ans E a) (func : a → Except E (Core Op Ans E b)) : Core Op Ans E b :=
  fun pass fail =>
    .attempt
      (let subPass := fun value => enter (func value) pass fail
      core subPass fail)
      fail

/-- `Io<void>::then`. -/
def thenVoid (core : Core Op Ans E Unit) (func : Except E (Core Op Ans E b)) : Core Op Ans E b :=
  fun pass fail =>
    .attempt
      (let subPass := fun _ => .attempt (enter func pass fail) fail
      core subPass fail)
      fail

/-- `catching<e>`. -/
def catching (isA : E → Bool) (core : Core Op Ans E a)
    (handler : E → Except E (Core Op Ans E a)) : Core Op Ans E a := fun pass fail =>
  let subFail := fun err =>
    if isA err then .attempt (enter (handler err) pass fail) fail else fail err
  core pass subFail

/-! ## Primitives that complete at once -/

variable {σ : Type} {perform : (op : Op) → Effect σ E (Except E (Ans op))}

/-- A function of the one kind as a function of the other. -/
def liftExcept {c : Type} : Except E c → Effect σ E c
  | .error e => throw e
  | .ok v => pure v

/-- A core does what an `Io` does, where its primitives complete at once. -/
def Agrees (perform : (op : Op) → Effect σ E (Except E (Ans op))) (core : Core Op Ans E a)
    (io : Io σ E a) : Prop :=
  ∀ pass fail, (core pass fail).exec perform =
    io (fun v => (pass v).exec perform) fun e => (fail e).exec perform

/-- Two functions throw the same or return what agrees. -/
inductive Agree (perform : (op : Op) → Effect σ E (Except E (Ans op))) :
    Except E (Core Op Ans E a) → Except E (Io σ E a) → Prop
  | error (e : E) : Agree perform (.error e) (.error e)
  | ok {core : Core Op Ans E a} {io : Io σ E a} (agrees : Agrees perform core io) :
      Agree perform (.ok core) (.ok io)

theorem Agree.enter {func : Except E (Core Op Ans E a)} {func' : Except E (Io σ E a)}
    (agree : Agree perform func func') :
    Agrees perform (Core.enter func) fun pass fail =>
      liftExcept func' >>= fun io : Io σ E a => io pass fail := by
  intro pass fail
  cases agree with
  | error e => rfl
  | ok agrees => exact agrees pass fail

namespace Agrees

theorem lift (v : a) : Agrees perform (Core.lift v) (Io.lift v) := fun _ _ => rfl

theorem thenVal {core : Core Op Ans E a} {io : Io σ E a}
    {func : a → Except E (Core Op Ans E b)} {func' : a → Except E (Io σ E b)}
    (first : Agrees perform core io) (second : ∀ v, Agree perform (func v) (func' v)) :
    Agrees perform (Core.thenVal core func) (Io.thenVal io fun v => liftExcept (func' v)) := by
  intro pass fail
  have next (v : a) := (second v).enter pass fail
  simp only [Core.thenVal, Io.thenVal, Proc.exec, first _ _, next]

theorem thenVoid {core : Core Op Ans E Unit} {io : Io σ E Unit}
    {func : Except E (Core Op Ans E b)} {func' : Except E (Io σ E b)}
    (first : Agrees perform core io) (second : Agree perform func func') :
    Agrees perform (Core.thenVoid core func) (Io.thenVoid io (liftExcept func')) := by
  intro pass fail
  have next := second.enter pass fail
  simp only [Core.thenVoid, Io.thenVoid, Proc.exec, first _ _, next]

theorem catching {isA : E → Bool} {core : Core Op Ans E a} {io : Io σ E a}
    {handler : E → Except E (Core Op Ans E a)} {handler' : E → Except E (Io σ E a)}
    (first : Agrees perform core io) (handled : ∀ e, Agree perform (handler e) (handler' e)) :
    Agrees perform (Core.catching isA core handler)
      (Io.catching isA io fun e => liftExcept (handler' e)) := by
  intro pass fail
  have next (e : E) := (handled e).enter pass fail
  have subFail (err : E) : (if isA err then
      Proc.attempt (Core.enter (handler err) pass fail) fail else fail err).exec perform =
      if isA err then
        tryCatch (liftExcept (handler' err) >>= fun io : Io σ E a =>
          io (fun v => (pass v).exec perform) fun e => (fail e).exec perform)
          fun e => (fail e).exec perform
      else (fail err).exec perform := by
    split
    · rw [Proc.exec, next]
    · rfl
  simp only [Core.catching, Io.catching, first _ _, subFail]

/-! Functions that return. -/

theorem thenVal_ok {core : Core Op Ans E a} {io : Io σ E a} {func : a → Core Op Ans E b}
    {func' : a → Io σ E b} (first : Agrees perform core io)
    (second : ∀ v, Agrees perform (func v) (func' v)) :
    Agrees perform (Core.thenVal core fun v => .ok (func v))
      (Io.thenVal io fun v => pure (func' v)) := by
  have returned (v : a) : Agree perform (.ok (func v)) (.ok (func' v)) := .ok (second v)
  exact first.thenVal returned

theorem thenVoid_ok {core : Core Op Ans E Unit} {io : Io σ E Unit} {func : Core Op Ans E b}
    {func' : Io σ E b} (first : Agrees perform core io) (second : Agrees perform func func') :
    Agrees perform (Core.thenVoid core (.ok func)) (Io.thenVoid io (pure func')) :=
  first.thenVoid (.ok second)

theorem catching_ok {isA : E → Bool} {core : Core Op Ans E a} {io : Io σ E a}
    {handler : E → Core Op Ans E a} {handler' : E → Io σ E a} (first : Agrees perform core io)
    (handled : ∀ e, Agrees perform (handler e) (handler' e)) :
    Agrees perform (Core.catching isA core fun e => .ok (handler e))
      (Io.catching isA io fun e => pure (handler' e)) := by
  have returned (e : E) : Agree perform (.ok (handler e)) (.ok (handler' e)) := .ok (handled e)
  exact first.catching returned

end Agrees

end Core

end SidepoolFormal
