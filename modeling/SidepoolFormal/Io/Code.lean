import SidepoolFormal.Library.Effect

/-!
# `Io`

An `Io` is its `core`: given what to do with a value and what to do with an
exception, it runs.  All of it happens on one C++ stack, so a `core` that is
given its two continuations is a computation that changes the state and may
throw, and the combinators are the source's, try blocks included.
-/

namespace SidepoolFormal

open Library

/-- `Io<a>`, run in states `σ`, with exceptions `E`. -/
abbrev Io (σ E a : Type) := (a → Effect σ E Unit) → (E → Effect σ E Unit) → Effect σ E Unit

namespace Io

variable {σ E a b : Type}

def lift (val : a) : Io σ E a := fun pass _ => pass val

/-- `Io<a>::then`. -/
def thenVal (core : Io σ E a) (func : a → Effect σ E (Io σ E b)) : Io σ E b := fun pass fail =>
  tryCatch
    (let subPass := fun value => do
      let io ← func value
      io pass fail
    core subPass fail)
    fun e => fail e

/-- `Io<void>::then`. -/
def thenVoid (core : Io σ E Unit) (func : Effect σ E (Io σ E b)) : Io σ E b := fun pass fail =>
  tryCatch
    (let subPass := fun _ =>
      tryCatch
        (do
          let io ← func
          io pass fail)
        fun e => fail e
    core subPass fail)
    fun e => fail e

/-- `catching<e>`; `isA` tells the exceptions that `catch (e const&)` takes. -/
def catching (isA : E → Bool) (core : Io σ E a) (handler : E → Effect σ E (Io σ E a)) : Io σ E a :=
  fun pass fail =>
    let subFail := fun err =>
      if isA err then
        tryCatch
          (do
            let io ← handler err
            io pass fail)
          fun e => fail e
      else
        fail err
    core pass subFail

def catchAll (core : Io σ E a) (handler : E → Effect σ E (Io σ E a)) : Io σ E a :=
  fun pass fail =>
    let subFail := fun err =>
      tryCatch
        (do
          let io ← handler err
          io pass fail)
        fun e => fail e
    core pass subFail

/-- `operator+=`. -/
def append (x y : Io σ E Unit) : Io σ E Unit := thenVoid x (pure y)

theorem catchAll_eq (core : Io σ E a) (handler : E → Effect σ E (Io σ E a)) :
    catchAll core handler = catching (fun _ => true) core handler := rfl

/-! ## Running -/

/-- A state together with the flag `completed` that `run` allocates. -/
structure Shared (ρ : Type) where
  completed : Bool
  rest : ρ

/-- Call a continuation unless one has been called. -/
def once {ρ : Type} (continuation : Effect (Shared ρ) E Unit) : Effect (Shared ρ) E Unit := do
  let shared ← get
  if !shared.completed then
    modify fun shared => { shared with completed := true }
    continuation

/-- `Io<a>::run`. -/
def run {ρ : Type} (core : Io (Shared ρ) E a) (pass : a → Effect (Shared ρ) E Unit)
    (fail : E → Effect (Shared ρ) E Unit) : Effect (Shared ρ) E Unit := do
  modify fun shared => { shared with completed := false }
  let subPass := fun value => once (pass value)
  let subFail := fun e => once (fail e)
  tryCatch (core subPass subFail) fun e => once (fail e)

end Io

end SidepoolFormal
