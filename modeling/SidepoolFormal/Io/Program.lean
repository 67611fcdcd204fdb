import SidepoolFormal.Io.Code
import Mathlib.Data.List.Infix

/-!
# Programs built from the combinators

A program is a tree of combinators.  Its continuations and handlers are
functions that may throw instead of returning a program.  A program is run
through the combinators and, for comparison, evaluated in the exception monad;
both record the place of every continuation and handler that is entered.
-/

namespace SidepoolFormal.Io

open Library

/-- What the core of a primitive does at once. -/
inductive Primitive (E a : Type) where
  | pass (v : a)
  | fail (e : E)
  | raise (e : E)

/-- `throws` tells what a continuation or a handler throws instead of
returning its program. -/
inductive Prog (E : Type) : Type → Type 1 where
  | lift {a : Type} (v : a) : Prog E a
  | prim {a : Type} (r : Primitive E a) : Prog E a
  | thenVal {a b : Type} (m : Prog E a) (throws : a → Option E) (f : a → Prog E b) : Prog E b
  | thenVoid {b : Type} (m : Prog E Unit) (throws : Option E) (f : Prog E b) : Prog E b
  | catching {a : Type} (m : Prog E a) (isA : E → Bool) (throws : E → Option E)
      (h : E → Prog E a) : Prog E a

inductive Side where
  | left
  | right
  deriving DecidableEq, Repr

/-- The place of a combinator, innermost side first: to the left stands the
program it is applied to, to the right what its function returns. -/
abbrev Site := List Side

/-- What is seen of a run: the continuations and handlers entered, and the
calls made by `run`. -/
structure World (R : Type) where
  entered : List Site
  calls : List R

variable {E a b R : Type}

abbrev Act (R E a : Type) := Effect (Shared (World R)) E a

def record (s : Site) (st : Shared (World R)) : Shared (World R) :=
  { st with rest := { st.rest with entered := st.rest.entered ++ [s] } }

/-- Enter the function at a site: it throws or gives what it returns. -/
def enter {c : Type} (s : Site) (throws : Option E) (returns : c) : Act R E c := do
  modify (record s)
  match throws with
  | some e => throw e
  | none => pure returns

def Primitive.io : Primitive E a → Io (Shared (World R)) E a
  | .pass v => fun pass _ => pass v
  | .fail e => fun _ fail => fail e
  | .raise e => fun _ _ => throw e

namespace Prog

/-- `catch_all`. -/
def catchAll (m : Prog E a) (throws : E → Option E) (h : E → Prog E a) : Prog E a :=
  .catching m (fun _ => true) throws h

/-- `operator+=`. -/
def append (m n : Prog E Unit) : Prog E Unit := .thenVoid m none n

/-- The program as the combinators build it. -/
def io : {a : Type} → Prog E a → Site → Io (Shared (World R)) E a
  | _, .lift v, _ => Io.lift v
  | _, .prim r, _ => r.io
  | _, .thenVal m throws f, s =>
      Io.thenVal (m.io (.left :: s)) fun v => enter s (throws v) ((f v).io (.right :: s))
  | _, .thenVoid m throws f, s =>
      Io.thenVoid (m.io (.left :: s)) (enter s throws (f.io (.right :: s)))
  | _, .catching m isA throws h, s =>
      Io.catching isA (m.io (.left :: s)) fun e => enter s (throws e) ((h e).io (.right :: s))

theorem io_catchAll (m : Prog E a) (throws : E → Option E) (h : E → Prog E a) (s : Site) :
    ((m.catchAll throws h).io s : Io (Shared (World R)) E a) =
      Io.catchAll (m.io (.left :: s)) fun e => enter s (throws e) ((h e).io (.right :: s)) :=
  (catchAll_eq _ _).symm

/-- The second program of `operator+=` is entered as a function that returns it. -/
theorem io_append (m n : Prog E Unit) (s : Site) :
    ((m.append n).io s : Io (Shared (World R)) E Unit) =
      Io.append (m.io (.left :: s)) fun pass fail =>
        modify (record s) >>= fun _ => n.io (.right :: s) pass fail := rfl

/-- The standard evaluation, in the exception monad. -/
def eval : {a : Type} → Prog E a → Site → Act R E a
  | _, .lift v, _ => pure v
  | _, .prim (.pass v), _ => pure v
  | _, .prim (.fail e), _ => throw e
  | _, .prim (.raise e), _ => throw e
  | _, .thenVal m throws f, s => do
      let v ← m.eval (.left :: s)
      enter s (throws v) ()
      (f v).eval (.right :: s)
  | _, .thenVoid m throws f, s => do
      m.eval (.left :: s)
      enter s throws ()
      f.eval (.right :: s)
  | _, .catching m isA throws h, s =>
      tryCatch (m.eval (.left :: s)) fun e =>
        if isA e then do
          enter s (throws e) ()
          (h e).eval (.right :: s)
        else throw e

/-- A continuation of `run` records that it was called. -/
def call (r : R) : Act R E Unit :=
  modify fun st => { st with rest := { st.rest with calls := st.rest.calls ++ [r] } }

/-- Run a program with continuations that record their calls. -/
def run (m : Prog E a) : Act (Except E a) E Unit :=
  Io.run (m.io []) (fun v => call (.ok v)) (fun e => call (.error e))

/-- The state before a run. -/
def start : Shared (World R) := ⟨false, [], []⟩

/-- Running the program is evaluating it: one continuation is called, once,
with the outcome of the evaluation, and every function is entered as often. -/
structure Faithful (m : Prog E a) : Prop where
  calls : (m.run start).2.rest.calls = [((m.eval [] : Act (Except E a) E a) start).1]
  entered : ∀ s, (m.run start).2.rest.entered.count s =
    ((m.eval [] : Act (Except E a) E a) start).2.rest.entered.count s

/-! ## When the two agree -/

/-- How the evaluation ends. -/
def outcome : {a : Type} → Prog E a → Except E a
  | _, .lift v => .ok v
  | _, .prim (.pass v) => .ok v
  | _, .prim (.fail e) => .error e
  | _, .prim (.raise e) => .error e
  | _, .thenVal m throws f =>
      match m.outcome with
      | .error e => .error e
      | .ok v => match throws v with
        | some e => .error e
        | none => (f v).outcome
  | _, .thenVoid m throws f =>
      match m.outcome with
      | .error e => .error e
      | .ok _ => match throws with
        | some e => .error e
        | none => f.outcome
  | _, .catching m isA throws h =>
      match m.outcome with
      | .ok v => .ok v
      | .error e =>
          if isA e then match throws e with
            | some e => .error e
            | none => (h e).outcome
          else .error e

/-- What the core throws without calling a continuation. -/
def raised : {a : Type} → Prog E a → Option E
  | _, .prim (.raise e) => some e
  | _, .catching m _ _ _ => m.raised
  | _, .lift _ => none
  | _, .prim (.pass _) => none
  | _, .prim (.fail _) => none
  | _, .thenVal _ _ _ => none
  | _, .thenVoid _ _ _ => none

/-- What is thrown where a function is entered: by the function, or by the
core of the program it returns. -/
def thrown (throws : Option E) (m : Prog E a) : Option E := throws.or m.raised

/-- When a program has passed its value, the innermost try block it has left
open, given by the handlers that an exception caught there goes through. -/
def exposed : {a : Type} → Prog E a → Option (List (E → Bool))
  | _, .lift _ => none
  | _, .prim _ => none
  | _, .thenVal m _ f =>
      match m.outcome with
      | .error _ => none
      | .ok v => some ((f v).exposed.getD (m.exposed.getD []))
  | _, .thenVoid _ _ f => some (f.exposed.getD [])
  | _, .catching m isA _ h =>
      match m.outcome with
      | .ok _ => m.exposed.map (isA :: ·)
      | .error e => some ((h e).exposed.getD [])

/-- No exception of a continuation meets a handler of the program before it,
and no primitive throws what a handler around it would take. -/
def Clean : {a : Type} → Prog E a → Prop
  | _, .lift _ => True
  | _, .prim _ => True
  | _, .thenVal m throws f =>
      m.Clean ∧ ∀ v, m.outcome = .ok v →
        (∀ e, thrown (throws v) (f v) = some e →
          ∀ handlers, m.exposed = some handlers → handlers.any (· e) = false) ∧
        (throws v = none → (f v).Clean)
  | _, .thenVoid m throws f =>
      m.Clean ∧ ∀ v, m.outcome = .ok v → throws = none → f.Clean
  | _, .catching m isA throws h =>
      m.Clean ∧ (∀ e, m.raised = some e → isA e = false) ∧
        ∀ e, m.outcome = .error e → isA e = true → throws e = none → (h e).Clean

end Prog

end SidepoolFormal.Io
