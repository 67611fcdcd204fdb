import SidepoolFormal.Library.Run

/-!
# `now_idle`, however it is nested

The queue `to_call` and the loops that drain it.  What the idler calls, and what
calls the idler, is any code that may queue functions, call `now_idle` and throw;
the C++ stack is kept explicitly, innermost first.  A function is queued together
with how many were queued before it.
-/

namespace SidepoolFormal.Idler.Drain

open Library

/-- What code does next: it returns or throws, or it calls into the idler and is
then as `rest`.  A `yield` is run with a continuation, which may be an empty
function; a `fork` runs its own yield with one. -/
inductive Act (C Io : Type) where
  | returns
  | throws
  | start (io : Io) (rest : C)
  | yield (pass : Option C) (rest : C)
  | fork (io : Io) (pass : Option C) (rest : C)
  | nowIdle (rest : C)

/-- Code around the idler: `catches` are its try blocks, and `starting` is the
function that `start` puts around a greenthread. -/
structure Program (C Io : Type) where
  next : C → Act C Io → Prop
  catches : C → C → Prop
  starting : Io → C

/-- An entry of the queue. -/
abbrev Job (C : Type) := Nat × Option C

inductive Frame (C : Type) where
  | code (c : C)
  | nowIdle

structure State (C : Type) where
  toCall : List (Job C)
  queued : Nat
  throwing : Bool
  stack : List (Frame C)

variable {C Io : Type}

def State.initial : State C := ⟨[], 0, false, []⟩

/-- Functions, each with how many were queued before it. -/
def entries (queued : Nat) : List (Option C) → List (Job C)
  | [] => []
  | f :: rest => (queued, f) :: entries (queued + 1) rest

/-- `to_call.emplace`, for one function after the other. -/
def State.emplace (fs : List (Option C)) (s : State C) : State C :=
  { s with toCall := s.toCall ++ entries s.queued fs, queued := s.queued + fs.length }

/-- The functions that an act queues. -/
def Act.queues (program : Program C Io) : Act C Io → List (Option C)
  | .returns => []
  | .throws => []
  | .start io _ => [some (program.starting io)]
  | .yield pass _ => [pass]
  | .fork io pass _ => [some (program.starting io), pass]
  | .nowIdle _ => []

/-- The frames that an act leaves. -/
def Act.frames : Act C Io → List (Frame C)
  | .returns => []
  | .throws => []
  | .start _ rest => [.code rest]
  | .yield _ rest => [.code rest]
  | .fork _ _ rest => [.code rest]
  | .nowIdle rest => [.nowIdle, .code rest]

def Act.thrown : Act C Io → Bool
  | .throws => true
  | _ => false

inductive Label (C : Type) where
  | begins (c : C)
  | does (jobs : List (Job C))
  | enters (n : Nat) (f : C)
  | skips (n : Nat)
  | idle
  | catches (c : C)
  | unwinds
  | escapes

inductive Step (program : Program C Io) (s : State C) : Label C → State C → Prop
  /-- The code that owns the idler has control. -/
  | begins (c : C) (quiet : s.throwing = false) (outside : s.stack = []) :
      Step program s (.begins c) { s with stack := [.code c] }
  | does {c : C} {act : Act C Io} {rest : List (Frame C)} (quiet : s.throwing = false)
      (top : s.stack = .code c :: rest) (next : program.next c act) :
      Step program s (.does (entries s.queued (act.queues program)))
        { s.emplace (act.queues program) with
          throwing := act.thrown, stack := act.frames ++ rest }
  /-- The loop of `now_idle` moves the front out of the queue and calls it. -/
  | enters {n : Nat} {f : C} {toCall : List (Job C)} {rest : List (Frame C)}
      (quiet : s.throwing = false) (top : s.stack = .nowIdle :: rest)
      (front : s.toCall = (n, some f) :: toCall) :
      Step program s (.enters n f)
        { s with toCall := toCall, stack := .code f :: .nowIdle :: rest }
  /-- The front is an empty function. -/
  | skips {n : Nat} {toCall : List (Job C)} {rest : List (Frame C)}
      (quiet : s.throwing = false) (top : s.stack = .nowIdle :: rest)
      (front : s.toCall = (n, none) :: toCall) :
      Step program s (.skips n) { s with toCall := toCall }
  /-- `now_idle` returns. -/
  | idle {rest : List (Frame C)} (quiet : s.throwing = false) (top : s.stack = .nowIdle :: rest)
      (empty : s.toCall = []) : Step program s .idle { s with stack := rest }
  | catches {c d : C} {rest : List (Frame C)} (thrown : s.throwing = true)
      (top : s.stack = .code c :: rest) (caught : program.catches c d) :
      Step program s (.catches d) { s with throwing := false, stack := .code d :: rest }
  | unwinds {frame : Frame C} {rest : List (Frame C)} (thrown : s.throwing = true)
      (top : s.stack = frame :: rest) : Step program s .unwinds { s with stack := rest }
  /-- The exception leaves all code. -/
  | escapes (thrown : s.throwing = true) (outside : s.stack = []) :
      Step program s .escapes { s with throwing := false }

end SidepoolFormal.Idler.Drain
