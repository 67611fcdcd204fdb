import Mathlib.Logic.Function.Basic
import SidepoolFormal.Library.Run

/-!
# `Main`

The library as one process: its entry points, the idler, the callbacks that
the client holds and the destruction of the main object.  Greenthreads are
whatever code a client of the library's interfaces may be made of; the C++
stack is kept explicitly, innermost first.
-/

namespace SidepoolFormal.Main

open Library

inductive Interface where
  | saver
  | logger
  | randomizer
  | math
  deriving DecidableEq, Repr

/-- What code does next: it returns or throws, or it does something and is then
as `rest`.  `C` are the functions that it can be at or leave behind, `R` is
what callbacks are given. -/
inductive Act (C R : Type) where
  | returns
  | throws
  | enqueue (f rest : C)
  | call (i : Interface) (rest : C)
  | request (i : Interface) (callback : R → C) (rest : C)
  | wait (fail rest : C)
  | wake (rest : C)
  | share (rest : C)

/-- The functions that are there after an act. -/
def Act.Leaves {C R : Type} : Act C R → C → Prop
  | .returns, _ => False
  | .throws, _ => False
  | .enqueue f rest, d => d = f ∨ d = rest
  | .call _ rest, d => d = rest
  | .request _ callback rest, d => d = rest ∨ ∃ r, d = callback r
  | .wait fail rest, d => d = fail ∨ d = rest
  | .wake rest, d => d = rest
  | .share rest, d => d = rest

/-- Greenthreads.  `holds` are the functions that own a pointer to the math
library: only these call it, and a pointer is had from an owner or by sharing
the main object's. -/
structure Threads (C R : Type) where
  started : C
  next : C → Act C R → Prop
  catches : C → C → Prop
  holds : C → Prop
  calls_math : ∀ {c rest}, next c (.call .math rest) → holds c
  requests_math : ∀ {c callback rest}, next c (.request .math callback rest) → holds c
  leaves_holds : ∀ {c act d}, next c act → act.Leaves d → holds d →
    holds c ∨ act = .share d
  catches_holds : ∀ {c d}, catches c d → holds d → holds c

/-! ## Members -/

inductive Member where
  | idler
  | logger
  | bus
  | rng
  | saver
  | math
  | mods
  deriving DecidableEq, Repr

/-- The members of `Util`, as declared. -/
def utilMembers : List Member := [.idler, .logger, .bus, .rng]

/-- The members of `Main::Impl`, as declared, `util` first. -/
def mainMembers : List Member := utilMembers ++ [.saver, .math, .mods]

/-- What is on the stack: code, the loop of `now_idle`, a function of the
client's, the two entry points that wait for `now_idle`, and the destructor of
the main object with the members that it still has to destroy. -/
inductive Frame (C : Type) where
  | code (c : C)
  | nowIdle
  | client (i : Interface)
  | initFinish
  | receiveMessage
  | destroy (members : List Member)

inductive Status where
  | absent
  | running
  | freeing
  | gone
  deriving DecidableEq, Repr

/-- `toCall` is the idler's queue, `waiters` the continuations in the random
generator, `pending` the callbacks that the client has, `shared` whether the
main object still has its pointer to the math library.  `misused` lists the
interfaces that were called after they had been freed, or shared after that
pointer was gone. -/
structure State (C R : Type) where
  status : Status
  toCall : List C
  waiters : List C
  pending : List (R → C)
  shared : Bool
  freed : Interface → Bool
  misused : List Interface
  throwing : Bool
  stack : List (Frame C)

variable {C R : Type}

/-- Before `libsidepool_init_finish`. -/
def State.init : State C R where
  status := .absent
  toCall := []
  waiters := []
  pending := []
  shared := true
  freed := fun _ => false
  misused := []
  throwing := false
  stack := []

namespace State

/-- The client has control. -/
def InClient (s : State C R) : Prop :=
  s.throwing = false ∧ (s.stack = [] ∨ ∃ i rest, s.stack = .client i :: rest)

/-- A function of an interface is called. -/
def call (i : Interface) (s : State C R) : State C R :=
  { s with
    misused := if s.freed i then s.misused ++ [i] else s.misused
    stack := .client i :: s.stack }

/-- The `free` of an interface is called. -/
def freeInterface (i : Interface) (s : State C R) : State C R :=
  { s with freed := Function.update s.freed i true, stack := .client i :: s.stack }

/-- A function that somebody may still call or return to. -/
def Live (s : State C R) (c : C) : Prop :=
  c ∈ s.toCall ∨ c ∈ s.waiters ∨ (∃ callback ∈ s.pending, ∃ r, c = callback r) ∨ .code c ∈ s.stack

def HoldsMath (threads : Threads C R) (s : State C R) : Prop := ∃ c, s.Live c ∧ threads.holds c

/-- The effect of an act of the code on top of the stack. -/
def act (rest : List (Frame C)) (s : State C R) : Act C R → State C R
  | .returns => { s with stack := rest }
  | .throws => { s with stack := rest, throwing := true }
  | .enqueue f c => { s with toCall := s.toCall ++ [f], stack := .code c :: rest }
  | .call i c => call i { s with stack := .code c :: rest }
  | .request i callback c =>
    call i { s with pending := s.pending ++ [callback], stack := .code c :: rest }
  | .wait fail c => { s with waiters := s.waiters ++ [fail], stack := .code c :: rest }
  | .wake c => { s with waiters := s.waiters.tail, stack := .code c :: rest }
  | .share c =>
    { s with
      misused := if s.shared then s.misused else s.misused ++ [.math]
      stack := .code c :: rest }

/-- The destructor of a member, with `rest` below it.  The generator first
fails its waiters; the math library is freed with its last pointer. -/
def destroy (rest : List (Frame C)) (s : State C R) : Member → State C R
  | .mods => { s with stack := rest }
  | .math => { s with shared := false, stack := rest }
  | .saver => freeInterface .saver { s with stack := rest }
  | .rng => freeInterface .randomizer { s with stack := rest }
  | .bus => { s with stack := rest }
  | .logger => freeInterface .logger { s with stack := rest }
  | .idler => { s with stack := .nowIdle :: rest }

end State

/-! ## Steps -/

inductive Event (C R : Type) where
  | initFinish
  | receiveMessage
  | outOfMemory
  | callback (c : C)
  | free
  | runs (c : C)
  | idle
  | does (act : Act C R)
  | clientReturns
  | returns
  | catches (c : C)
  | unwinds
  | reports
  | aborts
  | fails (c : C)
  | destroys (m : Member)
  | mathFreed
  | freed

inductive Step (threads : Threads C R) (s : State C R) : Event C R → State C R → Prop
  /-- `libsidepool_init_finish`, with everything constructed: `Main::start`. -/
  | initFinish (absent : s.status = .absent) (idle : s.stack = []) :
      Step threads s .initFinish
        { s with
          status := .running
          toCall := s.toCall ++ [threads.started]
          stack := [.nowIdle, .initFinish] }
  /-- `libsidepool_receive_message`. -/
  | receiveMessage (running : s.status = .running) (fromC : s.InClient) :
      Step threads s .receiveMessage { s with stack := .nowIdle :: .receiveMessage :: s.stack }
  /-- The same, but the message cannot be copied. -/
  | outOfMemory (running : s.status = .running) (fromC : s.InClient) :
      Step threads s .outOfMemory { s with throwing := true, stack := .receiveMessage :: s.stack }
  /-- A `pass` or `fail` of the saver's or the randomizer's callbacks. -/
  | callback {before after : List (R → C)} {callback : R → C} (r : R)
      (exists_ : s.status = .running ∨ s.status = .freeing) (fromC : s.InClient)
      (held : s.pending = before ++ callback :: after) :
      Step threads s (.callback (callback r))
        { s with pending := before ++ after, stack := .code (callback r) :: s.stack }
  /-- `libsidepool_free`. -/
  | free (running : s.status = .running) (quiet : s.throwing = false) (idle : s.stack = []) :
      Step threads s .free { s with status := .freeing, stack := [.destroy mainMembers.reverse] }
  | runs {f : C} {toCall : List C} {rest : List (Frame C)} (quiet : s.throwing = false)
      (top : s.stack = .nowIdle :: rest) (queued : s.toCall = f :: toCall) :
      Step threads s (.runs f) { s with toCall := toCall, stack := .code f :: .nowIdle :: rest }
  | idle {rest : List (Frame C)} (quiet : s.throwing = false) (top : s.stack = .nowIdle :: rest)
      (empty : s.toCall = []) : Step threads s .idle { s with stack := rest }
  | does {c : C} {act : Act C R} {rest : List (Frame C)} (quiet : s.throwing = false)
      (top : s.stack = .code c :: rest) (next : threads.next c act) :
      Step threads s (.does act) (s.act rest act)
  | clientReturns {i : Interface} {rest : List (Frame C)} (quiet : s.throwing = false)
      (top : s.stack = .client i :: rest) :
      Step threads s .clientReturns { s with stack := rest }
  | returns {entry : Frame C} {rest : List (Frame C)} (quiet : s.throwing = false)
      (top : s.stack = entry :: rest) (done : entry = .initFinish ∨ entry = .receiveMessage) :
      Step threads s .returns { s with stack := rest }
  /-- An exception comes to code that has a try block around its call. -/
  | catches {c d : C} {rest : List (Frame C)} (thrown : s.throwing = true)
      (top : s.stack = .code c :: rest) (caught : threads.catches c d) :
      Step threads s (.catches d) { s with throwing := false, stack := .code d :: rest }
  | unwinds {frame : Frame C} {rest : List (Frame C)} (thrown : s.throwing = true)
      (top : s.stack = frame :: rest)
      (through : (∃ c, frame = .code c) ∨ frame = .nowIdle ∨ ∃ i, frame = .client i) :
      Step threads s .unwinds { s with stack := rest }
  /-- `receive_message` catches everything and logs an error. -/
  | reports {rest : List (Frame C)} (thrown : s.throwing = true)
      (top : s.stack = .receiveMessage :: rest) :
      Step threads s .reports (State.call .logger { s with throwing := false })
  /-- An exception leaves `libsidepool_init_finish`, whose `rv` is destroyed. -/
  | aborts (thrown : s.throwing = true) (top : s.stack = [.initFinish]) :
      Step threads s .aborts
        { s with status := .freeing, throwing := false, stack := [.destroy mainMembers.reverse] }
  /-- The destructor of the random generator clears out its waiters. -/
  | fails {fail : C} {waiters : List C} {members : List Member} {rest : List (Frame C)}
      (quiet : s.throwing = false) (top : s.stack = .destroy (.rng :: members) :: rest)
      (waiting : s.waiters = fail :: waiters) :
      Step threads s (.fails fail) { s with waiters := waiters, stack := .code fail :: s.stack }
  | destroys {m : Member} {members : List Member} {rest : List (Frame C)}
      (quiet : s.throwing = false) (top : s.stack = .destroy (m :: members) :: rest)
      (cleared : m = .rng → s.waiters = []) :
      Step threads s (.destroys m) (s.destroy (.destroy members :: rest) m)
  /-- The last pointer to the math library goes. -/
  | mathFreed (dropped : s.shared = false) (once : s.freed .math = false)
      (unheld : ¬s.HoldsMath threads) :
      Step threads s .mathFreed (s.freeInterface .math)
  | freed {rest : List (Frame C)} (quiet : s.throwing = false)
      (top : s.stack = .destroy [] :: rest) :
      Step threads s .freed { s with status := .gone, stack := rest }

end SidepoolFormal.Main
