import SidepoolFormal.Io.Core

/-!
# `Idler`

Greenthreads and the queue `to_call`.  `now_idle` calls what is queued, one
function after the other; a function either starts a greenthread, through `run`,
or goes on with one that has yielded.
-/

namespace SidepoolFormal.Idler

open Library

/-- Wait in the queue, queue the n-th program, or call a continuation that the
g-th call of `run` was given: `fail` with an exception, or `pass`. -/
inductive Op (E : Type) where
  | yield
  | start (n : Nat)
  | finish (g : Nat) (r : Option E)

abbrev Code (E : Type) := Proc (Op E) (fun _ => Unit) E

abbrev Io (E a : Type) := Core (Op E) (fun _ => Unit) E a

variable {E a b : Type}

def yield : Io E Unit := fun pass _ => .ask .yield fun _ => pass ()

/-- What a function returns that calls `start` with the n-th program. -/
def starting (n : Nat) (io : Io E a) : Io E a := fun pass fail =>
  .ask (.start n) fun _ => io pass fail

def fork (n : Nat) : Io E Unit := Core.thenVoid (Core.lift ()) (.ok (starting n yield))

/-- What greenthreads are written with; `void` tells an `Io<void>`, whose `then`
is the guarded one. -/
inductive Built : Bool → {a : Type} → Io E a → Prop
  | lift {a : Type} (v : a) : Built false (Core.lift v)
  | liftVoid : Built true (Core.lift ())
  | fails {a : Type} (void : Bool) (e : E) : Built void (a := a) fun _ fail => fail e
  | raises {a : Type} (void : Bool) (e : E) : Built void (a := a) fun _ _ => .throw e
  | yield : Built true yield
  | starting {a : Type} {void : Bool} {io : Io E a} (n : Nat) (after : Built void io) :
      Built void (starting n io)
  | thenVal {a b : Type} {void : Bool} {core : Io E a} {func : a → Except E (Io E b)}
      (first : Built false core) (second : ∀ v io, func v = .ok io → Built void io) :
      Built void (Core.thenVal core func)
  | thenVoid {b : Type} {void : Bool} {core : Io E Unit} {func : Except E (Io E b)}
      (first : Built true core) (second : ∀ io, func = .ok io → Built void io) :
      Built void (Core.thenVoid core func)
  | catching {a : Type} {void : Bool} {core : Io E a} {isA : E → Bool}
      {handler : E → Except E (Io E a)} (first : Built void core)
      (handled : ∀ e io, handler e = .ok io → Built void io) :
      Built void (Core.catching isA core handler)

theorem Built.fork (n : Nat) : Built true (fork n : Io E Unit) := by
  refine .thenVoid .liftVoid fun io same => ?_
  cases same
  exact .starting n .yield

/-- `run`, called for the g-th time. -/
def run (g : Nat) (io : Io E Unit) : Code E :=
  let subPass := fun _ => Proc.ask (.finish g none) fun _ => .ret
  let subFail := fun e => Proc.ask (.finish g (some e)) fun _ => .ret
  .attempt (io subPass subFail) subFail

/-! ## `now_idle` -/

/-- A queued function: it runs the n-th program, or resumes the g-th call of
`run`. -/
inductive Job (E : Type) where
  | start (n : Nat)
  | resume (g : Nat) (code : Code E)

/-- Who has control: the code around the idler, the loop of `now_idle`, or a
function that it has called.  Below the first function of a greenthread there is
`run`, out of which nothing can be thrown. -/
inductive Control (E : Type) where
  | outside
  | looping
  | running (g : Nat) (first : Bool) (stop : Proc.Stop (Op E) (fun _ => Unit) E)
  | terminated

structure State (E : Type) where
  toCall : List (Job E)
  runs : Nat
  completed : List Nat
  control : Control E

/-- What happens in a step.  `ended` says that `fail` is called, and whether no
try block is open and no `run` below. -/
inductive Label (E : Type) where
  | starts (n : Nat)
  | nowIdle
  | calls
  | goes
  | passed (g : Nat)
  | ended (g : Nat) (e : E) (bare : Bool)
  | escaped (g : Nat) (e : E)
  | terminated (g : Nat) (e : E)
  | returns

def initial : State E := ⟨[], 0, [], .outside⟩

variable (isFreed : E → Bool) (program : Nat → Io E Unit)

/-- The continuation `fail` of `start` returns when it is given a `Freed`, and
rethrows anything else. -/
def rethrow (e : E) (k : Except E Unit → Code E)
    (tries : List (Proc.Try (Op E) (fun _ => Unit) E)) : Proc.Stop (Op E) (fun _ => Unit) E :=
  if isFreed e then Proc.settle (k (.ok ())) tries else Proc.unwind tries e

inductive Step : State E → Label E → State E → Prop
  | starts {toCall : List (Job E)} {runs : Nat} {completed : List Nat} (n : Nat) :
      Step ⟨toCall, runs, completed, .outside⟩ (.starts n)
        ⟨toCall ++ [.start n], runs, completed, .outside⟩
  | nowIdle {toCall : List (Job E)} {runs : Nat} {completed : List Nat} :
      Step ⟨toCall, runs, completed, .outside⟩ .nowIdle ⟨toCall, runs, completed, .looping⟩
  | returns {runs : Nat} {completed : List Nat} :
      Step ⟨[], runs, completed, .looping⟩ .returns ⟨[], runs, completed, .outside⟩
  | first {n : Nat} {toCall : List (Job E)} {runs : Nat} {completed : List Nat} :
      Step ⟨.start n :: toCall, runs, completed, .looping⟩ .calls
        ⟨toCall, runs + 1, completed,
          .running runs true (Proc.settle (run runs (program n)) [])⟩
  | resume {g : Nat} {code : Code E} {toCall : List (Job E)} {runs : Nat} {completed : List Nat} :
      Step ⟨.resume g code :: toCall, runs, completed, .looping⟩ .calls
        ⟨toCall, runs, completed, .running g false (Proc.settle code [])⟩
  | yield {toCall : List (Job E)} {runs : Nat} {completed : List Nat} {g : Nat} {first : Bool}
      {k : Except E Unit → Code E} {tries : List (Proc.Try (Op E) (fun _ => Unit) E)} :
      Step ⟨toCall, runs, completed, .running g first (.asks .yield k tries)⟩ .goes
        ⟨toCall ++ [.resume g (k (.ok ()))], runs, completed, .looping⟩
  | start {toCall : List (Job E)} {runs : Nat} {completed : List Nat} {g : Nat} {first : Bool}
      {n : Nat} {k : Except E Unit → Code E} {tries : List (Proc.Try (Op E) (fun _ => Unit) E)} :
      Step ⟨toCall, runs, completed, .running g first (.asks (.start n) k tries)⟩ .goes
        ⟨toCall ++ [.start n], runs, completed, .running g first (Proc.settle (k (.ok ())) tries)⟩
  | again {toCall : List (Job E)} {runs : Nat} {completed : List Nat} {g : Nat} {first : Bool}
      {g' : Nat} {r : Option E} {k : Except E Unit → Code E}
      {tries : List (Proc.Try (Op E) (fun _ => Unit) E)} (before : g' ∈ completed) :
      Step ⟨toCall, runs, completed, .running g first (.asks (.finish g' r) k tries)⟩ .goes
        ⟨toCall, runs, completed, .running g first (Proc.settle (k (.ok ())) tries)⟩
  | passed {toCall : List (Job E)} {runs : Nat} {completed : List Nat} {g : Nat} {first : Bool}
      {g' : Nat} {k : Except E Unit → Code E} {tries : List (Proc.Try (Op E) (fun _ => Unit) E)}
      (firstly : g' ∉ completed) :
      Step ⟨toCall, runs, completed, .running g first (.asks (.finish g' none) k tries)⟩
        (.passed g')
        ⟨toCall, runs, g' :: completed, .running g first (Proc.settle (k (.ok ())) tries)⟩
  | ended {toCall : List (Job E)} {runs : Nat} {completed : List Nat} {g : Nat} {first : Bool}
      {g' : Nat} {e : E} {k : Except E Unit → Code E}
      {tries : List (Proc.Try (Op E) (fun _ => Unit) E)} (firstly : g' ∉ completed) :
      Step ⟨toCall, runs, completed, .running g first (.asks (.finish g' (some e)) k tries)⟩
        (.ended g' e (tries.isEmpty && !first))
        ⟨toCall, runs, g' :: completed, .running g first (rethrow isFreed e k tries)⟩
  | done {toCall : List (Job E)} {runs : Nat} {completed : List Nat} {g : Nat} {first : Bool} :
      Step ⟨toCall, runs, completed, .running g first .done⟩ .goes
        ⟨toCall, runs, completed, .looping⟩
  | escaped {toCall : List (Job E)} {runs : Nat} {completed : List Nat} {g : Nat} {e : E} :
      Step ⟨toCall, runs, completed, .running g false (.escaped e)⟩ (.escaped g e)
        ⟨toCall, runs, completed, .outside⟩
  | terminated {toCall : List (Job E)} {runs : Nat} {completed : List Nat} {g : Nat} {e : E} :
      Step ⟨toCall, runs, completed, .running g true (.escaped e)⟩ (.terminated g e)
        ⟨toCall, runs, completed, .terminated⟩

end SidepoolFormal.Idler
