import SidepoolFormal.Library.Task
import SidepoolFormal.Library.Optimistic

/-!
# `Saver`

The operations of the saver on one entry, what a saver promises of them, and
the calls built from them: `try_read`, `rmw` and `crud`.  The combinators are
those of the exception monad (`Saver.Combinators` has the source's terms).  That is
what the calls come to where no exception comes back to a try block that is meant
for the saver's: `Saver.Stands` proves it of the calls as they run (`Saver.Thread`),
and what they do otherwise is in `Saver.Once` and `Saver.Abort`.

A call is what it still has to do.  Its next operation takes effect at some
later moment, and what other calls do before that moment is arbitrary; an
operation that completes inside the call to the saver takes effect at once.
-/

namespace SidepoolFormal.Saver

open Library

/-- `thrown` stands for whatever a user function fails with. -/
inductive Exn where
  | freed
  | keyNotFound
  | keyExists
  | wrongGeneration
  | ioError
  | outOfSpace
  | thrown (n : Nat)
  deriving DecidableEq, Repr

/-- What a call asks for: the idler, the saver, its function on an `A`, or the
whole call once more.  The keys are those of the entry. -/
inductive Op (V A : Type) where
  | yield
  | create (value : V)
  | read
  | update (generation : Nat) (value : V)
  | del (generation : Nat)
  | func (content : A)
  | again

@[reducible]
def Op.Ans {V A : Type} : Op V A → Type
  | .yield => Unit
  | .create _ => Nat
  | .read => Nat × V
  | .update _ _ => Nat
  | .del _ => Unit
  | .func _ => A
  | .again => A

abbrev Io (V A α : Type) := Task (Op V A) Op.Ans Exn α

variable {ι V A : Type}

/-! ## Operations -/

def yield : Io V A Unit := Task.request Op.yield

def create (value : V) : Io V A Nat := Task.request (Op.create value)

def read : Io V A (Nat × V) := Task.request Op.read

def update (generation : Nat) (value : V) : Io V A Nat := Task.request (Op.update generation value)

def del (generation : Nat) : Io V A Unit := Task.request (Op.del generation)

/-- The user function of the call. -/
def func (content : A) : Io V A A := Task.request (Op.func content)

/-- The call itself, made once more. -/
def again : Io V A A := Task.request Op.again

def isKeyNotFound (e : Exn) : Bool := e == .keyNotFound

def isKeyExists (e : Exn) : Bool := e == .keyExists

def isWrongGeneration (e : Exn) : Bool := e == .wrongGeneration

/-! ## Calls -/

def tryRead : Io V A (Option (Nat × V)) :=
  (read.andThen fun entry => .lift (some entry)).catching isKeyNotFound fun _ => .lift none

namespace Rmw

/-- Write the new value; nothing comes back when the generation is wrong. -/
def write (generation : Nat) (nvalue : V) : Io V V (Option V) :=
  ((update generation nvalue).andThen fun _ => .lift (some nvalue)).catching isWrongGeneration
    fun _ => .lift none

def modify (entry : Nat × V) : Io V V (Option V) :=
  (func entry.2).andThen fun nvalue => write entry.1 nvalue

def finish : Option V → Io V V V
  | none => again
  | some result => .lift result

end Rmw

def rmw : Io V V V :=
  ((yield.andThen fun _ => read).andThen Rmw.modify).andThen Rmw.finish

namespace Crud

/-- `MayMayStr(nullptr)`: the write has failed. -/
def conflict (_ : Exn) : Io V (Option V) (Option (Option V)) := .lift none

def write (entr : Option (Nat × V)) (nvalue : Option V) : Io V (Option V) (Option (Option V)) :=
  match entr, nvalue with
  | none, none => .lift (some none)
  | none, some nvalue =>
      ((create nvalue).andThen fun _ => .lift (some (some nvalue))).catching isKeyExists conflict
  | some (generation, _), none =>
      (((del generation).andThen fun _ => .lift (some none)).catching isKeyNotFound
        conflict).catching isWrongGeneration conflict
  | some (generation, _), some nvalue =>
      (((update generation nvalue).andThen fun _ => .lift (some (some nvalue))).catching
        isKeyNotFound conflict).catching isWrongGeneration conflict

def modify (entr : Option (Nat × V)) : Io V (Option V) (Option (Option V)) :=
  (func (entr.map Prod.snd)).andThen fun nvalue => write entr nvalue

/-- Unwrap one layer, or recurse. -/
def finish : Option (Option V) → Io V (Option V) (Option V)
  | none => again
  | some result => .lift result

end Crud

def crud : Io V (Option V) (Option V) :=
  ((yield.andThen fun _ => tryRead).andThen Crud.modify).andThen Crud.finish

/-! ## The saver's promise -/

/-- One operation on the entry: it passes and has its effect, or it fails and
has none.  An update or a deletion is checked against the generation, a passing
update increases it, a creation starts at any.  `answers` is what the user
function may return. -/
inductive Performs (answers : A → A → Prop) :
    (op : Op V A) → Except Exn op.Ans → Option (Nat × V) → Option (Nat × V) → Prop
  | yield (entry : Option (Nat × V)) : Performs answers .yield (.ok ()) entry entry
  | create (v : V) (g : Nat) : Performs answers (.create v) (.ok g) none (some (g, v))
  | read (g : Nat) (v : V) : Performs answers .read (.ok (g, v)) (some (g, v)) (some (g, v))
  | update (g g' : Nat) (v w : V) (higher : g < g') :
      Performs answers (.update g w) (.ok g') (some (g, v)) (some (g', w))
  | del (g : Nat) (v : V) : Performs answers (.del g) (.ok ()) (some (g, v)) none
  | func {a b : A} (answer : answers a b) (entry : Option (Nat × V)) :
      Performs answers (.func a) (.ok b) entry entry
  | funcFails (a : A) (e : Exn) (entry : Option (Nat × V)) :
      Performs answers (.func a) (.error e) entry entry
  | createFails (v : V) (e : Exn) (entry : Option (Nat × V)) :
      Performs answers (.create v) (.error e) entry entry
  | readFails (e : Exn) (entry : Option (Nat × V)) (found : e = .keyNotFound → entry = none) :
      Performs answers .read (.error e) entry entry
  | updateFails (g : Nat) (v : V) (e : Exn) (entry : Option (Nat × V)) :
      Performs answers (.update g v) (.error e) entry entry
  | delFails (g : Nat) (e : Exn) (entry : Option (Nat × V)) :
      Performs answers (.del g) (.error e) entry entry

/-! ## Concurrent calls -/

structure System (ι V A : Type) where
  entry : Option (Nat × V)
  call : ι → Io V A A

/-- An operation that was performed, for a call or directly, and the entry
before and after it. -/
structure Event (ι V A : Type) where
  who : Option ι
  op : Op V A
  result : Except Exn op.Ans
  before : Option (Nat × V)
  after : Option (Nat × V)

/-- A call that asks to be made once more is made at once. -/
def enter (program : Io V A A) : Io V A A → Io V A A
  | .ask .again k => program.continue_ k
  | t => t

/-- Some call's next operation is performed, or somebody updates the entry
directly. -/
inductive Step [DecidableEq ι] (answers : ι → A → A → Prop) (program : Io V A A)
    (s : System ι V A) : Event ι V A → System ι V A → Prop
  | perform {i : ι} {op : Op V A} {k : Except Exn op.Ans → Io V A A} {r : Except Exn op.Ans}
      {entry : Option (Nat × V)} (next : s.call i = .ask op k)
      (performs : Performs (answers i) op r s.entry entry) :
      Step answers program s ⟨some i, op, r, s.entry, entry⟩
        ⟨entry, Function.update s.call i (enter program (k r))⟩
  | direct {g : Nat} {v : V} {r : Except Exn Nat} {entry : Option (Nat × V)}
      (performs : Performs (fun _ _ => False) (.update g v : Op V A) r s.entry entry) :
      Step answers program s ⟨none, .update g v, r, s.entry, entry⟩ ⟨entry, s.call⟩

/-! ## The ledger of a run -/

/-- A write that passed is entered in the ledger. -/
def record (log : List (Optimistic.Commit ι V)) : Event ι V A → List (Optimistic.Commit ι V)
  | ⟨who, .create _, .ok _, before, after⟩ =>
      log ++ [⟨who, before.map Prod.snd, after.map Prod.snd⟩]
  | ⟨who, .update _ _, .ok _, before, after⟩ =>
      log ++ [⟨who, before.map Prod.snd, after.map Prod.snd⟩]
  | ⟨who, .del _, .ok _, before, after⟩ =>
      log ++ [⟨who, before.map Prod.snd, after.map Prod.snd⟩]
  | _ => log

/-- A call of `crud` that finds no entry and wants none does not write.  Until it
turns out to want something, that it found none is in the ledger too. -/
def Crud.record [DecidableEq ι] (log : List (Optimistic.Commit ι V)) :
    Event ι V (Option V) → List (Optimistic.Commit ι V)
  | ⟨who, .read, .error .keyNotFound, _, _⟩ => log ++ [⟨who, none, none⟩]
  | ⟨some i, .func _, .error _, _, _⟩ => Optimistic.strike i log
  | ⟨some i, .func _, .ok (some _), _, _⟩ => Optimistic.strike i log
  | e => Saver.record log e

def ledger (record : List (Optimistic.Commit ι V) → Event ι V A → List (Optimistic.Commit ι V))
    (trace : List (Event ι V A)) : List (Optimistic.Commit ι V) :=
  trace.foldl record []

/-! ## What the calls rely on -/

/-- A call relies on the generation that it has read, until its write has been
performed. -/
def rely (seen : Option Nat) : Event ι V A → Option Nat
  | ⟨_, .read, .ok (g, _), _, _⟩ => some g
  | ⟨_, .func _, .ok _, _, _⟩ => seen
  | _ => none

/-- The generation that a call relies on. -/
def relied [DecidableEq ι] (i : ι) (trace : List (Event ι V A)) : Option Nat :=
  trace.foldl (fun seen e => if e.who = some i then rely seen e else seen) none

/-- The operation gives the entry no generation that another call relies on. -/
def Harmless [DecidableEq ι] (trace : List (Event ι V A)) (e : Event ι V A) : Prop :=
  ∀ g w, e.after = some (g, w) → e.before ≠ e.after →
    ∀ j, e.who ≠ some j → relied j trace ≠ some g

def Undisturbed [DecidableEq ι] (trace : List (Event ι V A)) : Prop :=
  ∀ pre e, pre ++ [e] <+: trace → Harmless pre e

end SidepoolFormal.Saver
