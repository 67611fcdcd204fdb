import SidepoolFormal.Saver.Wrapper
import SidepoolFormal.Saver.Thread
import Mathlib.Data.List.TakeWhile

/-!
# `SaverWrapper` and its callbacks

The operations of a saver as they are asked of a C saver, for all entries at
once.  A request is made with C strings and with the address of a callback
object, which `pass` or `fail` takes back, frees and calls.  Between the request
and that, at a moment of its own choice, the C saver performs the request on the
disk.
-/

namespace SidepoolFormal.Saver.Binding

open Library

/-- `std::string`. -/
abbrev Str := List UInt8

/-- A NUL-terminated string. -/
abbrev CStr := { s : Str // 0 ∉ s }

/-- What can be seen of a string through its `c_str()`. -/
def cStr (s : Str) : CStr :=
  ⟨s.takeWhile (· ≠ 0), fun inside => by simpa using List.mem_takeWhile_imp inside⟩

variable {ι A : Type}

/-! ## Requests and answers -/

/-- A request as the C saver gets it. -/
def cut : Op Str A → Op CStr A
  | .yield => .yield
  | .create value => .create (cStr value)
  | .read => .read
  | .update generation value => .update generation (cStr value)
  | .del generation => .del generation
  | .func content => .func content
  | .again => .again

/-- How a C saver calls back: one of the functions `pass`, or `fail`. -/
inductive CReply where
  | passed (generation : Nat)
  | passedEntry (generation : Nat) (value : CStr)
  | passedVoid
  | failed (myErrno : Int)

/-- What the callback of a request makes of it; nothing where the C saver has
called a function that belongs to another kind of request. -/
def result (c : Cerrno) : (op : Op Str A) → CReply → Option (Except Exn op.Ans)
  | .create _, .passed generation => some (.ok generation)
  | .read, .passedEntry generation value => some (.ok (generation, value.1))
  | .update _ _, .passed generation => some (.ok generation)
  | .del _, .passedVoid => some (.ok ())
  | _, .failed myErrno => some (.error (failErrno c myErrno))
  | _, _ => none

abbrev Cell (V : Type) := Option (Nat × V)

/-- A request to a C saver that keeps its promises and is not freed. -/
inductive Documented (c : Cerrno) : Op CStr A → CReply → Cell CStr → Cell CStr → Prop
  | create (value : CStr) (generation : Nat) :
      Documented c (.create value) (.passed generation) none (some (generation, value))
  | read (generation : Nat) (value : CStr) :
      Documented c .read (.passedEntry generation value) (some (generation, value))
        (some (generation, value))
  | update (g g' : Nat) (before value : CStr) (higher : g < g') :
      Documented c (.update g value) (.passed g') (some (g, before)) (some (g', value))
  | del (g : Nat) (before : CStr) : Documented c (.del g) .passedVoid (some (g, before)) none
  | fails {op : Op CStr A} {myErrno : Int} (valid : myErrno ∈ validErrno c op) (entry : Cell CStr)
      (found : op = .read → myErrno = c.ENOENT → entry = none) :
      Documented c op (.failed myErrno) entry entry

/-! ## Runs -/

/-- `key1` and `key2`, as the C saver sees them. -/
abbrev Key := CStr × CStr

/-- A callback object, with what its two functions go on with. -/
structure Callback (ι A : Type) where
  who : ι
  op : Op Str A
  k : Except Exn op.Ans → Io Str A A

/-- A request that the C saver has not called back for; `op` is what it was made
for, of which the C saver knows `cut op`. -/
structure Pending (ι A : Type) where
  who : ι
  key : Key
  op : Op Str A
  reply : Option CReply

/-- A call has something to do, or waits for the callback at an address. -/
inductive Thread (A : Type) where
  | at_ (t : Io Str A A)
  | waits (context : Nat)

/-- `callbacks` are the callback objects in memory; `misused` tells that one was
used that is not there, or as another kind of object. -/
structure State (ι A : Type) where
  disk : Key → Cell CStr
  thread : ι → Thread A
  callbacks : Nat → Option (Callback ι A)
  pending : Nat → Option (Pending ι A)
  next : Nat
  misused : Bool

/-- An entry, with its value as the callers know it. -/
def view (entry : Cell CStr) : Cell Str := entry.map fun e => (e.1, e.2.1)

def keyOf (keys : ι → Str × Str) (i : ι) : Key := (cStr (keys i).1, cStr (keys i).2)

variable [DecidableEq ι]

/-- A request is made: `cb.release()`. -/
def State.request (s : State ι A) (key : Key) (i : ι) (op : Op Str A)
    (k : Except Exn op.Ans → Io Str A A) : State ι A :=
  { s with
    thread := Function.update s.thread i (.waits s.next)
    callbacks := Function.update s.callbacks s.next (some ⟨i, op, k⟩)
    pending := Function.update s.pending s.next (some ⟨i, key, op, none⟩)
    next := s.next + 1 }

/-- The C saver has performed a request. -/
def State.decide (s : State ι A) (n : Nat) (p : Pending ι A) (reply : CReply)
    (entry : Cell CStr) : State ι A :=
  { s with
    disk := Function.update s.disk p.key entry
    pending := Function.update s.pending n (some { p with reply := some reply }) }

/-- `pass` or `fail`: the callback object is freed before it is gone on. -/
def State.answer (c : Cerrno) (program : Io Str A A) (s : State ι A) (n : Nat)
    (reply : CReply) : State ι A :=
  match s.callbacks n with
  | none => { s with misused := true }
  | some self =>
      match result c self.op reply with
      | none => { s with misused := true }
      | some r =>
          { s with
            thread := Function.update s.thread self.who (.at_ (enter program (self.k r)))
            callbacks := Function.update s.callbacks n none
            pending := Function.update s.pending n none }

/-- An operation of an entry becomes effective, or nothing does. -/
abbrev Label (ι A : Type) := Option (Key × Event ι Str A)

/-- The calls all are calls of `program`, on the entries of their keys. -/
inductive Step (c : Cerrno) (answers : ι → A → A → Prop) (program : Io Str A A)
    (keys : ι → Str × Str) (s : State ι A) : Label ι A → State ι A → Prop
  /-- The idler goes on with a call, or its function has completed. -/
  | acts {i : ι} {op : Op Str A} {k : Except Exn op.Ans → Io Str A A} {r : Except Exn op.Ans}
      {entry : Cell Str} (at_ : s.thread i = .at_ (.ask op k)) (own : op.stored = false)
      (performs : Performs (answers i) op r (view (s.disk (keyOf keys i))) entry) :
      Step c answers program keys s
        (some (keyOf keys i, ⟨some i, op, r, view (s.disk (keyOf keys i)), entry⟩))
        { s with thread := Function.update s.thread i (.at_ (enter program (k r))) }
  | requests {i : ι} {op : Op Str A} {k : Except Exn op.Ans → Io Str A A}
      (at_ : s.thread i = .at_ (.ask op k)) (stored : op.stored = true) :
      Step c answers program keys s none (s.request (keyOf keys i) i op k)
  | decides {n : Nat} {p : Pending ι A} {reply : CReply} {entry : Cell CStr}
      {r : Except Exn p.op.Ans} (held : s.pending n = some p) (undecided : p.reply = none)
      (documented : Documented c (cut p.op) reply (s.disk p.key) entry)
      (result : result c p.op reply = some r) :
      Step c answers program keys s
        (some (p.key, ⟨some p.who, p.op, r, view (s.disk p.key), view entry⟩))
        (s.decide n p reply entry)
  | answers {n : Nat} {p : Pending ι A} {reply : CReply} (held : s.pending n = some p)
      (decided : p.reply = some reply) :
      Step c answers program keys s none (s.answer c program n reply)
  /-- An update that is made by somebody else. -/
  | direct {key : Key} {g : Nat} {value : CStr} {reply : CReply} {entry : Cell CStr}
      {r : Except Exn Nat}
      (documented : Documented c (.update g value : Op CStr A) reply (s.disk key) entry)
      (result : result c (.update g value.1 : Op Str A) reply = some r) :
      Step c answers program keys s
        (some (key, ⟨none, .update g value.1, r, view (s.disk key), view entry⟩))
        { s with disk := Function.update s.disk key entry }

/-- No call has begun. -/
def State.start (disk : Key → Cell CStr) (program : Io Str A A) : State ι A where
  disk := disk
  thread := fun _ => .at_ program
  callbacks := fun _ => none
  pending := fun _ => none
  next := 0
  misused := false

end SidepoolFormal.Saver.Binding
