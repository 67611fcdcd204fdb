import SidepoolFormal.Library.Run

/-!
# `S::Bus`

Leases on one type of a bus, in the linked list of its registry, the lessees
that hold them, and the calls of `raise`.  `iterate` calls functions while it
walks along the list, and these may do anything: raise once more, subscribe,
destroy lessees.  So who is running is kept on a stack, innermost first.
-/

namespace SidepoolFormal.S

/-! ## `Detail::Registry` -/

/-- A lease; its function is there until `clear`. -/
structure Lease where
  nextReg : Option Nat
  live : Bool

/-- Leases are numbered in the order of subscription, and stay in memory. -/
structure Registry where
  leases : List Lease
  first : Option Nat
  last : Option Nat

namespace Registry

def next (registry : Registry) (l : Nat) : Option Nat := registry.leases[l]?.bind Lease.nextReg

def live (registry : Registry) (l : Nat) : Bool := registry.leases[l]?.any Lease.live

def setNext (registry : Registry) (l : Nat) (ptr : Option Nat) : Registry :=
  { registry with leases := registry.leases.modify l fun lease => { lease with nextReg := ptr } }

/-- `add_lease` for a new lease; `last` is not null unless `first` is. -/
def addLease (registry : Registry) : Registry :=
  let nlease := registry.leases.length
  let made : Registry := { registry with leases := registry.leases ++ [⟨none, true⟩] }
  match made.first, made.last with
  | none, _ => { made with first := some nlease, last := some nlease }
  | some _, some last => { made.setNext last (some nlease) with last := some nlease }
  | some _, none => made

/-- `Lease::clear`. -/
def clear (registry : Registry) (l : Nat) : Registry :=
  { registry with leases := registry.leases.modify l fun lease => { lease with live := false } }

/-- What `iterate` does where the lease at `ptr` is not retained. -/
def remove (registry : Registry) (prev : Option Nat) (ptr : Nat) : Registry :=
  let next := registry.next ptr
  let unlinked :=
    match prev with
    | none => { registry with first := next }
    | some prev => registry.setNext prev next
  let relast := if unlinked.last = some ptr then { unlinked with last := prev } else unlinked
  relast.setNext ptr none

end Registry

/-! ## `Lessee` -/

structure Lessee where
  leases : List Nat
  alive : Bool

/-- `~Lessee`. -/
def Lessee.destroy (lessee : Lessee) (registry : Registry) : Registry :=
  lessee.leases.foldl Registry.clear registry

/-! ## `TypedRegistry::raise` -/

/-- `Waiter`; `joined` tells that it has been given its continuations. -/
structure Waiter (E : Type) where
  count : Nat
  except : Option E
  joined : Bool

namespace Waiter

variable {E : Type}

def incr (waiter : Waiter E) : Waiter E := { waiter with count := waiter.count + 1 }

/-- `--count` on a `size_t`. -/
def lower (waiter : Waiter E) : Waiter E :=
  { waiter with count := if waiter.count = 0 then UInt64.size - 1 else waiter.count - 1 }

/-- `decr`, or `decr_fail`: only the first exception is kept. -/
def decr (waiter : Waiter E) (result : Option E) : Waiter E :=
  { waiter.lower with except := waiter.except.or result }

def setFunc (waiter : Waiter E) : Waiter E := { waiter with joined := true }

/-- Which continuation is called after the count has changed, or the
continuations have come: `fail` with an exception, or `pass`. -/
def completes (waiter : Waiter E) : List (Option E) :=
  if waiter.count = 0 ∧ waiter.joined = true then [waiter.except] else []

end Waiter

/-- What a function has returned; the flag `completed` is made by its `run`. -/
structure Act where
  lease : Nat
  completed : Option Bool

/-- A call of `raise`: the actions it has collected, its waiter, whether it has
returned its `Io`, whether that has been run, and the calls of the continuations
this was given. -/
structure Raise (E : Type) where
  acts : List Act
  waiter : Waiter E
  returned : Bool
  ran : Bool
  results : List (Option E)

namespace Raise

variable {E : Type}

def initial : Raise E := ⟨[], ⟨0, none, false⟩, false, false, []⟩

def incr (raise : Raise E) : Raise E := { raise with waiter := raise.waiter.incr }

/-- The function has returned its `Io`. -/
def collect (raise : Raise E) (l : Nat) : Raise E :=
  { raise with acts := raise.acts ++ [⟨l, none⟩] }

/-- The i-th action is run. -/
def start (raise : Raise E) (i : Nat) : Raise E :=
  { raise with acts := raise.acts.modify i fun act => { act with completed := some false } }

/-- The i-th action calls a continuation: `fail` with an exception, or `pass`.
Only the first call counts. -/
def complete (raise : Raise E) (i : Nat) (result : Option E) : Raise E :=
  match raise.acts[i]? with
  | some ⟨l, some false⟩ =>
      let waiter := raise.waiter.decr result
      { raise with
        acts := raise.acts.set i ⟨l, some true⟩
        waiter := waiter
        results := raise.results ++ waiter.completes }
  | _ => raise

/-- The last action: the continuations are given to the waiter. -/
def join (raise : Raise E) : Raise E :=
  let waiter := raise.waiter.setFunc
  { raise with waiter := waiter, results := raise.results ++ waiter.completes }

end Raise

/-! ## Runs -/

/-- Who is running: `iterate` for the r-th raise, about to look at `ptr`; the
function of the lease at `ptr`, called by it; what the r-th raise returned, with
i actions started; the core of the i-th action, started by that. -/
inductive Frame where
  | iterate (r : Nat) (prev ptr : Option Nat)
  | function (r : Nat) (prev : Option Nat) (ptr : Nat)
  | chain (r i : Nat)
  | act (r i : Nat)

/-- A function or the core of an action: the code of users. -/
def Frame.user : Frame → Bool
  | .iterate _ _ _ => false
  | .function _ _ _ => true
  | .chain _ _ => false
  | .act _ _ => true

/-- The code of users has control. -/
def free : List Frame → Bool
  | [] => true
  | frame :: _ => frame.user

structure State (E : Type) where
  registry : Registry
  lessees : List Lessee
  raises : List (Raise E)
  stack : List Frame

def State.modify {E : Type} (s : State E) (r : Nat) (f : Raise E → Raise E) : State E :=
  { s with raises := s.raises.modify r f }

@[simp]
theorem length_modify {E : Type} (s : State E) (r : Nat) (f : Raise E → Raise E) :
    (s.modify r f).raises.length = s.raises.length := List.length_modify f s.raises r

/-- What happens in a step. -/
inductive Label (E : Type) where
  | makes (k : Nat)
  | subscribes (k l : Nat)
  | destroys (k : Nat)
  | raises (r leases : Nat)
  | removes (r l : Nat)
  | calls (r l : Nat)
  | returns (r l : Nat)
  | throws (r l : Nat) (e : E)
  | ends (r : Nat)
  | runs (r : Nat)
  | starts (r i l : Nat)
  | leaves (r i : Nat)
  | crashes (r i : Nat) (e : E)
  | joins (r : Nat)
  | completes (r i : Nat) (result : Option E)

variable {E : Type}

def initial : State E := ⟨⟨[], none, none⟩, [], [], []⟩

inductive Step : State E → Label E → State E → Prop
  | makes {s : State E} (control : free s.stack = true) :
      Step s (.makes s.lessees.length) { s with lessees := s.lessees ++ [⟨[], true⟩] }
  | subscribes {s : State E} {k : Nat} {leases : List Nat} (control : free s.stack = true)
      (lessee : s.lessees[k]? = some ⟨leases, true⟩) :
      Step s (.subscribes k s.registry.leases.length)
        { s with
          registry := s.registry.addLease
          lessees := s.lessees.set k ⟨s.registry.leases.length :: leases, true⟩ }
  | destroys {s : State E} {k : Nat} {leases : List Nat} (control : free s.stack = true)
      (lessee : s.lessees[k]? = some ⟨leases, true⟩) :
      Step s (.destroys k)
        { s with
          registry := Lessee.destroy ⟨leases, true⟩ s.registry
          lessees := s.lessees.set k ⟨leases, false⟩ }
  | raises {s : State E} (control : free s.stack = true) :
      Step s (.raises s.raises.length s.registry.leases.length)
        { s with
          raises := s.raises ++ [Raise.initial]
          stack := .iterate s.raises.length none s.registry.first :: s.stack }
  | removes {s : State E} {r l : Nat} {prev : Option Nat} {stack : List Frame}
      (control : s.stack = .iterate r prev (some l) :: stack)
      (cleared : s.registry.live l = false) :
      Step s (.removes r l)
        { s with
          registry := s.registry.remove prev l
          stack := .iterate r prev (s.registry.next l) :: stack }
  | calls {s : State E} {r l : Nat} {prev : Option Nat} {stack : List Frame}
      (control : s.stack = .iterate r prev (some l) :: stack) (live : s.registry.live l = true) :
      Step s (.calls r l) { s.modify r Raise.incr with stack := .function r prev l :: stack }
  | returns {s : State E} {r l : Nat} {prev : Option Nat} {stack : List Frame}
      (control : s.stack = .function r prev l :: stack) :
      Step s (.returns r l)
        { s.modify r (Raise.collect · l) with
          stack := .iterate r (some l) (s.registry.next l) :: stack }
  | throws {s : State E} {r l : Nat} {prev : Option Nat} {stack : List Frame}
      (control : s.stack = .function r prev l :: stack) (e : E) :
      Step s (.throws r l e) { s with stack := stack }
  | ends {s : State E} {r : Nat} {prev : Option Nat} {stack : List Frame}
      (control : s.stack = .iterate r prev none :: stack) :
      Step s (.ends r) { s.modify r ({ · with returned := true }) with stack := stack }
  | runs {s : State E} {r : Nat} {raise : Raise E} (control : free s.stack = true)
      (found : s.raises[r]? = some raise) (returned : raise.returned = true)
      (ran : raise.ran = false) :
      Step s (.runs r) { s.modify r ({ · with ran := true }) with stack := .chain r 0 :: s.stack }
  | starts {s : State E} {r i : Nat} {raise : Raise E} {act : Act} {stack : List Frame}
      (control : s.stack = .chain r i :: stack) (found : s.raises[r]? = some raise)
      (next : raise.acts[i]? = some act) :
      Step s (.starts r i act.lease)
        { s.modify r (Raise.start · i) with stack := .act r i :: stack }
  | leaves {s : State E} {r i : Nat} {stack : List Frame} (control : s.stack = .act r i :: stack) :
      Step s (.leaves r i) { s with stack := .chain r (i + 1) :: stack }
  | crashes {s : State E} {r i : Nat} {stack : List Frame} (control : s.stack = .act r i :: stack)
      (e : E) :
      Step s (.crashes r i e)
        { s.modify r (Raise.complete · i (some e)) with stack := .chain r (i + 1) :: stack }
  | joins {s : State E} {r i : Nat} {raise : Raise E} {stack : List Frame}
      (control : s.stack = .chain r i :: stack) (found : s.raises[r]? = some raise)
      (none : raise.acts[i]? = none) :
      Step s (.joins r) { s.modify r Raise.join with stack := stack }
  | completes {s : State E} {r i l : Nat} {raise : Raise E} {completed : Bool}
      (control : free s.stack = true) (found : s.raises[r]? = some raise)
      (started : raise.acts[i]? = some ⟨l, some completed⟩) (result : Option E) :
      Step s (.completes r i result) (s.modify r (Raise.complete · i result))

end SidepoolFormal.S
