import SidepoolFormal.S.Code
import SidepoolFormal.Library.Counting
import Mathlib.Logic.Function.Basic

/-!
# What keeps a lease in memory

Buses with their registries, one for each type, and lessees that subscribe on
several of them.  A lease is a member of two lists, that of its registry and
that of its lessee, and each list holds its leases through `shared_ptr`s in the
leases themselves.  So does `iterate` while it walks along the list, and `raise`
and what it has returned hold the registry.  The destructors are loops, taken
here one turn after the other.
-/

namespace SidepoolFormal.S

namespace Registry

def initial : Registry := ⟨[], none, none⟩

/-- `~Registry` begins. -/
def unlast (registry : Registry) : Registry := { registry with last := none }

/-- A turn of its loop. -/
def clearFirst (registry : Registry) (first : Nat) : Registry :=
  let cleared := registry.clear first
  { cleared.setNext first none with first := cleared.next first }

end Registry

namespace Memory

open Library

/-- A lease, by its registry and its place there. -/
structure Ref where
  registry : Nat
  lease : Nat
  deriving DecidableEq

/-- What is on the stack: `iterate` of a registry and the function that it
calls, as in `S.Frame`, and the loops of `~Lessee`, `~Registry` and `~Bus`. -/
inductive Frame where
  | iterate (r : Nat) (prev ptr : Option Nat)
  | function (r : Nat) (prev : Option Nat) (ptr : Nat)
  | lessee (k : Nat)
  | registry (r : Nat)
  | bus (b : Nat)
  deriving DecidableEq

/-- The leases that are held by `prev_ptr` and `ptr`. -/
def Frame.leases : Frame → List Ref
  | .iterate r prev ptr => (prev.toList ++ ptr.toList).map (Ref.mk r)
  | .function r prev ptr => (prev.toList ++ [ptr]).map (Ref.mk r)
  | _ => []

/-- The registry that is held by `r` in `Bus::raise`. -/
def Frame.held : Frame → Option Nat
  | .iterate r _ _ => some r
  | .function r _ _ => some r
  | _ => none

/-- The code of users has control. -/
def free : List Frame → Bool
  | [] => true
  | .function _ _ _ :: _ => true
  | _ => false

/-- Objects are numbered as they are made.  `keys` has the bus and the type of
each registry, `owned` tells whether the map of the bus still has it, `ios` has
the registry for every `Io` that `raise` has returned, or copy of one, and
`heap` the leases that are in memory. -/
structure State where
  buses : List Bool
  keys : List (Nat × Nat)
  owned : Nat → Bool
  registry : Nat → Registry
  lessees : List Bool
  top : Nat → Option Ref
  nextLessee : Ref → Option Ref
  stack : List Frame
  ios : List Nat
  heap : List Ref

def initial : State :=
  ⟨[], [], fun _ => false, fun _ => Registry.initial, [], fun _ => none, fun _ => none, [], [], []⟩

namespace State

variable (s : State)

/-! ## Counting -/

/-- What refers to leases: the pointers of registries, lessees and walks, and
those in the leases. -/
def refs : Counting.Refs Ref where
  root ref :=
    (s.registry ref.registry).first == some ref.lease ||
      ((List.range s.lessees.length).any fun k => s.top k == some ref) ||
      s.stack.any fun frame => frame.leases.contains ref
  edge ref ref' :=
    (ref.registry == ref'.registry &&
      (s.registry ref.registry).next ref.lease == some ref'.lease) ||
      s.nextLessee ref == some ref'

/-- Leases are freed once nothing refers to them. -/
def collect : State := { s with heap := Counting.collect s.refs s.heap }

/-- Somebody has a `shared_ptr` to the registry. -/
def held (r : Nat) : Bool :=
  s.owned r || s.ios.contains r || s.stack.any fun frame => frame.held == some r

/-! ## The registries of a bus -/

/-- The registry in the map of the bus. -/
def getRegistry (b t : Nat) : Option Nat := s.keys.findIdx? (· == (b, t))

/-- `get_registry` with `make_if_absent`. -/
def makeIfAbsent (b t : Nat) : State × Nat :=
  match s.getRegistry b t with
  | some r => (s, r)
  | none =>
      ({ s with
          keys := s.keys ++ [(b, t)]
          owned := Function.update s.owned s.keys.length true
          registry := Function.update s.registry s.keys.length Registry.initial },
        s.keys.length)

/-- A new lease is added to the registry and to the lessee. -/
def addLease (r k : Nat) : State :=
  let nlease : Ref := ⟨r, (s.registry r).leases.length⟩
  { s with
    registry := Function.update s.registry r (s.registry r).addLease
    nextLessee := Function.update s.nextLessee nlease (s.top k)
    top := Function.update s.top k (some nlease)
    heap := nlease :: s.heap }

/-! ## Destructors -/

/-- A turn of `~Lessee`. -/
def clearTop (k : Nat) (top : Ref) : State :=
  { s with
    registry := Function.update s.registry top.registry ((s.registry top.registry).clear top.lease)
    top := Function.update s.top k (s.nextLessee top)
    nextLessee := Function.update s.nextLessee top none }

/-- A turn of `~Registry`. -/
def clearFirst (r first : Nat) : State :=
  { s with registry := Function.update s.registry r ((s.registry r).clearFirst first) }

/-- A `shared_ptr` to the registry is gone; if it was the last one, `~Registry`
begins. -/
def release (r : Nat) : State :=
  if s.held r then s
  else
    { s with
      registry := Function.update s.registry r (s.registry r).unlast
      stack := .registry r :: s.stack }

end State

/-! ## Runs -/

/-- What is done before leases are freed. -/
inductive Act : State → State → Prop
  | makesBus {s : State} (control : free s.stack = true) :
      Act s { s with buses := s.buses ++ [true] }
  | makesLessee {s : State} (control : free s.stack = true) :
      Act s
        { s with
          lessees := s.lessees ++ [true]
          top := Function.update s.top s.lessees.length none }
  | subscribes {s : State} {b k : Nat} (t : Nat) (control : free s.stack = true)
      (bus : s.buses[b]? = some true) (lessee : s.lessees[k]? = some true) :
      Act s ((s.makeIfAbsent b t).1.addLease (s.makeIfAbsent b t).2 k)
  | destroysLessee {s : State} {k : Nat} (control : free s.stack = true)
      (lessee : s.lessees[k]? = some true) :
      Act s { s with lessees := s.lessees.set k false, stack := .lessee k :: s.stack }
  | clearsTop {s : State} {k : Nat} {top : Ref} {stack : List Frame}
      (control : s.stack = .lessee k :: stack) (more : s.top k = some top) :
      Act s (s.clearTop k top)
  | leavesLessee {s : State} {k : Nat} {stack : List Frame}
      (control : s.stack = .lessee k :: stack) (done : s.top k = none) :
      Act s { s with stack := stack }
  | destroysBus {s : State} {b : Nat} (control : free s.stack = true)
      (bus : s.buses[b]? = some true) :
      Act s { s with buses := s.buses.set b false, stack := .bus b :: s.stack }
  | disowns {s : State} {b t r : Nat} {stack : List Frame} (control : s.stack = .bus b :: stack)
      (key : s.keys[r]? = some (b, t)) (owned : s.owned r = true) :
      Act s ({ s with owned := Function.update s.owned r false }.release r)
  | leavesBus {s : State} {b : Nat} {stack : List Frame} (control : s.stack = .bus b :: stack)
      (done : ∀ r t, s.keys[r]? = some (b, t) → s.owned r = false) :
      Act s { s with stack := stack }
  | clearsFirst {s : State} {r first : Nat} {stack : List Frame}
      (control : s.stack = .registry r :: stack) (more : (s.registry r).first = some first) :
      Act s (s.clearFirst r first)
  | leavesRegistry {s : State} {r : Nat} {stack : List Frame}
      (control : s.stack = .registry r :: stack) (done : (s.registry r).first = none) :
      Act s { s with stack := stack }
  | raises {s : State} {b t r : Nat} (control : free s.stack = true)
      (bus : s.buses[b]? = some true) (found : s.getRegistry b t = some r) :
      Act s { s with stack := .iterate r none (s.registry r).first :: s.stack }
  | removes {s : State} {r l : Nat} {prev : Option Nat} {stack : List Frame}
      (control : s.stack = .iterate r prev (some l) :: stack)
      (cleared : (s.registry r).live l = false) :
      Act s
        { s with
          registry := Function.update s.registry r ((s.registry r).remove prev l)
          stack := .iterate r prev ((s.registry r).next l) :: stack }
  | calls {s : State} {r l : Nat} {prev : Option Nat} {stack : List Frame}
      (control : s.stack = .iterate r prev (some l) :: stack)
      (live : (s.registry r).live l = true) :
      Act s { s with stack := .function r prev l :: stack }
  | returns {s : State} {r l : Nat} {prev : Option Nat} {stack : List Frame}
      (control : s.stack = .function r prev l :: stack) :
      Act s { s with stack := .iterate r (some l) ((s.registry r).next l) :: stack }
  | throws {s : State} {r l : Nat} {prev : Option Nat} {stack : List Frame}
      (control : s.stack = .function r prev l :: stack) :
      Act s ({ s with stack := stack }.release r)
  | ends {s : State} {r : Nat} {prev : Option Nat} {stack : List Frame}
      (control : s.stack = .iterate r prev none :: stack) :
      Act s { s with stack := stack, ios := r :: s.ios }
  | copies {s : State} {r : Nat} (control : free s.stack = true) (io : r ∈ s.ios) :
      Act s { s with ios := r :: s.ios }
  | drops {s : State} {r : Nat} (control : free s.stack = true) (io : r ∈ s.ios) :
      Act s ({ s with ios := s.ios.erase r }.release r)

/-- Something is done, and what nothing refers to any more is freed. -/
def Step (s s' : State) : Prop := ∃ acted, Act s acted ∧ s' = acted.collect

def Reachable (s : State) : Prop := Relation.ReflTransGen Step initial s

end Memory

end SidepoolFormal.S
