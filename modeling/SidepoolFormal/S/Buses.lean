import SidepoolFormal.S.Calls
import SidepoolFormal.S.Memory

/-!
# Buses

Any number of buses, with a registry for each type that somebody has subscribed
to, and lessees with leases in several of them.  A function that is called for
one type may raise, subscribe or destroy for any other, so the frames of all
registries are on one stack.  `raise` of a type that has no registry returns
`lift()`.
-/

namespace SidepoolFormal.S.Buses

variable {E : Type}

/-- A `type_index` on a bus. -/
structure Key where
  bus : Nat
  type : Nat
  deriving DecidableEq

/-- A lessee; its leases are those of several registries. -/
structure Lessee where
  leases : List (Key × Nat)
  alive : Bool

/-- What `Bus::raise` has made: the `Io` of a registry, or `lift()`. -/
inductive Raised (E : Type) where
  | registry (raise : Raise E)
  | lift (ran : Bool)

/-- `registry` has the registries that are in memory.  Calls of `raise` are
numbered for each type. -/
structure State (E : Type) where
  buses : List Bool
  registry : Key → Option Registry
  lessees : List Lessee
  raises : Key → List (Raised E)
  stack : List (Key × Frame)

/-- The code of users has control. -/
def free : List (Key × Frame) → Bool
  | [] => true
  | frame :: _ => frame.2.user

namespace State

variable (s : State E)

/-- `get_registry` with `make_if_absent`. -/
def makeIfAbsent (key : Key) : Registry := (s.registry key).getD Registry.initial

/-- A turn of `~Lessee`; the leases of a registry that is gone are cleared. -/
def clear (lease : Key × Nat) : State E :=
  { s with
    registry := Function.update s.registry lease.1
      ((s.registry lease.1).map fun registry => registry.clear lease.2) }

def setRaise (key : Key) (r : Nat) (raised : Raised E) : State E :=
  { s with raises := Function.update s.raises key ((s.raises key).set r raised) }

def addRaise (key : Key) (raised : Raised E) : State E :=
  { s with raises := Function.update s.raises key (s.raises key ++ [raised]) }

end State

/-- What happens in a step. -/
inductive Label (E : Type) where
  | makesBus (b : Nat)
  | destroysBus (b : Nat)
  | freesRegistry (key : Key)
  | makes (k : Nat)
  | subscribes (k : Nat) (key : Key) (l : Nat)
  | destroys (k : Nat)
  | lifts (key : Key) (r : Nat)
  | passes (key : Key) (r : Nat)
  | at_ (key : Key) (label : S.Label E)

def initial : State E := ⟨[], fun _ => none, [], fun _ => [], []⟩

inductive Step : State E → Label E → State E → Prop
  | makesBus {s : State E} (control : free s.stack = true) :
      Step s (.makesBus s.buses.length) { s with buses := s.buses ++ [true] }
  | destroysBus {s : State E} {b : Nat} (control : free s.stack = true)
      (bus : s.buses[b]? = some true) :
      Step s (.destroysBus b) { s with buses := s.buses.set b false }
  /-- The bus is gone, and `iterate` is done with the registry; what `raise` has
  returned may keep it longer. -/
  | freesRegistry {s : State E} {key : Key} (bus : s.buses[key.bus]? = some false)
      (left : ∀ frame, (key, frame) ∈ s.stack → frame.walk = none) :
      Step s (.freesRegistry key) { s with registry := Function.update s.registry key none }
  | makes {s : State E} (control : free s.stack = true) :
      Step s (.makes s.lessees.length) { s with lessees := s.lessees ++ [⟨[], true⟩] }
  | subscribes {s : State E} {k : Nat} {key : Key} {leases : List (Key × Nat)}
      (control : free s.stack = true) (bus : s.buses[key.bus]? = some true)
      (lessee : s.lessees[k]? = some ⟨leases, true⟩) :
      Step s (.subscribes k key (s.makeIfAbsent key).leases.length)
        { s with
          registry := Function.update s.registry key (some (s.makeIfAbsent key).addLease)
          lessees := s.lessees.set k
            ⟨(key, (s.makeIfAbsent key).leases.length) :: leases, true⟩ }
  | destroys {s : State E} {k : Nat} {leases : List (Key × Nat)} (control : free s.stack = true)
      (lessee : s.lessees[k]? = some ⟨leases, true⟩) :
      Step s (.destroys k)
        { leases.foldl State.clear s with lessees := s.lessees.set k ⟨leases, false⟩ }
  | lifts {s : State E} {key : Key} (control : free s.stack = true)
      (bus : s.buses[key.bus]? = some true) (absent : s.registry key = none) :
      Step s (.lifts key (s.raises key).length) (s.addRaise key (.lift false))
  | passes {s : State E} {key : Key} {r : Nat} (control : free s.stack = true)
      (found : (s.raises key)[r]? = some (.lift false)) :
      Step s (.passes key r) (s.setRaise key r (.lift true))
  | raises {s : State E} {key : Key} {registry : Registry} (control : free s.stack = true)
      (bus : s.buses[key.bus]? = some true) (found : s.registry key = some registry) :
      Step s (.at_ key (.raises (s.raises key).length registry.leases.length))
        { s.addRaise key (.registry Raise.initial) with
          stack := (key, .iterate (s.raises key).length none registry.first) :: s.stack }
  | removes {s : State E} {key : Key} {registry : Registry} {r l : Nat} {prev : Option Nat}
      {stack : List (Key × Frame)} (control : s.stack = (key, .iterate r prev (some l)) :: stack)
      (found : s.registry key = some registry) (cleared : registry.live l = false) :
      Step s (.at_ key (.removes r l))
        { s with
          registry := Function.update s.registry key (some (registry.remove prev l))
          stack := (key, .iterate r prev (registry.next l)) :: stack }
  | calls {s : State E} {key : Key} {registry : Registry} {r l : Nat} {raise : Raise E}
      {prev : Option Nat} {stack : List (Key × Frame)}
      (control : s.stack = (key, .iterate r prev (some l)) :: stack)
      (found : s.registry key = some registry) (live : registry.live l = true)
      (raised : (s.raises key)[r]? = some (.registry raise)) :
      Step s (.at_ key (.calls r l))
        { s.setRaise key r (.registry raise.incr) with
          stack := (key, .function r prev l) :: stack }
  | returns {s : State E} {key : Key} {registry : Registry} {r l : Nat} {raise : Raise E}
      {prev : Option Nat} {stack : List (Key × Frame)}
      (control : s.stack = (key, .function r prev l) :: stack)
      (found : s.registry key = some registry)
      (raised : (s.raises key)[r]? = some (.registry raise)) :
      Step s (.at_ key (.returns r l))
        { s.setRaise key r (.registry (raise.collect l)) with
          stack := (key, .iterate r (some l) (registry.next l)) :: stack }
  | throws {s : State E} {key : Key} {r l : Nat} {prev : Option Nat} {stack : List (Key × Frame)}
      (control : s.stack = (key, .function r prev l) :: stack) (e : E) :
      Step s (.at_ key (.throws r l e)) { s with stack := stack }
  | ends {s : State E} {key : Key} {r : Nat} {raise : Raise E} {prev : Option Nat}
      {stack : List (Key × Frame)} (control : s.stack = (key, .iterate r prev none) :: stack)
      (raised : (s.raises key)[r]? = some (.registry raise)) :
      Step s (.at_ key (.ends r))
        { s.setRaise key r (.registry { raise with returned := true }) with stack := stack }
  | runs {s : State E} {key : Key} {r : Nat} {raise : Raise E} (control : free s.stack = true)
      (raised : (s.raises key)[r]? = some (.registry raise)) (returned : raise.returned = true)
      (ran : raise.ran = false) :
      Step s (.at_ key (.runs r))
        { s.setRaise key r (.registry { raise with ran := true }) with
          stack := (key, .chain r 0) :: s.stack }
  | starts {s : State E} {key : Key} {r i : Nat} {raise : Raise E} {act : Act}
      {stack : List (Key × Frame)} (control : s.stack = (key, .chain r i) :: stack)
      (raised : (s.raises key)[r]? = some (.registry raise)) (next : raise.acts[i]? = some act) :
      Step s (.at_ key (.starts r i act.lease))
        { s.setRaise key r (.registry (raise.start i)) with stack := (key, .act r i) :: stack }
  | leaves {s : State E} {key : Key} {r i : Nat} {stack : List (Key × Frame)}
      (control : s.stack = (key, .act r i) :: stack) :
      Step s (.at_ key (.leaves r i)) { s with stack := (key, .chain r (i + 1)) :: stack }
  | crashes {s : State E} {key : Key} {r i : Nat} {raise : Raise E} {stack : List (Key × Frame)}
      (control : s.stack = (key, .act r i) :: stack)
      (raised : (s.raises key)[r]? = some (.registry raise)) (e : E) :
      Step s (.at_ key (.crashes r i e))
        { s.setRaise key r (.registry (raise.complete i (some e))) with
          stack := (key, .chain r (i + 1)) :: stack }
  | joins {s : State E} {key : Key} {r i : Nat} {raise : Raise E} {stack : List (Key × Frame)}
      (control : s.stack = (key, .chain r i) :: stack)
      (raised : (s.raises key)[r]? = some (.registry raise)) (none : raise.acts[i]? = none) :
      Step s (.at_ key (.joins r))
        { s.setRaise key r (.registry raise.join) with stack := stack }
  | completes {s : State E} {key : Key} {r i l : Nat} {raise : Raise E} {completed : Bool}
      (control : free s.stack = true) (raised : (s.raises key)[r]? = some (.registry raise))
      (started : raise.acts[i]? = some ⟨l, some completed⟩) (result : Option E) :
      Step s (.at_ key (.completes r i result))
        (s.setRaise key r (.registry (raise.complete i result)))

end SidepoolFormal.S.Buses
