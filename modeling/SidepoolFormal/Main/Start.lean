import SidepoolFormal.S.Buses

/-!
# `Main::start`

A greenthread that raises three messages on the bus of `util`, one after the
other, and logs that the library has started.  Whatever else there is, the
modules before all, uses the buses meanwhile.
-/

namespace SidepoolFormal.Main.Start

open S (Raise)
open S.Buses (Key Raised)

variable {E : Type}

/-- The messages, in the order of `start`. -/
inductive Message where
  | provideSaver
  | provideMath
  | start
  deriving DecidableEq

/-- Its `type_index`. -/
def Message.type : Message → Nat
  | .provideSaver => 0
  | .provideMath => 1
  | .start => 2

def messages : List Message := [.provideSaver, .provideMath, .start]

/-- A message on the b-th bus. -/
def key (b : Nat) (m : Message) : Key := ⟨b, m.type⟩

/-- How far the greenthread has come: `left` is what has still to be raised. -/
inductive Thread (E : Type) where
  | queued
  | at_ (left : List Message)
  | raising (m : Message) (r : Nat) (left : List Message)
  | returned (m : Message) (r : Nat) (left : List Message)
  | waiting (m : Message) (r : Nat) (left : List Message)
  | caught (e : E)
  | passed
  | failed (e : E)

structure State (E : Type) where
  bus : S.Buses.State E
  thread : Thread E

/-- What happens on buses is done by the greenthread itself or by others. -/
inductive Label (E : Type) where
  | begins
  | does (label : S.Buses.Label E)
  | resumes
  | logs
  | fails (e : E)
  | other (label : S.Buses.Label E)

/-- The greenthread runs when `Impl` is there, and keeps its bus. -/
def Thread.runs : Thread E → Bool
  | .queued | .passed | .failed _ => false
  | _ => true

/-- The r-th raise, which is about to tell something, was the greenthread's. -/
def Untold (s : State E) (b : Nat) (m : Message) (r : Nat) : Prop :=
  ∀ raise, (s.bus.raises (key b m))[r]? = some (.registry raise) → raise.results = []

/-- The greenthread has not got control: the functions that it has called are
running, or it waits for them. -/
def State.Waits (s : State E) (b : Nat) : Prop :=
  match s.thread with
  | .queued | .raising _ _ _ | .passed | .failed _ => True
  | .waiting m r _ => Untold s b m r
  | .at_ _ | .returned _ _ _ | .caught _ => False

/-- Not a return from the walk to the greenthread, nor the end of its bus. -/
def State.Foreign (s : State E) (b : Nat) (label : S.Buses.Label E) : Prop :=
  (s.thread.runs = true → label ≠ .destroysBus b) ∧
    ∀ m r left, s.thread = .raising m r left →
      label ≠ .at_ (key b m) (.ends r) ∧ ∀ l e, label ≠ .at_ (key b m) (.throws r l e)

/-- `b` is the bus of `util`. -/
inductive Step (b : Nat) (s : State E) : Label E → State E → Prop
  | begins (thread : s.thread = .queued) (control : S.Buses.free s.bus.stack = true)
      (bus : s.bus.buses[b]? = some true) :
      Step b s .begins { s with thread := .at_ messages }
  | raises {m : Message} {left : List Message} {r leases : Nat} {bus : S.Buses.State E}
      (thread : s.thread = .at_ (m :: left))
      (step : S.Buses.Step s.bus (.at_ (key b m) (.raises r leases)) bus) :
      Step b s (.does (.at_ (key b m) (.raises r leases))) ⟨bus, .raising m r left⟩
  | lifts {m : Message} {left : List Message} {r : Nat} {bus : S.Buses.State E}
      (thread : s.thread = .at_ (m :: left)) (step : S.Buses.Step s.bus (.lifts (key b m) r) bus) :
      Step b s (.does (.lifts (key b m) r)) ⟨bus, .returned m r left⟩
  | throws {m : Message} {left : List Message} {r l : Nat} {e : E} {bus : S.Buses.State E}
      (thread : s.thread = .raising m r left)
      (step : S.Buses.Step s.bus (.at_ (key b m) (.throws r l e)) bus) :
      Step b s (.does (.at_ (key b m) (.throws r l e))) ⟨bus, .caught e⟩
  | ends {m : Message} {left : List Message} {r : Nat} {bus : S.Buses.State E}
      (thread : s.thread = .raising m r left)
      (step : S.Buses.Step s.bus (.at_ (key b m) (.ends r)) bus) :
      Step b s (.does (.at_ (key b m) (.ends r))) ⟨bus, .returned m r left⟩
  | runs {m : Message} {left : List Message} {r : Nat} {bus : S.Buses.State E}
      (thread : s.thread = .returned m r left)
      (step : S.Buses.Step s.bus (.at_ (key b m) (.runs r)) bus) :
      Step b s (.does (.at_ (key b m) (.runs r))) ⟨bus, .waiting m r left⟩
  | passes {m : Message} {left : List Message} {r : Nat} {bus : S.Buses.State E}
      (thread : s.thread = .returned m r left)
      (step : S.Buses.Step s.bus (.passes (key b m) r) bus) :
      Step b s (.does (.passes (key b m) r)) ⟨bus, .at_ left⟩
  | resumes {m : Message} {left : List Message} {r : Nat} {raise : Raise E}
      (thread : s.thread = .waiting m r left)
      (found : (s.bus.raises (key b m))[r]? = some (.registry raise))
      (passed : none ∈ raise.results) :
      Step b s .resumes { s with thread := .at_ left }
  | fails {m : Message} {left : List Message} {r : Nat} {raise : Raise E} {e : E}
      (thread : s.thread = .waiting m r left)
      (found : (s.bus.raises (key b m))[r]? = some (.registry raise))
      (failed : some e ∈ raise.results) :
      Step b s (.fails e) { s with thread := .failed e }
  | rejects {e : E} (thread : s.thread = .caught e) :
      Step b s (.fails e) { s with thread := .failed e }
  | logs (thread : s.thread = .at_ []) : Step b s .logs { s with thread := .passed }
  | other {label : S.Buses.Label E} {bus : S.Buses.State E} (waits : s.Waits b)
      (foreign : s.Foreign b label) (step : S.Buses.Step s.bus label bus) :
      Step b s (.other label) { s with bus := bus }

def initial : State E := ⟨S.Buses.initial, .queued⟩

end SidepoolFormal.Main.Start
