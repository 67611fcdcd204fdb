import SidepoolFormal.Library.Effect
import SidepoolFormal.Library.Ownership
import SidepoolFormal.Library.Run

/-!
# `libsidepool_init`

The client gives its interface objects to an initializer, which makes an instance
of the library of them.  Every variable that owns one of them on the way is a
cell: it is moved from explicitly, and its destructor runs when the function is
left, also by an exception.
-/

namespace SidepoolFormal.Main.Init

open Library

/-- The members of `libsidepool_init`. -/
inductive Slot where
  | rand
  | logger
  | saver
  | math
  | keykeeper
  deriving DecidableEq, Repr

/-- An interface object, and whether its `free` is not null. -/
structure Object where
  address : Nat
  free : Bool
  deriving DecidableEq, Repr

/-- What has variables that own objects: the initializer, the functions' outer
block and the try block of `libsidepool_init_finish`, the parameters of the
constructors that it calls, its `rv`, and the instance that the client has. -/
inductive Place where
  | init
  | function
  | tryBlock
  | params
  | rv
  | main
  deriving DecidableEq, Repr

/-- The variables, as declared; in an instance `util` is first. -/
def Place.variables : Place → List Slot
  | .init => [.rand, .logger, .saver, .math, .keykeeper]
  | .function => [.logger]
  | .tryBlock => [.rand, .saver, .math]
  | .params => [.logger, .rand, .saver, .math]
  | .rv => [.logger, .rand, .saver, .math]
  | .main => [.logger, .rand, .saver, .math]

abbrev Cell : Type := Place × Slot

inductive Exn where
  | badAlloc
  | exception (what : String)
  | unknown
  deriving DecidableEq, Repr

inductive Errno where
  | zero
  | ENOMEM
  | EINVAL
  deriving DecidableEq, Repr

inductive Level where
  | debug
  | error
  deriving DecidableEq, Repr

/-- `hasLogger` tells whether the local `logger` is not null; it may be the
default one, which is not the client's. -/
structure World extends Holdings Cell Object where
  hasLogger : Bool
  logged : List (Level × String)
  errno : Errno

abbrev Code (α : Type) : Type := Effect World Exn α

/-- What can throw on the way. -/
inductive Point where
  | idler
  | defaultLogger
  | wrapper (slot : Slot)
  | log (message : String)
  | libsidepool
  | impl
  | util
  | bus
  | rng
  | sharedMath
  | mods
  | start
  deriving DecidableEq, Repr

/-- What a call of `libsidepool_init_finish` meets.  `createRandomizer` is
`Randomizer::create`, which has no definition: given a pointer variable, it gives
the pointer in the new object or throws, and leaves something in the variable.
By its header, it takes responsibility and clears the variable if it is able to
create the object. -/
structure Surroundings where
  throws : Point → Option Exn
  createRandomizer : Object → Except Exn Object × Option Object
  takes : ∀ {rand core left}, createRandomizer rand = (.ok core, left) →
    core = rand ∧ left = none
  leaves : ∀ {rand e left}, createRandomizer rand = (.error e, left) → left = some rand

namespace World

/-- Nothing but the variables of one place own anything. -/
def only (place : Place) (slots : Slot → Option Object) : World where
  held := fun c => if c.1 = place then slots c.2 else none
  freed := []
  hasLogger := false
  logged := []
  errno := .zero

/-- What the variables of a place own. -/
def slots (place : Place) (w : World) : Slot → Option Object := fun slot => w.held (place, slot)

def setErrno (errno : Errno) (w : World) : World := { w with errno := errno }

def setLogger (hasLogger : Bool) (w : World) : World := { w with hasLogger := hasLogger }

def say (level : Level) (message : String) (w : World) : World :=
  { w with logged := w.logged ++ [(level, message)] }

def own (f : Holdings Cell Object → Holdings Cell Object) (w : World) : World :=
  { w with toHoldings := f w.toHoldings }

/-- A move between variables of the same name. -/
def move (slot : Slot) (source target : Place) (w : World) : World :=
  w.own (Holdings.move Object.free (source, slot) (target, slot))

/-- The variables of a place are destroyed, the last one first. -/
def destroy (place : Place) (w : World) : World :=
  w.own (Holdings.disposeAll Object.free (place.variables.reverse.map fun slot => (place, slot)))

end World

/-! ## The initializer -/

/-- `libsidepool_init_start`. -/
def initStart (throws : Option Exn) : Code Bool := do
  modify (World.setErrno .zero)
  tryCatch
    (match throws with
      | none => pure true
      | some e => throw e)
    (fun
      | .badAlloc => do
        modify (World.setErrno .ENOMEM)
        pure false
      | _ => do
        modify (World.setErrno .EINVAL)
        pure false)

/-- `libsidepool_init_cancel`. -/
def initCancel (w : World) : World := w.destroy .init

/-- `libsidepool_init_set_randomizer` and its like, by way of a temporary. -/
def initSet (slot : Slot) (pointer : Option Object) (w : World) : World :=
  ((w.own (Holdings.write (.params, slot) pointer)).move slot .params .init).own
    (Holdings.dispose Object.free (.params, slot))

/-- `libsidepool_free`. -/
def free (w : World) : World := w.destroy .main

/-! ## `libsidepool_init_finish` -/

section

variable (env : Surroundings)

def fallible (point : Point) : Code Unit :=
  match env.throws point with
  | none => pure ()
  | some e => throw e

def log (level : Level) (message : String) : Code Unit := do
  fallible env (.log message)
  modify (World.say level message)

/-- `make_unique` of a wrapper, which takes the object and clears the variable.
`Math::create` is declared and not defined; its body is that of the `create` which
`Math.cpp` defines outside of the class. -/
def create (slot : Slot) (target : Place) : Code Unit := do
  fallible env (.wrapper slot)
  modify (World.move slot .init target)

/-- `Logger::create` or `Logger::create_default`. -/
def createLogger : Code Unit := do
  let w ← get
  match w.held (.init, .logger) with
  | none =>
      fallible env .defaultLogger
      modify (World.setLogger true)
      log env .debug "Logging will write to stderr."
  | some _ =>
      create env .logger .function
      modify (World.setLogger true)
      log env .debug "Got logger."

/-- `Randomizer::create`, and the local that it initializes. -/
def createRandomizer (rand : Object) : Code Unit := do
  let (core, left) := env.createRandomizer rand
  modify (World.own (Holdings.write (.init, .rand) left))
  match core with
  | .error e => throw e
  | .ok core => modify (World.own (Holdings.put Object.free (.tryBlock, .rand) (some core)))

/-- The rest of the try block once an interface is there, which it must be. -/
def required (slot : Slot) (message : String) (rest : Object → Code Bool) : Code Bool := do
  let w ← get
  match w.held (.init, slot) with
  | none =>
      log env .error message
      modify (World.setErrno .EINVAL)
      pure false
  | some object => rest object

/-- `Util::Util`. -/
def util : Code Unit := do
  modify (World.move .logger .params .rv)
  fallible env .bus
  fallible env .rng
  modify (World.move .rand .params .rv)

/-- `Main::Impl::Impl`. -/
def impl : Code Unit := do
  fallible env .util
  util env
  modify (World.move .saver .params .rv)
  fallible env .sharedMath
  modify (World.move .math .params .rv)
  fallible env .mods

/-- `make_unique<libsidepool>`: its constructor and those of its base hand their
parameters on.  What has been constructed is destroyed when one of them throws. -/
def libsidepool : Code Unit := do
  fallible env .libsidepool
  Effect.scope (World.destroy .params) <| Effect.onThrow (World.destroy .rv) do
    modify (World.move .logger .function .params)
    modify (World.setLogger false)
    modify (World.move .rand .tryBlock .params)
    modify (World.move .saver .tryBlock .params)
    modify (World.move .math .tryBlock .params)
    fallible env .impl
    impl env

def tryBlock : Code Bool :=
  Effect.scope (World.destroy .tryBlock) do
    fallible env .idler
    createLogger env
    required env .rand "Randomizer required." fun rand => do
      createRandomizer env rand
      log env .debug "Got randomizer."
      required env .saver "Saver required." fun _ => do
        create env .saver .tryBlock
        log env .debug "Got saver."
        required env .math "Math library required." fun _ => do
          create env .math .tryBlock
          log env .debug "Got math library,"
          libsidepool env
          pure true

/-- What a handler does with its message and its `errno`. -/
def report (message : String) (errno : Errno) : Code Bool := do
  let w ← get
  if w.hasLogger then log env .error message
  modify (World.setErrno errno)
  pure false

def handlers : Exn → Code Bool
  | .badAlloc => report env "Out of memory." .ENOMEM
  | .exception what => report env ("Uncaught exception: " ++ what) .EINVAL
  | .unknown => report env "Uncaught exception of unknown type." .EINVAL

/-- Up to the end of `rv->start()`; whether `rv` is not null. -/
def build : Code Bool := do
  modify (World.setErrno .zero)
  let rv ← tryCatch (tryBlock env) (handlers env)
  if rv then fallible env .start
  pure rv

/-- `rv.release()`, which hands the members over with the instance. -/
def release (w : World) : World :=
  Place.rv.variables.foldl (fun w slot => w.move slot .rv .main) w

/-- `libsidepool_init_finish`; whether it returns an instance. -/
def initFinish : Code Bool :=
  Effect.scope (World.destroy .init) <| Effect.scope (World.destroy .function) <|
    Effect.scope (World.destroy .rv) do
      let rv ← build env
      if rv then modify release
      pure rv

end

/-! ## Runs -/

inductive Call where
  | initStart (throws : Option Exn)
  | initSet (slot : Slot) (pointer : Option Object)
  | initCancel
  | initFinish (env : Surroundings)
  | free

/-- A call of the client's, whether it has returned a pointer, and the objects
whose `free` it has called. -/
structure Event where
  call : Call
  returned : Bool
  freed : List Object

/-- What the client has: nothing yet, an initializer, an instance, or nothing any
more. -/
inductive State where
  | absent
  | initializing (slots : Slot → Option Object)
  | running (slots : Slot → Option Object)
  | done

/-- The client has what a call gave it. -/
def State.after (result : Except Exn Bool) (given : State) : State :=
  match result with
  | .ok true => given
  | _ => .done

def returned (result : Except Exn Bool) : Bool :=
  match result with
  | .ok rv => rv
  | .error _ => false

inductive Step : State → Event → State → Prop
  | initStart (throws : Option Exn) {result : Except Exn Bool} {w : World}
      (does : Init.initStart throws (World.only .init fun _ => none) = (result, w)) :
      Step .absent ⟨.initStart throws, returned result, w.freed⟩
        (.after result (.initializing (w.slots .init)))
  | initSet {slots : Slot → Option Object} (slot : Slot) (pointer : Option Object) {w : World}
      (does : Init.initSet slot pointer (World.only .init slots) = w) :
      Step (.initializing slots) ⟨.initSet slot pointer, false, w.freed⟩
        (.initializing (w.slots .init))
  | initCancel {slots : Slot → Option Object} {w : World}
      (does : Init.initCancel (World.only .init slots) = w) :
      Step (.initializing slots) ⟨.initCancel, false, w.freed⟩ .done
  | initFinish {slots : Slot → Option Object} (env : Surroundings) {result : Except Exn Bool}
      {w : World} (does : Init.initFinish env (World.only .init slots) = (result, w)) :
      Step (.initializing slots) ⟨.initFinish env, returned result, w.freed⟩
        (.after result (.running (w.slots .main)))
  | free {slots : Slot → Option Object} {w : World}
      (does : Init.free (World.only .main slots) = w) :
      Step (.running slots) ⟨.free, false, w.freed⟩ .done

end SidepoolFormal.Main.Init
