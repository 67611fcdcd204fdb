import SidepoolFormal.Crypto.ChaCha20
import SidepoolFormal.Library.Machine
import SidepoolFormal.Library.Run

/-!
# `CSPRNG`

A greenthread in `get_random` is what its continuations go on to do, and the
continuations that the code stores, in `waiters` and in the request to the
randomizer, are stored with the caller whose block they lead to.  The C++
stack is kept explicitly: the calls that continuations on it still make and
the loops of `reseed` that it still has to go on with, innermost first.
-/

namespace SidepoolFormal.Crypto.CSPRNG

open Library

abbrev Key := Vector UInt8 32

abbrev Nonce := Vector UInt8 12

abbrev Entropy := Vector UInt8 32

def numKeysBeforeReseed : UInt8 := 16

inductive StateType where
  | normal
  | reseeding
  deriving DecidableEq, Repr

/-- A call of `get_random`, by the calls that are made once it passes and those
that are made once it fails.  A continuation that looks at its block makes, in
each run, the calls of one such tree.  It returns: what becomes of the loops and
the waiters where it throws is in `Throwing`. -/
inductive Caller where
  | mk (passed failed : List Caller)

def Caller.passed : Caller → List Caller
  | .mk passed _ => passed

def Caller.failed : Caller → List Caller
  | .mk _ failed => failed

/-- What a randomizer does before `get` returns. -/
inductive Answer where
  | passes (entropy : Entropy)
  | fails
  | later

/-- What the code depends on besides its callers: the randomizer's answers, the
digest of the n-th entropy with time and clock, and for the n-th block what
stands behind the two arguments and on the stack. -/
structure Environment where
  get : Nat → Answer
  hailMary : Nat → Entropy → Key
  behind : Nat → Memory
  context : Nat → Words

/-- What `chacha20_ietf` was called with for a block. -/
structure Block where
  key : Key
  nonce : Nonce
  behind : Memory
  context : Words

/-- The memory at and behind the two members. -/
def Block.mem (block : Block) : Memory
  | .key, i => if h : i < 32 then block.key[i] else block.behind .key i
  | .nonce, i => if h : i < 12 then block.nonce[i] else block.behind .nonce i

/-- The call that fills in the 32 bytes. -/
def Block.call (block : Block) : Load (List UInt8) := chacha20Ietf block.mem block.context 32

/-- The members, then the requests that the randomizer has not answered and how
many there were, then what happened so far: the keys installed, the blocks
generated and the waiters resumed. -/
structure Impl where
  key : Key
  nonce : Nonce
  state : StateType
  waiters : List Caller
  deterministic : Bool
  outstanding : List Caller
  requests : Nat
  installed : List Key
  blocks : List Block
  woken : List Caller

/-- How many keys were handed out since the last reseeding. -/
def Impl.counter (rng : Impl) : UInt8 := rng.nonce[0]

/-- The constructor, which leaves `key` and `state` as they are. -/
def construct (key : Key) (state : StateType) : Impl where
  key := key
  nonce := #v[numKeysBeforeReseed, 0x53, 0x69, 0x64, 0x65, 0x70, 0x6f, 0x6f, 0x6c, 0x52, 0x4e, 0x47]
  state := state
  waiters := []
  deterministic := false
  outstanding := []
  requests := 0
  installed := []
  blocks := []
  woken := []

/-! ## Code -/

/-- What a function on the stack still does. -/
inductive Todo where
  | getRandom (caller : Caller)
  | loop

def calls (callers : List Caller) : List Todo := callers.map .getRandom

structure Config where
  rng : Impl
  stack : List Todo

variable (env : Environment)

def addWaiter (caller : Caller) : Config → Config
  | ⟨rng, stack⟩ => ⟨{ rng with waiters := rng.waiters ++ [caller] }, stack⟩

/-- A block is generated, and the counter goes up. -/
def Impl.generated (rng : Impl) : Impl :=
  let n := rng.blocks.length
  let block := ⟨rng.key, rng.nonce, env.behind n, env.context n⟩
  { rng with nonce := rng.nonce.set 0 (rng.counter + 1), blocks := rng.blocks ++ [block] }

/-- The continuation in `get_random`; nothing goes on when its assertion
fails. -/
def generate (caller : Caller) : Config → Option Config
  | ⟨rng, stack⟩ =>
    if rng.counter < numKeysBeforeReseed then
      some ⟨rng.generated env, calls caller.passed ++ stack⟩
    else
      none

/-- The key is installed, and the counter goes back. -/
def Impl.keyed (entropy : Entropy) (rng : Impl) : Impl :=
  let key := if rng.deterministic then entropy else env.hailMary rng.installed.length entropy
  { rng with
    state := .normal
    key := key
    nonce := rng.nonce.set 0 0
    installed := rng.installed ++ [key] }

/-- The continuation of the request in `reseed`: its own pass comes first, then
the loop. -/
def install (caller : Caller) (entropy : Entropy) : Config → Option Config
  | ⟨rng, stack⟩ => generate env caller ⟨rng.keyed env entropy, .loop :: stack⟩

def Impl.asking (rng : Impl) : Impl :=
  { rng with state := .reseeding, requests := rng.requests + 1 }

def reseed (caller : Caller) : Config → Option Config
  | ⟨rng, stack⟩ =>
    match env.get rng.requests with
    | .passes entropy => install env caller entropy ⟨rng.asking, stack⟩
    | .fails => some ⟨rng.asking, calls caller.failed ++ stack⟩
    | .later => some ⟨{ rng.asking with outstanding := rng.outstanding ++ [caller] }, stack⟩

/-- `wait_for_reseed`, with the rest of `get_random` as its continuation. -/
def waitForReseed (caller : Caller) (config : Config) : Option Config :=
  if config.rng.state = .reseeding then
    some (addWaiter caller config)
  else if numKeysBeforeReseed ≤ config.rng.counter then
    reseed env caller config
  else
    generate env caller config

/-- The waiter in front is taken from the queue. -/
def Impl.popped (front : Caller) (waiters : List Caller) (rng : Impl) : Impl :=
  { rng with waiters := waiters, woken := rng.woken ++ [front] }

/-- One step of the innermost function. -/
def step : Config → Option Config
  | ⟨_, []⟩ => none
  | ⟨rng, .getRandom caller :: stack⟩ => waitForReseed env caller ⟨rng, stack⟩
  | ⟨rng, .loop :: stack⟩ =>
    match rng.waiters with
    | [] => some ⟨rng, stack⟩
    | front :: waiters => waitForReseed env front ⟨rng.popped front waiters, .loop :: stack⟩

/-! ## The event loop -/

inductive Event where
  | getRandom (caller : Caller)
  | entropy (caller : Caller) (bytes : Entropy)
  | failure (caller : Caller)
  | forceDeterministic

/-- The event loop calls in. -/
inductive Receives (rng : Impl) : Event → Config → Prop
  | getRandom (caller : Caller) : Receives rng (.getRandom caller) ⟨rng, [.getRandom caller]⟩
  | entropy {before after : List Caller} {caller : Caller} {bytes : Entropy} {config : Config}
      (asked : rng.outstanding = before ++ caller :: after)
      (passes : install env caller bytes ⟨{ rng with outstanding := before ++ after }, []⟩ =
        some config) :
      Receives rng (.entropy caller bytes) config
  | failure {before after : List Caller} {caller : Caller}
      (asked : rng.outstanding = before ++ caller :: after) :
      Receives rng (.failure caller)
        ⟨{ rng with outstanding := before ++ after }, calls caller.failed⟩
  | forceDeterministic : Receives rng .forceDeterministic ⟨{ rng with deterministic := true }, []⟩

/-- The event loop calls in and gets control back. -/
def Turn (rng : Impl) (event : Event) (rng' : Impl) : Prop :=
  ∃ config, Receives env rng event config ∧ ⟨rng', []⟩ ∈ StateTransition.eval (step env) config

end SidepoolFormal.Crypto.CSPRNG
