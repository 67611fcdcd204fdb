import SidepoolFormal.Crypto.Cadence
import SidepoolFormal.Crypto.Midstate

/-!
# Where the bytes of a block come from

A reseeding hashes the entropy with time and clock, unless the generator is
deterministic.  Together with the cadence of keys and counters this says what
each delivered block is, in terms of what the randomizer has passed and of the
memory behind the nonce.
-/

namespace SidepoolFormal.Crypto.CSPRNG

open Library StateTransition

/-- What the generator runs on: the randomizer's answers, the bytes of time and
clock at each reseeding, and what stands in memory. -/
structure Host where
  get : Nat → Answer
  time : Nat → List UInt8
  clock : Nat → List UInt8
  buf : Nat → Vector UInt8 64
  tmp32 : Nat → SHA256.Tmp32
  behind : Nat → Memory
  context : Nat → Words

/-- The hash that `reseed` takes for a key. -/
def Host.hailMary (host : Host) (n : Nat) (entropy : Entropy) : Key :=
  let hasher := SHA256.init (host.buf n)
  let hasher := SHA256.update hasher entropy.toList (host.tmp32 n)
  let hasher := SHA256.update hasher (host.time n) (host.tmp32 n)
  let hasher := SHA256.update hasher (host.clock n) (host.tmp32 n)
  let h := (SHA256.final hasher (host.tmp32 n)).1
  Vector.ofFn fun i => h.getD i 0

def Host.env (host : Host) : Environment where
  get := host.get
  hailMary := host.hailMary
  behind := host.behind
  context := host.context

/-! ## Keys -/

theorem length_sha256 (message : List UInt8) : (Sha256.sha256 message).length = 32 := by
  have bytes (words : List UInt32) : (words.flatMap Sha256.beBytes).length = 4 * words.length := by
    induction words with
    | nil => rfl
    | cons w rest ih =>
        rw [List.flatMap_cons, List.length_append, ih, List.length_cons]
        simp only [Sha256.beBytes, List.length_cons, List.length_nil]
        omega
  rw [Sha256.sha256, bytes, Vector.length_toList]

theorem toList_ofFn_getD {l : List UInt8} {n : Nat} (length : l.length = n) :
    (Vector.ofFn fun i : Fin n => l.getD i 0).toList = l := by
  refine List.ext_getElem (by simp [length]) ?_
  intro i inside there
  simp [there]

/-- The key of a reseeding is the SHA-256 hash of the entropy, time and clock. -/
theorem hailMary_eq (host : Host) (n : Nat) (entropy : Entropy) :
    (host.hailMary n entropy).toList =
      Sha256.sha256 (entropy.toList ++ host.time n ++ host.clock n) := by
  have fed := (((SHA256.midstate_init (host.buf n)).update entropy.toList (host.tmp32 n)).update
    (host.time n) (host.tmp32 n)).update (host.clock n) (host.tmp32 n)
  have hash := fed.final (host.tmp32 n)
  rw [List.nil_append] at hash
  rw [Host.hailMary, hash]
  exact toList_ofFn_getD (length_sha256 _)

/-- A request that the randomizer completes from the event loop. -/
def late : Answer → Bool
  | .later => true
  | _ => false

/-- How many of the first n requests it completes from the event loop. -/
def lates (host : Host) (n : Nat) : Nat :=
  (List.range n).countP fun request => late (host.get request)

def arrival : Event → Option Entropy
  | .entropy _ bytes => some bytes
  | _ => none

/-- The entropy that has come from the event loop, in order. -/
def arrivals (trace : List Event) : List Entropy := trace.filterMap arrival

/-- The entropy that the randomizer has passed for the n-th request, inside `get` or
later. -/
def Passed (host : Host) (trace : List Event) (n : Nat) (entropy : Entropy) : Prop :=
  host.get n = .passes entropy ∨
    host.get n = .later ∧ (arrivals trace)[lates host n]? = some entropy

/-- What the key of the n-th reseeding is made of. -/
def Made (host : Host) (trace : List Event) (n : Nat) (key : Key) : Prop :=
  ∃ entropy, Passed host trace n entropy ∧
    (key.toList = Sha256.sha256 (entropy.toList ++ host.time n ++ host.clock n) ∨
      Event.forceDeterministic ∈ trace ∧ key = entropy)

/-- The nonce with a counter. -/
def nonceOf (counter : UInt8) : Nonce :=
  #v[counter, 0x53, 0x69, 0x64, 0x65, 0x70, 0x6f, 0x6f, 0x6c, 0x52, 0x4e, 0x47]

theorem nonceOf_set (counter next : UInt8) :
    (nonceOf counter).set 0 next (by decide) = nonceOf next := rfl

/-! ## Whose entropy it is -/

theorem lates_succ (host : Host) (n : Nat) :
    lates host (n + 1) = lates host n + if late (host.get n) then 1 else 0 := by
  rw [lates, List.range_succ, List.countP_append, List.countP_singleton, lates]

theorem arrivals_snoc (trace : List Event) (event : Event) :
    arrivals (trace ++ [event]) = arrivals trace ++ (arrival event).toList := by
  rw [arrivals, List.filterMap_append, arrivals]
  cases same : arrival event with
  | none => simp [same]
  | some bytes => simp [same]

/-- The requests are answered one after the other, and each answer installs a key. -/
structure Timely (host : Host) (trace : List Event) (rng : Impl) : Prop where
  normal : rng.state = .normal → rng.requests = rng.installed.length ∧
    (arrivals trace).length = lates host rng.installed.length
  pending : rng.outstanding ≠ [] → rng.requests = rng.installed.length + 1 ∧
    host.get rng.installed.length = .later ∧
    (arrivals trace).length = lates host rng.installed.length

namespace Timely

variable {host : Host} {trace : List Event}

theorem construct (key : Key) (state : StateType) : Timely host [] (construct key state) where
  normal _ := ⟨rfl, rfl⟩
  pending some := absurd rfl some

theorem quiet {rng : Impl} {event : Event} (timely : Timely host trace rng)
    (silent : arrival event = none) : Timely host (trace ++ [event]) rng := by
  have same : arrivals (trace ++ [event]) = arrivals trace := by
    rw [arrivals_snoc, silent, Option.toList_none, List.append_nil]
  constructor
  · rw [same]
    exact timely.normal
  · rw [same]
    exact timely.pending

theorem waits {caller : Caller} {rng : Impl} {stack : List Todo} {next : Config}
    (timely : Timely host trace rng) (sound : Sound ⟨rng, stack⟩)
    (waits : Waits host.env caller rng stack next) : Timely host trace next.rng := by
  cases waits with
  | queues busy => exact ⟨timely.normal, timely.pending⟩
  | ready normal some => exact ⟨timely.normal, timely.pending⟩
  | passes normal none answer =>
      obtain ⟨requests, arrived⟩ := timely.normal normal
      have now : host.get rng.installed.length = .passes _ := requests ▸ answer
      refine ⟨fun _ => ⟨?_, ?_⟩, fun some => absurd (sound.asked normal) some⟩
      · simp [Impl.generated, Impl.keyed, Impl.asking, requests]
      · simp [Impl.generated, Impl.keyed, Impl.asking, arrived, lates_succ, now, late]
  | fails normal none answer =>
      constructor
      · intro mode
        cases mode
      · exact fun some => absurd (sound.asked normal) some
  | later normal none answer =>
      obtain ⟨requests, arrived⟩ := timely.normal normal
      constructor
      · intro mode
        cases mode
      · exact fun _ => ⟨congrArg (· + 1) requests, requests ▸ answer, arrived⟩

theorem step {config next : Config} (timely : Timely host trace config.rng) (sound : Sound config)
    (goes : step host.env config = some next) : Timely host trace next.rng := by
  rcases config with ⟨rng, stack⟩
  obtain ⟨caller, rest, rfl, waits⟩ | ⟨rest, rfl, empty, rfl⟩ |
    ⟨front, waiters, rest, rfl, queued, waits⟩ := step_cases goes
  · exact timely.waits sound.called waits
  · exact timely
  · have popped : Timely host trace (rng.popped front waiters) := ⟨timely.normal, timely.pending⟩
    exact popped.waits (sound.popped front waiters) waits

theorem receives {rng : Impl} {event : Event} {config : Config} (timely : Timely host trace rng)
    (sound : Sound ⟨rng, []⟩) (receives : Receives host.env rng event config) :
    Timely host (trace ++ [event]) config.rng := by
  cases receives with
  | getRandom caller => exact timely.quiet rfl
  | @entropy before after caller bytes config asked passes =>
      have none : before ++ after = [] := alone (asked ▸ sound.one)
      obtain ⟨requests, later, arrived⟩ := timely.pending (by simp [asked])
      rw [install_eq, Option.some.injEq] at passes
      rw [← passes]
      refine ⟨fun _ => ⟨?_, ?_⟩, fun some => absurd none some⟩
      · simp [Impl.generated, Impl.keyed, requests]
      · simp [Impl.generated, Impl.keyed, arrivals_snoc, arrival, arrived, lates_succ, later, late]
  | failure asked =>
      have none := alone (asked ▸ sound.one)
      exact ⟨(timely.quiet rfl).normal, fun some => absurd none some⟩
  | forceDeterministic => exact ⟨(timely.quiet rfl).normal, (timely.quiet rfl).pending⟩

end Timely

/-! ## What every step preserves -/

structure Seeded (host : Host) (trace : List Event) (rng : Impl) : Prop where
  made : ∀ n key, rng.installed[n]? = some key → Made host trace n key
  forced : rng.deterministic = true → Event.forceDeterministic ∈ trace
  nonce : rng.nonce = nonceOf rng.counter
  blocks : ∀ n block, rng.blocks[n]? = some block →
    block.nonce = nonceOf (counterOf block.nonce) ∧ block.behind = host.behind n

namespace Seeded

variable {host : Host} {trace : List Event}

theorem construct (key : Key) (state : StateType) : Seeded host [] (construct key state) where
  made := by simp [CSPRNG.construct]
  forced absurd := nomatch absurd
  nonce := rfl
  blocks := by simp [CSPRNG.construct]

theorem mono {rng : Impl} (seeded : Seeded host trace rng) (event : Event) :
    Seeded host (trace ++ [event]) rng where
  made n key found := by
    obtain ⟨entropy, passed, made⟩ := seeded.made n key found
    refine ⟨entropy, passed.imp_right ?_, made.imp_right ?_⟩
    · rintro ⟨later, found⟩
      have inside := (List.getElem?_eq_some_iff.mp found).1
      refine ⟨later, ?_⟩
      rw [arrivals_snoc, List.getElem?_append_left inside]
      exact found
    · rintro ⟨member, same⟩
      exact ⟨List.mem_append_left _ member, same⟩
  forced deterministic := List.mem_append_left _ (seeded.forced deterministic)
  nonce := seeded.nonce
  blocks := seeded.blocks

/-- Only the keys, the nonce, the blocks and the mode count. -/
theorem same {rng rng' : Impl} (seeded : Seeded host trace rng)
    (installed : rng'.installed = rng.installed) (nonce : rng'.nonce = rng.nonce)
    (blocks : rng'.blocks = rng.blocks) (mode : rng'.deterministic = rng.deterministic) :
    Seeded host trace rng' := by
  have counter : rng'.counter = rng.counter := by rw [Impl.counter, Impl.counter, nonce]
  constructor
  · rw [installed]
    exact seeded.made
  · rw [mode]
    exact seeded.forced
  · rw [nonce, counter]
    exact seeded.nonce
  · rw [blocks]
    exact seeded.blocks

theorem generated {rng : Impl} (seeded : Seeded host trace rng) :
    Seeded host trace (rng.generated host.env) where
  made := seeded.made
  forced := seeded.forced
  nonce := by
    rw [Impl.generated, seeded.nonce, nonceOf_set]
    rfl
  blocks n block found := by
    rw [Impl.generated, List.getElem?_append, List.getElem?_singleton] at found
    split_ifs at found with before here
    · exact seeded.blocks n block found
    · cases found
      have last : n = rng.blocks.length := by omega
      refine ⟨seeded.nonce, ?_⟩
      rw [last]
      rfl

theorem keyed {rng : Impl} (seeded : Seeded host trace rng) {entropy : Entropy}
    (passed : Passed host trace rng.installed.length entropy) :
    Seeded host trace (rng.keyed host.env entropy) where
  made n key found := by
    by_cases before : n < rng.installed.length
    · rw [Impl.keyed, List.getElem?_append_left before] at found
      exact seeded.made n key found
    · rw [Impl.keyed, List.getElem?_append_right (Nat.le_of_not_lt before), List.getElem?_singleton,
        Option.ite_none_right_eq_some, Option.some.injEq] at found
      obtain ⟨here, rfl⟩ := found
      have last : n = rng.installed.length := by omega
      refine ⟨entropy, last ▸ passed, ?_⟩
      by_cases mode : rng.deterministic = true
      · exact .inr ⟨seeded.forced mode, if_pos mode⟩
      · left
        rw [if_neg mode, last]
        exact hailMary_eq host _ entropy
  forced := seeded.forced
  nonce := by
    rw [Impl.keyed, seeded.nonce, nonceOf_set]
    rfl
  blocks := seeded.blocks

theorem waits {caller : Caller} {rng : Impl} {stack : List Todo} {next : Config}
    (seeded : Seeded host trace rng) (timely : Timely host trace rng)
    (waits : Waits host.env caller rng stack next) : Seeded host trace next.rng := by
  have asking : Seeded host trace rng.asking := seeded.same rfl rfl rfl rfl
  cases waits with
  | queues busy => exact seeded.same rfl rfl rfl rfl
  | ready normal some => exact seeded.generated
  | passes normal none answer =>
      have own : host.get rng.installed.length = .passes _ := (timely.normal normal).1 ▸ answer
      exact (asking.keyed (.inl own)).generated
  | fails normal none answer => exact asking
  | later normal none answer => exact seeded.same rfl rfl rfl rfl

theorem step {config next : Config} (seeded : Seeded host trace config.rng)
    (timely : Timely host trace config.rng) (goes : step host.env config = some next) :
    Seeded host trace next.rng := by
  rcases config with ⟨rng, stack⟩
  obtain ⟨caller, rest, rfl, waits⟩ | ⟨rest, rfl, empty, rfl⟩ |
    ⟨front, waiters, rest, rfl, queued, waits⟩ := step_cases goes
  · exact seeded.waits timely waits
  · exact seeded
  · have popped : Seeded host trace (rng.popped front waiters) := seeded.same rfl rfl rfl rfl
    exact popped.waits ⟨timely.normal, timely.pending⟩ waits

theorem receives {rng : Impl} {event : Event} {config : Config} (seeded : Seeded host trace rng)
    (timely : Timely host trace rng) (receives : Receives host.env rng event config) :
    Seeded host (trace ++ [event]) config.rng := by
  have seeded := seeded.mono event
  cases receives with
  | getRandom caller => exact seeded
  | @entropy before after caller bytes config asked passes =>
      rw [install_eq, Option.some.injEq] at passes
      rw [← passes]
      have answered : Seeded host (trace ++ [.entropy caller bytes])
          { rng with outstanding := before ++ after } := seeded.same rfl rfl rfl rfl
      obtain ⟨-, later, arrived⟩ := timely.pending (by simp [asked])
      have now : (arrivals (trace ++ [.entropy caller bytes]))[lates host rng.installed.length]? =
          some bytes := by
        rw [arrivals_snoc, ← arrived]
        exact List.getElem?_concat_length
      exact (answered.keyed (.inr ⟨later, now⟩)).generated
  | failure asked => exact seeded.same rfl rfl rfl rfl
  | forceDeterministic => exact ⟨seeded.made, fun _ => by simp, seeded.nonce, seeded.blocks⟩

/-- On the way from an event. -/
theorem reaches {rng : Impl} {event : Event} {first config : Config}
    (seeded : Seeded host trace rng) (timely : Timely host trace rng) (sound : Sound ⟨rng, []⟩)
    (receives : Receives host.env rng event first)
    (reaches : Reaches (CSPRNG.step host.env) first config) :
    Seeded host (trace ++ [event]) config.rng ∧ Timely host (trace ++ [event]) config.rng := by
  have kept := reaches_invariant
    (I := fun config => Seeded host (trace ++ [event]) config.rng ∧
      Timely host (trace ++ [event]) config.rng ∧ Sound config)
    (fun _ _ holds goes => ⟨holds.1.step holds.2.1 goes, holds.2.1.step holds.2.2 goes,
      holds.2.2.step goes⟩) reaches
    ⟨seeded.receives timely receives, timely.receives sound receives, sound.receives receives⟩
  exact ⟨kept.1, kept.2.1⟩

end Seeded

theorem seeded_of_run {host : Host} {key : Key} {state : StateType} {trace : List Event}
    {rng : Impl} (run : Run (Turn host.env) (construct key state) trace rng) :
    Seeded host trace rng ∧ Timely host trace rng := by
  induction run with
  | nil => exact ⟨Seeded.construct key state, Timely.construct key state⟩
  | snoc run next ih =>
      obtain ⟨config, receives, ends⟩ := next
      exact ih.1.reaches ih.2 (sound_of_run run) receives (mem_eval.mp ends).1

/-! ## Blocks -/

/-- The 32 bytes that `chacha20_ietf` takes for its key: the nonce and what
stands behind it. -/
def exposed (counter : UInt8) (behind : Memory) : Vector UInt8 32 :=
  Vector.ofFn fun i => if h : i.val < 12 then (nonceOf counter)[i.val] else behind .nonce i

/-- The 12 bytes that it takes for its nonce: the beginning of the key. -/
def secret (key : Key) : Vector UInt8 12 := Vector.ofFn fun i => key[i.val]

theorem Block.bytesOf_exposed {block : Block} {counter : UInt8}
    (nonce : block.nonce = nonceOf counter) :
    bytesOf block.mem .nonce 32 = exposed counter block.behind := by
  ext i bound
  simp [bytesOf, Block.mem, exposed, nonce]

theorem Block.bytesOf_secret (block : Block) : bytesOf block.mem .key 12 = secret block.key := by
  ext i bound
  have inside : i < 32 := by omega
  simp [bytesOf, Block.mem, secret, inside]

/-- At every moment of every run the n-th block is the keystream under the
counter `n % 16`, the label and the 20 bytes behind the nonce, with the first
12 bytes of the key of reseeding `n / 16` for a nonce; and that key is the
SHA-256 hash of the entropy passed for its request, time and clock, or the entropy
if the generator was made deterministic.  A caller sees a block only once it has
been generated and counted, so what he throws changes none of this. -/
theorem block_law {host : Host} {key : Key} {state : StateType} {trace : List Event} {rng : Impl}
    {event : Event} {first config : Config}
    (run : Run (Turn host.env) (construct key state) trace rng)
    (receives : Receives host.env rng event first)
    (reaches : Reaches (step host.env) first config) {n : Nat} {block : Block}
    (found : config.rng.blocks[n]? = some block) :
    ∃ made, config.rng.installed[n / 16]? = some made ∧
      Made host (trace ++ [event]) (n / 16) made ∧
      (block.call.run []).1 =
        ChaCha.keystream (exposed (UInt8.ofNat (n % 16)) (host.behind n)) (secret made) 32 := by
  obtain ⟨seeded, timely⟩ := seeded_of_run run
  have seeded := (seeded.reaches timely (sound_of_run run) receives reaches).1
  have cadenced := (paced_of_reached ⟨trace, rng, event, first, run, receives, reaches⟩).cadenced
  obtain ⟨nonce, behind⟩ := seeded.blocks n block found
  have installed := cadenced.key n block found
  have counter : UInt8.ofNat (n % 16) = counterOf block.nonce := by
    rw [← period_eq, ← cadenced.counter n block found, UInt8.ofNat_toNat]
  refine ⟨block.key, installed, seeded.made _ _ installed, ?_⟩
  rw [block.call_run, block.bytesOf_secret, Block.bytesOf_exposed nonce, counter, behind]

/-- A randomizer that passes inside `get`, at a fixed time. -/
def midnight : Host where
  get _ := .passes counting
  time _ := List.replicate 8 0
  clock _ := List.replicate 8 0
  buf _ := Vector.replicate 64 0
  tmp32 _ := ⟨Vector.replicate 64 0, Vector.replicate 8 0⟩
  behind _ _ _ := 0
  context _ := Vector.replicate 16 0

theorem block_law_midnight :
    ∃ rng block, Reaches (step midnight.env) ⟨fresh, [.getRandom (.mk [] [])]⟩ ⟨rng, [.loop]⟩ ∧
      rng.blocks[0]? = some block ∧
      ∃ made, rng.installed[0]? = some made ∧
        Made midnight [.getRandom (.mk [] [])] 0 made ∧
        (block.call.run []).1 =
          ChaCha.keystream (exposed 0 fun _ _ => 0) (secret made) 32 := by
  have asks : step midnight.env ⟨fresh, [.getRandom (.mk [] [])]⟩ =
      some ⟨(fresh.asking.keyed midnight.env counting).generated midnight.env, [.loop]⟩ :=
    (waitForReseed_reseeds midnight.env (.mk [] []) [] rfl rfl).trans
      (reseed_passes midnight.env (.mk [] []) [] rfl)
  exact ⟨_, _, .single asks, rfl,
    block_law .nil (.getRandom (.mk [] [])) (.single asks) (n := 0) rfl⟩

end SidepoolFormal.Crypto.CSPRNG
