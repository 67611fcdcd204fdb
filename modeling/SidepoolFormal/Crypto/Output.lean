import SidepoolFormal.Crypto.Keystream
import SidepoolFormal.Crypto.Reseed

/-!
# What the generator delivers

The bytes at the two arguments of the call for a block are the installed key
and the nonce, but the call is not keyed by them.
-/

namespace SidepoolFormal.Crypto.CSPRNG

open Library StateTransition

theorem Block.bytesOf_key (block : Block) : bytesOf block.mem .key 32 = block.key := by
  ext i bound
  simp [bytesOf, Block.mem]

theorem Block.bytesOf_nonce (block : Block) : bytesOf block.mem .nonce 12 = block.nonce := by
  ext i bound
  simp [bytesOf, Block.mem]

/-- What the 32 bytes of a block are: the keystream for what stands at the
nonce, with the beginning of the key for a nonce. -/
theorem Block.call_run (block : Block) :
    (block.call.run []).1 =
      ChaCha.keystream (bytesOf block.mem .nonce 32) (bytesOf block.mem .key 12) 32 := by
  rw [Block.call, chacha20Ietf_run block.mem block.context (by decide) (by decide)]

/-- With the arguments the other way around the bytes would be the keystream
under the block's key and nonce. -/
theorem Block.keyed_run (block : Block) :
    ((streamIetfExtRef block.mem block.context 32 .nonce .key).run []).1 =
      ChaCha.keystream block.key block.nonce 32 := by
  have keyed := streamIetfExtRef_keyed block.mem block.context (n := 32) (by decide) (by decide)
  rw [keyed.writes, block.bytesOf_key, block.bytesOf_nonce]

theorem Block.not_keyed (block : Block) : ¬Keyed block.mem 32 block.call := fun keyed =>
  absurd ((chacha20Ietf_keyed_iff block.mem block.context 32).mp keyed) (by decide)

/-- The wrapper is keyed by its arguments only when there is nothing to write.
So in no state, reachable or not, is a block keyed that the generator has
delivered. -/
theorem output_keyed_iff (mem : Memory) (ctx : Words) (outLen : Nat) (rng : Impl) :
    (Keyed mem outLen (chacha20Ietf mem ctx outLen) ↔ outLen = 0) ∧
      ((∀ block ∈ rng.blocks, Keyed block.mem 32 block.call) ↔ rng.blocks = []) := by
  constructor
  · exact chacha20Ietf_keyed_iff mem ctx outLen
  constructor
  · intro keyed
    rcases delivered : rng.blocks with - | ⟨block, rest⟩
    · rfl
    · exact absurd (keyed block (by simp [delivered])) block.not_keyed
  · intro none block member
    simp [none] at member

/-! ## One block -/

def counting : Entropy := Vector.ofFn fun i => UInt8.ofNat i.val

/-- A randomizer that passes inside `get`, and a digest that adds nothing. -/
def prompt : Environment where
  get _ := .passes counting
  hailMary _ entropy := entropy
  behind _ _ _ := 0
  context _ := Vector.replicate 16 0

def fresh : Impl := construct (Vector.replicate 32 0) .normal

/-- The generator after the first block. -/
def delivered : Impl := (fresh.asking.keyed prompt counting).generated prompt

theorem delivered_run : Run (Turn prompt) fresh [.getRandom (.mk [] [])] delivered := by
  refine Run.nil.snoc ⟨_, .getRandom (.mk [] []), ?_⟩
  have asks : waitForReseed prompt (.mk [] []) ⟨fresh, []⟩ = some ⟨delivered, [.loop]⟩ :=
    (waitForReseed_reseeds prompt (.mk [] []) [] rfl rfl).trans
      (reseed_passes prompt (.mk [] []) [] rfl)
  have leaves : step prompt ⟨delivered, [.loop]⟩ = some ⟨delivered, []⟩ :=
    step_loop_empty prompt [] rfl
  rw [eval_step ((step_getRandom prompt (.mk [] []) fresh []).trans asks)]
  exact eval_step leaves ▸ mem_eval_stop rfl

/-- The first block of this generator is not the keystream of its key and its
nonce, and its call loads past the nonce. -/
theorem delivered_not_keyed :
    ∃ trace rng block, Run (Turn prompt) fresh trace rng ∧ block ∈ rng.blocks ∧
      (block.call.run []).1 ≠ ChaCha.keystream block.key block.nonce 32 ∧
      ∃ a ∈ (block.call.run []).2, ¬inBounds a := by
  refine ⟨_, delivered, ⟨counting, fresh.nonce.set 0 0, prompt.behind 0, prompt.context 0⟩,
    delivered_run, List.mem_singleton_self _, ?_, (.nonce, 31), ?_, by simp [inBounds]⟩
  · rw [Block.call_run]
    decide +kernel
  · exact chacha20Ietf_reads _ _ (by decide)

end SidepoolFormal.Crypto.CSPRNG
