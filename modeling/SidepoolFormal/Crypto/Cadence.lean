import SidepoolFormal.Crypto.Output
import Mathlib.Data.List.Nodup
import Mathlib.Data.List.Perm.Subperm

/-!
# Keys and counters

The blocks that were generated and the keys that are left add up to sixteen for
each reseeding, at every moment of every run.  So the number of a block tells
the reseeding that its key comes from and the counter it was generated with.
-/

namespace SidepoolFormal.Crypto.CSPRNG

open Library StateTransition

/-- How many blocks are generated with one key. -/
def period : Nat := numKeysBeforeReseed.toNat

theorem period_eq : period = 16 := rfl

/-- Somewhere in a run: the event loop has called in, and the functions on the
stack have got to `config`. -/
def Reached (env : Environment) (key : Key) (state : StateType) (config : Config) : Prop :=
  ∃ trace rng event first, Run (Turn env) (construct key state) trace rng ∧
    Receives env rng event first ∧ Reaches (step env) first config

/-- The byte of a nonce that counts. -/
def counterOf (nonce : Nonce) : UInt8 := nonce.get ⟨0, Nat.succ_pos 11⟩

/-- For every block the reseeding that its key is taken from, and its nonce. -/
def uses (rng : Impl) : List (Nat × Nonce) :=
  rng.blocks.mapIdx fun n block => (n / period, block.nonce)

/-- The n-th block is generated with the key of reseeding `n / 16`, and its
counter is `n % 16`. -/
structure Cadenced (rng : Impl) : Prop where
  key : ∀ n block, rng.blocks[n]? = some block → rng.installed[n / period]? = some block.key
  counter : ∀ n block, rng.blocks[n]? = some block → (counterOf block.nonce).toNat = n % period

variable {env : Environment}

/-! ## What every step preserves -/

structure Paced (rng : Impl) : Prop where
  total : rng.blocks.length + budget rng = period * rng.installed.length
  bound : rng.counter.toNat ≤ period
  newest : budget rng ≠ 0 → rng.installed.getLast? = some rng.key
  busy : rng.state = .reseeding → budget rng = 0
  cadenced : Cadenced rng

theorem counter_add_budget {rng : Impl} (paced : Paced rng) :
    rng.counter.toNat + budget rng = period := by
  have bound := paced.bound
  rw [budget, period] at *
  omega

theorem length_generated (rng : Impl) :
    (rng.generated env).blocks.length = rng.blocks.length + 1 := List.length_append

namespace Paced

theorem construct (key : Key) (state : StateType) : Paced (construct key state) where
  total := rfl
  bound := le_refl period
  newest left := absurd rfl left
  busy _ := rfl
  cadenced := ⟨by simp [CSPRNG.construct], by simp [CSPRNG.construct]⟩

/-- With keys left, the next block is numbered by the reseedings and the
counter. -/
theorem next_block {rng : Impl} (paced : Paced rng) (left : budget rng ≠ 0) :
    rng.blocks.length / period = rng.installed.length - 1 ∧
      rng.blocks.length % period = rng.counter.toNat := by
  have total := paced.total
  have counted := counter_add_budget paced
  simp only [period_eq] at total counted ⊢
  omega

theorem generated {rng : Impl} (paced : Paced rng) (left : budget rng ≠ 0) :
    Paced (rng.generated env) := by
  have ready := (ready_iff rng).mpr left
  have spent := budget_generated env ready
  have up := toNat_counter_generated env ready
  have total := paced.total
  have counted := counter_add_budget paced
  obtain ⟨reseeding, count⟩ := paced.next_block left
  have newest := paced.newest left
  rw [List.getLast?_eq_getElem?, ← reseeding] at newest
  have last {n : Nat} {block : Block} (found : (rng.generated env).blocks[n]? = some block) :
      rng.blocks[n]? = some block ∨
        n = rng.blocks.length ∧ block.key = rng.key ∧ block.nonce = rng.nonce := by
    rw [Impl.generated, List.getElem?_append, List.getElem?_singleton] at found
    split_ifs at found with before here
    · exact .inl found
    · cases found
      exact .inr ⟨by omega, rfl, rfl⟩
  constructor
  · have same : (rng.generated env).installed = rng.installed := rfl
    rw [length_generated, same]
    omega
  · omega
  · intro _
    exact paced.newest left
  · intro busy
    exact absurd (paced.busy busy) left
  · constructor
    · intro n block found
      rcases last found with old | ⟨rfl, same, -⟩
      · exact paced.cadenced.key n block old
      · rw [same]
        exact newest
    · intro n block found
      rcases last found with old | ⟨rfl, -, same⟩
      · exact paced.cadenced.counter n block old
      · rw [same, count]
        rfl

/-- Only the keys, the nonce and the blocks count. -/
theorem same {rng rng' : Impl} (paced : Paced rng) (key : rng'.key = rng.key)
    (nonce : rng'.nonce = rng.nonce) (installed : rng'.installed = rng.installed)
    (blocks : rng'.blocks = rng.blocks) (busy : rng'.state = .reseeding → budget rng = 0) :
    Paced rng' := by
  have counter : rng'.counter = rng.counter := by rw [Impl.counter, Impl.counter, nonce]
  have left : budget rng' = budget rng := by rw [budget, budget, counter]
  constructor
  · rw [left, installed, blocks]
    exact paced.total
  · rw [counter]
    exact paced.bound
  · rw [left, installed, key]
    exact paced.newest
  · rw [left]
    exact busy
  · constructor
    · rw [installed, blocks]
      exact paced.cadenced.key
    · rw [blocks]
      exact paced.cadenced.counter

theorem asking {rng : Impl} (paced : Paced rng) (none : budget rng = 0) : Paced rng.asking :=
  paced.same rfl rfl rfl rfl fun _ => none

theorem keyed {rng : Impl} (paced : Paced rng) (none : budget rng = 0) (entropy : Entropy) :
    Paced (rng.keyed env entropy) := by
  have total := paced.total
  have full := budget_keyed env rng entropy
  constructor
  · rw [full, Impl.keyed, List.length_append, List.length_singleton]
    simp only [period_eq] at total ⊢
    omega
  · rw [counter_keyed]
    exact Nat.zero_le period
  · intro _
    exact List.getLast?_concat
  · intro busy
    cases busy
  · constructor
    · intro n block found
      have old := paced.cadenced.key n block found
      obtain ⟨bound, -⟩ := List.getElem?_eq_some_iff.mp old
      rw [Impl.keyed, List.getElem?_append_left bound]
      exact old
    · exact paced.cadenced.counter

theorem installed {rng : Impl} (paced : Paced rng) (none : budget rng = 0) (entropy : Entropy) :
    Paced ((rng.keyed env entropy).generated env) := by
  apply (paced.keyed none entropy).generated
  rw [budget_keyed]
  decide

theorem waits {caller : Caller} {rng : Impl} {stack : List Todo} {next : Config}
    (paced : Paced rng) (waits : Waits env caller rng stack next) : Paced next.rng := by
  cases waits with
  | queues busy => exact paced.same rfl rfl rfl rfl paced.busy
  | ready normal some => exact paced.generated some
  | passes normal none answer => exact (paced.asking none).installed none _
  | fails normal none answer => exact paced.asking none
  | later normal none answer => exact paced.same rfl rfl rfl rfl fun _ => none

theorem step {config next : Config} (paced : Paced config.rng)
    (goes : step env config = some next) : Paced next.rng := by
  rcases config with ⟨rng, stack⟩
  obtain ⟨caller, rest, rfl, waits⟩ | ⟨rest, rfl, empty, rfl⟩ |
    ⟨front, waiters, rest, rfl, queued, waits⟩ := step_cases goes
  · exact paced.waits waits
  · exact paced
  · have popped : Paced (rng.popped front waiters) := paced.same rfl rfl rfl rfl paced.busy
    exact popped.waits waits

theorem receives {rng : Impl} {event : Event} {config : Config} (paced : Paced rng)
    (sound : Sound ⟨rng, []⟩) (receives : Receives env rng event config) : Paced config.rng := by
  cases receives with
  | getRandom caller => exact paced
  | @entropy before after caller bytes config asked passes =>
      rw [install_eq, Option.some.injEq] at passes
      rw [← passes]
      have answered : Paced { rng with outstanding := before ++ after } :=
        paced.same rfl rfl rfl rfl paced.busy
      exact answered.installed (paced.busy (sound.reseeding asked)) bytes
  | failure asked => exact paced.same rfl rfl rfl rfl paced.busy
  | forceDeterministic => exact paced.same rfl rfl rfl rfl paced.busy

theorem turn {rng rng' : Impl} {event : Event} (paced : Paced rng) (sound : Sound ⟨rng, []⟩)
    (turn : Turn env rng event rng') : Paced rng' := by
  obtain ⟨config, receives, ends⟩ := turn
  exact reaches_invariant (I := fun config => Paced config.rng) (fun _ _ => Paced.step)
    (mem_eval.mp ends).1 (paced.receives sound receives)

end Paced

theorem paced_of_run {key : Key} {state : StateType} {trace : List Event} {rng : Impl}
    (run : Run (Turn env) (construct key state) trace rng) : Paced rng := by
  induction run with
  | nil => exact Paced.construct key state
  | snoc run next ih => exact ih.turn (sound_of_run run) next

theorem paced_of_reached {key : Key} {state : StateType} {config : Config}
    (reached : Reached env key state config) : Paced config.rng := by
  obtain ⟨trace, rng, event, first, run, receives, reaches⟩ := reached
  exact reaches_invariant (I := fun config => Paced config.rng) (fun _ _ => Paced.step) reaches
    ((paced_of_run run).receives (sound_of_run run) receives)

/-! ## No pair twice -/

/-- The reseeding and the nonce tell the number of the block. -/
theorem number_of_use {rng : Impl} (cadenced : Cadenced rng) {n : Nat} {use : Nat × Nonce}
    (found : (uses rng)[n]? = some use) : n = period * use.1 + (counterOf use.2).toNat := by
  rw [uses, List.getElem?_mapIdx, Option.map_eq_some_iff] at found
  obtain ⟨block, found, rfl⟩ := found
  rw [cadenced.counter n block found]
  exact (Nat.div_add_mod n period).symm

theorem nodup_uses {rng : Impl} (cadenced : Cadenced rng) : (uses rng).Nodup := by
  rw [List.nodup_iff_getElem?_ne_getElem?]
  intro m n before bound same
  have first := List.getElem?_eq_getElem (before.trans bound)
  have second := List.getElem?_eq_getElem bound
  rw [same, second] at first
  have number := number_of_use cadenced second
  rw [Option.some.inj first] at number
  have number' := number_of_use cadenced (List.getElem?_eq_getElem (before.trans bound))
  omega

/-- The counters of the blocks of one reseeding are different and below 16. -/
theorem count_uses {rng : Impl} (cadenced : Cadenced rng) (reseeding : Nat) :
    (uses rng).countP (fun use => use.1 = reseeding) ≤ period := by
  rw [List.countP_eq_length_filter]
  let counters :=
    ((uses rng).filter fun use => use.1 = reseeding).map fun use => (counterOf use.2).toNat
  have distinct : counters.Nodup := by
    refine ((nodup_uses cadenced).filter _).map_on ?_
    intro x first y second same
    obtain ⟨first, x_reseeding⟩ := List.mem_filter.mp first
    obtain ⟨second, y_reseeding⟩ := List.mem_filter.mp second
    obtain ⟨m, first⟩ := List.mem_iff_getElem?.mp first
    obtain ⟨n, second⟩ := List.mem_iff_getElem?.mp second
    have number : m = n := by
      rw [number_of_use cadenced first, number_of_use cadenced second, same,
        of_decide_eq_true x_reseeding, of_decide_eq_true y_reseeding]
    rw [number, second] at first
    exact (Option.some.inj first).symm
  have below : counters ⊆ List.range period := by
    intro counter member
    obtain ⟨use, used, rfl⟩ := List.mem_map.mp member
    obtain ⟨n, found⟩ := List.mem_iff_getElem?.mp (List.mem_filter.mp used).1
    rw [uses, List.getElem?_mapIdx, Option.map_eq_some_iff] at found
    obtain ⟨block, found, rfl⟩ := found
    rw [cadenced.counter n block found]
    exact List.mem_range.mpr (Nat.mod_lt n (by decide))
  have most := (distinct.subperm below).length_le
  rwa [List.length_map, List.length_range] at most

theorem step_ne_none {env : Environment} {config : Config} (stack : config.stack ≠ []) :
    step env config ≠ none := by
  rcases config with ⟨rng, - | ⟨caller | -, rest⟩⟩
  · exact absurd rfl stack
  · obtain ⟨next, goes, -⟩ := waitForReseed_waits env caller rng rest
    rw [step_getRandom, goes]
    exact Option.some_ne_none next
  · rcases waiting : rng.waiters with - | ⟨front, waiters⟩
    · rw [step_loop_empty env rest waiting]
      exact Option.some_ne_none _
    · obtain ⟨next, goes, -⟩ :=
        waitForReseed_waits env front (rng.popped front waiters) (.loop :: rest)
      rw [step_loop_front env rest waiting, goes]
      exact Option.some_ne_none next

/-- At every moment of every run, the blocks follow the cadence, no nonce was
used twice with the key of one reseeding, no key served more than sixteen
blocks, and no assertion fails.  A block is generated and counted before its caller
can throw. -/
theorem keystream_cadence {env : Environment} {key : Key} {state : StateType} {config : Config}
    (reached : Reached env key state config) :
    Cadenced config.rng ∧ (uses config.rng).Nodup ∧
      (∀ reseeding, (uses config.rng).countP (fun use => use.1 = reseeding) ≤ period) ∧
      (step env config = none → config.stack = []) ∧
      ∀ caller entropy, install env caller entropy config ≠ none := by
  have cadenced := (paced_of_reached reached).cadenced
  refine ⟨cadenced, nodup_uses cadenced, count_uses cadenced, ?_, ?_⟩
  · intro stops
    by_contra stack
    exact step_ne_none stack stops
  · intro caller entropy
    rw [install_eq]
    exact Option.some_ne_none _

/-- While the first block of a generator is delivered. -/
theorem keystream_cadence_delivered :
    Reached prompt fresh.key .normal ⟨delivered, [.loop]⟩ ∧
      delivered.blocks.length = 1 ∧ Cadenced delivered := by
  have asks : step prompt ⟨fresh, [.getRandom (.mk [] [])]⟩ = some ⟨delivered, [.loop]⟩ :=
    (waitForReseed_reseeds prompt (.mk [] []) [] rfl rfl).trans
      (reseed_passes prompt (.mk [] []) [] rfl)
  have reached : Reached prompt fresh.key .normal ⟨delivered, [.loop]⟩ :=
    ⟨[], fresh, .getRandom (.mk [] []), _, .nil, .getRandom (.mk [] []), .single asks⟩
  exact ⟨reached, rfl, (keystream_cadence reached).1⟩

end SidepoolFormal.Crypto.CSPRNG
