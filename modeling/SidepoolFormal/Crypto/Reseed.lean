import SidepoolFormal.Crypto.CSPRNG

/-!
# What the generator does

What one call of `wait_for_reseed` can do, and what holds whenever the event
loop has control: keys are handed out only while no request is outstanding and
nobody waits.
-/

namespace SidepoolFormal.Crypto.CSPRNG

open Library StateTransition

variable (env : Environment)

/-! ## One call of `wait_for_reseed` -/

@[simp]
theorem counter_generated (rng : Impl) : (rng.generated env).counter = rng.counter + 1 :=
  Vector.getElem_set_self (by decide)

@[simp]
theorem counter_keyed (rng : Impl) (entropy : Entropy) : (rng.keyed env entropy).counter = 0 :=
  Vector.getElem_set_self (by decide)

/-- The keys that are left. -/
def budget (rng : Impl) : Nat := numKeysBeforeReseed.toNat - rng.counter.toNat

theorem toNat_counter_generated {rng : Impl} (ready : rng.counter < numKeysBeforeReseed) :
    (rng.generated env).counter.toNat = rng.counter.toNat + 1 := by
  have small : rng.counter.toNat < 16 := ready
  rw [counter_generated, UInt8.toNat_add]
  simp
  omega

theorem budget_generated {rng : Impl} (ready : rng.counter < numKeysBeforeReseed) :
    budget rng = budget (rng.generated env) + 1 := by
  have bound : rng.counter.toNat < numKeysBeforeReseed.toNat := ready
  rw [budget, budget, toNat_counter_generated env ready]
  omega

theorem budget_keyed (rng : Impl) (entropy : Entropy) : budget (rng.keyed env entropy) = 16 := by
  rw [budget, counter_keyed]
  rfl

theorem ready_keyed (rng : Impl) (entropy : Entropy) :
    (rng.keyed env entropy).counter < numKeysBeforeReseed := by
  rw [counter_keyed]
  decide

theorem ready_iff (rng : Impl) : rng.counter < numKeysBeforeReseed ↔ budget rng ≠ 0 := by
  rw [UInt8.lt_iff_toNat_lt, budget]
  omega

theorem install_eq (caller : Caller) (entropy : Entropy) (rng : Impl) (stack : List Todo) :
    install env caller entropy ⟨rng, stack⟩ =
      some ⟨(rng.keyed env entropy).generated env, calls caller.passed ++ .loop :: stack⟩ :=
  if_pos (ready_keyed env rng entropy)

theorem budget_install (rng : Impl) (entropy : Entropy) :
    budget ((rng.keyed env entropy).generated env) = 15 := by
  have one := budget_generated env (ready_keyed env rng entropy)
  rw [budget_keyed] at one
  omega

theorem waitForReseed_queues {rng : Impl} (caller : Caller) (stack : List Todo)
    (busy : rng.state = .reseeding) :
    waitForReseed env caller ⟨rng, stack⟩ = some (addWaiter caller ⟨rng, stack⟩) := if_pos busy

theorem waitForReseed_ready {rng : Impl} (caller : Caller) (stack : List Todo)
    (normal : rng.state = .normal) (left : budget rng ≠ 0) :
    waitForReseed env caller ⟨rng, stack⟩ =
      some ⟨rng.generated env, calls caller.passed ++ stack⟩ := by
  have ready := (ready_iff rng).mpr left
  rw [waitForReseed, if_neg (by simp [normal]), if_neg (UInt8.not_le.mpr ready), generate,
    if_pos ready]

theorem reseed_passes {rng : Impl} {entropy : Entropy} (caller : Caller) (stack : List Todo)
    (answer : env.get rng.requests = .passes entropy) :
    reseed env caller ⟨rng, stack⟩ =
      some ⟨(rng.asking.keyed env entropy).generated env,
        calls caller.passed ++ .loop :: stack⟩ := by
  simp only [reseed, answer, install_eq]

theorem reseed_fails {rng : Impl} (caller : Caller) (stack : List Todo)
    (answer : env.get rng.requests = .fails) :
    reseed env caller ⟨rng, stack⟩ = some ⟨rng.asking, calls caller.failed ++ stack⟩ := by
  simp only [reseed, answer]

theorem reseed_later {rng : Impl} (caller : Caller) (stack : List Todo)
    (answer : env.get rng.requests = .later) :
    reseed env caller ⟨rng, stack⟩ =
      some ⟨{ rng.asking with outstanding := rng.outstanding ++ [caller] }, stack⟩ := by
  simp only [reseed, answer]

theorem waitForReseed_reseeds {rng : Impl} (caller : Caller) (stack : List Todo)
    (normal : rng.state = .normal) (empty : budget rng = 0) :
    waitForReseed env caller ⟨rng, stack⟩ = reseed env caller ⟨rng, stack⟩ := by
  have used : ¬rng.counter < numKeysBeforeReseed := by simp [ready_iff, empty]
  rw [waitForReseed, if_neg (by simp [normal]), if_pos (UInt8.not_lt.mp used)]

/-- What a call of `wait_for_reseed` comes to. -/
inductive Waits (env : Environment) (caller : Caller) (rng : Impl) (stack : List Todo) :
    Config → Prop
  | queues (busy : rng.state = .reseeding) :
      Waits env caller rng stack (addWaiter caller ⟨rng, stack⟩)
  | ready (normal : rng.state = .normal) (some : budget rng ≠ 0) :
      Waits env caller rng stack ⟨rng.generated env, calls caller.passed ++ stack⟩
  | passes {entropy : Entropy} (normal : rng.state = .normal) (none : budget rng = 0)
      (answer : env.get rng.requests = .passes entropy) :
      Waits env caller rng stack
        ⟨(rng.asking.keyed env entropy).generated env, calls caller.passed ++ .loop :: stack⟩
  | fails (normal : rng.state = .normal) (none : budget rng = 0)
      (answer : env.get rng.requests = .fails) :
      Waits env caller rng stack ⟨rng.asking, calls caller.failed ++ stack⟩
  | later (normal : rng.state = .normal) (none : budget rng = 0)
      (answer : env.get rng.requests = .later) :
      Waits env caller rng stack
        ⟨{ rng.asking with outstanding := rng.outstanding ++ [caller] }, stack⟩

/-- It always goes on: the assertion never fails. -/
theorem waitForReseed_waits (caller : Caller) (rng : Impl) (stack : List Todo) :
    ∃ next, waitForReseed env caller ⟨rng, stack⟩ = some next ∧
      Waits env caller rng stack next := by
  rcases mode : rng.state with - | -
  · by_cases empty : budget rng = 0
    · rw [waitForReseed_reseeds env caller stack mode empty]
      rcases answer : env.get rng.requests with entropy | - | -
      · exact ⟨_, reseed_passes env caller stack answer, .passes mode empty answer⟩
      · exact ⟨_, reseed_fails env caller stack answer, .fails mode empty answer⟩
      · exact ⟨_, reseed_later env caller stack answer, .later mode empty answer⟩
    · exact ⟨_, waitForReseed_ready env caller stack mode empty, .ready mode empty⟩
  · exact ⟨_, waitForReseed_queues env caller stack mode, .queues mode⟩

theorem step_getRandom (caller : Caller) (rng : Impl) (stack : List Todo) :
    step env ⟨rng, .getRandom caller :: stack⟩ = waitForReseed env caller ⟨rng, stack⟩ := rfl

theorem step_loop_empty {rng : Impl} (stack : List Todo) (empty : rng.waiters = []) :
    step env ⟨rng, .loop :: stack⟩ = some ⟨rng, stack⟩ := by
  simp only [step, empty]

theorem step_loop_front {rng : Impl} {front : Caller} {waiters : List Caller} (stack : List Todo)
    (queued : rng.waiters = front :: waiters) :
    step env ⟨rng, .loop :: stack⟩ =
      waitForReseed env front ⟨rng.popped front waiters, .loop :: stack⟩ := by
  simp only [step, queued]

variable {env : Environment}

/-- What one step can do. -/
theorem step_cases {rng : Impl} {stack : List Todo} {next : Config}
    (goes : step env ⟨rng, stack⟩ = some next) :
    (∃ caller rest, stack = .getRandom caller :: rest ∧ Waits env caller rng rest next) ∨
    (∃ rest, stack = .loop :: rest ∧ rng.waiters = [] ∧ next = ⟨rng, rest⟩) ∨
    (∃ front waiters rest, stack = .loop :: rest ∧ rng.waiters = front :: waiters ∧
      Waits env front (rng.popped front waiters) stack next) := by
  rcases stack with - | ⟨caller | -, rest⟩
  · cases goes
  · obtain ⟨next', same, waits⟩ := waitForReseed_waits env caller rng rest
    rw [step_getRandom, same, Option.some.injEq] at goes
    exact .inl ⟨caller, rest, rfl, goes ▸ waits⟩
  · rcases waiting : rng.waiters with - | ⟨front, waiters⟩
    · rw [step_loop_empty env rest waiting, Option.some.injEq] at goes
      exact .inr (.inl ⟨rest, rfl, rfl, goes.symm⟩)
    · obtain ⟨next', same, waits⟩ :=
        waitForReseed_waits env front (rng.popped front waiters) (.loop :: rest)
      rw [step_loop_front env rest waiting, same, Option.some.injEq] at goes
      exact .inr (.inr ⟨front, waiters, rest, rfl, rfl, goes ▸ waits⟩)

/-! ## Between the calls of the event loop -/

structure Sound (config : Config) : Prop where
  one : config.rng.outstanding.length ≤ 1
  asked : config.rng.state = .normal → config.rng.outstanding = []
  looping : config.rng.state = .normal → config.rng.waiters = [] ∨ .loop ∈ config.stack

theorem Waits.sound {caller : Caller} {rng : Impl} {stack : List Todo} {next : Config}
    (waits : Waits env caller rng stack next) (sound : Sound ⟨rng, stack⟩) : Sound next := by
  cases waits with
  | queues busy =>
      exact ⟨sound.one, sound.asked, fun normal => absurd (busy.symm.trans normal) (by decide)⟩
  | ready normal some =>
      exact ⟨sound.one, sound.asked, fun normal =>
        (sound.looping normal).imp_right fun member => List.mem_append_right _ member⟩
  | passes normal none answer =>
      exact ⟨sound.one, fun _ => sound.asked normal, fun _ => .inr (by simp)⟩
  | fails normal none answer =>
      exact ⟨sound.one, fun absurd => (nomatch absurd), fun absurd => (nomatch absurd)⟩
  | later normal none answer =>
      refine ⟨?_, fun absurd => (nomatch absurd), fun absurd => (nomatch absurd)⟩
      have nobody : rng.outstanding = [] := sound.asked normal
      simp [nobody]

theorem Sound.called {rng : Impl} {caller : Caller} {rest : List Todo}
    (sound : Sound ⟨rng, .getRandom caller :: rest⟩) : Sound ⟨rng, rest⟩ :=
  ⟨sound.one, sound.asked, fun normal =>
    (sound.looping normal).imp_right fun member => by simpa using member⟩

theorem Sound.popped {rng : Impl} {rest : List Todo} (sound : Sound ⟨rng, .loop :: rest⟩)
    (front : Caller) (waiters : List Caller) : Sound ⟨rng.popped front waiters, .loop :: rest⟩ :=
  ⟨sound.one, sound.asked, fun _ => .inr (by simp)⟩

theorem Sound.step {config next : Config} (sound : Sound config)
    (goes : step env config = some next) : Sound next := by
  rcases config with ⟨rng, stack⟩
  obtain ⟨caller, rest, rfl, waits⟩ | ⟨rest, rfl, empty, rfl⟩ |
    ⟨front, waiters, rest, rfl, queued, waits⟩ := step_cases goes
  · exact waits.sound sound.called
  · exact ⟨sound.one, sound.asked, fun _ => .inl empty⟩
  · exact waits.sound (sound.popped front waiters)

/-- An answer can only come while the generator is reseeding. -/
theorem Sound.reseeding {rng : Impl} {stack : List Todo} (sound : Sound ⟨rng, stack⟩)
    {before after : List Caller} {caller : Caller}
    (asked : rng.outstanding = before ++ caller :: after) : rng.state = .reseeding := by
  rcases mode : rng.state with - | -
  · have none := sound.asked mode
    simp [asked] at none
  · rfl

theorem alone {before after : List Caller} {caller : Caller}
    (one : (before ++ caller :: after).length ≤ 1) : before ++ after = [] := by
  rw [← List.length_eq_zero_iff, List.length_append]
  rw [List.length_append, List.length_cons] at one
  omega

theorem Sound.receives {rng : Impl} {event : Event} {config : Config} (sound : Sound ⟨rng, []⟩)
    (receives : Receives env rng event config) : Sound config := by
  have nobody (mode : rng.state = .normal) : rng.waiters = [] := by simpa using sound.looping mode
  cases receives with
  | getRandom caller => exact ⟨sound.one, sound.asked, fun normal => .inl (nobody normal)⟩
  | @entropy before after caller bytes config asked passes =>
      have none : before ++ after = [] := alone (asked ▸ sound.one)
      rw [install_eq, Option.some.injEq] at passes
      rw [← passes]
      exact ⟨by simp [Impl.generated, Impl.keyed, none], fun _ => none, fun _ => .inr (by simp)⟩
  | @failure before after caller asked =>
      have none : before ++ after = [] := alone (asked ▸ sound.one)
      exact ⟨by simp [none], fun _ => none, fun normal => .inl (nobody normal)⟩
  | forceDeterministic => exact ⟨sound.one, sound.asked, fun normal => .inl (nobody normal)⟩

theorem Sound.turn {rng rng' : Impl} {event : Event} (sound : Sound ⟨rng, []⟩)
    (turn : Turn env rng event rng') : Sound ⟨rng', []⟩ := by
  obtain ⟨config, receives, ends⟩ := turn
  exact reaches_invariant (fun _ _ => Sound.step) (mem_eval.mp ends).1 (sound.receives receives)

/-- A generator that the event loop can meet. -/
theorem sound_of_run {key : Key} {state : StateType} {trace : List Event} {rng : Impl}
    (run : Run (Turn env) (construct key state) trace rng) : Sound ⟨rng, []⟩ := by
  refine run.invariant (I := fun _ rng => Sound ⟨rng, []⟩) ?_ fun _ _ _ _ => Sound.turn
  exact ⟨Nat.zero_le _, fun _ => rfl, fun _ => .inl rfl⟩

end SidepoolFormal.Crypto.CSPRNG
