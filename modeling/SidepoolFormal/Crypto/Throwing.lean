import SidepoolFormal.Crypto.Reseed

/-!
# Callers that throw

What a continuation does is left open here: it calls `get_random` as often as it
likes, and returns or throws, and so does the code that calls in.  What it throws
meets the try blocks of the `then`s on the stack.  They all give it to the `fail`
of a caller, who may throw again; the call of `my_pass` in `reseed` and the loop
behind it have no try block around them, and are left.
-/

namespace SidepoolFormal.Crypto.CSPRNG

open Library StateTransition

/-! ## Code -/

/-- What is on the stack: the code of a caller; a try block, which gives what it
catches to the `fail` of its caller; and what `reseed` does from `my_pass` on. -/
inductive Frame where
  | user
  | attempt (caller : Caller)
  | loop

structure Running where
  rng : Impl
  stack : List Frame

/-- The code of a caller has control, or the event loop. -/
def free : List Frame → Bool
  | [] => true
  | .user :: _ => true
  | .attempt _ :: _ => false
  | .loop :: _ => false

/-- What goes on when a function returns: try blocks are left. -/
def returned : List Frame → List Frame
  | .attempt _ :: stack => returned stack
  | stack => stack

/-- What goes on when a function throws: the innermost try block runs the `fail` of
its caller, or the code of a caller sees the exception; loops are left. -/
def unwound : List Frame → List Frame
  | [] => []
  | .user :: stack => .user :: stack
  | .attempt _ :: stack => .user :: stack
  | .loop :: stack => unwound stack

/-- The try blocks around a continuation: `then` has one around its core, and that
of `Io<void>` has one around its function. -/
def attempts (n : Nat) (caller : Caller) (stack : List Frame) : List Frame :=
  List.replicate n (.attempt caller) ++ stack

variable (env : Environment)

/-- The function of `then` in `get_random`, which ends with the caller's `pass`.  Its
assertion holds: whoever comes here has just looked at the counter or set it
back. -/
def passed (caller : Caller) (rng : Impl) (stack : List Frame) : Running :=
  ⟨rng.generated env, .user :: attempts 1 caller stack⟩

/-- The second function of `then` in `reseed`, with the core that it returns. -/
def installed (caller : Caller) (entropy : Entropy) (rng : Impl) (stack : List Frame) : Running :=
  passed env caller (rng.keyed env entropy) (.loop :: stack)

/-- `reseed`, in the try blocks of its two `then`s.  A request that fails before `get`
returns has them around it. -/
def reseeds (caller : Caller) (rng : Impl) (stack : List Frame) : Running :=
  match env.get rng.requests with
  | .passes entropy => installed env caller entropy rng.asking (attempts 3 caller stack)
  | .fails => ⟨rng.asking, .user :: attempts 3 caller stack⟩
  | .later =>
      ⟨{ rng.asking with outstanding := rng.outstanding ++ [caller] },
        returned (attempts 3 caller stack)⟩

/-- `wait_for_reseed`, called from `get_random` or for a waiter: in the try block of
the one or the other, and in the two of its own `then`. -/
def waits (caller : Caller) (rng : Impl) (stack : List Frame) : Running :=
  if rng.state = .reseeding then
    ⟨{ rng with waiters := rng.waiters ++ [caller] }, returned (attempts 4 caller stack)⟩
  else if numKeysBeforeReseed ≤ rng.counter then
    reseeds env caller rng (attempts 3 caller stack)
  else
    passed env caller rng (attempts 3 caller stack)

inductive Happening where
  | enters
  | calls (caller : Caller)
  | forces
  | returns
  | raises
  | resumes (front : Caller)
  | leaves
  | entropy (caller : Caller) (bytes : Entropy)
  | failure (caller : Caller)

/-- The randomizer completes a request while somebody else has control. -/
inductive Step : Running → Happening → Running → Prop
  | enters {rng : Impl} : Step ⟨rng, []⟩ .enters ⟨rng, [.user]⟩
  | calls {rng : Impl} {stack : List Frame} (caller : Caller) :
      Step ⟨rng, .user :: stack⟩ (.calls caller) (waits env caller rng (.user :: stack))
  | forces {rng : Impl} {stack : List Frame} :
      Step ⟨rng, .user :: stack⟩ .forces ⟨{ rng with deterministic := true }, .user :: stack⟩
  | returns {rng : Impl} {stack : List Frame} :
      Step ⟨rng, .user :: stack⟩ .returns ⟨rng, returned stack⟩
  | raises {rng : Impl} {stack : List Frame} :
      Step ⟨rng, .user :: stack⟩ .raises ⟨rng, unwound stack⟩
  | resumes {rng : Impl} {stack : List Frame} {front : Caller} {waiters : List Caller}
      (queued : rng.waiters = front :: waiters) :
      Step ⟨rng, .loop :: stack⟩ (.resumes front)
        (waits env front (rng.popped front waiters) (.loop :: stack))
  | leaves {rng : Impl} {stack : List Frame} (empty : rng.waiters = []) :
      Step ⟨rng, .loop :: stack⟩ .leaves ⟨rng, returned stack⟩
  | entropy {rng : Impl} {stack : List Frame} {before after : List Caller} {caller : Caller}
      (control : free stack = true) (asked : rng.outstanding = before ++ caller :: after)
      (bytes : Entropy) :
      Step ⟨rng, stack⟩ (.entropy caller bytes)
        (installed env caller bytes { rng with outstanding := before ++ after } stack)
  | failure {rng : Impl} {stack : List Frame} {before after : List Caller} {caller : Caller}
      (control : free stack = true) (asked : rng.outstanding = before ++ caller :: after) :
      Step ⟨rng, stack⟩ (.failure caller)
        ⟨{ rng with outstanding := before ++ after }, .user :: stack⟩

/-! ## The stack -/

@[simp]
theorem attempts_zero (caller : Caller) (stack : List Frame) :
    attempts 0 caller stack = stack := rfl

@[simp]
theorem attempts_succ (n : Nat) (caller : Caller) (stack : List Frame) :
    attempts (n + 1) caller stack = .attempt caller :: attempts n caller stack := rfl

@[simp]
theorem returned_attempts (n : Nat) (caller : Caller) (stack : List Frame) :
    returned (attempts n caller stack) = returned stack := by
  induction n with
  | zero => rfl
  | succ n ih => exact ih

@[simp]
theorem loop_mem_attempts (n : Nat) (caller : Caller) (stack : List Frame) :
    .loop ∈ attempts n caller stack ↔ .loop ∈ stack := by
  induction n with
  | zero => rfl
  | succ n ih => simp [ih]

@[simp]
theorem loop_mem_returned (stack : List Frame) : .loop ∈ returned stack ↔ .loop ∈ stack := by
  induction stack with
  | nil => rfl
  | cons frame stack ih =>
      cases frame with
      | user => rfl
      | attempt caller => simp [returned, ih]
      | loop => rfl

/-! ## One call of `wait_for_reseed` -/

/-- What a call of `wait_for_reseed` comes to, as far as the generator and the loops
on the stack go. -/
inductive Served (env : Environment) (caller : Caller) (rng : Impl) (stack : List Frame) :
    Running → Prop
  | queues (busy : rng.state = .reseeding) :
      Served env caller rng stack ⟨{ rng with waiters := rng.waiters ++ [caller] }, returned stack⟩
  | ready (normal : rng.state = .normal) (some : budget rng ≠ 0) :
      Served env caller rng stack ⟨rng.generated env, .user :: attempts 4 caller stack⟩
  | passes {entropy : Entropy} (normal : rng.state = .normal) (none : budget rng = 0)
      (answer : env.get rng.requests = .passes entropy) :
      Served env caller rng stack
        ⟨(rng.asking.keyed env entropy).generated env,
          .user :: .attempt caller :: .loop :: attempts 6 caller stack⟩
  | fails (normal : rng.state = .normal) (none : budget rng = 0)
      (answer : env.get rng.requests = .fails) :
      Served env caller rng stack ⟨rng.asking, .user :: attempts 6 caller stack⟩
  | later (normal : rng.state = .normal) (none : budget rng = 0)
      (answer : env.get rng.requests = .later) :
      Served env caller rng stack
        ⟨{ rng.asking with outstanding := rng.outstanding ++ [caller] }, returned stack⟩

theorem waits_served (caller : Caller) (rng : Impl) (stack : List Frame) :
    Served env caller rng stack (waits env caller rng stack) := by
  have modes : rng.state = .normal ∨ rng.state = .reseeding := by
    cases rng.state with
    | normal => exact .inl rfl
    | reseeding => exact .inr rfl
  rw [waits]
  rcases modes with mode | mode
  · rw [if_neg (by rw [mode]; decide)]
    by_cases empty : budget rng = 0
    · have used : ¬rng.counter < numKeysBeforeReseed := by simp [ready_iff, empty]
      rw [if_pos (UInt8.not_lt.mp used), reseeds]
      rcases answer : env.get rng.requests with entropy | - | -
      · exact .passes mode empty answer
      · exact .fails mode empty answer
      · rw [returned_attempts, returned_attempts]
        exact .later mode empty answer
    · rw [if_neg (UInt8.not_le.mpr ((ready_iff rng).mpr empty))]
      exact .ready mode empty
  · rw [if_pos mode, returned_attempts]
    exact .queues mode

variable {env : Environment}

theorem waits_queues {rng : Impl} (caller : Caller) (stack : List Frame)
    (busy : rng.state = .reseeding) :
    waits env caller rng stack =
      ⟨{ rng with waiters := rng.waiters ++ [caller] }, returned stack⟩ := by
  rw [waits, if_pos busy, returned_attempts]

theorem waits_later {rng : Impl} (caller : Caller) (stack : List Frame)
    (normal : rng.state = .normal) (empty : budget rng = 0)
    (later : env.get rng.requests = .later) :
    waits env caller rng stack =
      ⟨{ rng.asking with outstanding := rng.outstanding ++ [caller] }, returned stack⟩ := by
  have served := waits_served env caller rng stack
  generalize waits env caller rng stack = next at served ⊢
  cases served with
  | queues busy => cases normal.symm.trans busy
  | ready normal some => exact absurd empty some
  | passes normal none answer => cases later.symm.trans answer
  | fails normal none answer => cases later.symm.trans answer
  | later normal none answer => rfl

/-! ## Callers that only return -/

/-- The stack on which callers have these calls and loops to go on with. -/
inductive Plays : List Todo → List Frame → Prop
  | nil : Plays [] []
  | user {todo : List Todo} {stack : List Frame} (callers : List Caller)
      (plays : Plays todo stack) : Plays (calls callers ++ todo) (.user :: stack)
  | attempt {todo : List Todo} {stack : List Frame} (caller : Caller)
      (plays : Plays todo stack) : Plays todo (.attempt caller :: stack)
  | loop {todo : List Todo} {stack : List Frame} (plays : Plays todo stack) :
      Plays (.loop :: todo) (.loop :: stack)

theorem Plays.attempts {todo : List Todo} {stack : List Frame} (plays : Plays todo stack) (n : Nat)
    (caller : Caller) : Plays todo (attempts n caller stack) := by
  induction n with
  | zero => exact plays
  | succ n ih => exact .attempt caller ih

theorem Plays.returned {todo : List Todo} {stack : List Frame} (plays : Plays todo stack) :
    Plays todo (returned stack) := by
  induction plays with
  | nil => exact .nil
  | user callers plays ih => exact .user callers plays
  | attempt caller plays ih => exact ih
  | loop plays ih => exact .loop plays

/-- What has to be done first is on top of the stack. -/
inductive Ready : List Todo → List Frame → Prop
  | nil : Ready [] []
  | user {caller : Caller} {todo : List Todo} {stack : List Frame}
      (plays : Plays todo (.user :: stack)) : Ready (.getRandom caller :: todo) (.user :: stack)
  | loop {todo : List Todo} {stack : List Frame} (plays : Plays todo stack) :
      Ready (.loop :: todo) (.loop :: stack)

/-- A run in which nothing is thrown. -/
def Calmly (env : Environment) (config config' : Running) : Prop :=
  ∃ trace, Run (Step env) config trace config' ∧ .raises ∉ trace

theorem Calmly.refl (config : Running) : Calmly env config config := ⟨[], .nil, nofun⟩

theorem Calmly.step {config config' config'' : Running} {event : Happening}
    (calmly : Calmly env config config') (step : Step env config' event config'')
    (calm : event ≠ .raises) : Calmly env config config'' := by
  obtain ⟨trace, run, quiet⟩ := calmly
  refine ⟨trace ++ [event], run.snoc step, ?_⟩
  simp [quiet, Ne.symm calm]

theorem Calmly.trans {config config' config'' : Running} (first : Calmly env config config')
    (second : Calmly env config' config'') : Calmly env config config'' := by
  obtain ⟨trace, run, quiet⟩ := first
  obtain ⟨trace', run', quiet'⟩ := second
  exact ⟨trace ++ trace', run.append run', by simp [quiet, quiet']⟩

/-- Callers that have nothing left to do return. -/
theorem Plays.ready {todo : List Todo} {stack : List Frame} (plays : Plays todo stack)
    (rng : Impl) :
    ∃ stack', Calmly env ⟨rng, CSPRNG.returned stack⟩ ⟨rng, stack'⟩ ∧ Ready todo stack' := by
  induction plays with
  | nil => exact ⟨[], .refl _, .nil⟩
  | @user todo stack callers plays ih =>
      cases callers with
      | nil =>
          obtain ⟨stack', calmly, ready⟩ := ih
          have left : Calmly env ⟨rng, .user :: stack⟩ ⟨rng, CSPRNG.returned stack⟩ :=
            (Calmly.refl _).step .returns nofun
          exact ⟨stack', left.trans calmly, ready⟩
      | cons caller callers => exact ⟨_, .refl _, .user (.user callers plays)⟩
  | attempt caller plays ih => exact ih
  | loop plays ih => exact ⟨_, .refl _, .loop plays⟩

/-- `wait_for_reseed` does the same on either stack. -/
theorem Waits.plays {caller : Caller} {rng : Impl} {todo : List Todo} {stack : List Frame}
    {next : Config} (waiting : Waits env caller rng todo next) (plays : Plays todo stack) :
    ∃ stack', Plays next.stack stack' ∧
      waits env caller rng stack = ⟨next.rng, CSPRNG.returned stack'⟩ := by
  have served := waits_served env caller rng stack
  generalize waits env caller rng stack = next' at served ⊢
  cases waiting with
  | queues busy =>
      cases served with
      | queues busy => exact ⟨stack, plays, rfl⟩
      | ready normal | passes normal | fails normal | later normal =>
          cases busy.symm.trans normal
  | ready normal some =>
      cases served with
      | ready normal some => exact ⟨_, .user caller.passed (plays.attempts 4 caller), rfl⟩
      | queues busy => cases busy.symm.trans normal
      | passes normal none | fails normal none | later normal none => exact absurd none some
  | passes normal none answer =>
      cases served with
      | passes normal none answer' =>
          cases answer.symm.trans answer'
          exact ⟨_, .user caller.passed (.attempt caller (.loop (plays.attempts 6 caller))), rfl⟩
      | queues busy => cases busy.symm.trans normal
      | ready normal some => exact absurd none some
      | fails normal none answer' | later normal none answer' => cases answer.symm.trans answer'
  | fails normal none answer =>
      cases served with
      | fails normal none answer' => exact ⟨_, .user caller.failed (plays.attempts 6 caller), rfl⟩
      | queues busy => cases busy.symm.trans normal
      | ready normal some => exact absurd none some
      | passes normal none answer' | later normal none answer' => cases answer.symm.trans answer'
  | later normal none answer =>
      cases served with
      | later normal none answer' => exact ⟨stack, plays, rfl⟩
      | queues busy => cases busy.symm.trans normal
      | ready normal some => exact absurd none some
      | passes normal none answer' | fails normal none answer' => cases answer.symm.trans answer'

theorem Plays.step {rng : Impl} {todo : List Todo} {next : Config} {stack : List Frame}
    (plays : Plays todo stack) (goes : step env ⟨rng, todo⟩ = some next) :
    ∃ stack', Plays next.stack stack' ∧
      Calmly env ⟨rng, CSPRNG.returned stack⟩ ⟨next.rng, CSPRNG.returned stack'⟩ := by
  obtain ⟨stack', calmly, ready⟩ : ∃ stack',
    Calmly env ⟨rng, CSPRNG.returned stack⟩ ⟨rng, stack'⟩ ∧ Ready todo stack' := plays.ready rng
  obtain ⟨caller, rest, rfl, waiting⟩ | ⟨rest, rfl, empty, rfl⟩ |
    ⟨front, waiters, rest, rfl, queued, waiting⟩ := step_cases goes
  · cases ready with
    | user plays =>
        obtain ⟨stack'', plays', same⟩ := waiting.plays plays
        exact ⟨stack'', plays', same ▸ calmly.step (.calls caller) nofun⟩
  · cases ready with
    | @loop _ stack' plays => exact ⟨stack', plays, calmly.step (.leaves empty) nofun⟩
  · cases ready with
    | @loop _ stack' plays =>
        obtain ⟨stack'', plays', same⟩ := waiting.plays plays.loop
        exact ⟨stack'', plays', same ▸ calmly.step (.resumes queued) nofun⟩

/-- Whatever a turn does with callers that only return is a run in which nothing is
thrown. -/
theorem turn_calmly {rng rng' : Impl} {event : Event} (turn : Turn env rng event rng') :
    Calmly env ⟨rng, []⟩ ⟨rng', []⟩ := by
  obtain ⟨config, receives, ends⟩ := turn
  have first : ∃ stack, Plays config.stack stack ∧
      Calmly env ⟨rng, []⟩ ⟨config.rng, returned stack⟩ := by
    have enters : Calmly env ⟨rng, []⟩ ⟨rng, [.user]⟩ := (Calmly.refl _).step .enters nofun
    cases receives with
    | getRandom caller => exact ⟨[.user], .user [caller] .nil, enters⟩
    | @entropy before after caller bytes config asked passes =>
        rw [install_eq, Option.some.injEq] at passes
        rw [← passes]
        exact ⟨_, .user caller.passed (.attempt caller (.loop .nil)),
          (Calmly.refl _).step (.entropy rfl asked bytes) nofun⟩
    | failure asked =>
        refine ⟨[.user], ?_, (Calmly.refl _).step (.failure rfl asked) nofun⟩
        simpa using Plays.user _ .nil
    | forceDeterministic => exact ⟨[], .nil, (enters.step .forces nofun).step .returns nofun⟩
  obtain ⟨stack, plays, calmly⟩ := reaches_invariant
    (I := fun config => ∃ stack, Plays config.stack stack ∧
      Calmly env ⟨rng, []⟩ ⟨config.rng, returned stack⟩)
    (fun config next holds goes => by
      obtain ⟨stack, plays, calmly⟩ := holds
      obtain ⟨stack', plays', further⟩ := plays.step goes
      exact ⟨stack', plays', calmly.trans further⟩) (mem_eval.mp ends).1 first
  obtain ⟨stack', further, ready⟩ : ∃ stack',
    Calmly env ⟨rng', returned stack⟩ ⟨rng', stack'⟩ ∧ Ready [] stack' := plays.ready rng'
  cases ready
  exact calmly.trans further

end SidepoolFormal.Crypto.CSPRNG
