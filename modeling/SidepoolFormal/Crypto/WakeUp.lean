import SidepoolFormal.Crypto.Reseed

/-!
# The wake-up loop of `reseed`

The calls of a turn are served in an order that depends only on the callers,
on the keys left and on which requests the randomizer passes inside `get`.
The first request that it does not pass leaves the generator reseeding, and
from then on whoever calls is queued.  A loop that then finds somebody queued
resumes him, only to have him queued again.
-/

namespace SidepoolFormal.Crypto.CSPRNG

open Library StateTransition

/-! ## The order in which a turn serves calls -/

/-- While every call is queued, no loop finds anybody in the queue. -/
def drains : List Todo → List Caller → Bool
  | [], _ => true
  | .getRandom caller :: todo, queue => drains todo (queue ++ [caller])
  | .loop :: todo, [] => drains todo []
  | .loop :: _, _ :: _ => false

mutual

/-- Counts a call and the loop it may start, and the calls after it. -/
def Caller.size : Caller → Nat
  | .mk passed _ => 2 + sizes passed

def sizes : List Caller → Nat
  | [] => 0
  | caller :: rest => caller.size + sizes rest

end

/-- Bounds the steps that a turn still takes while every request is passed. -/
def work : List Todo → List Caller → Nat
  | [], queue => sizes queue + queue.length
  | .getRandom caller :: todo, queue => caller.size + work todo queue
  | .loop :: todo, queue => 1 + work todo queue

theorem work_calls (callers : List Caller) (todo : List Todo) (queue : List Caller) :
    work (calls callers ++ todo) queue = sizes callers + work todo queue := by
  induction callers with
  | nil => simp [calls, sizes]
  | cons caller rest ih =>
      simp only [calls, List.map_cons, List.cons_append, work, sizes] at ih ⊢
      omega

theorem size_passed (caller : Caller) : caller.size = 2 + sizes caller.passed := by
  cases caller
  rw [Caller.size, Caller.passed]

theorem work_front (caller : Caller) (todo : List Todo) (queue : List Caller) :
    work (.getRandom caller :: todo) queue + 1 = work todo (caller :: queue) := by
  induction todo with
  | nil =>
      simp only [work, sizes, List.length_cons]
      omega
  | cons first rest ih =>
      cases first with
      | getRandom other =>
          simp only [work] at ih ⊢
          omega
      | loop =>
          simp only [work] at ih ⊢
          omega

/-- Whether a turn comes to an end that still has `todo` to do, with `queue`
waiting, `budget` keys left and `requests` requests made before. -/
def settles (get : Nat → Answer) (todo : List Todo) (queue : List Caller) (budget requests : Nat) :
    Bool :=
  match todo, queue with
  | [], _ => true
  | .loop :: todo, [] => settles get todo [] budget requests
  | .loop :: todo, front :: queue =>
      settles get (.getRandom front :: .loop :: todo) queue budget requests
  | .getRandom caller :: todo, queue =>
      match budget with
      | budget + 1 => settles get (calls caller.passed ++ todo) queue budget requests
      | 0 =>
          match get requests with
          | .passes _ => settles get (calls caller.passed ++ .loop :: todo) queue 15 (requests + 1)
          | .fails => drains (calls caller.failed ++ todo) queue
          | .later => drains todo queue
termination_by work todo queue
decreasing_by
  · simp only [work]
    omega
  · have popped := work_front front (.loop :: todo) queue
    omega
  · rw [work_calls, work, size_passed]
    omega
  · rw [work_calls, work, work, size_passed]
    omega

variable (env : Environment)

/-! ## While the generator is reseeding -/

theorem reseeding_ends {stack : List Todo} (rng : Impl) (busy : rng.state = .reseeding)
    (drained : drains stack rng.waiters = true) :
    ∃ rng', ⟨rng', []⟩ ∈ eval (step env) ⟨rng, stack⟩ ∧ rng'.woken = rng.woken := by
  induction stack generalizing rng with
  | nil => exact ⟨rng, mem_eval_stop rfl, rfl⟩
  | cons first rest ih =>
      cases first with
      | getRandom caller =>
          have next : step env ⟨rng, .getRandom caller :: rest⟩ =
              some (addWaiter caller ⟨rng, rest⟩) := waitForReseed_queues env caller rest busy
          rw [drains] at drained
          rw [eval_step next]
          exact ih (addWaiter caller ⟨rng, rest⟩).rng busy drained
      | loop =>
          rcases waiting : rng.waiters with - | ⟨front, waiters⟩
          · rw [waiting, drains] at drained
            rw [eval_step (step_loop_empty env rest waiting)]
            exact ih rng busy (by rw [waiting, drained])
          · rw [waiting, drains] at drained
            cases drained

/-- A loop that finds somebody waiting for the next key. -/
def Spinning (config : Config) : Prop :=
  config.rng.state = .reseeding ∧ config.rng.waiters ≠ [] ∧ ∃ rest, config.stack = .loop :: rest

theorem spinning_step (config : Config) (spinning : Spinning config) :
    ∃ config', step env config = some config' ∧ Spinning config' := by
  rcases config with ⟨rng, stack⟩
  obtain ⟨busy, some, rest, rfl⟩ := spinning
  obtain ⟨front, waiters, queued⟩ := List.exists_cons_of_ne_nil some
  have back := waitForReseed_queues env front (.loop :: rest)
    (show (rng.popped front waiters).state = .reseeding from busy)
  refine ⟨_, (step_loop_front env rest queued).trans back, busy, ?_, rest, rfl⟩
  exact List.append_ne_nil_of_right_ne_nil waiters (List.cons_ne_nil front [])

theorem reseeding_spins {stack : List Todo} (rng : Impl) (busy : rng.state = .reseeding)
    (stays : drains stack rng.waiters = false) (config : Config) :
    config ∉ eval (step env) ⟨rng, stack⟩ := by
  induction stack generalizing rng with
  | nil => cases stays
  | cons first rest ih =>
      cases first with
      | getRandom caller =>
          have next : step env ⟨rng, .getRandom caller :: rest⟩ =
              some (addWaiter caller ⟨rng, rest⟩) := waitForReseed_queues env caller rest busy
          rw [drains] at stays
          rw [eval_step next]
          exact ih (addWaiter caller ⟨rng, rest⟩).rng busy stays
      | loop =>
          rcases waiting : rng.waiters with - | ⟨front, waiters⟩
          · rw [waiting, drains] at stays
            rw [eval_step (step_loop_empty env rest waiting)]
            exact ih rng busy (by rw [waiting, stays])
          · exact not_mem_eval (spinning_step env) .refl ⟨busy, by simp [waiting], rest, rfl⟩

/-! ## While keys are handed out -/

theorem drains_queue {todo : List Todo} {queue : List Caller} (looping : .loop ∈ todo)
    (drained : drains todo queue = true) : queue = [] := by
  induction todo generalizing queue with
  | nil => cases looping
  | cons first rest ih =>
      cases first with
      | getRandom caller =>
          have later : Todo.loop ∈ rest := by simpa using looping
          have empty := ih later drained
          simp at empty
      | loop =>
          cases queue with
          | nil => rfl
          | cons front waiters => cases drained

theorem eval_congr {config config' next : Config} (first : step env config = some next)
    (second : step env config' = some next) : eval (step env) config = eval (step env) config' := by
  rw [eval_step first, eval_step second]

/-- To pop a waiter and go on is to make his call from inside the loop. -/
theorem eval_loop_front {rng : Impl} {front : Caller} {waiters : List Caller} (stack : List Todo)
    (queued : rng.waiters = front :: waiters) :
    eval (step env) ⟨rng, .loop :: stack⟩ =
      eval (step env) ⟨rng.popped front waiters, .getRandom front :: .loop :: stack⟩ := by
  have same := step_loop_front env stack queued
  obtain ⟨next, goes, -⟩ :=
    waitForReseed_waits env front (rng.popped front waiters) (.loop :: stack)
  exact eval_congr env (same.trans goes) goes

/-- A generator that hands out keys comes, with the same result, to where it has
nothing left to do or has to wait for its randomizer; up to there the loops
have resumed the waiters in order. -/
structure LeadsTo (env : Environment) (config config' : Config) : Prop where
  evals : eval (step env) config = eval (step env) config'
  stops : config'.rng.state = .reseeding ∨ config'.stack = []
  resumed : config'.rng.woken ++ config'.rng.waiters = config.rng.woken ++ config.rng.waiters
  looping : config'.rng.waiters = [] ∨ .loop ∈ config'.stack

theorem LeadsTo.step {env : Environment} {config config' next : Config}
    (leads : LeadsTo env next config') (first : step env config = some next)
    (resumed : next.rng.woken ++ next.rng.waiters = config.rng.woken ++ config.rng.waiters) :
    LeadsTo env config config' where
  evals := (eval_step first).trans leads.evals
  stops := leads.stops
  resumed := leads.resumed.trans resumed
  looping := leads.looping

theorem normal_leads (todo : List Todo) (queue : List Caller) (left requests : Nat) (rng : Impl)
    (normal : rng.state = .normal) (waiting : rng.waiters = queue) (keys : budget rng = left)
    (asked : rng.requests = requests) (looping : queue = [] ∨ .loop ∈ todo) :
    ∃ config, LeadsTo env ⟨rng, todo⟩ config ∧
      drains config.stack config.rng.waiters = settles env.get todo queue left requests := by
  induction todo, queue, left, requests using settles.induct env.get generalizing rng with
  | case1 queue left requests =>
      refine ⟨⟨rng, []⟩, ⟨rfl, .inr rfl, rfl, ?_⟩, by rw [settles, drains]⟩
      rwa [waiting]
  | case2 left requests todo ih =>
      obtain ⟨config, leads, same⟩ := ih rng normal waiting keys asked (.inl rfl)
      exact ⟨config, leads.step (step_loop_empty env todo waiting) rfl, by rw [same, settles]⟩
  | case3 left requests todo front queue ih =>
      obtain ⟨config, leads, same⟩ := ih (rng.popped front queue) normal rfl keys asked
        (.inr (by simp))
      refine ⟨config, ⟨(eval_loop_front env todo waiting).trans leads.evals, leads.stops, ?_,
        leads.looping⟩, by rw [same, settles]⟩
      rw [leads.resumed, waiting]
      exact List.append_assoc rng.woken [front] queue
  | case4 requests caller todo queue left ih =>
      have some : budget rng ≠ 0 := by omega
      have spent := budget_generated env ((ready_iff rng).mpr some)
      obtain ⟨config, leads, same⟩ := ih (rng.generated env) normal waiting (by omega) asked
        (looping.imp_right fun member => by simpa [calls] using member)
      refine ⟨config, leads.step (waitForReseed_ready env caller todo normal some) rfl, ?_⟩
      rw [same, settles]
  | case5 requests caller todo queue entropy answer ih =>
      obtain ⟨config, leads, same⟩ := ih ((rng.asking.keyed env entropy).generated env) rfl
        waiting (budget_install env rng.asking entropy) (congrArg (· + 1) asked) (.inr (by simp))
      have next := (waitForReseed_reseeds env caller todo normal keys).trans
        (reseed_passes env caller todo (by rw [asked, answer]))
      exact ⟨config, leads.step next rfl, by rw [same, settles, answer]⟩
  | case6 requests caller todo queue answer =>
      have next := (waitForReseed_reseeds env caller todo normal keys).trans
        (reseed_fails env caller todo (by rw [asked, answer]))
      refine ⟨⟨rng.asking, calls caller.failed ++ todo⟩, ⟨eval_step next, .inl rfl, rfl, ?_⟩, ?_⟩
      · rw [← waiting] at looping
        exact looping.imp_right fun member => List.mem_append_right _ (by simpa using member)
      · rw [settles, answer, ← waiting]
        rfl
  | case7 requests caller todo queue answer =>
      have next := (waitForReseed_reseeds env caller todo normal keys).trans
        (reseed_later env caller todo (by rw [asked, answer]))
      refine ⟨⟨{ rng.asking with outstanding := rng.outstanding ++ [caller] }, todo⟩,
        ⟨eval_step next, .inl rfl, rfl, ?_⟩, ?_⟩
      · rw [← waiting] at looping
        exact looping.imp_right fun member => by simpa using member
      · rw [settles, answer, ← waiting]
        rfl

theorem normal_spins (rng : Impl) (todo : List Todo) (normal : rng.state = .normal)
    (looping : rng.waiters = [] ∨ .loop ∈ todo)
    (stays : settles env.get todo rng.waiters (budget rng) rng.requests = false) (config : Config) :
    config ∉ eval (step env) ⟨rng, todo⟩ := by
  obtain ⟨⟨rng₁, stack⟩, leads, same⟩ :=
    normal_leads env todo _ _ _ rng normal rfl rfl rfl looping
  rw [leads.evals]
  rw [stays] at same
  obtain busy | rfl := leads.stops
  · exact reseeding_spins env rng₁ busy same config
  · cases same

theorem normal_ends (rng : Impl) (todo : List Todo) (normal : rng.state = .normal)
    (looping : rng.waiters = [] ∨ .loop ∈ todo)
    (settled : settles env.get todo rng.waiters (budget rng) rng.requests = true) :
    ∃ rng', ⟨rng', []⟩ ∈ eval (step env) ⟨rng, todo⟩ ∧ rng'.woken = rng.woken ++ rng.waiters := by
  obtain ⟨⟨rng₁, stack⟩, leads, same⟩ :=
    normal_leads env todo _ _ _ rng normal rfl rfl rfl looping
  rw [settled] at same
  have empty : rng₁.waiters = [] := leads.looping.elim id fun member => drains_queue member same
  have resumed := leads.resumed
  simp only [empty, List.append_nil] at resumed
  rw [leads.evals]
  obtain busy | rfl := leads.stops
  · obtain ⟨rng', ends, woken⟩ := reseeding_ends env rng₁ busy same
    exact ⟨rng', ends, woken.trans resumed⟩
  · exact ⟨rng₁, mem_eval_stop rfl, resumed⟩

/-- Handed control with keys left or just installed, the generator gives it
back exactly when the calls settle, and has then resumed whoever was waiting. -/
theorem normal_ends_iff (rng : Impl) (todo : List Todo) (normal : rng.state = .normal)
    (looping : rng.waiters = [] ∨ .loop ∈ todo) :
    (∃ rng', ⟨rng', []⟩ ∈ eval (step env) ⟨rng, todo⟩ ∧ rng'.woken = rng.woken ++ rng.waiters) ↔
      settles env.get todo rng.waiters (budget rng) rng.requests = true := by
  constructor
  · rintro ⟨rng', ends, -⟩
    by_contra stays
    exact normal_spins env rng todo normal looping (Bool.eq_false_iff.mpr stays) _ ends
  · exact normal_ends env rng todo normal looping

/-! ## Turns of the event loop -/

/-- The waiters that stand in the queue when the loop begins. -/
def Event.wakes (rng : Impl) : Event → List Caller
  | .entropy _ _ => rng.waiters
  | _ => []

/-- No request of this turn that the randomizer does not pass at once is made
while a loop is running and a call is queued or still to come. -/
def Event.settles (get : Nat → Answer) (rng : Impl) : Event → Bool
  | .getRandom caller =>
    match rng.state with
    | .reseeding => true
    | .normal => CSPRNG.settles get [.getRandom caller] [] (budget rng) rng.requests
  | .entropy caller _ =>
    CSPRNG.settles get (calls caller.passed ++ [.loop]) rng.waiters 15 rng.requests
  | .failure _ => true
  | .forceDeterministic => true

theorem drains_calls (callers queue : List Caller) : drains (calls callers) queue = true := by
  induction callers generalizing queue with
  | nil => rfl
  | cons caller rest ih => exact ih (queue ++ [caller])

/-- A turn that cannot reach a loop gives control back. -/
theorem queueing_ends (rng : Impl) (callers : List Caller) (busy : rng.state = .reseeding) :
    ∃ rng', ⟨rng', []⟩ ∈ eval (step env) ⟨rng, calls callers⟩ ∧ rng'.woken = rng.woken ++ [] := by
  rw [List.append_nil]
  exact reseeding_ends env rng busy (drains_calls callers rng.waiters)

/-- With callers that ask once, and a randomizer that takes its time, the loop
ends when at most one of those waiting needs the next key. -/
theorem settles_waiters_iff (get : Nat → Answer) {requests : Nat} (later : get requests = .later)
    {queue : List Caller} (once : ∀ caller ∈ queue, caller.passed = []) (left : Nat) :
    settles get [.loop] queue left requests = true ↔ queue.length ≤ left + 1 := by
  induction queue generalizing left with
  | nil => simp [settles]
  | cons front rest ih =>
      rw [settles, settles.eq_def]
      cases left with
      | zero => cases rest <;> simp [later, drains]
      | succ left =>
          have quiet : front.passed = [] := once front List.mem_cons_self
          have others := ih (fun caller member => once caller (List.mem_cons_of_mem _ member)) left
          simp only [quiet, calls, List.map_nil, List.nil_append, List.length_cons]
          rw [others]
          omega

/-- A randomizer that completes from the event loop. -/
def patient : Environment where
  get _ := .later
  hailMary _ entropy := entropy
  behind _ _ _ := 0
  context _ := Vector.replicate 16 0

def zeros : Key := Vector.replicate 32 0

def lone : Caller := .mk [] []

theorem turn_of_wait {env : Environment} {rng rng' : Impl} {caller : Caller}
    (goes : waitForReseed env caller ⟨rng, []⟩ = some ⟨rng', []⟩) :
    Turn env rng (.getRandom caller) rng' := by
  refine ⟨_, .getRandom caller, ?_⟩
  rw [eval_step ((step_getRandom env caller rng []).trans goes)]
  exact mem_eval_stop rfl

theorem turn_asks {rng : Impl} (caller : Caller) (normal : rng.state = .normal)
    (empty : budget rng = 0) (later : env.get rng.requests = .later) :
    Turn env rng (.getRandom caller)
      { rng.asking with outstanding := rng.outstanding ++ [caller] } :=
  turn_of_wait ((waitForReseed_reseeds env caller [] normal empty).trans
    (reseed_later env caller [] later))

theorem turn_queues {rng : Impl} (caller : Caller) (busy : rng.state = .reseeding) :
    Turn env rng (.getRandom caller) { rng with waiters := rng.waiters ++ [caller] } :=
  turn_of_wait (waitForReseed_queues env caller [] busy)

/-- The first caller asks the randomizer; the others wait. -/
theorem callers_run (n : Nat) :
    ∃ trace rng, Run (Turn patient) (construct zeros .normal) trace rng ∧
      rng.state = .reseeding ∧ rng.outstanding = [lone] ∧ rng.waiters = List.replicate n lone := by
  induction n with
  | zero => exact ⟨_, _, Run.nil.snoc (turn_asks patient lone rfl rfl rfl), rfl, rfl, rfl⟩
  | succ n ih =>
      obtain ⟨trace, rng, run, busy, asked, waiting⟩ := ih
      refine ⟨_, _, run.snoc (turn_queues patient lone busy), busy, asked, ?_⟩
      rw [List.replicate_succ', ← waiting]

theorem patient_settles {rng : Impl} {n : Nat} (waiting : rng.waiters = List.replicate n lone) :
    (Event.entropy lone zeros).settles patient.get rng = true ↔ n ≤ 16 := by
  have once : ∀ caller ∈ rng.waiters, caller.passed = [] := by
    rw [waiting]
    intro caller member
    rw [List.eq_of_mem_replicate member]
    rfl
  have later : patient.get rng.requests = .later := rfl
  have most := settles_waiters_iff patient.get later once 15
  rwa [waiting, List.length_replicate, ← waiting] at most

end SidepoolFormal.Crypto.CSPRNG
