import SidepoolFormal.Crypto.WakeUp
import SidepoolFormal.Library.Worklist

/-!
# The destructor of the generator

It fails the waiters, one after another, and then destroys the randomizer, which
fails the request that is outstanding.  Every continuation that it runs can call
`get_random` again, and the generator is still reseeding: such a caller goes to
the back of the queue.  While the queue is drained he is failed in his turn, so
that the loop ends unless somebody retries for ever; when the randomizer is
destroyed, nobody looks at the queue again.
-/

namespace SidepoolFormal.Crypto.CSPRNG

open Library StateTransition

/-! ## Code -/

/-- What continuations do when they see `Freed`: the calls of `get_random` that
they make, in order, and whether they raise after that. -/
structure Conduct (D : Type) where
  failed : D → List D
  raises : D → Bool

inductive Phase where
  | clearWaiters
  | resetRandomizer
  | cleared
  deriving DecidableEq, Repr

/-- The generator while it is destroyed.  Each call of `get_random` has its
number; `calls` and `raising` are what the continuation that runs has still to
do, `made` counts the calls and `completed` has those whose `fail` was called. -/
structure Dying (D : Type) where
  state : StateType
  phase : Phase
  waiters : List (D × Nat)
  outstanding : List (D × Nat)
  calls : List D
  raising : Bool
  made : Nat
  completed : List Nat

namespace Dying

variable {D : Type}

/-- The destructor is called, with these continuations in the queue and in the
request. -/
def destroy (rng : Impl) (waiting asked : List D) : Dying D where
  state := rng.state
  phase := .clearWaiters
  waiters := waiting.zipIdx
  outstanding := asked.zipIdx waiting.length
  calls := []
  raising := false
  made := waiting.length + asked.length
  completed := []

variable (conduct : Conduct D)

/-- The continuation of a call is run. -/
def fail (call : D × Nat) (dying : Dying D) : Dying D :=
  { dying with
    calls := conduct.failed call.1
    raising := conduct.raises call.1
    completed := dying.completed ++ [call.2] }

/-- `add_waiter`; the call never gets past it. -/
def addWaiter (caller : D) (dying : Dying D) : Dying D :=
  { dying with
    waiters := dying.waiters ++ [(caller, dying.made)]
    made := dying.made + 1 }

/-- `wait_for_reseed` from a continuation.  No continuation is left to call it
while the generator hands out keys. -/
def waitForReseed (caller : D) (dying : Dying D) : Option (Dying D) :=
  match dying.state with
  | .reseeding => some (dying.addWaiter caller)
  | .normal => none

/-- What is next once the continuation has returned. -/
def resume (dying : Dying D) : Option (Dying D) :=
  match dying.phase, dying.waiters, dying.outstanding with
  | .clearWaiters, front :: waiters, _ =>
      some ({ dying with waiters := waiters }.fail conduct front)
  | .clearWaiters, [], _ => some { dying with phase := .resetRandomizer }
  | .resetRandomizer, _, asked :: outstanding =>
      some ({ dying with outstanding := outstanding }.fail conduct asked)
  | .resetRandomizer, _, [] => some { dying with phase := .cleared }
  | .cleared, _, _ => none

/-- One step of the destructor.  It is `noexcept`: an exception ends the
program. -/
def step (dying : Dying D) : Option (Dying D) :=
  match dying.calls, dying.raising with
  | caller :: calls, _ => waitForReseed caller { dying with calls := calls }
  | [], true => none
  | [], false => dying.resume conduct

/-! ## What it is for -/

/-- The destructor returns, and every call was completed exactly once. -/
def Completes (dying : Dying D) : Prop :=
  ∃ last ∈ eval (step conduct) dying,
    last.phase = .cleared ∧ last.calls = [] ∧ last.raising = false ∧
      ∀ n < last.made, last.completed.count n = 1

/-- Nobody retries for ever or raises, from this continuation on. -/
inductive Settles : D → Prop
  | intro {d : D} (returns : conduct.raises d = false)
      (calls : ∀ caller ∈ conduct.failed d, Settles caller) : Settles d

/-- The continuation neither calls again nor raises. -/
def Calm (d : D) : Prop := conduct.failed d = [] ∧ conduct.raises d = false

variable {conduct}

theorem settles_iff {d : D} : Settles conduct d ↔
    conduct.raises d = false ∧ ∀ caller ∈ conduct.failed d, Settles conduct caller := by
  constructor
  · intro settles
    cases settles with
    | intro returns calls => exact ⟨returns, calls⟩
  · rintro ⟨returns, calls⟩
    exact .intro returns calls

theorem Settles.ends {d : D} (settles : Settles conduct d) : Ends conduct.failed d := by
  induction settles with
  | intro _ _ ih => exact .intro _ ih

/-! ## What one step does -/

theorem step_calls {dying : Dying D} {caller : D} {calls : List D}
    (asks : dying.calls = caller :: calls) :
    step conduct dying = waitForReseed caller { dying with calls := calls } := by
  simp only [step, asks]

theorem step_raises {dying : Dying D} (none : dying.calls = []) (raising : dying.raising = true) :
    step conduct dying = Option.none := by
  simp only [step, none, raising]

theorem step_returns {dying : Dying D} (none : dying.calls = [])
    (returns : dying.raising = false) : step conduct dying = dying.resume conduct := by
  simp only [step, none, returns]

/-- What a step comes to. -/
inductive Steps (conduct : Conduct D) (dying : Dying D) : Dying D → Prop
  | asks {caller : D} {calls : List D} (busy : dying.state = .reseeding)
      (next : dying.calls = caller :: calls) :
      Steps conduct dying ({ dying with calls := calls }.addWaiter caller)
  | drains {front : D × Nat} {waiters : List (D × Nat)} (returned : dying.calls = [])
      (returns : dying.raising = false) (clearing : dying.phase = .clearWaiters)
      (queued : dying.waiters = front :: waiters) :
      Steps conduct dying ({ dying with waiters := waiters }.fail conduct front)
  | drained (returned : dying.calls = []) (returns : dying.raising = false)
      (clearing : dying.phase = .clearWaiters) (empty : dying.waiters = []) :
      Steps conduct dying { dying with phase := .resetRandomizer }
  | frees {asked : D × Nat} {outstanding : List (D × Nat)} (returned : dying.calls = [])
      (returns : dying.raising = false) (resetting : dying.phase = .resetRandomizer)
      (pending : dying.outstanding = asked :: outstanding) :
      Steps conduct dying ({ dying with outstanding := outstanding }.fail conduct asked)
  | freed (returned : dying.calls = []) (returns : dying.raising = false)
      (resetting : dying.phase = .resetRandomizer) (nothing : dying.outstanding = []) :
      Steps conduct dying { dying with phase := .cleared }

/-- Together with `Steps.goes`: a step is one of these. -/
theorem step_cases {dying next : Dying D} (goes : step conduct dying = some next) :
    Steps conduct dying next := by
  rcases asks : dying.calls with - | ⟨caller, calls⟩
  · rcases returns : dying.raising with - | -
    · rw [step_returns asks returns, resume.eq_def] at goes
      split at goes
      next front waiters clearing queued =>
        cases goes
        exact .drains asks returns clearing queued
      next clearing empty =>
        cases goes
        exact .drained asks returns clearing empty
      next resetting pending =>
        cases goes
        exact .frees asks returns resetting pending
      next resetting nothing =>
        cases goes
        exact .freed asks returns resetting nothing
      next => cases goes
    · rw [step_raises asks returns] at goes
      cases goes
  · rw [step_calls asks, waitForReseed] at goes
    split at goes
    next busy =>
      cases goes
      exact .asks busy asks
    next => cases goes

theorem Steps.goes {dying next : Dying D} (steps : Steps conduct dying next) :
    step conduct dying = some next := by
  cases steps with
  | asks busy asks => simp only [step_calls asks, waitForReseed, busy]
  | drains returned returns clearing queued =>
      simp only [step_returns returned returns, resume, clearing, queued]
  | drained returned returns clearing empty =>
      simp only [step_returns returned returns, resume, clearing, empty]
  | frees returned returns resetting pending =>
      simp only [step_returns returned returns, resume, resetting, pending]
  | freed returned returns resetting nothing =>
      simp only [step_returns returned returns, resume, resetting, nothing]

theorem Steps.state {dying next : Dying D} (steps : Steps conduct dying next) :
    next.state = dying.state := by
  cases steps <;> rfl

/-! ## Every call is counted once -/

/-- The numbers of the calls: completed ones, and those that are pending. -/
def numbers (dying : Dying D) : List Nat :=
  dying.completed ++ (dying.waiters ++ dying.outstanding).map Prod.snd

/-- Each call that was made is completed or pending, once. -/
def Counted (dying : Dying D) : Prop := dying.numbers.Perm (List.range dying.made)

theorem counted_destroy (rng : Impl) (waiting asked : List D) :
    Counted (destroy rng waiting asked) := by
  have order : waiting.zipIdx ++ asked.zipIdx waiting.length = (waiting ++ asked).zipIdx := by
    rw [List.zipIdx_append, Nat.zero_add]
  rw [Counted, numbers, destroy, List.nil_append, order, List.zipIdx_map_snd,
    List.range_eq_range', List.length_append]

theorem Steps.counted {dying next : Dying D} (steps : Steps conduct dying next)
    (counted : Counted dying) : Counted next := by
  cases steps with
  | asks busy _ =>
      have more : (dying.numbers ++ [dying.made]).Perm (List.range (dying.made + 1)) := by
        rw [List.range_succ]
        exact counted.append_right _
      refine List.Perm.trans ?_ more
      simp only [numbers, addWaiter, List.map_append, List.map_cons, List.map_nil,
        List.append_assoc]
      exact ((List.perm_append_comm).append_left _).append_left _
  | drains _ _ _ queued =>
      refine List.Perm.trans ?_ counted
      simp [numbers, fail, queued]
  | drained _ _ _ empty => exact counted
  | frees _ _ _ pending =>
      refine List.Perm.trans ?_ counted
      simp only [numbers, fail, pending, List.map_append, List.map_cons, List.append_assoc,
        List.singleton_append]
      exact List.Perm.append_left _ List.perm_middle.symm
  | freed _ _ _ _ => exact counted

theorem count_completed {dying : Dying D} (counted : Counted dying) {n : Nat}
    (made : n < dying.made) : dying.numbers.count n = 1 := by
  rw [List.Perm.count_eq counted, List.count_eq_one_of_mem List.nodup_range]
  exact List.mem_range.mpr made

/-- All calls are completed once just when none is pending. -/
theorem Counted.completes_iff {dying : Dying D} (counted : Counted dying) :
    (∀ n < dying.made, dying.completed.count n = 1) ↔
      dying.waiters = [] ∧ dying.outstanding = [] := by
  rw [← List.append_eq_nil_iff]
  constructor
  · intro once
    by_contra pending
    obtain ⟨call, member⟩ := List.exists_mem_of_ne_nil _ pending
    have listed : call.2 ∈ (dying.waiters ++ dying.outstanding).map Prod.snd :=
      List.mem_map_of_mem member
    have made : call.2 < dying.made :=
      List.mem_range.mp (counted.mem_iff.mp (List.mem_append_right _ listed))
    have total := count_completed counted made
    rw [numbers, List.count_append, once call.2 made] at total
    have positive := List.count_pos_iff.mpr listed
    omega
  · intro nobody n made
    have total := count_completed counted made
    rwa [numbers, nobody, List.map_nil, List.append_nil] at total

/-! ## When it completes them all -/

/-- From here on no call gets lost, and the loop over the waiters ends. -/
structure Fine (conduct : Conduct D) (dying : Dying D) : Prop where
  returns : dying.raising = false
  draining : dying.phase = .clearWaiters →
    ∀ d ∈ dying.waiters.map Prod.fst ++ dying.calls, Settles conduct d
  drained : dying.phase ≠ .clearWaiters → dying.waiters = [] ∧ dying.calls = []
  calm : ∀ call ∈ dying.outstanding, Calm conduct call.1

theorem fine_draining {dying : Dying D} (clearing : dying.phase = .clearWaiters) :
    Fine conduct dying ↔ dying.raising = false ∧
      (∀ d ∈ dying.waiters.map Prod.fst ++ dying.calls, Settles conduct d) ∧
      ∀ call ∈ dying.outstanding, Calm conduct call.1 := by
  constructor
  · intro fine
    exact ⟨fine.returns, fine.draining clearing, fine.calm⟩
  · rintro ⟨returns, settle, calm⟩
    exact ⟨returns, fun _ => settle, absurd clearing, calm⟩

theorem fine_drained {dying : Dying D} (later : dying.phase ≠ .clearWaiters) :
    Fine conduct dying ↔ dying.raising = false ∧ (dying.waiters = [] ∧ dying.calls = []) ∧
      ∀ call ∈ dying.outstanding, Calm conduct call.1 := by
  constructor
  · intro fine
    exact ⟨fine.returns, fine.drained later, fine.calm⟩
  · rintro ⟨returns, empty, calm⟩
    exact ⟨returns, fun clearing => absurd clearing later, fun _ => empty, calm⟩

theorem Steps.fine_iff {dying next : Dying D} (steps : Steps conduct dying next) :
    Fine conduct dying ↔ Fine conduct next := by
  cases steps with
  | @asks caller calls busy asks =>
      by_cases clearing : dying.phase = .clearWaiters
      · rw [fine_draining clearing, fine_draining (by exact clearing)]
        simp only [addWaiter, asks, List.map_append, List.map_cons, List.map_nil,
          List.append_assoc, List.singleton_append]
      · rw [fine_drained clearing, fine_drained (by exact clearing)]
        simp [addWaiter, asks]
  | @drains front waiters returned returns clearing queued =>
      rw [fine_draining clearing, fine_draining (by exact clearing)]
      have first : Settles conduct front.1 ↔ conduct.raises front.1 = false ∧
          ∀ caller ∈ conduct.failed front.1, Settles conduct caller := settles_iff
      simp only [fail, returned, returns, queued, List.map_cons, List.append_nil,
        List.forall_mem_cons, List.forall_mem_append, first]
      tauto
  | drained returned returns clearing empty =>
      rw [fine_draining clearing, fine_drained (by simp)]
      simp [returned, empty]
  | frees returned returns resetting pending =>
      rw [fine_drained (by simp [resetting]), fine_drained (by simp [fail, resetting])]
      simp only [fail, returned, returns, pending, List.forall_mem_cons, Calm]
      tauto
  | freed returned returns resetting nothing =>
      rw [fine_drained (by simp [resetting]), fine_drained (by simp)]

/-- What holds in all states of the destructor. -/
structure Consistent (dying : Dying D) : Prop where
  counted : Counted dying
  nobody : dying.state = .normal → dying.waiters = [] ∧ dying.outstanding = [] ∧ dying.calls = []
  freed : dying.phase = .cleared → dying.outstanding = []

theorem consistent_destroy {rng : Impl} (sound : Sound ⟨rng, []⟩) {waiting asked : List D}
    (queued : waiting.length = rng.waiters.length)
    (pending : asked.length = rng.outstanding.length) :
    Consistent (destroy rng waiting asked) := by
  refine ⟨counted_destroy rng waiting asked, fun normal => ?_, fun absurd => nomatch absurd⟩
  have empty : rng.waiters = [] := by simpa using sound.looping normal
  rw [empty, List.length_nil, List.length_eq_zero_iff] at queued
  rw [sound.asked normal, List.length_nil, List.length_eq_zero_iff] at pending
  simp [destroy, queued, pending]

theorem Steps.consistent {dying next : Dying D} (steps : Steps conduct dying next)
    (consistent : Consistent dying) : Consistent next := by
  refine ⟨steps.counted consistent.counted, ?_, ?_⟩
  · intro normal
    have nobody := consistent.nobody (steps.state ▸ normal)
    cases steps with
    | asks busy _ => simp [addWaiter, busy] at normal
    | drains _ _ _ queued => simp [queued] at nobody
    | drained _ _ _ _ => exact nobody
    | frees _ _ _ pending => simp [pending] at nobody
    | freed _ _ _ _ => exact nobody
  · intro cleared
    cases steps with
    | asks _ _ => exact consistent.freed cleared
    | drains _ _ clearing _ => exact absurd (clearing.symm.trans cleared) (by decide)
    | drained _ _ _ _ => cases cleared
    | frees _ _ resetting _ => exact absurd (resetting.symm.trans cleared) (by decide)
    | freed _ _ _ nothing => exact nothing

/-- A destructor on its way to complete every call. -/
def Good (conduct : Conduct D) (dying : Dying D) : Prop := Fine conduct dying ∧ Consistent dying

theorem Good.next {dying next : Dying D} (good : Good conduct dying)
    (goes : step conduct dying = some next) : Good conduct next :=
  ⟨(step_cases goes).fine_iff.mp good.1, (step_cases goes).consistent good.2⟩

theorem Good.reaches {dying next : Dying D} (good : Good conduct dying)
    (reaches : Reaches (step conduct) dying next) : Good conduct next :=
  reaches_invariant (fun _ _ => Good.next) reaches good

theorem dom_step {dying next : Dying D} (goes : step conduct dying = some next)
    (ends : (eval (step conduct) next).Dom) : (eval (step conduct) dying).Dom := by
  rwa [eval_step goes]

/-- The calls that the continuation still makes are queued, one by one. -/
theorem queues {dying : Dying D} {calls : List D} (busy : dying.state = .reseeding)
    (asks : dying.calls = calls) :
    ∃ next, Reaches (step conduct) dying next ∧ next.phase = dying.phase ∧ next.calls = [] ∧
      next.waiters.map Prod.fst = dying.waiters.map Prod.fst ++ calls := by
  induction calls generalizing dying with
  | nil => exact ⟨dying, .refl, rfl, asks, (List.append_nil _).symm⟩
  | cons caller calls ih =>
      have asking : Steps conduct dying _ := .asks busy asks
      obtain ⟨next, reaches, phase, returned, waiting⟩ :=
        @ih ({ dying with calls := calls }.addWaiter caller) busy rfl
      refine ⟨next, .head asking.goes reaches, phase, returned, ?_⟩
      rw [waiting]
      simp [addWaiter]

theorem calls_queued {dying : Dying D} (good : Good conduct dying) :
    ∃ next, Reaches (step conduct) dying next ∧ next.phase = dying.phase ∧ next.calls = [] ∧
      next.waiters.map Prod.fst = dying.waiters.map Prod.fst ++ dying.calls := by
  rcases mode : dying.state with - | -
  · have none := (good.2.nobody mode).2.2
    exact ⟨dying, .refl, rfl, none, by rw [none, List.append_nil]⟩
  · exact queues mode rfl

theorem halts_cleared {dying : Dying D} (good : Good conduct dying)
    (cleared : dying.phase = .cleared) : (eval (step conduct) dying).Dom := by
  have returned := (good.1.drained (by simp [cleared])).2
  refine Part.dom_iff_mem.mpr ⟨dying, mem_eval_stop ?_⟩
  simp only [step_returns returned good.1.returns, resume, cleared]

theorem halts_resetting {dying : Dying D} {outstanding : List (D × Nat)}
    (good : Good conduct dying) (resetting : dying.phase = .resetRandomizer)
    (pending : dying.outstanding = outstanding) : (eval (step conduct) dying).Dom := by
  have returned := (good.1.drained (by simp [resetting])).2
  induction outstanding generalizing dying with
  | nil =>
      have freed : Steps conduct dying _ := .freed returned good.1.returns resetting pending
      exact dom_step freed.goes (halts_cleared (good.next freed.goes) rfl)
  | cons asked outstanding ih =>
      have frees : Steps conduct dying _ := .frees returned good.1.returns resetting pending
      have next := good.next frees.goes
      exact dom_step frees.goes
        (ih next resetting rfl (next.1.drained (by simp [fail, resetting])).2)

/-- The items of the worklist are the waiters and the calls that are still to be
queued behind them. -/
theorem halts_clearing {dying : Dying D} (good : Good conduct dying)
    (clearing : dying.phase = .clearWaiters) : (eval (step conduct) dying).Dom := by
  have ends : ∀ d ∈ dying.waiters.map Prod.fst ++ dying.calls, Ends conduct.failed d :=
    fun d member => (good.1.draining clearing d member).ends
  generalize listed : dying.waiters.map Prod.fst ++ dying.calls = items at ends
  refine worklist_induction (P := fun items => ∀ dying, Good conduct dying →
    dying.phase = .clearWaiters → dying.waiters.map Prod.fst ++ dying.calls = items →
    (eval (step conduct) dying).Dom) ?_ ?_ ends dying good clearing listed
  · intro dying good clearing listed
    obtain ⟨waiting, returned⟩ := List.append_eq_nil_iff.mp listed
    have empty := List.map_eq_nil_iff.mp waiting
    have drained : Steps conduct dying _ := .drained returned good.1.returns clearing empty
    exact dom_step drained.goes (halts_resetting (good.next drained.goes) rfl rfl)
  · intro front rest ih dying good clearing listed
    obtain ⟨queued, reaches, phase, returned, waiting⟩ := calls_queued good
    rw [listed] at waiting
    obtain ⟨call, waiters, waits, rfl, rfl⟩ := List.map_eq_cons_iff.mp waiting
    have good' := good.reaches reaches
    have drains : Steps conduct queued _ :=
      .drains returned good'.1.returns (phase.trans clearing) waits
    rw [reaches_eval reaches]
    exact dom_step drains.goes
      (ih _ (good'.next drains.goes) (phase.trans clearing) rfl)

/-- Where a destructor on its way stops, it has completed every call. -/
theorem Good.stops {dying : Dying D} (good : Good conduct dying)
    (stop : step conduct dying = none) :
    dying.phase = .cleared ∧ dying.calls = [] ∧ dying.raising = false ∧
      ∀ n < dying.made, dying.completed.count n = 1 := by
  have goes {next : Dying D} (steps : Steps conduct dying next) : False := by
    have some := steps.goes
    rw [stop] at some
    cases some
  have returned : dying.calls = [] := by
    rcases asks : dying.calls with - | ⟨caller, calls⟩
    · rfl
    · rcases mode : dying.state with - | -
      · have none := (good.2.nobody mode).2.2
        rw [asks] at none
        cases none
      · exact (goes (.asks mode asks)).elim
  have returns := good.1.returns
  rcases phase : dying.phase with - | - | -
  · rcases waiting : dying.waiters with - | ⟨front, waiters⟩
    · exact (goes (.drained returned returns phase waiting)).elim
    · exact (goes (.drains returned returns phase waiting)).elim
  · rcases pending : dying.outstanding with - | ⟨asked, outstanding⟩
    · exact (goes (.freed returned returns phase pending)).elim
    · exact (goes (.frees returned returns phase pending)).elim
  · have empty := (good.1.drained (by simp [phase])).1
    exact ⟨rfl, returned, returns, good.2.counted.completes_iff.mpr ⟨empty, good.2.freed phase⟩⟩

theorem fine_of_completed {dying : Dying D} (consistent : Consistent dying)
    (cleared : dying.phase = .cleared) (returned : dying.calls = [])
    (returns : dying.raising = false) (once : ∀ n < dying.made, dying.completed.count n = 1) :
    Fine conduct dying := by
  obtain ⟨empty, nothing⟩ := consistent.counted.completes_iff.mp once
  rw [fine_drained (by simp [cleared])]
  exact ⟨returns, ⟨empty, returned⟩, by simp [nothing]⟩

theorem fine_of_reaches {dying next : Dying D} (reaches : Reaches (step conduct) dying next)
    (fine : Fine conduct next) : Fine conduct dying := by
  induction reaches using Relation.ReflTransGen.head_induction_on with
  | refl => exact fine
  | head goes _ ih => exact (step_cases goes).fine_iff.mpr ih

theorem completes_iff_fine {dying : Dying D} (consistent : Consistent dying)
    (clearing : dying.phase = .clearWaiters) :
    Completes conduct dying ↔ Fine conduct dying := by
  constructor
  · rintro ⟨last, ends, cleared, returned, returns, once⟩
    obtain ⟨reaches, -⟩ := mem_eval.mp ends
    have kept : Consistent last :=
      reaches_invariant (fun _ _ before goes => (step_cases goes).consistent before) reaches
        consistent
    exact fine_of_reaches reaches (fine_of_completed kept cleared returned returns once)
  · intro fine
    obtain ⟨last, ends⟩ := Part.dom_iff_mem.mp (halts_clearing ⟨fine, consistent⟩ clearing)
    obtain ⟨reaches, stop⟩ := mem_eval.mp ends
    exact ⟨last, ends, (Good.reaches ⟨fine, consistent⟩ reaches).stops stop⟩

theorem fine_destroy_iff {rng : Impl} {waiting asked : List D} :
    Fine conduct (destroy rng waiting asked) ↔
      (∀ d ∈ waiting, Settles conduct d) ∧ ∀ d ∈ asked, Calm conduct d := by
  have all {P : D → Prop} {ds : List D} {n : Nat} :
      (∀ call ∈ ds.zipIdx n, P call.1) ↔ ∀ d ∈ ds, P d := by
    rw [← List.forall_mem_map (f := Prod.fst), List.zipIdx_map_fst]
  rw [fine_draining rfl]
  simp only [destroy, List.zipIdx_map_fst, List.append_nil, true_and, all]

theorem completes_destroy_iff {rng : Impl} (sound : Sound ⟨rng, []⟩) {waiting asked : List D}
    (queued : waiting.length = rng.waiters.length)
    (pending : asked.length = rng.outstanding.length) :
    Completes conduct (destroy rng waiting asked) ↔
      (∀ d ∈ waiting, Settles conduct d) ∧ ∀ d ∈ asked, Calm conduct d :=
  (completes_iff_fine (consistent_destroy sound queued pending) rfl).trans fine_destroy_iff

/-- Who has `n` tries left calls again when he sees `Freed`. -/
def tries : Conduct Nat where
  failed
    | 0 => []
    | n + 1 => [n]
  raises _ := false

theorem settles_tries (n : Nat) : Settles tries n := by
  induction n with
  | zero => exact .intro rfl (by simp [tries])
  | succ n ih => exact .intro rfl (by simpa [tries] using ih)

/-- Who never gives up. -/
def insists : Conduct Unit where
  failed _ := [()]
  raises _ := false

theorem not_settles_insists : ¬Settles insists () := fun settles =>
  settles.ends.not_self (List.mem_singleton.mpr rfl)

end Dying

end SidepoolFormal.Crypto.CSPRNG
