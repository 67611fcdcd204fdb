import SidepoolFormal.Crypto.Throwing
import SidepoolFormal.Crypto.WakeUp

/-!
# Who resumes the waiters

The generator gets stuck in two ways: it starts out reseeding, because the
constructor leaves `state` as the memory has it, or a request fails, which no
continuation of `reseed` sees.  A stuck generator stays stuck; otherwise it is
reseeding just while a request is outstanding.  And an exception that leaves the
loop of `reseed` leaves its waiters in the queue.
-/

namespace SidepoolFormal.Crypto.CSPRNG

open Library

structure Attended (rng : Impl) : Prop where
  flag : rng.state = .reseeding ↔ rng.outstanding.length = 1
  waiting : rng.waiters ≠ [] → rng.state = .reseeding

/-- Reseeding without a request. -/
def Stuck (rng : Impl) : Prop := rng.state = .reseeding ∧ rng.outstanding = []

/-- Some request that the randomizer completed inside `get` has failed. -/
def failedAtOnce (env : Environment) (rng : Impl) : Prop :=
  ∃ n, n < rng.requests ∧ env.get n = .fails

/-- Of what happens later only the failure of a request makes it stuck. -/
def Happening.fails (event : Happening) : Prop := ∃ caller, event = .failure caller

/-- An exception leaves a loop that has waiters to resume only where another loop is
still on the stack. -/
def Contained (_ : List Happening) (config : Running) (event : Happening) : Prop :=
  event = .raises → config.rng.state = .normal → config.rng.waiters ≠ [] →
    .loop ∈ config.stack → .loop ∈ unwound config.stack.tail

variable {env : Environment}

/-! ## The flag and the requests -/

structure Asked (rng : Impl) : Prop where
  one : rng.outstanding.length ≤ 1
  normal : rng.state = .normal → rng.outstanding = []

theorem Asked.reseeding {rng : Impl} (asked : Asked rng) {before after : List Caller}
    {caller : Caller} (pending : rng.outstanding = before ++ caller :: after) :
    rng.state = .reseeding := by
  cases mode : rng.state with
  | normal => simp [asked.normal mode] at pending
  | reseeding => rfl

/-- The generator is stuck exactly when something has `failed` before or a
request has failed at once. -/
def Tells (env : Environment) (failed : Prop) (rng : Impl) : Prop :=
  Stuck rng ↔ failed ∨ failedAtOnce env rng

theorem not_stuck {rng : Impl} (normal : rng.state = .normal) : ¬Stuck rng := by
  rintro ⟨busy, -⟩
  cases normal.symm.trans busy

theorem failedAtOnce_asking (rng : Impl) :
    failedAtOnce env rng.asking ↔ failedAtOnce env rng ∨ env.get rng.requests = .fails := by
  constructor
  · rintro ⟨n, before, fails⟩
    rcases Nat.lt_succ_iff_lt_or_eq.mp before with earlier | rfl
    · exact .inl ⟨n, earlier, fails⟩
    · exact .inr fails
  · rintro (⟨n, before, fails⟩ | fails)
    · exact ⟨n, Nat.lt_succ_of_lt before, fails⟩
    · exact ⟨rng.requests, Nat.lt_succ_self _, fails⟩

theorem Tells.asking {failed : Prop} {rng : Impl} (tells : Tells env failed rng)
    (normal : rng.state = .normal) (fine : env.get rng.requests ≠ .fails) :
    ¬(failed ∨ failedAtOnce env rng.asking) := by
  have before := not_or.mp (mt tells.mpr (not_stuck normal))
  rw [failedAtOnce_asking]
  rintro (failed | earlier | now)
  · exact before.1 failed
  · exact before.2 earlier
  · exact fine now

/-- What is known of the generator while functions are on the stack. -/
structure Known (env : Environment) (failed : Prop) (rng : Impl) : Prop where
  asked : Asked rng
  tells : Tells env failed rng

theorem Served.known {failed : Prop} {caller : Caller} {rng : Impl} {stack : List Frame}
    {next : Running} (served : Served env caller rng stack next) (known : Known env failed rng) :
    Known env failed next.rng := by
  obtain ⟨asked, tells⟩ := known
  cases served with
  | queues busy => exact ⟨⟨asked.one, asked.normal⟩, tells⟩
  | ready normal some => exact ⟨⟨asked.one, asked.normal⟩, tells⟩
  | @passes entropy normal none answer =>
      have free : ¬Stuck ((rng.asking.keyed env entropy).generated env) := not_stuck rfl
      exact ⟨⟨asked.one, fun _ => asked.normal normal⟩,
        iff_of_false free (tells.asking normal (by simp [answer]))⟩
  | fails normal none answer =>
      have stuck : Stuck rng.asking := ⟨rfl, asked.normal normal⟩
      exact ⟨⟨asked.one, fun absurd => nomatch absurd⟩,
        iff_of_true stuck (.inr ((failedAtOnce_asking rng).mpr (.inr answer)))⟩
  | later normal none answer =>
      have nobody : rng.outstanding = [] := asked.normal normal
      refine ⟨⟨by simp [nobody], fun absurd => nomatch absurd⟩,
        iff_of_false ?_ (tells.asking normal (by simp [answer]))⟩
      rintro ⟨-, none⟩
      simp at none

theorem Known.calm {failed : Prop} {rng : Impl} {event : Happening} (known : Known env failed rng)
    (calm : ¬event.fails) : Known env (failed ∨ event.fails) rng := by
  rwa [or_iff_left calm]

theorem Known.step {failed : Prop} {config next : Running} {event : Happening}
    (known : Known env failed config.rng) (step : Step env config event next) :
    Known env (failed ∨ event.fails) next.rng := by
  cases step with
  | enters => exact known.calm (by simp [Happening.fails])
  | calls caller => exact ((waits_served env _ _ _).known known).calm (by simp [Happening.fails])
  | @forces rng stack =>
      have same : Known env failed { rng with deterministic := true } :=
        ⟨⟨known.asked.one, known.asked.normal⟩, known.tells⟩
      exact same.calm (by simp [Happening.fails])
  | returns => exact known.calm (by simp [Happening.fails])
  | raises => exact known.calm (by simp [Happening.fails])
  | @resumes rng stack front waiters queued =>
      have popped : Known env failed (rng.popped front waiters) :=
        ⟨⟨known.asked.one, known.asked.normal⟩, known.tells⟩
      exact ((waits_served env _ _ _).known popped).calm (by simp [Happening.fails])
  | leaves empty => exact known.calm (by simp [Happening.fails])
  | @entropy rng stack before after caller control pending bytes =>
      have none := alone (pending ▸ known.asked.one)
      have free : ¬Stuck rng := by
        rintro ⟨-, none⟩
        simp [pending] at none
      have installed : Known env failed
          (({ rng with outstanding := before ++ after } : Impl).keyed env bytes |>.generated env) :=
        ⟨⟨by simp [Impl.generated, Impl.keyed, none], fun _ => none⟩,
          iff_of_false (not_stuck rfl) (mt known.tells.mpr free)⟩
      exact installed.calm (by simp [Happening.fails])
  | failure control pending =>
      have none := alone (pending ▸ known.asked.one)
      have busy := known.asked.reseeding pending
      exact ⟨⟨by simp [none], fun _ => none⟩, iff_of_true ⟨busy, none⟩ (.inl (.inr ⟨_, rfl⟩))⟩

/-- What has failed in a run: the constructor, or the completion of a request. -/
def failed (state : StateType) (trace : List Happening) : Prop :=
  state = .reseeding ∨ ∃ event ∈ trace, event.fails

section Run

variable {key : Key} {state : StateType} {trace : List Happening} {config : Running}

theorem known_of_run (run : Run (Step env) ⟨construct key state, []⟩ trace config) :
    Known env (failed state trace) config.rng := by
  induction run with
  | nil =>
      have none : ¬failedAtOnce env (construct key state) := by
        rintro ⟨n, before, -⟩
        exact absurd before (Nat.not_lt_zero n)
      have first : Stuck (construct key state) ↔ state = .reseeding := and_iff_left rfl
      refine ⟨⟨Nat.zero_le _, fun _ => rfl⟩, ?_⟩
      rw [Tells, first, or_iff_left none]
      simp [failed]
  | @snoc trace config config' event run next ih =>
      have same : failed state (trace ++ [event]) ↔ failed state trace ∨ event.fails := by
        simp [failed, or_and_right, exists_or, or_assoc]
      obtain ⟨asked, tells⟩ := ih.step next
      exact ⟨asked, by rwa [Tells, same]⟩

/-! ## The loop and the waiters -/

/-- While keys are handed out, whoever waits has a loop to resume him. -/
def Looping (config : Running) : Prop :=
  config.rng.state = .normal → config.rng.waiters = [] ∨ .loop ∈ config.stack

theorem Served.looping {caller : Caller} {rng : Impl} {stack : List Frame} {next : Running}
    (served : Served env caller rng stack next) (looping : Looping ⟨rng, stack⟩) :
    Looping next := by
  cases served with
  | queues busy => exact fun normal => nomatch busy.symm.trans normal
  | ready normal some =>
      exact fun _ => (looping normal).imp_right fun member => by simpa using member
  | passes normal none answer => exact fun _ => .inr (by simp)
  | fails normal none answer => exact fun absurd => nomatch absurd
  | later normal none answer => exact fun absurd => nomatch absurd

theorem Looping.step {config next : Running} {event : Happening} (looping : Looping config)
    (asked : Asked config.rng) (step : Step env config event next)
    (contained : Contained trace config event) : Looping next := by
  cases step with
  | enters => exact fun normal => (looping normal).imp_right fun member => nomatch member
  | calls caller => exact (waits_served env _ _ _).looping looping
  | forces => exact looping
  | returns => exact fun normal => (looping normal).imp_right fun member => by simpa using member
  | @raises rng stack =>
      intro normal
      by_cases empty : rng.waiters = []
      · exact .inl empty
      · have member := (looping normal).resolve_left empty
        exact .inr (contained rfl normal empty member)
  | resumes queued =>
      exact (waits_served env _ _ _).looping fun _ => .inr List.mem_cons_self
  | leaves empty => exact fun _ => .inl empty
  | entropy control pending bytes => exact fun _ => .inr (by simp [installed, passed])
  | failure control pending =>
      have busy := asked.reseeding pending
      exact fun normal => nomatch busy.symm.trans normal

theorem looping_of_run (run : Run (Step env) ⟨construct key state, []⟩ trace config)
    (contained : Run.Meets (Step env) ⟨construct key state, []⟩ Contained trace) :
    Looping config := by
  refine contained.invariant (I := fun _ config => Looping config) (fun _ => .inl rfl) ?_ run
  intro trace config event next run looping step contained
  exact looping.step (known_of_run run).asked step contained

end Run

/-! ## Nothing resumes a waiter of a stuck generator -/

/-- A stuck generator only queues callers. -/
structure Stays (rng : Impl) (config : Running) : Prop where
  stuck : Stuck config.rng
  kept : rng.waiters <+: config.rng.waiters
  straight : .loop ∉ config.stack

theorem unwound_straight {stack : List Frame} (straight : .loop ∉ stack) :
    .loop ∉ unwound stack := by
  cases stack with
  | nil => exact straight
  | cons frame stack =>
      cases frame with
      | user => exact straight
      | attempt caller => simpa [unwound] using straight
      | loop => exact absurd List.mem_cons_self straight

theorem Stays.step {rng : Impl} {config next : Running} {event : Happening}
    (stays : Stays rng config) (step : Step env config event next) : Stays rng next := by
  obtain ⟨stuck, kept, straight⟩ := stays
  have nobody (before after : List Caller) (caller : Caller) :
      config.rng.outstanding ≠ before ++ caller :: after := by
    simp [stuck.2]
  cases step with
  | enters => exact ⟨stuck, kept, by simp⟩
  | calls caller =>
      rw [waits_queues caller _ stuck.1]
      exact ⟨stuck, kept.trans (List.prefix_append _ _), by simpa using straight⟩
  | forces => exact ⟨stuck, kept, straight⟩
  | returns => exact ⟨stuck, kept, by simpa using straight⟩
  | raises => exact ⟨stuck, kept, unwound_straight fun member => straight (.tail _ member)⟩
  | resumes queued => exact absurd List.mem_cons_self straight
  | leaves empty => exact absurd List.mem_cons_self straight
  | entropy control pending bytes => exact absurd pending (nobody _ _ _)
  | failure control pending => exact absurd pending (nobody _ _ _)

theorem Stuck.run {rng : Impl} {config : Running} {trace : List Happening} (stuck : Stuck rng)
    (run : Run (Step env) ⟨rng, []⟩ trace config) : Stays rng config :=
  run.invariant (I := fun _ config => Stays rng config) ⟨stuck, List.prefix_rfl, List.not_mem_nil⟩
    fun _ _ _ _ stays step => stays.step step

/-! ## When nobody is stranded -/

theorem attended_iff_not_stuck {rng : Impl} (asked : Asked rng)
    (looping : rng.state = .normal → rng.waiters = []) : Attended rng ↔ ¬Stuck rng := by
  constructor
  · rintro attended ⟨busy, none⟩
    have one := attended.flag.mp busy
    rw [none] at one
    cases one
  · intro free
    constructor
    · constructor
      · intro busy
        have some : rng.outstanding ≠ [] := fun none => free ⟨busy, none⟩
        have positive := List.length_pos_iff.mpr some
        have one := asked.one
        omega
      · intro one
        obtain ⟨caller, pending⟩ := List.length_eq_one_iff.mp one
        rw [← List.nil_append [caller]] at pending
        exact asked.reseeding pending
    · intro waiting
      cases mode : rng.state with
      | normal => exact absurd (looping mode) waiting
      | reseeding => rfl

/-- The memory happened to say `Normal` at first, and no request has failed. -/
def Unfailed (env : Environment) (state : StateType) (trace : List Happening) (rng : Impl) :
    Prop :=
  state = .normal ∧ (∀ event ∈ trace, ¬event.fails) ∧ ∀ n, n < rng.requests → env.get n ≠ .fails

theorem unfailed_iff (env : Environment) (state : StateType) (trace : List Happening) (rng : Impl) :
    Unfailed env state trace rng ↔ ¬(failed state trace ∨ failedAtOnce env rng) := by
  cases state with
  | normal => simp [Unfailed, failed, failedAtOnce]
  | reseeding => simp [Unfailed, failed]

theorem reseeds_asks (env : Environment) (caller : Caller) (rng : Impl) (stack : List Frame)
    (normal : rng.state = .normal) (empty : budget rng = 0) :
    (waits env caller rng stack).rng.requests = rng.requests + 1 := by
  have served := waits_served env caller rng stack
  generalize waits env caller rng stack = next at served ⊢
  cases served with
  | queues busy => cases normal.symm.trans busy
  | ready normal some => exact absurd empty some
  | passes normal none answer => rfl
  | fails normal none answer => rfl
  | later normal none answer => rfl

/-- Whenever the event loop has control, the flag tells of a request and nobody
waits without one only if the memory happened to say `Normal` at first and no
request has failed so far; and then they do, in every run in which no exception
leaves a loop that has waiters to resume.  The first call makes a request if and
only if the memory said `Normal`. -/
theorem attended_iff {key : Key} {state : StateType} {trace : List Happening} {rng : Impl}
    (run : Run (Step env) ⟨construct key state, []⟩ trace ⟨rng, []⟩) :
    (Attended rng → Unfailed env state trace rng) ∧
    (Run.Meets (Step env) ⟨construct key state, []⟩ Contained trace →
      Unfailed env state trace rng → Attended rng) ∧
    ∀ caller, ∃ next, Step env ⟨construct key state, [.user]⟩ (.calls caller) next ∧
      (next.rng.requests = 1 ↔ state = .normal) := by
  obtain ⟨asked, tells⟩ := known_of_run run
  refine ⟨?_, ?_, ?_⟩
  · intro attended
    rw [unfailed_iff]
    refine mt tells.mpr ?_
    rintro ⟨busy, none⟩
    have one := attended.flag.mp busy
    rw [none] at one
    cases one
  · intro contained unfailed
    have looping := looping_of_run run contained
    refine (attended_iff_not_stuck asked ?_).mpr ?_
    · exact fun normal => (looping normal).resolve_right nofun
    · exact mt tells.mp ((unfailed_iff env state trace rng).mp unfailed)
  · intro caller
    refine ⟨_, .calls caller, ?_⟩
    cases state with
    | normal =>
        refine iff_of_true ?_ rfl
        exact reseeds_asks env caller (construct key .normal) [.user] rfl rfl
    | reseeding =>
        rw [waits_queues caller _ rfl]
        exact iff_of_false (by simp [construct]) nofun

/-- One caller has asked, and another waits. -/
def waitingFor (caller waiter : Caller) : Impl :=
  { (construct zeros .normal).asking with outstanding := [caller], waiters := [waiter] }

theorem waiting_run (caller waiter : Caller) :
    Run (Step patient) ⟨construct zeros .normal, []⟩
      [.enters, .calls caller, .calls waiter, .returns] ⟨waitingFor caller waiter, []⟩ := by
  have entered : Run (Step patient) ⟨construct zeros .normal, []⟩ [.enters] _ := .snoc .nil .enters
  have asked := entered.snoc (.calls caller)
  rw [waits_later caller _ rfl rfl rfl] at asked
  have queued := asked.snoc (.calls waiter)
  rw [waits_queues waiter _ rfl] at queued
  exact queued.snoc .returns

/-- One caller has asked and another waits when the request fails: the waiter is in
the queue for ever.  A generator may be stuck before its first call.  And where
the first caller throws when he gets his block, and his `fail` throws too, the
waiter is left in the queue of a generator that hands out keys. -/
theorem failure_strands :
    (∃ trace rng, Run (Step patient) ⟨construct zeros .normal, []⟩ trace ⟨rng, []⟩ ∧
      ¬Attended rng ∧ ∀ trace' config, Run (Step patient) ⟨rng, []⟩ trace' config →
        lone ∈ config.rng.waiters) ∧
    ¬Attended (construct zeros .reseeding) ∧
    ∃ trace rng, Run (Step patient) ⟨construct zeros .normal, []⟩ trace ⟨rng, []⟩ ∧
      Unfailed patient .normal trace rng ∧ rng.state = .normal ∧ rng.waiters = [lone] ∧
      ¬Attended rng := by
  refine ⟨?_, ?_, ?_⟩
  · have asked : (waitingFor lone lone).outstanding = [] ++ lone :: [] := rfl
    have fails := (waiting_run lone lone).snoc (.failure rfl asked)
    have stuck : Stuck { waitingFor lone lone with outstanding := [] } := ⟨rfl, rfl⟩
    refine ⟨_, _, fails.snoc .returns, ?_, ?_⟩
    · intro attended
      have one := attended.flag.mp rfl
      cases one
    · intro trace' config later
      exact (stuck.run later).kept.subset List.mem_cons_self
  · intro attended
    have one := attended.flag.mp rfl
    cases one
  · have asked : (waitingFor lone lone).outstanding = [] ++ lone :: [] := rfl
    have wakes := (waiting_run lone lone).snoc (.entropy rfl asked zeros)
    refine ⟨_, _, (wakes.snoc .raises).snoc .raises, ?_, rfl, rfl, ?_⟩
    · refine ⟨rfl, by simp [Happening.fails], ?_⟩
      intro n _ fails
      cases fails
    · intro attended
      cases attended.waiting (List.cons_ne_nil lone [])

/-- A caller that waits while the request of the one before him is outstanding. -/
theorem attended_waiting :
    ∃ trace rng, Run (Step patient) ⟨construct zeros .normal, []⟩ trace ⟨rng, []⟩ ∧
      rng.waiters = [lone] ∧ Attended rng := by
  refine ⟨_, _, waiting_run lone lone, rfl, (attended_iff (waiting_run lone lone)).2.1 ?_ ?_⟩
  · intro pre event config inside run raises
    have member := inside.subset (List.mem_append_right pre List.mem_cons_self)
    simp [raises] at member
  · refine ⟨rfl, by simp [Happening.fails], ?_⟩
    intro n _ fails
    cases fails

end SidepoolFormal.Crypto.CSPRNG
