import SidepoolFormal.Main.Code

/-!
# What runs while the main object is destroyed

The members go one after the other, and the interfaces with them, before the
idler runs what is still queued.  Code runs in between: the callbacks that an
interface fails when it is freed, and the waiters of the random generator.
-/

namespace SidepoolFormal.Main

open Library

variable {C R : Type} {threads : Threads C R} {s s' : State C R} {freed : Interface → Bool}

/-! ## Code that leaves freed interfaces alone -/

/-- The act calls no interface that has been freed, does not share the main
object's pointer, and leaves code in `P`, with functions in `Q` queued.  Who may
call the math library is settled by who owns a pointer to it. -/
def Act.Tame (freed : Interface → Bool) (P Q : C → Prop) : Act C R → Prop
  | .returns => True
  | .throws => True
  | .enqueue f rest => Q f ∧ P rest
  | .call i rest => (i = .math ∨ freed i = false) ∧ P rest
  | .request i _ rest => (i = .math ∨ freed i = false) ∧ P rest
  | .wait _ rest => P rest
  | .wake rest => P rest
  | .share _ => False

theorem Act.Tame.mono {P P' Q Q' : C → Prop} (weaker : ∀ c, P c → P' c) (weaker' : ∀ c, Q c → Q' c)
    {act : Act C R} (tame : act.Tame freed P Q) : act.Tame freed P' Q' := by
  cases act with
  | returns => trivial
  | throws => trivial
  | enqueue f rest => exact ⟨weaker' f tame.1, weaker rest tame.2⟩
  | call i rest => exact tame.imp_right (weaker rest)
  | request i callback rest => exact tame.imp_right (weaker rest)
  | wait fail rest => exact weaker rest tame
  | wake rest => exact weaker rest tame
  | share rest => exact tame

/-- With fewer interfaces freed, apart from the math library. -/
theorem Act.Tame.antitone {freed' : Interface → Bool} {P Q : C → Prop} {act : Act C R}
    (fewer : ∀ i, i = .math ∨ freed i = false → i = .math ∨ freed' i = false)
    (tame : act.Tame freed P Q) : act.Tame freed' P Q := by
  cases act with
  | call i rest => exact tame.imp_left (fewer i)
  | request i callback rest => exact tame.imp_left (fewer i)
  | _ => exact tame

/-- Whatever it does until it returns or throws, and whatever the functions do
that it queues, no saver, logger or randomizer is called. -/
def Threads.Harmless (threads : Threads C R) (c : C) : Prop :=
  ∃ P : C → Prop, P c ∧ (∀ d act, P d → threads.next d act → act.Tame (fun _ => true) P P) ∧
    ∀ d e, P d → threads.catches d e → P e

/-- Until it returns or throws, the code calls no interface that has been freed,
and the functions that it queues are harmless. -/
def Threads.Meek (threads : Threads C R) (freed : Interface → Bool) (c : C) : Prop :=
  ∃ P : C → Prop, P c ∧ (∀ d act, P d → threads.next d act → act.Tame freed P threads.Harmless) ∧
    ∀ d e, P d → threads.catches d e → P e

theorem Threads.Harmless.meek {c : C} (harmless : threads.Harmless c) : threads.Meek freed c := by
  obtain ⟨P, holds, tame, caught⟩ := harmless
  refine ⟨P, holds, ?_, caught⟩
  intro d act holds next
  have queued (e : C) (holds : P e) : threads.Harmless e := ⟨P, holds, tame, caught⟩
  apply ((tame d act holds next).mono (fun _ => id) queued).antitone
  intro i fine
  exact .inl (fine.resolve_right nofun)

theorem Threads.Meek.next {c : C} (meek : threads.Meek freed c) {act : Act C R}
    (next : threads.next c act) : act.Tame freed (threads.Meek freed) threads.Harmless := by
  obtain ⟨P, holds, tame, caught⟩ := meek
  exact (tame c act holds next).mono (fun d holds => ⟨P, holds, tame, caught⟩) fun _ => id

theorem Threads.Meek.catches {c d : C} (meek : threads.Meek freed c)
    (caught : threads.catches c d) : threads.Meek freed d := by
  obtain ⟨P, holds, tame, closed⟩ := meek
  exact ⟨P, closed c d holds caught, tame, closed⟩

/-- That the math library has been freed makes no difference. -/
theorem Threads.Meek.math {c : C} (meek : threads.Meek freed c) :
    threads.Meek (Function.update freed .math true) c := by
  obtain ⟨P, holds, tame, caught⟩ := meek
  refine ⟨P, holds, ?_, caught⟩
  intro d act holds next
  apply (tame d act holds next).antitone
  intro i fine
  by_cases math : i = .math
  · exact .inl math
  · exact .inr ((Function.update_of_ne math true freed).trans (fine.resolve_left math))

/-! ## The condition on a run -/

/-- What is queued when the main object begins to be destroyed is harmless, and
what is then resumed is meek. -/
def State.Settled (threads : Threads C R) (s : State C R) : Event C R → Prop
  | .free => ∀ f ∈ s.toCall, threads.Harmless f
  | .aborts => ∀ f ∈ s.toCall, threads.Harmless f
  | .callback c => s.status = .freeing → threads.Meek s.freed c
  | .fails c => threads.Meek s.freed c
  | _ => True

def SettledStep (threads : Threads C R) (s : State C R) (e : Event C R) (s' : State C R) : Prop :=
  Step threads s e s' ∧ s.Settled threads e

/-! ## The three phases -/

/-- Nothing has been freed. -/
structure Before (s : State C R) : Prop where
  status : s.status = .absent ∨ s.status = .running
  shared : s.shared = true
  freed : ∀ i, s.freed i = false
  misused : s.misused = []
  stack : ∀ members, .destroy members ∉ s.stack

/-- The destructor is at the bottom of the stack, and what it runs is meek. -/
def Tearing (threads : Threads C R) (freed : Interface → Bool) : List (Frame C) → Prop
  | .destroy _ :: rest => rest = []
  | .code c :: rest => threads.Meek freed c ∧ Tearing threads freed rest
  | .client _ :: rest => Tearing threads freed rest
  | .nowIdle :: rest => Tearing threads freed rest
  | _ => False

structure During (threads : Threads C R) (s : State C R) : Prop where
  status : s.status = .freeing
  toCall : ∀ f ∈ s.toCall, threads.Harmless f
  misused : s.misused = []
  stack : Tearing threads s.freed s.stack
  math : s.freed .math = true → ¬s.HoldsMath threads

structure After (s : State C R) : Prop where
  status : s.status = .gone
  misused : s.misused = []
  stack : ∀ frame ∈ s.stack, ∃ i, frame = .client i

theorem Tearing.math {stack : List (Frame C)} (tearing : Tearing threads freed stack) :
    Tearing threads (Function.update freed .math true) stack := by
  induction stack with
  | nil => exact tearing
  | cons frame rest ih =>
      cases frame with
      | code c => exact ⟨tearing.1.math, ih tearing.2⟩
      | nowIdle => exact ih tearing
      | client i => exact ih tearing
      | initFinish => exact tearing
      | receiveMessage => exact tearing
      | destroy members => exact tearing

/-! ## Functions that are still there -/

theorem mem_code {d e : C} {rest : List (Frame C)} :
    .code d ∈ .code e :: rest ↔ d = e ∨ .code d ∈ rest := by
  simp

theorem mem_client {d : C} {i : Interface} {rest : List (Frame C)}
    (member : .code d ∈ .client i :: rest) : .code d ∈ rest := by
  simpa using member

theorem live_act {c d : C} {act : Act C R} {rest : List (Frame C)}
    (top : s.stack = .code c :: rest) (live : (s.act rest act).Live d) :
    s.Live d ∨ act.Leaves d := by
  have below (member : .code d ∈ rest) : s.Live d :=
    .inr (.inr (.inr (top ▸ List.mem_cons_of_mem _ member)))
  obtain queued | waiting | ⟨callback, held, r, made⟩ | member := live
  · cases act with
    | enqueue f e =>
        obtain old | new := List.mem_append.mp queued
        · exact .inl (.inl old)
        · exact .inr (.inl (List.mem_singleton.mp new))
    | _ => exact .inl (.inl queued)
  · cases act with
    | wait fail e =>
        obtain old | new := List.mem_append.mp waiting
        · exact .inl (.inr (.inl old))
        · exact .inr (.inl (List.mem_singleton.mp new))
    | wake e => exact .inl (.inr (.inl (List.mem_of_mem_tail waiting)))
    | _ => exact .inl (.inr (.inl waiting))
  · cases act with
    | request i given e =>
        obtain old | new := List.mem_append.mp held
        · exact .inl (.inr (.inr (.inl ⟨callback, old, r, made⟩)))
        · exact .inr (.inr ⟨r, List.mem_singleton.mp new ▸ made⟩)
    | _ => exact .inl (.inr (.inr (.inl ⟨callback, held, r, made⟩)))
  · cases act with
    | returns => exact .inl (below member)
    | throws => exact .inl (below member)
    | enqueue f e => exact (mem_code.mp member).symm.imp below .inr
    | call i e => exact (mem_code.mp (mem_client member)).symm.imp below id
    | request i given e => exact (mem_code.mp (mem_client member)).symm.imp below .inl
    | wait fail e => exact (mem_code.mp member).symm.imp below .inr
    | wake e => exact (mem_code.mp member).symm.imp below id
    | share e => exact (mem_code.mp member).symm.imp below id

/-- A state whose functions were all there before. -/
theorem live_of_subset (t : State C R) (toCall : t.toCall ⊆ s.toCall)
    (waiters : t.waiters ⊆ s.waiters) (pending : t.pending ⊆ s.pending)
    (stack : ∀ d, .code d ∈ t.stack → s.Live d) (d : C)
    (live : t.Live d) : s.Live d := by
  obtain queued | waiting | ⟨callback, held, r, made⟩ | member := live
  · exact .inl (toCall queued)
  · exact .inr (.inl (waiters waiting))
  · exact .inr (.inr (.inl ⟨callback, pending held, r, made⟩))
  · exact stack d member

theorem live_of_stack (t : State C R) (toCall : t.toCall = s.toCall)
    (waiters : t.waiters = s.waiters) (pending : t.pending = s.pending)
    (stack : ∀ d, .code d ∈ t.stack → .code d ∈ s.stack) : ∀ d, t.Live d → s.Live d :=
  live_of_subset t (toCall ▸ List.Subset.refl _) (waiters ▸ List.Subset.refl _)
    (pending ▸ List.Subset.refl _) fun d member => .inr (.inr (.inr (stack d member)))

theorem live_of_pop {frame : Frame C} {rest : List (Frame C)} (top : s.stack = frame :: rest) :
    ∀ d, State.Live { s with stack := rest } d → s.Live d :=
  live_of_stack (s := s) { s with stack := rest } rfl rfl rfl
    fun _ member => by rw [top]; exact List.mem_cons_of_mem _ member

theorem live_top {c : C} {rest : List (Frame C)} (top : s.stack = .code c :: rest) : s.Live c :=
  .inr (.inr (.inr (top ▸ List.mem_cons_self)))

theorem holds_act {c : C} {act : Act C R} {rest : List (Frame C)} (top : s.stack = .code c :: rest)
    (next : threads.next c act) (unshared : ∀ d, act ≠ .share d)
    (holding : (s.act rest act).HoldsMath threads) : s.HoldsMath threads := by
  obtain ⟨d, live, holds⟩ := holding
  obtain old | new := live_act top live
  · exact ⟨d, old, holds⟩
  · have owner : threads.holds c := (threads.leaves_holds next new holds).resolve_right (unshared d)
    exact ⟨c, live_top top, owner⟩

/-! ## Before anything is freed -/

theorem misused_call (i : Interface) {t : State C R} (fine : t.freed i = false) :
    (t.call i).misused = t.misused := by
  simp [State.call, fine]

theorem act_status (rest : List (Frame C)) (act : Act C R) :
    (s.act rest act).status = s.status := by
  cases act <;> rfl

theorem act_shared (rest : List (Frame C)) (act : Act C R) :
    (s.act rest act).shared = s.shared := by
  cases act <;> rfl

theorem act_freed (rest : List (Frame C)) (act : Act C R) : (s.act rest act).freed = s.freed := by
  cases act <;> rfl

theorem act_stack {rest : List (Frame C)} {act : Act C R} {members : List Member}
    (member : .destroy members ∈ (s.act rest act).stack) : .destroy members ∈ rest := by
  cases act with
  | returns => exact member
  | throws => exact member
  | _ => simpa [State.act, State.call] using member

/-- Nothing is misused that has not been freed or dropped. -/
theorem act_misused (rest : List (Frame C)) (act : Act C R) (unfreed : ∀ i, s.freed i = false)
    (shared : s.shared = true) : (s.act rest act).misused = s.misused := by
  cases act with
  | call i e => exact misused_call i (unfreed i)
  | request i callback e => exact misused_call i (unfreed i)
  | share e => exact if_pos shared
  | _ => rfl

theorem Before.act {c : C} {act : Act C R} {rest : List (Frame C)} (before : Before s)
    (top : s.stack = .code c :: rest) : Before (s.act rest act) where
  status := by
    rw [act_status]
    exact before.status
  shared := by
    rw [act_shared]
    exact before.shared
  freed := by
    rw [act_freed]
    exact before.freed
  misused := by
    rw [act_misused rest act before.freed before.shared]
    exact before.misused
  stack members member := by
    apply before.stack members
    rw [top]
    exact List.mem_cons_of_mem _ (act_stack member)

theorem Before.during (before : Before s) (harmless : ∀ f ∈ s.toCall, threads.Harmless f)
    {t : State C R} (same : t = { s with
      status := .freeing, throwing := false, stack := [.destroy mainMembers.reverse] }) :
    During threads t := by
  subst same
  refine ⟨rfl, harmless, before.misused, rfl, ?_⟩
  intro freed
  have unfreed : s.freed .math = false := before.freed .math
  exact absurd (freed.symm.trans unfreed) (by decide)

theorem Before.step {e : Event C R} (before : Before s) (step : SettledStep threads s e s') :
    Before s' ∨ During threads s' := by
  obtain ⟨step, settled⟩ := step
  obtain ⟨status, shared, freed, misused, stack⟩ := before
  have pop {frame : Frame C} {rest : List (Frame C)} (top : s.stack = frame :: rest) :
      ∀ members, .destroy members ∉ rest := fun members member =>
    stack members (top ▸ List.mem_cons_of_mem _ member)
  have destroying {members : List Member} {rest : List (Frame C)}
      (top : s.stack = .destroy members :: rest) : False :=
    stack members (top ▸ List.mem_cons_self)
  cases step with
  | initFinish absent idle => exact .inl ⟨.inr rfl, shared, freed, misused, by simp⟩
  | receiveMessage running fromC =>
      exact .inl ⟨status, shared, freed, misused, by simpa using stack⟩
  | outOfMemory running fromC =>
      exact .inl ⟨status, shared, freed, misused, by simpa using stack⟩
  | callback r exists_ fromC held =>
      exact .inl ⟨status, shared, freed, misused, by simpa using stack⟩
  | free running quiet idle =>
      refine .inr (Before.during ⟨status, shared, freed, misused, stack⟩ settled ?_)
      rw [quiet]
  | runs quiet top queued =>
      exact .inl ⟨status, shared, freed, misused, by simpa using pop top⟩
  | idle quiet top empty => exact .inl ⟨status, shared, freed, misused, pop top⟩
  | does quiet top next => exact .inl (Before.act ⟨status, shared, freed, misused, stack⟩ top)
  | clientReturns quiet top => exact .inl ⟨status, shared, freed, misused, pop top⟩
  | returns quiet top done => exact .inl ⟨status, shared, freed, misused, pop top⟩
  | catches thrown top caught =>
      exact .inl ⟨status, shared, freed, misused, by simpa using pop top⟩
  | unwinds thrown top through => exact .inl ⟨status, shared, freed, misused, pop top⟩
  | reports thrown top =>
      exact .inl ⟨status, shared, freed, (misused_call _ (freed .logger)).trans misused,
        by simpa [State.call] using stack⟩
  | aborts thrown top =>
      exact .inr (Before.during ⟨status, shared, freed, misused, stack⟩ settled rfl)
  | fails quiet top waiting => exact (destroying top).elim
  | destroys quiet top cleared => exact (destroying top).elim
  | mathFreed dropped once unheld => exact absurd (shared.symm.trans dropped) (by decide)
  | freed quiet top => exact (destroying top).elim

/-! ## While the main object is destroyed -/

theorem During.act {c : C} {act : Act C R} {rest : List (Frame C)} (during : During threads s)
    (top : s.stack = .code c :: rest) (next : threads.next c act) :
    During threads (s.act rest act) := by
  have stack := during.stack
  rw [top] at stack
  obtain ⟨meek, below⟩ := stack
  have tame := meek.next next
  have unshared : ∀ d, act ≠ .share d := by
    rintro d rfl
    exact tame
  have math (freed : (s.act rest act).freed .math = true) :
      ¬(s.act rest act).HoldsMath threads := by
    intro holding
    rw [act_freed] at freed
    exact during.math freed (holds_act top next unshared holding)
  have fine {i : Interface} (unfreed : i = .math ∨ s.freed i = false)
      (owner : i = .math → threads.holds c) : s.freed i = false := by
    refine unfreed.elim ?_ id
    intro isMath
    by_contra freed
    rw [isMath, Bool.not_eq_false] at freed
    exact during.math freed ⟨c, live_top top, owner isMath⟩
  cases act with
  | returns => exact ⟨during.status, during.toCall, during.misused, below, math⟩
  | throws => exact ⟨during.status, during.toCall, during.misused, below, math⟩
  | enqueue f e =>
      refine ⟨during.status, ?_, during.misused, ⟨tame.2, below⟩, math⟩
      intro g member
      obtain old | new := List.mem_append.mp member
      · exact during.toCall g old
      · exact List.mem_singleton.mp new ▸ tame.1
  | call i e =>
      refine ⟨during.status, during.toCall, ?_, ⟨tame.2, below⟩, math⟩
      refine (misused_call i (fine tame.1 ?_)).trans during.misused
      rintro rfl
      exact threads.calls_math next
  | request i callback e =>
      refine ⟨during.status, during.toCall, ?_, ⟨tame.2, below⟩, math⟩
      refine (misused_call i (fine tame.1 ?_)).trans during.misused
      rintro rfl
      exact threads.requests_math next
  | wait fail e => exact ⟨during.status, during.toCall, during.misused, ⟨tame, below⟩, math⟩
  | wake e => exact ⟨during.status, during.toCall, during.misused, ⟨tame, below⟩, math⟩
  | share e => exact tame.elim

/-- A step that makes no functions and frees no pointer's interface. -/
theorem During.of_live (during : During threads s) {t : State C R} (status : t.status = s.status)
    (toCall : ∀ f ∈ t.toCall, threads.Harmless f) (misused : t.misused = s.misused)
    (freed : t.freed .math = s.freed .math) (stack : Tearing threads t.freed t.stack)
    (live : ∀ d, t.Live d → s.Live d) :
    During threads t where
  status := status.trans during.status
  toCall := toCall
  misused := misused.trans during.misused
  stack := stack
  math isFreed := by
    rintro ⟨d, isLive, holds⟩
    exact during.math (freed ▸ isFreed) ⟨d, live d isLive, holds⟩

theorem Tearing.pop {frame : Frame C} {rest : List (Frame C)}
    (tearing : Tearing threads freed (frame :: rest))
    (through : (∃ c, frame = .code c) ∨ frame = .nowIdle ∨ ∃ i, frame = .client i) :
    Tearing threads freed rest := by
  obtain ⟨c, rfl⟩ | rfl | ⟨i, rfl⟩ := through
  · exact tearing.2
  · exact tearing
  · exact tearing

theorem destroy_math (rest : List (Frame C)) (m : Member) :
    (s.destroy rest m).freed .math = s.freed .math := by
  cases m <;> rfl

theorem tearing_destroy (members : List Member) (m : Member) :
    Tearing threads (s.destroy [.destroy members] m).freed
      (s.destroy [.destroy members] m).stack := by
  cases m <;> rfl

/-- A destructor leaves no code behind. -/
theorem code_destroy {members : List Member} {m : Member} {rest : List (Frame C)} {d : C}
    (member : .code d ∈ (s.destroy (.destroy members :: rest) m).stack) : .code d ∈ rest := by
  cases m <;> simpa [State.destroy, State.freeInterface] using member

theorem live_destroy (members : List Member) (m : Member) (d : C)
    (live : (s.destroy [.destroy members] m).Live d) : s.Live d := by
  have none (e : C) (member : .code e ∈ (s.destroy [.destroy members] m).stack) :
      .code e ∈ s.stack := (List.not_mem_nil (code_destroy member)).elim
  refine live_of_stack (s.destroy [.destroy members] m) ?_ ?_ ?_ none d live
  · cases m <;> rfl
  · cases m <;> rfl
  · cases m <;> rfl

/-- The stack of the destructor with a member less. -/
theorem During.destroy {m : Member} {members : List Member} {rest : List (Frame C)}
    (during : During threads s) (top : s.stack = .destroy (m :: members) :: rest) :
    During threads (s.destroy (.destroy members :: rest) m) := by
  have alone : rest = [] := by simpa [Tearing, top] using during.stack
  subst alone
  have toCall : (s.destroy [.destroy members] m).toCall = s.toCall := by cases m <;> rfl
  have misused : (s.destroy [.destroy members] m).misused = s.misused := by cases m <;> rfl
  have status : (s.destroy [.destroy members] m).status = s.status := by cases m <;> rfl
  exact during.of_live status (toCall ▸ during.toCall) misused (destroy_math _ m)
    (tearing_destroy members m) (live_destroy members m)

theorem During.step {e : Event C R} (during : During threads s)
    (step : SettledStep threads s e s') :
    During threads s' ∨ After s' := by
  obtain ⟨step, settled⟩ := step
  have tearing := during.stack
  have freeing {t : Status} (status : s.status = t) (other : t ≠ .freeing) : False :=
    other (status.symm.trans during.status)
  cases step with
  | initFinish absent idle => exact (freeing absent nofun).elim
  | receiveMessage running fromC => exact (freeing running nofun).elim
  | outOfMemory running fromC => exact (freeing running nofun).elim
  | free running quiet idle => exact (freeing running nofun).elim
  | @callback before after callback r exists_ fromC held =>
      have given : callback ∈ s.pending := held ▸ List.mem_append_cons_self
      have kept : before ++ after ⊆ s.pending :=
        held ▸ ((List.Sublist.refl before).append (List.sublist_cons_self callback after)).subset
      refine .inl (during.of_live rfl during.toCall rfl rfl ⟨settled during.status, tearing⟩ ?_)
      refine live_of_subset _ (List.Subset.refl _) (List.Subset.refl _) kept ?_
      intro d member
      obtain made | old := mem_code.mp member
      · exact .inr (.inr (.inl ⟨callback, given, r, made⟩))
      · exact .inr (.inr (.inr old))
  | @runs f toCall rest quiet top queued =>
      rw [top] at tearing
      have harmless := List.forall_mem_cons.mp (queued ▸ during.toCall)
      have fewer : toCall ⊆ s.toCall := queued ▸ List.subset_cons_self f toCall
      refine .inl (during.of_live rfl harmless.2 rfl rfl ⟨harmless.1.meek, tearing⟩ ?_)
      refine live_of_subset _ fewer (List.Subset.refl _) (List.Subset.refl _) ?_
      intro d member
      obtain rfl | old := mem_code.mp member
      · exact .inl (queued ▸ List.mem_cons_self)
      · exact .inr (.inr (.inr (top ▸ old)))
  | idle quiet top empty =>
      rw [top] at tearing
      exact .inl (during.of_live rfl during.toCall rfl rfl tearing (live_of_pop top))
  | does quiet top next => exact .inl (during.act top next)
  | clientReturns quiet top =>
      rw [top] at tearing
      exact .inl (during.of_live rfl during.toCall rfl rfl tearing (live_of_pop top))
  | returns quiet top done =>
      rw [top] at tearing
      obtain rfl | rfl := done
      · exact tearing.elim
      · exact tearing.elim
  | @catches c d rest thrown top caught =>
      rw [top] at tearing
      refine .inl ⟨during.status, during.toCall, during.misused,
        ⟨tearing.1.catches caught, tearing.2⟩, ?_⟩
      intro freed
      rintro ⟨e, live, holds⟩
      apply during.math freed
      obtain queued | waiting | pending | member := live
      · exact ⟨e, .inl queued, holds⟩
      · exact ⟨e, .inr (.inl waiting), holds⟩
      · exact ⟨e, .inr (.inr (.inl pending)), holds⟩
      · obtain rfl | old := mem_code.mp member
        · exact ⟨c, live_top top, threads.catches_holds caught holds⟩
        · exact ⟨e, live_of_pop top e (.inr (.inr (.inr old))), holds⟩
  | unwinds thrown top through =>
      rw [top] at tearing
      exact .inl (during.of_live rfl during.toCall rfl rfl (tearing.pop through) (live_of_pop top))
  | reports thrown top =>
      rw [top] at tearing
      exact tearing.elim
  | aborts thrown top =>
      rw [top] at tearing
      exact tearing.elim
  | @fails fail waiters members rest quiet top waiting =>
      have fewer : waiters ⊆ s.waiters := waiting ▸ List.subset_cons_self fail waiters
      refine .inl (during.of_live rfl during.toCall rfl rfl ⟨settled, tearing⟩ ?_)
      refine live_of_subset _ (List.Subset.refl _) fewer (List.Subset.refl _) ?_
      intro d member
      obtain rfl | old := mem_code.mp member
      · exact .inr (.inl (waiting ▸ List.mem_cons_self))
      · exact .inr (.inr (.inr old))
  | destroys quiet top cleared => exact .inl (during.destroy top)
  | mathFreed dropped once unheld =>
      refine .inl ⟨during.status, during.toCall, during.misused, tearing.math, ?_⟩
      intro _
      rintro ⟨d, live, holds⟩
      have kept : s.Live d :=
        live_of_stack (s := s) (s.freeInterface .math) rfl rfl rfl (fun _ => mem_client) d live
      exact unheld ⟨d, kept, holds⟩
  | freed quiet top =>
      rw [top] at tearing
      exact .inr ⟨rfl, during.misused, by simp [show _ = [] from tearing]⟩

/-! ## Afterwards -/

theorem After.step {e : Event C R} (after : After s) (step : Step threads s e s') : After s' := by
  have gone {t : Status} (status : s.status = t) (other : t ≠ .gone) : False :=
    other (status.symm.trans after.status)
  have client {frame : Frame C} {rest : List (Frame C)} (top : s.stack = frame :: rest) :
      (∃ i, frame = .client i) ∧ ∀ frame ∈ rest, ∃ i, frame = .client i :=
    List.forall_mem_cons.mp (top ▸ after.stack)
  cases step with
  | initFinish absent idle => exact (gone absent nofun).elim
  | receiveMessage running fromC => exact (gone running nofun).elim
  | outOfMemory running fromC => exact (gone running nofun).elim
  | free running quiet idle => exact (gone running nofun).elim
  | callback r exists_ fromC held => exact (exists_.elim (gone · nofun) (gone · nofun)).elim
  | runs quiet top queued => exact absurd (client top).1 nofun
  | idle quiet top empty => exact absurd (client top).1 nofun
  | does quiet top next => exact absurd (client top).1 nofun
  | clientReturns quiet top => exact ⟨after.status, after.misused, (client top).2⟩
  | returns quiet top done => exact ⟨after.status, after.misused, (client top).2⟩
  | catches thrown top caught => exact absurd (client top).1 nofun
  | unwinds thrown top through => exact ⟨after.status, after.misused, (client top).2⟩
  | reports thrown top => exact absurd (client top).1 nofun
  | aborts thrown top => exact absurd (client top).1 nofun
  | fails quiet top waiting => exact absurd (client top).1 nofun
  | destroys quiet top cleared => exact absurd (client top).1 nofun
  | mathFreed dropped once unheld =>
      exact ⟨after.status, after.misused, List.forall_mem_cons.mpr ⟨⟨.math, rfl⟩, after.stack⟩⟩
  | freed quiet top => exact absurd (client top).1 nofun

theorem before_init : Before (State.init : State C R) :=
  ⟨.inl rfl, rfl, fun _ => rfl, rfl, by simp [State.init]⟩

theorem phase_step {e : Event C R} (phase : Before s ∨ During threads s ∨ After s)
    (step : SettledStep threads s e s') : Before s' ∨ During threads s' ∨ After s' := by
  obtain before | during | after := phase
  · exact (before.step step).imp_right .inl
  · exact .inr (during.step step)
  · exact .inr (.inr (after.step step.1))

/-- Whatever the phase, nothing is misused. -/
theorem misused_of_phase (phase : Before s ∨ During threads s ∨ After s) : s.misused = [] := by
  obtain before | during | after := phase
  · exact before.misused
  · exact during.misused
  · exact after.misused

/-- In a run that settles, no interface is called after it was freed. -/
theorem misused_nil {trace : List (Event C R)}
    (run : Run (SettledStep threads) State.init trace s) : s.misused = [] := by
  have phase : Before s ∨ During threads s ∨ After s :=
    run.invariant (I := fun _ s => Before s ∨ During threads s ∨ After s) (.inl before_init)
      fun _ _ _ _ => phase_step
  exact misused_of_phase phase

end SidepoolFormal.Main
