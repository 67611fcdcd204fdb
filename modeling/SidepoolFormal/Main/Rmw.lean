import SidepoolFormal.Main.Free
import SidepoolFormal.Main.Idle
import SidepoolFormal.Saver.Code

/-!
# Calls of the saver as greenthreads

A call of `rmw` or `crud` in the process: what it asks of the idler is queued,
what it asks of the saver is a request with a callback, and a user function
answers at once.  Such a call ends when the saver reports `ECANCELED`, so it
outlives the saver only by being queued.
-/

namespace SidepoolFormal.Main

open Library Saver

variable {V A : Type}

/-- What the saver's callbacks are given. -/
inductive Answer (V : Type) where
  | generation (generation : Nat)
  | entry (generation : Nat) (value : V)
  | deleted
  | failed (e : Exn)

/-- The answer to an operation; a saver does not answer a different one. -/
def Answer.to : Answer V → (op : Op V A) → Except Exn op.Ans
  | .failed e, _ => .error e
  | .generation g, .create _ => .ok g
  | .generation g, .update _ _ => .ok g
  | .entry g v, .read => .ok (g, v)
  | .deleted, .del _ => .ok ()
  | _, _ => .error .ioError

/-- Whether an operation is one of the saver's. -/
def OfSaver : Op V A → Prop
  | .create _ => True
  | .read => True
  | .update _ _ => True
  | .del _ => True
  | _ => False

/-- A call that is being made, or code that has nothing left to do. -/
inductive Call (V A : Type) where
  | making (t : Saver.Io V A A)
  | ended

inductive Call.Next (program : Saver.Io V A A) (func : A → A) :
    Call V A → Act (Call V A) (Answer V) → Prop
  | ended : Next program func .ended .returns
  | passes (a : A) : Next program func (.making (.done (.ok a))) .returns
  | freed : Next program func (.making (.done (.error .freed))) .returns
  | fails {e : Exn} (other : e ≠ .freed) : Next program func (.making (.done (.error e))) .throws
  | yields (k : Except Exn Unit → Saver.Io V A A) :
      Next program func (.making (.ask .yield k)) (.enqueue (.making (k (.ok ()))) .ended)
  | requests (op : Op V A) (ofSaver : OfSaver op) (k : Except Exn op.Ans → Saver.Io V A A) :
      Next program func (.making (.ask op k))
        (.request .saver (fun r => .making (k (r.to op))) .ended)
  | applies {a : A} {k : Except Exn A → Saver.Io V A A} {act : Act (Call V A) (Answer V)}
      (next : Next program func (.making (k (.ok (func a)))) act) :
      Next program func (.making (.ask (.func a) k)) act
  | again {k : Except Exn A → Saver.Io V A A} {act : Act (Call V A) (Answer V)}
      (next : Next program func (.making (program.continue_ k)) act) :
      Next program func (.making (.ask .again k)) act

theorem Call.Next.act {program : Saver.Io V A A} {func : A → A} {c : Call V A}
    {act : Act (Call V A) (Answer V)} (next : Call.Next program func c act) :
    act = .returns ∨ act = .throws ∨ (∃ f, act = .enqueue f .ended) ∨
      ∃ callback, act = .request .saver callback .ended := by
  induction next with
  | ended => exact .inl rfl
  | passes a => exact .inl rfl
  | freed => exact .inl rfl
  | fails other => exact .inr (.inl rfl)
  | yields k => exact .inr (.inr (.inl ⟨_, rfl⟩))
  | requests op ofSaver k => exact .inr (.inr (.inr ⟨_, rfl⟩))
  | applies next ih => exact ih
  | again next ih => exact ih

/-- One greenthread that makes a call. -/
def callThreads (program : Saver.Io V A A) (func : A → A) : Threads (Call V A) (Answer V) where
  started := .making program
  next := Call.Next program func
  catches _ _ := False
  holds _ := False
  calls_math next := by simpa using next.act
  requests_math next := by simpa using next.act
  leaves_holds _ _ holds := holds.elim
  catches_holds caught := caught.elim

/-! ## What a call does with `Freed` -/

theorem rmw_endsOn_freed : (rmw : Saver.Io V V V).EndsOn .freed := by
  have reads : (yield.andThen fun _ => read : Saver.Io V V (Nat × V)).EndsOn .freed :=
    (Task.endsOn_request _ _).andThen fun _ => Task.endsOn_request _ _
  have writes (g : Nat) (v : V) : (Rmw.write g v).EndsOn .freed :=
    (Task.endsOn_request_lift _ _ _).catching rfl fun _ => Task.endsOn_lift _ _
  have modifies (entry : Nat × V) : (Rmw.modify entry).EndsOn .freed :=
    (Task.endsOn_request _ _).andThen fun v => writes entry.1 v
  apply (reads.andThen modifies).andThen
  intro result
  cases result with
  | none => exact Task.endsOn_request _ _
  | some v => exact Task.endsOn_lift _ _

theorem tryRead_endsOn_freed : (tryRead : Saver.Io V A (Option (Nat × V))).EndsOn .freed :=
  (Task.endsOn_request_lift _ _ _).catching rfl fun _ => Task.endsOn_lift _ _

theorem crud_write_endsOn_freed (seen : Option (Nat × V)) (n : Option V) :
    (Crud.write seen n).EndsOn .freed := by
  rcases seen with - | ⟨g, v⟩
  · cases n with
    | none => exact Task.endsOn_lift _ _
    | some w =>
        exact (Task.endsOn_request_lift _ _ _).catching rfl fun _ => Task.endsOn_lift _ _
  · cases n with
    | none =>
        exact ((Task.endsOn_request_lift _ _ _).catching rfl
          fun _ => Task.endsOn_lift _ _).catching rfl fun _ => Task.endsOn_lift _ _
    | some w =>
        exact ((Task.endsOn_request_lift _ _ _).catching rfl
          fun _ => Task.endsOn_lift _ _).catching rfl fun _ => Task.endsOn_lift _ _

theorem crud_endsOn_freed : (crud : Saver.Io V (Option V) (Option V)).EndsOn .freed := by
  have reads : (yield.andThen fun _ => tryRead : Saver.Io V (Option V) (Option (Nat × V))).EndsOn
      .freed := (Task.endsOn_request _ _).andThen fun _ => tryRead_endsOn_freed
  have modifies (seen : Option (Nat × V)) : (Crud.modify seen).EndsOn .freed :=
    (Task.endsOn_request _ _).andThen fun n => crud_write_endsOn_freed seen n
  apply (reads.andThen modifies).andThen
  intro result
  cases result with
  | none => exact Task.endsOn_request _ _
  | some n => exact Task.endsOn_lift _ _

/-! ## Freeing an idle library -/

variable {program : Saver.Io V A A} {func : A → A} {s s' : State (Call V A) (Answer V)}

/-- A call that ends on `Freed`. -/
def Call.Quits : Call V A → Prop
  | .making t => t.EndsOn .freed
  | .ended => True

/-- A callback whose call ends when the saver reports `ECANCELED`. -/
def Cancellable (callback : Answer V → Call V A) : Prop :=
  callback (.failed .freed) = .making (.done (.error .freed)) ∧ ∀ r, (callback r).Quits

theorem Call.Next.quits {c : Call V A} {act : Act (Call V A) (Answer V)}
    (next : Call.Next program func c act) (ends : program.EndsOn .freed) (quits : c.Quits) :
    act = .returns ∨ act = .throws ∨ (∃ f, act = .enqueue f .ended ∧ f.Quits) ∨
      ∃ callback, act = .request .saver callback .ended ∧ Cancellable callback := by
  induction next with
  | ended => exact .inl rfl
  | passes a => exact .inl rfl
  | freed => exact .inl rfl
  | fails other => exact .inr (.inl rfl)
  | yields k => exact .inr (.inr (.inl ⟨_, rfl, quits.2 (.ok ())⟩))
  | requests op ofSaver k =>
      exact .inr (.inr (.inr ⟨_, rfl, congrArg Call.making quits.1, fun r => quits.2 (r.to op)⟩))
  | applies next ih => exact ih (quits.2 _)
  | again next ih => exact ih (Task.EndsOn.continue_ ends quits.1 quits.2)

/-- Every call in the process ends on `Freed`. -/
structure Quitting (s : State (Call V A) (Answer V)) : Prop where
  toCall : ∀ f ∈ s.toCall, f.Quits
  waiters : s.waiters = []
  pending : ∀ callback ∈ s.pending, Cancellable callback
  stack : ∀ c, .code c ∈ s.stack → c.Quits

theorem Quitting.pop {frame : Frame (Call V A)} {rest : List (Frame (Call V A))}
    (quitting : Quitting s) (top : s.stack = frame :: rest) (c : Call V A)
    (member : .code c ∈ rest) : c.Quits :=
  quitting.stack c (top ▸ List.mem_cons_of_mem frame member)

theorem Quitting.act {c : Call V A} {act : Act (Call V A) (Answer V)}
    {rest : List (Frame (Call V A))} (quitting : Quitting s) (ends : program.EndsOn .freed)
    (top : s.stack = .code c :: rest) (next : Call.Next program func c act) :
    Quitting (s.act rest act) := by
  have quits : c.Quits := quitting.stack c (top ▸ List.mem_cons_self)
  have below := quitting.pop top
  have pushed (d : Call V A) (member : .code d ∈ .code Call.ended :: rest) : d.Quits := by
    obtain rfl | old := mem_code.mp member
    · trivial
    · exact below d old
  obtain rfl | rfl | ⟨f, rfl, new⟩ | ⟨callback, rfl, new⟩ := next.quits ends quits
  · exact ⟨quitting.toCall, quitting.waiters, quitting.pending, below⟩
  · exact ⟨quitting.toCall, quitting.waiters, quitting.pending, below⟩
  · refine ⟨?_, quitting.waiters, quitting.pending, pushed⟩
    intro g member
    obtain old | same := List.mem_append.mp member
    · exact quitting.toCall g old
    · exact List.mem_singleton.mp same ▸ new
  · refine ⟨quitting.toCall, quitting.waiters, ?_, fun d member => pushed d (mem_client member)⟩
    intro given member
    obtain old | same := List.mem_append.mp member
    · exact quitting.pending given old
    · exact List.mem_singleton.mp same ▸ new

theorem Quitting.step {e : Event (Call V A) (Answer V)} (quitting : Quitting s)
    (ends : program.EndsOn .freed) (step : Step (callThreads program func) s e s') :
    Quitting s' := by
  obtain ⟨toCall, waiters, pending, stack⟩ := quitting
  have quitting : Quitting s := ⟨toCall, waiters, pending, stack⟩
  cases step with
  | initFinish absent idle =>
      refine ⟨?_, waiters, pending, by simp⟩
      intro f member
      obtain old | same := List.mem_append.mp member
      · exact toCall f old
      · exact List.mem_singleton.mp same ▸ ends
  | receiveMessage running fromC => exact ⟨toCall, waiters, pending, by simpa using stack⟩
  | outOfMemory running fromC => exact ⟨toCall, waiters, pending, by simpa using stack⟩
  | @callback before after callback r exists_ fromC held =>
      have given : Cancellable callback := pending callback (held ▸ List.mem_append_cons_self)
      have kept : before ++ after ⊆ before ++ callback :: after :=
        ((List.Sublist.refl before).append (List.sublist_cons_self callback after)).subset
      refine ⟨toCall, waiters, ?_, ?_⟩
      · intro other member
        apply pending other
        rw [held]
        exact kept member
      · intro c member
        obtain rfl | old := mem_code.mp member
        · exact given.2 r
        · exact stack c old
  | free running quiet idle => exact ⟨toCall, waiters, pending, by simp⟩
  | @runs f queue rest quiet top queued =>
      rw [queued] at toCall
      refine ⟨fun g member => toCall g (List.mem_cons_of_mem f member), waiters, pending, ?_⟩
      intro c member
      obtain rfl | old := mem_code.mp member
      · exact toCall c List.mem_cons_self
      · exact stack c (top ▸ old)
  | idle quiet top empty => exact ⟨toCall, waiters, pending, quitting.pop top⟩
  | does quiet top next => exact quitting.act ends top next
  | clientReturns quiet top => exact ⟨toCall, waiters, pending, quitting.pop top⟩
  | returns quiet top done => exact ⟨toCall, waiters, pending, quitting.pop top⟩
  | catches thrown top caught => exact caught.elim
  | unwinds thrown top through => exact ⟨toCall, waiters, pending, quitting.pop top⟩
  | reports thrown top =>
      exact ⟨toCall, waiters, pending, fun c member => stack c (mem_client member)⟩
  | aborts thrown top => exact ⟨toCall, waiters, pending, by simp⟩
  | fails quiet top waiting =>
      rw [waiters] at waiting
      cases waiting
  | @destroys m members rest quiet top cleared =>
      have left (c : Call V A)
          (member : .code c ∈ (s.destroy (.destroy members :: rest) m).stack) : c.Quits :=
        quitting.pop top c (code_destroy member)
      cases m <;> exact ⟨toCall, waiters, pending, left⟩
  | mathFreed dropped once unheld =>
      exact ⟨toCall, waiters, pending, fun c member => stack c (mem_client member)⟩
  | freed quiet top => exact ⟨toCall, waiters, pending, quitting.pop top⟩

/-- A call that is told that the saver was freed ends. -/
theorem freed_meek (program : Saver.Io V A A) (func : A → A) (freed : Interface → Bool) :
    (callThreads program func).Meek freed (.making (.done (.error .freed))) := by
  refine ⟨fun c => c = .making (.done (.error .freed)), rfl, ?_, fun d e _ caught => caught.elim⟩
  rintro d act rfl next
  cases next with
  | freed => trivial
  | fails other => exact absurd rfl other

/-- While the main object is destroyed, the saver fails what is pending with
`ECANCELED`. -/
def State.Cancels (s : State (Call V A) (Answer V)) : Event (Call V A) (Answer V) → Prop
  | .callback c => s.status = .freeing → ∃ callback ∈ s.pending, c = callback (.failed .freed)
  | _ => True

def CancellingStep (threads : Threads (Call V A) (Answer V)) (s : State (Call V A) (Answer V))
    (e : Event (Call V A) (Answer V)) (s' : State (Call V A) (Answer V)) : Prop :=
  DrainedStep threads s e s' ∧ s.Cancels e

theorem Quitting.settled {e : Event (Call V A) (Answer V)} (quitting : Quitting s)
    (served : s.Served) (step : CancellingStep (callThreads program func) s e s') :
    s.Settled (callThreads program func) e := by
  obtain ⟨⟨step, -⟩, cancels⟩ := step
  cases step with
  | free running quiet idle =>
      have empty : s.toCall = [] := by
        rw [State.Served, idle] at served
        exact served.resolve_right draining_nil
      intro f member
      rw [empty] at member
      cases member
  | aborts thrown top =>
      have empty : s.toCall = [] := by
        rw [State.Served, top] at served
        exact (State.Served.pop served id).resolve_right draining_nil
      intro f member
      rw [empty] at member
      cases member
  | callback r exists_ fromC held =>
      intro freeing
      obtain ⟨callback, member, same⟩ := cancels freeing
      rw [same, (quitting.pending callback member).1]
      exact freed_meek program func s.freed
  | fails quiet top waiting =>
      rw [quitting.waiters] at waiting
      cases waiting
  | _ => trivial

/-- If only the entry points drained the idler, a process whose greenthread
calls the saver could be freed at any moment. -/
theorem drained_unmisused (ends : program.EndsOn .freed)
    {trace : List (Event (Call V A) (Answer V))}
    (run : Run (CancellingStep (callThreads program func)) State.init trace s) :
    s.misused = [] := by
  have all : Quitting s ∧ s.Served ∧
      (Before s ∨ During (callThreads program func) s ∨ After s) := by
    refine run.invariant (I := fun _ s => Quitting s ∧ s.Served ∧
      (Before s ∨ During (callThreads program func) s ∨ After s)) ?_ ?_
    · refine ⟨⟨nofun, rfl, nofun, nofun⟩, .inl rfl, .inl before_init⟩
    · rintro trace s e s' ⟨quitting, served, phase⟩ step
      have settled := quitting.settled served step
      exact ⟨quitting.step ends step.1.1, served.step step.1, phase_step phase ⟨step.1.1, settled⟩⟩
  exact misused_of_phase all.2.2

theorem rmw_unmisused {func : V → V} {s : State (Call V V) (Answer V)}
    {trace : List (Event (Call V V) (Answer V))}
    (run : Run (CancellingStep (callThreads rmw func)) State.init trace s) : s.misused = [] :=
  drained_unmisused rmw_endsOn_freed run

theorem crud_unmisused {func : Option V → Option V} {s : State (Call V (Option V)) (Answer V)}
    {trace : List (Event (Call V (Option V)) (Answer V))}
    (run : Run (CancellingStep (callThreads crud func)) State.init trace s) : s.misused = [] :=
  drained_unmisused crud_endsOn_freed run

/-! ## A conflict that is reported later -/

def counter : Threads (Call Nat Nat) (Answer Nat) := callThreads rmw (· + 1)

/-- Control is with the client, and one function is queued. -/
def parked (f : Call Nat Nat) : State (Call Nat Nat) (Answer Nat) where
  status := .running
  toCall := [f]
  waiters := []
  pending := []
  shared := true
  freed := fun _ => false
  misused := []
  throwing := false
  stack := []

/-- The read and the update complete from the event loop, the update with a
conflict, and the call is queued to be made again. -/
theorem parked_run :
    ∃ trace f, Run (Step counter) State.init trace (parked f) ∧
      ∃ callback, counter.next f (.request .saver callback .ended) := by
  have run : Run (Step counter) State.init _ _ := Run.nil.snoc (.initFinish rfl rfl)
  have run := run.snoc (.runs rfl rfl rfl)
  have run := run.snoc (.does rfl rfl (.yields _))
  have run := run.snoc (.does rfl rfl .ended)
  have run := run.snoc (.runs rfl rfl rfl)
  have run := run.snoc (.does rfl rfl (.requests .read trivial _))
  have run := run.snoc (.clientReturns rfl rfl)
  have run := run.snoc (.does rfl rfl .ended)
  have run := run.snoc (.idle rfl rfl rfl)
  have run := run.snoc (.returns rfl rfl (.inl rfl))
  have run := run.snoc (.callback (.entry 0 10) (.inl rfl) ⟨rfl, .inl rfl⟩ (List.nil_append _).symm)
  have run := run.snoc (.does rfl rfl (.applies (.requests (.update 0 11) trivial _)))
  have run := run.snoc (.clientReturns rfl rfl)
  have run := run.snoc (.does rfl rfl .ended)
  have run := run.snoc
    (.callback (.failed .wrongGeneration) (.inl rfl) ⟨rfl, .inl rfl⟩ (List.nil_append _).symm)
  have run := run.snoc (.does rfl rfl (.again (.yields _)))
  have run := run.snoc (.does rfl rfl .ended)
  exact ⟨_, _, run, _, .requests .read trivial _⟩

/-- Control is back in the event loop, and the retry is still queued. -/
theorem queued_when_returned :
    ∃ trace s, Run (Step counter) State.init trace s ∧ s.status = .running ∧ s.throwing = false ∧
      s.stack = [] ∧ s.toCall ≠ [] := by
  obtain ⟨trace, f, run, -⟩ := parked_run
  exact ⟨trace, parked f, run, rfl, rfl, rfl, List.cons_ne_nil f []⟩

/-- When the library is freed now, the idler's destructor makes the retry, which
reads from the saver that has been freed. -/
theorem saver_misused :
    ∃ trace s, Run (Step counter) State.init trace s ∧ s.misused = [.saver] := by
  obtain ⟨trace, f, run, callback, reads⟩ := parked_run
  have run := run.snoc (.free rfl rfl rfl)
  have run := run.snoc (.destroys rfl rfl nofun)
  have run := run.snoc (.destroys rfl rfl nofun)
  have run := run.snoc (.mathFreed rfl rfl fun ⟨_, _, holds⟩ => holds)
  have run := run.snoc (.clientReturns rfl rfl)
  have run := run.snoc (.destroys rfl rfl nofun)
  have run := run.snoc (.clientReturns rfl rfl)
  have run := run.snoc (.destroys rfl rfl fun _ => rfl)
  have run := run.snoc (.clientReturns rfl rfl)
  have run := run.snoc (.destroys rfl rfl nofun)
  have run := run.snoc (.destroys rfl rfl nofun)
  have run := run.snoc (.clientReturns rfl rfl)
  have run := run.snoc (.destroys rfl rfl nofun)
  have run := run.snoc (.runs rfl rfl rfl)
  have run := run.snoc (.does rfl rfl reads)
  exact ⟨_, _, run, rfl⟩

/-! ## Runs that meet the conditions -/

/-- A conflict that the saver reports before its function returns is followed by
the retry, and nothing is queued when control is back. -/
theorem retried_when_returned :
    ∃ trace s, Run (DrainedStep counter) State.init trace s ∧ s.stack = [] ∧ s.toCall = [] := by
  have run : Run (DrainedStep counter) State.init _ _ := Run.nil.snoc ⟨.initFinish rfl rfl, trivial⟩
  have run := run.snoc ⟨.runs rfl rfl rfl, trivial⟩
  have run := run.snoc ⟨.does rfl rfl (.yields _), .nowIdle, by simp, trivial⟩
  have run := run.snoc ⟨.does rfl rfl .ended, trivial⟩
  have run := run.snoc ⟨.runs rfl rfl rfl, trivial⟩
  have run := run.snoc ⟨.does rfl rfl (.requests .read trivial _), trivial⟩
  have run := run.snoc
    ⟨.callback (.entry 0 10) (.inl rfl) ⟨rfl, .inr ⟨_, _, rfl⟩⟩ (List.nil_append _).symm, trivial⟩
  have run := run.snoc ⟨.does rfl rfl (.applies (.requests (.update 0 11) trivial _)), trivial⟩
  have run := run.snoc
    ⟨.callback (.failed .wrongGeneration) (.inl rfl) ⟨rfl, .inr ⟨_, _, rfl⟩⟩
      (List.nil_append _).symm, trivial⟩
  have run := run.snoc
    ⟨.does rfl rfl (.again (.yields _)), .nowIdle, by simp [State.act, State.call], trivial⟩
  have run := run.snoc ⟨.does rfl rfl .ended, trivial⟩
  have run := run.snoc ⟨.clientReturns rfl rfl, trivial⟩
  have run := run.snoc ⟨.does rfl rfl .ended, trivial⟩
  have run := run.snoc ⟨.clientReturns rfl rfl, trivial⟩
  have run := run.snoc ⟨.does rfl rfl .ended, trivial⟩
  have run := run.snoc ⟨.runs rfl rfl rfl, trivial⟩
  have run := run.snoc ⟨.does rfl rfl (.requests .read trivial _), trivial⟩
  have run := run.snoc ⟨.clientReturns rfl rfl, trivial⟩
  have run := run.snoc ⟨.does rfl rfl .ended, trivial⟩
  have run := run.snoc ⟨.idle rfl rfl rfl, trivial⟩
  have run := run.snoc ⟨.returns rfl rfl (.inl rfl), trivial⟩
  exact ⟨_, _, run, rfl, idle_when_returned run rfl⟩

/-- The library is freed while a read is pending: the call is told so, and the
idler's destructor finds nothing to run. -/
theorem freed_while_reading :
    ∃ trace s, Run (SettledStep counter) State.init trace s ∧ s.status = .gone ∧
      s.misused = [] := by
  have run : Run (SettledStep counter) State.init _ _ := Run.nil.snoc ⟨.initFinish rfl rfl, trivial⟩
  have run := run.snoc ⟨.runs rfl rfl rfl, trivial⟩
  have run := run.snoc ⟨.does rfl rfl (.yields _), trivial⟩
  have run := run.snoc ⟨.does rfl rfl .ended, trivial⟩
  have run := run.snoc ⟨.runs rfl rfl rfl, trivial⟩
  have run := run.snoc ⟨.does rfl rfl (.requests .read trivial _), trivial⟩
  have run := run.snoc ⟨.clientReturns rfl rfl, trivial⟩
  have run := run.snoc ⟨.does rfl rfl .ended, trivial⟩
  have run := run.snoc ⟨.idle rfl rfl rfl, trivial⟩
  have run := run.snoc ⟨.returns rfl rfl (.inl rfl), trivial⟩
  have run := run.snoc ⟨.free rfl rfl rfl, nofun⟩
  have run := run.snoc ⟨.destroys rfl rfl nofun, trivial⟩
  have run := run.snoc ⟨.destroys rfl rfl nofun, trivial⟩
  have run := run.snoc ⟨.destroys rfl rfl nofun, trivial⟩
  have run := run.snoc
    ⟨.callback (.failed .freed) (.inr rfl) ⟨rfl, .inr ⟨_, _, rfl⟩⟩ (List.nil_append _).symm,
      fun _ => freed_meek rmw (· + 1) _⟩
  have run := run.snoc ⟨.does rfl rfl .freed, trivial⟩
  have run := run.snoc ⟨.clientReturns rfl rfl, trivial⟩
  have run := run.snoc ⟨.destroys rfl rfl fun _ => rfl, trivial⟩
  have run := run.snoc ⟨.clientReturns rfl rfl, trivial⟩
  have run := run.snoc ⟨.destroys rfl rfl nofun, trivial⟩
  have run := run.snoc ⟨.destroys rfl rfl nofun, trivial⟩
  have run := run.snoc ⟨.clientReturns rfl rfl, trivial⟩
  have run := run.snoc ⟨.destroys rfl rfl nofun, trivial⟩
  have run := run.snoc ⟨.idle rfl rfl rfl, trivial⟩
  have run := run.snoc ⟨.freed rfl rfl, trivial⟩
  exact ⟨_, _, run, rfl, misused_nil run⟩

end SidepoolFormal.Main
