import SidepoolFormal.Idler.Code
import Mathlib.Tactic.ByContra

/-!
# Greenthreads that crash

What a greenthread throws reaches the continuation `fail` of `start`, which
throws it again.  It then meets the try blocks that are open where `fail` was
called, and these give it to `fail` once more, which returns as it has been
called.  So it leaves `now_idle` only from where no try block is open.
-/

namespace SidepoolFormal.Idler

open Library

variable {E a : Type}

/-! ## Code of greenthreads -/

namespace Code

/-- What is thrown by a piece of code itself until it yields or has completed. -/
def thrown : Code E → Option E
  | .ret => none
  | .throw e => some e
  | .attempt body handler => (thrown body).bind fun e => thrown (handler e)
  | .ask .yield _ => none
  | .ask (.start _) k => thrown (k (.ok ()))
  | .ask (.finish _ _) _ => none

/-- Nothing is thrown out of handlers or out of what is queued, and only the
g-th call of `run` is completed. -/
def Tight (g : Nat) : Code E → Prop
  | .ret => True
  | .throw _ => True
  | .attempt body handler => Tight g body ∧ ∀ e, Tight g (handler e) ∧ thrown (handler e) = none
  | .ask .yield k => Tight g (k (.ok ())) ∧ thrown (k (.ok ())) = none
  | .ask (.start _) k => Tight g (k (.ok ()))
  | .ask (.finish g' _) k => g' = g ∧ k (.ok ()) = .ret

end Code

/-- Continuations that throw nothing themselves. -/
def Mute (g : Nat) (code : Code E) : Prop := Code.Tight g code ∧ Code.thrown code = none

theorem mute_attempt {g : Nat} {body : Code E} {handler : E → Code E} (tight : Code.Tight g body)
    (handled : ∀ e, Mute g (handler e)) : Mute g (.attempt body handler) := by
  refine ⟨⟨tight, handled⟩, ?_⟩
  rw [Code.thrown]
  cases Code.thrown body with
  | none => rfl
  | some e => exact (handled e).2

theorem tight_enter {g : Nat} {func : Except E (Io E a)} {pass : a → Code E} {fail : E → Code E}
    (tight : ∀ io, func = .ok io → Code.Tight g (io pass fail)) :
    Code.Tight g (Core.enter func pass fail) := by
  cases func with
  | error e => trivial
  | ok io => exact tight io rfl

/-- A greenthread throws nothing out of its handlers and yields. -/
theorem Built.tight {void : Bool} {io : Io E a} (built : Built void io) {g : Nat}
    {pass : a → Code E} {fail : E → Code E} (passed : ∀ v, Code.Tight g (pass v))
    (quiet : void = true → ∀ v, Code.thrown (pass v) = none) (failed : ∀ e, Mute g (fail e)) :
    Code.Tight g (io pass fail) := by
  induction built generalizing fail with
  | lift v => exact passed v
  | liftVoid => exact passed ()
  | fails void e => exact (failed e).1
  | raises void e => trivial
  | yield => exact ⟨passed (), quiet rfl ()⟩
  | starting n after ih => exact ih passed quiet failed
  | thenVal first second ih ihs =>
      refine ⟨ih ?_ ?_ failed, failed⟩
      · intro v
        exact tight_enter fun io same => ihs v io same passed quiet failed
      · intro absurd
        cases absurd
  | thenVoid first second ih ihs =>
      have next : Mute g _ :=
        mute_attempt (tight_enter fun io same => ihs io same passed quiet failed) failed
      exact ⟨ih (fun _ => next.1) (fun _ _ => next.2) failed, failed⟩
  | catching first handled ih ihh =>
      refine ih passed quiet fun e => ?_
      split
      · exact mute_attempt (tight_enter fun io same => ihh e io same passed quiet failed) failed
      · exact failed e

theorem mute_run {io : Io E Unit} (built : Built true io) (g : Nat) : Mute g (run g io) := by
  have completes (r : Option E) : Mute g (.ask (.finish g r) fun _ => .ret) := ⟨⟨rfl, rfl⟩, rfl⟩
  exact mute_attempt (built.tight (fun _ => (completes none).1) (fun _ _ => rfl)
    fun e => completes (some e)) fun e => completes (some e)

/-! ## Where a greenthread comes to rest -/

/-- A try block of the code, whose handler throws nothing. -/
def Catches (g : Nat) (t : Proc.Try (Op E) (fun _ => Unit) E) : Prop :=
  ∃ handler, t = .code handler ∧ ∀ e, Mute g (handler e)

/-- What a function called by `now_idle` can have come to, if `fail` has not
just thrown. -/
def Calm (g : Nat) : Proc.Stop (Op E) (fun _ => Unit) E → Prop
  | .asks .yield k tries => Mute g (k (.ok ())) ∧ ∀ t ∈ tries, Catches g t
  | .asks (.start _) k tries =>
      Code.Tight g (k (.ok ())) ∧ (tries = [] → Code.thrown (k (.ok ())) = none) ∧
        ∀ t ∈ tries, Catches g t
  | .asks (.finish g' _) k tries => g' = g ∧ k (.ok ()) = .ret ∧ ∀ t ∈ tries, Catches g t
  | .done => True
  | .waits _ _ => False
  | .escaped _ => False

/-- What a piece of code comes to by itself. -/
def Ahead (g : Nat) (p : Code E) : Proc.Head (Op E) (fun _ => Unit) E → Prop
  | .ret => True
  | .throw e => Code.thrown p = some e
  | .asks .yield k tries => Mute g (k (.ok ())) ∧ ∀ t ∈ tries, Catches g t
  | .asks (.start _) k tries =>
      Code.Tight g (k (.ok ())) ∧ (tries = [] → Code.thrown (k (.ok ())) = Code.thrown p) ∧
        ∀ t ∈ tries, Catches g t
  | .asks (.finish g' _) k tries => g' = g ∧ k (.ok ()) = .ret ∧ ∀ t ∈ tries, Catches g t

theorem Ahead.congr {g : Nat} {p q : Code E} (same : Code.thrown p = Code.thrown q)
    {head : Proc.Head (Op E) (fun _ => Unit) E} (ahead : Ahead g p head) : Ahead g q head := by
  rcases head with - | e | ⟨- | n | ⟨g', r⟩, k, tries⟩
  · trivial
  · exact same.symm.trans ahead
  · exact ahead
  · exact ⟨ahead.1, fun nil => (ahead.2.1 nil).trans same, ahead.2.2⟩
  · exact ahead

theorem ahead {g : Nat} {p : Code E} (tight : Code.Tight g p) : Ahead g p p.head := by
  induction p with
  | ret => trivial
  | throw e => rfl
  | attempt body handler ih ihh =>
      obtain ⟨inner, handled⟩ := tight
      have first := ih inner
      have outer : Catches g (.code handler : Proc.Try (Op E) (fun _ => Unit) E) :=
        ⟨handler, rfl, handled⟩
      have all {tries : List (Proc.Try (Op E) (fun _ => Unit) E)}
          (caught : ∀ t ∈ tries, Catches g t) : ∀ t ∈ tries ++ [.code handler], Catches g t :=
        List.forall_mem_append.mpr ⟨caught, List.forall_mem_singleton.mpr outer⟩
      rw [Proc.head]
      rcases rests : body.head with - | e | ⟨op, k, tries⟩
      · trivial
      · rw [rests] at first
        have thrown : Code.thrown body = some e := first
        refine (ihh e (handled e).1).congr ?_
        rw [Code.thrown, thrown, Option.bind_some]
      · rw [rests] at first
        cases op with
        | yield => exact ⟨first.1, all first.2⟩
        | start n => exact ⟨first.1, fun nil => absurd nil (by simp), all first.2.2⟩
        | finish g' r => exact ⟨first.1, first.2.1, all first.2.2⟩
  | ask op k ih =>
      cases op with
      | yield => exact ⟨tight, List.forall_mem_nil _⟩
      | start n => exact ⟨tight, fun _ => rfl, List.forall_mem_nil _⟩
      | finish g' r => exact ⟨tight.1, tight.2, List.forall_mem_nil _⟩

/-- Code that asks for something inside more try blocks. -/
theorem calm_asks {g : Nat} {p : Code E} {op : Op E} {k : Except E Unit → Code E}
    {inner tries : List (Proc.Try (Op E) (fun _ => Unit) E)} (ahead : Ahead g p (.asks op k inner))
    (caught : ∀ t ∈ tries, Catches g t) (quiet : tries = [] → Code.thrown p = none) :
    Calm g (.asks op k (inner ++ tries)) := by
  have all (caught' : ∀ t ∈ inner, Catches g t) : ∀ t ∈ inner ++ tries, Catches g t :=
    List.forall_mem_append.mpr ⟨caught', caught⟩
  cases op with
  | yield => exact ⟨ahead.1, all ahead.2⟩
  | start n =>
      refine ⟨ahead.1, fun nil => ?_, all ahead.2.2⟩
      obtain ⟨none, nil⟩ := List.append_eq_nil_iff.mp nil
      exact (ahead.2.1 none).trans (quiet nil)
  | finish g' r => exact ⟨ahead.1, ahead.2.1, all ahead.2.2⟩

theorem calm_unwind {g : Nat} {tries : List (Proc.Try (Op E) (fun _ => Unit) E)}
    (caught : ∀ t ∈ tries, Catches g t) (some : tries ≠ []) (e : E) :
    Calm g (Proc.unwind tries e) := by
  rcases tries with - | ⟨t, tries⟩
  · exact absurd rfl some
  · obtain ⟨⟨handler, rfl, handled⟩, outer⟩ := List.forall_mem_cons.mp caught
    have next := ahead (handled e).1
    have quiet := (handled e).2
    rw [Proc.unwind_code, Proc.settle]
    rcases rests : (handler e).head with - | e' | ⟨op, k, inner⟩
    · trivial
    · rw [rests] at next
      have thrown : Code.thrown (handler e) = Option.some e' := next
      rw [quiet] at thrown
      cases thrown
    · rw [rests] at next
      exact calm_asks next outer fun _ => quiet

theorem calm_settle {g : Nat} {p : Code E} (tight : Code.Tight g p)
    {tries : List (Proc.Try (Op E) (fun _ => Unit) E)} (caught : ∀ t ∈ tries, Catches g t)
    (quiet : tries = [] → Code.thrown p = none) : Calm g (Proc.settle p tries) := by
  have next := ahead tight
  rw [Proc.settle]
  rcases rests : p.head with - | e | ⟨op, k, inner⟩
  · trivial
  · rw [rests] at next
    have thrown : Code.thrown p = some e := next
    refine calm_unwind caught (fun nil => ?_) e
    rw [quiet nil] at thrown
    cases thrown
  · rw [rests] at next
    exact calm_asks next caught quiet

/-! ## Runs -/

variable {isFreed : E → Bool} {program : Nat → Io E Unit}

/-- What `fail` has just thrown, where no try block was open. -/
def Thrown (isFreed : E → Bool) (trace : List (Label E)) (g : Nat) (first : Bool)
    (stop : Proc.Stop (Op E) (fun _ => Unit) E) : Prop :=
  ∃ e before, stop = .escaped e ∧ isFreed e = false ∧ trace = before ++ [.ended g e !first]

structure Fine (isFreed : E → Bool) (trace : List (Label E)) (s : State E) : Prop where
  queued : ∀ g code, .resume g code ∈ s.toCall → Mute g code
  running : ∀ g first stop, s.control = .running g first stop →
    Calm g stop ∨ Thrown isFreed trace g first stop

/-- The queue and the greenthread that runs are fine; it has not just thrown. -/
theorem Fine.of_calm {trace : List (Label E)} {s : State E}
    (queued : ∀ g code, .resume g code ∈ s.toCall → Mute g code)
    (calm : ∀ g first stop, s.control = .running g first stop → Calm g stop) :
    Fine isFreed trace s := ⟨queued, fun g first stop same => .inl (calm g first stop same)⟩

theorem Fine.calm {trace : List (Label E)} {s : State E} (fine : Fine isFreed trace s) {g : Nat}
    {first : Bool} {op : Op E} {k : Except E Unit → Code E}
    {tries : List (Proc.Try (Op E) (fun _ => Unit) E)}
    (running : s.control = .running g first (.asks op k tries)) : Calm g (.asks op k tries) := by
  rcases fine.running g first _ running with calm | ⟨e, before, absurd, -⟩
  · exact calm
  · cases absurd

/-- A function that `now_idle` goes on with, in calm code. -/
theorem Fine.of_running {trace : List (Label E)} {toCall : List (Job E)} {runs : Nat}
    {completed : List Nat} {g : Nat} {first : Bool} {stop : Proc.Stop (Op E) (fun _ => Unit) E}
    (queued : ∀ g code, .resume g code ∈ toCall → Mute g code) (calm : Calm g stop) :
    Fine isFreed trace ⟨toCall, runs, completed, .running g first stop⟩ := by
  refine .of_calm queued fun g' first' stop' same => ?_
  cases same
  exact calm

theorem calm_finished {g g' : Nat} {r : Option E} {k : Except E Unit → Code E}
    {tries : List (Proc.Try (Op E) (fun _ => Unit) E)}
    (calm : Calm g (.asks (.finish g' r) k tries)) :
    Calm g (Proc.settle (k (.ok ())) tries) := by
  rw [calm.2.1]
  trivial

theorem Fine.step (built : ∀ n, Built true (program n)) {trace : List (Label E)} {s s' : State E}
    {l : Label E} (fine : Fine isFreed trace s) (step : Step isFreed program s l s') :
    Fine isFreed (trace ++ [l]) s' := by
  have queued := fine.queued
  cases step with
  | starts n => exact .of_calm (by simpa using queued) fun _ _ _ absurd => nomatch absurd
  | nowIdle => exact .of_calm queued fun _ _ _ absurd => nomatch absurd
  | returns => exact .of_calm queued fun _ _ _ absurd => nomatch absurd
  | @first n _ runs _ =>
      have mute := mute_run (built n) runs
      refine .of_running (fun g code member => queued g code (.tail _ member)) ?_
      exact calm_settle mute.1 (List.forall_mem_nil _) fun _ => mute.2
  | @resume g code _ _ _ =>
      have mute := queued g code (.head _)
      refine .of_running (fun g code member => queued g code (.tail _ member)) ?_
      exact calm_settle mute.1 (List.forall_mem_nil _) fun _ => mute.2
  | @yield _ _ _ g first k tries =>
      have calm := fine.calm rfl
      refine .of_calm ?_ fun _ _ _ absurd => nomatch absurd
      intro g' code member
      rcases List.mem_append.mp member with before | last
      · exact queued g' code before
      · cases List.mem_singleton.mp last
        exact calm.1
  | start =>
      have calm := fine.calm rfl
      refine .of_running (by simpa using queued) ?_
      exact calm_settle calm.1 calm.2.2 calm.2.1
  | again before => exact .of_running queued (calm_finished (fine.calm rfl))
  | passed firstly => exact .of_running queued (calm_finished (fine.calm rfl))
  | @ended _ _ _ g first g' e k tries firstly =>
      have calm := fine.calm rfl
      rcases freed : isFreed e with - | -
      · rw [rethrow, if_neg (by simp [freed])]
        rcases tries with - | ⟨t, tries⟩
        · refine ⟨queued, fun g'' first' stop same => .inr ?_⟩
          cases same
          exact ⟨e, trace, rfl, freed, by rw [calm.1]; rfl⟩
        · exact .of_running queued (calm_unwind calm.2.2 (List.cons_ne_nil t tries) e)
      · rw [rethrow, if_pos freed]
        exact .of_running queued (calm_finished calm)
  | done => exact .of_calm queued fun _ _ _ absurd => nomatch absurd
  | escaped => exact .of_calm queued fun _ _ _ absurd => nomatch absurd
  | terminated => exact .of_calm queued fun _ _ _ absurd => nomatch absurd

/-! ## What becomes of an exception -/

/-- With what the g-th greenthread ended. -/
def endings (g : Nat) (trace : List (Label E)) : List (E × Bool) :=
  trace.filterMap fun
    | .ended g' e bare => if g' = g then some (e, bare) else none
    | _ => none

/-- What left a call of `now_idle` that was running the g-th greenthread. -/
def escapes (g : Nat) (trace : List (Label E)) : List E :=
  trace.filterMap fun
    | .escaped g' e => if g' = g then some e else none
    | _ => none

theorem mem_endings {g : Nat} {e : E} {bare : Bool} {trace : List (Label E)} :
    (e, bare) ∈ endings g trace ↔ .ended g e bare ∈ trace := by
  rw [endings, List.mem_filterMap]
  constructor
  · rintro ⟨l, member, same⟩
    cases l with
    | ended g' e' bare' =>
        dsimp only at same
        split at same
        · next here =>
            cases same
            exact here ▸ member
        · cases same
    | _ => cases same
  · intro member
    exact ⟨_, member, if_pos rfl⟩

theorem mem_escapes {g : Nat} {e : E} {trace : List (Label E)} :
    e ∈ escapes g trace ↔ .escaped g e ∈ trace := by
  rw [escapes, List.mem_filterMap]
  constructor
  · rintro ⟨l, member, same⟩
    cases l with
    | escaped g' e' =>
        dsimp only at same
        split at same
        · next here =>
            cases same
            exact here ▸ member
        · cases same
    | _ => cases same
  · intro member
    exact ⟨_, member, if_pos rfl⟩

/-- Nothing escapes when a greenthread ends with `Freed`.  Anything else is
rethrown at once out of the call of `now_idle`, and only once. -/
def Reported (isFreed : E → Bool) (trace : List (Label E)) : Prop :=
  ∀ g e bare, .ended g e bare ∈ trace →
    if isFreed e then escapes g trace = []
    else escapes g trace = [e] ∧ [.ended g e bare, .escaped g e] <:+: trace

/-- What is on its way out of `now_idle`. -/
def pending (g : Nat) : Control E → List E
  | .running g' false (.escaped e) => if g' = g then [e] else []
  | _ => []

/-- Where no try block is open, the exception leaves `now_idle`. -/
def due (isFreed : E → Bool) (ending : E × Bool) : Option E :=
  if isFreed ending.1 || !ending.2 then none else some ending.1

structure Counted (isFreed : E → Bool) (trace : List (Label E)) (s : State E) : Prop where
  once : ∀ g, (endings g trace).length ≤ 1
  completed : ∀ g, g ∉ s.completed → endings g trace = []
  escaped : ∀ g, escapes g trace ++ pending g s.control =
    (endings g trace).filterMap (due isFreed)
  adjacent : ∀ g e, .escaped g e ∈ trace → [.ended g e true, .escaped g e] <:+: trace

theorem endings_append (g : Nat) (trace : List (Label E)) (l : Label E) :
    endings g (trace ++ [l]) = endings g trace ++ endings g [l] := List.filterMap_append

theorem escapes_append (g : Nat) (trace : List (Label E)) (l : Label E) :
    escapes g (trace ++ [l]) = escapes g trace ++ escapes g [l] := List.filterMap_append

theorem pending_calm {g g' : Nat} {first : Bool} {stop : Proc.Stop (Op E) (fun _ => Unit) E}
    (calm : Calm g' stop) : pending g (.running g' first stop) = [] := by
  cases stop with
  | escaped e => exact calm.elim
  | asks op k tries => cases first <;> rfl
  | waits op k => cases first <;> rfl
  | done => cases first <;> rfl

/-- A step with which nothing ends and out of which nothing comes. -/
theorem Counted.quiet {trace : List (Label E)} {s s' : State E} {l : Label E}
    (counted : Counted isFreed trace s) (ends : ∀ g, endings g [l] = [])
    (leaves : ∀ g e, l ≠ .escaped g e) (before : ∀ g, pending g s.control = [])
    (after : ∀ g, pending g s'.control = []) (completed : ∀ g ∈ s.completed, g ∈ s'.completed) :
    Counted isFreed (trace ++ [l]) s' := by
  have none (g : Nat) : escapes g [l] = [] := by
    cases l with
    | escaped g' e => exact absurd rfl (leaves g' e)
    | _ => rfl
  constructor
  · intro g
    rw [endings_append, ends, List.append_nil]
    exact counted.once g
  · intro g fresh
    rw [endings_append, ends, List.append_nil]
    exact counted.completed g (mt (completed g) fresh)
  · intro g
    have escaped := counted.escaped g
    rw [before] at escaped
    simp only [endings_append, escapes_append, ends, none, after, List.append_nil] at escaped ⊢
    exact escaped
  · intro g e member
    rcases List.mem_append.mp member with earlier | last
    · exact (counted.adjacent g e earlier).trans (List.prefix_append _ _).isInfix
    · exact absurd (List.mem_singleton.mp last).symm (leaves g e)

theorem pending_asks (g g' : Nat) (first : Bool) (op : Op E) (k : Except E Unit → Code E)
    (tries : List (Proc.Try (Op E) (fun _ => Unit) E)) :
    pending g (.running g' first (.asks op k tries)) = [] := by
  cases first <;> rfl

theorem pending_done (g g' : Nat) (first : Bool) :
    pending g (.running g' first .done : Control E) = [] := by
  cases first <;> rfl

/-- Only when `fail` is called something starts on its way. -/
theorem Fine.pending {trace : List (Label E)} {l : Label E} {s : State E}
    (fine : Fine isFreed (trace ++ [l]) s) (other : ∀ g e bare, l ≠ .ended g e bare) (g : Nat) :
    pending g s.control = [] := by
  rcases running : s.control with - | - | ⟨g', first, stop⟩ | -
  · rfl
  · rfl
  · rcases fine.running g' first stop running with calm | ⟨e, before, -, -, same⟩
    · exact pending_calm calm
    · exact absurd (List.append_inj_right' same rfl) (by simpa using other g' e (!first))
  · rfl

theorem endings_ended (g g' : Nat) (e : E) (bare : Bool) :
    endings g [.ended g' e bare] = if g' = g then [(e, bare)] else [] := by
  by_cases same : g' = g <;> simp [endings, same]

theorem escapes_escaped (g g' : Nat) (e : E) :
    escapes g [.escaped g' e] = if g' = g then [e] else [] := by
  by_cases same : g' = g <;> simp [escapes, same]

/-- What `fail` starts on its way. -/
theorem pending_rethrow {g g' : Nat} {first : Bool} {e : E} {r : Option E}
    {k : Except E Unit → Code E} {tries : List (Proc.Try (Op E) (fun _ => Unit) E)}
    (calm : Calm g' (.asks (.finish g' r) k tries)) :
    pending g (.running g' first (rethrow isFreed e k tries)) =
      (endings g [.ended g' e (tries.isEmpty && !first)]).filterMap (due isFreed) := by
  rw [endings_ended]
  rcases freed : isFreed e with - | -
  · rw [rethrow, if_neg (by simp [freed])]
    rcases tries with - | ⟨t, tries⟩
    · cases first with
      | false => by_cases same : g' = g <;> simp [Idler.pending, due, same, freed]
      | true => by_cases same : g' = g <;> simp [Idler.pending, due, same]
    · rw [pending_calm (calm_unwind calm.2.2 (List.cons_ne_nil t tries) e)]
      by_cases same : g' = g <;> simp [due, same]
  · rw [rethrow, if_pos freed, pending_calm (calm_finished calm)]
    by_cases same : g' = g <;> simp [due, same, freed]

theorem Counted.step {trace : List (Label E)} {s s' : State E} {l : Label E}
    (counted : Counted isFreed trace s) (fine : Fine isFreed trace s)
    (fine' : Fine isFreed (trace ++ [l]) s') (step : Step isFreed program s l s') :
    Counted isFreed (trace ++ [l]) s' := by
  cases step with
  | starts n => exact counted.quiet (fun _ => rfl) nofun (fun _ => rfl) (fun _ => rfl) fun _ => id
  | nowIdle => exact counted.quiet (fun _ => rfl) nofun (fun _ => rfl) (fun _ => rfl) fun _ => id
  | returns => exact counted.quiet (fun _ => rfl) nofun (fun _ => rfl) (fun _ => rfl) fun _ => id
  | first =>
      exact counted.quiet (fun _ => rfl) nofun (fun _ => rfl) (fine'.pending nofun) fun _ => id
  | resume =>
      exact counted.quiet (fun _ => rfl) nofun (fun _ => rfl) (fine'.pending nofun) fun _ => id
  | yield =>
      exact counted.quiet (fun _ => rfl) nofun (fun _ => pending_asks ..) (fun _ => rfl) fun _ => id
  | start =>
      exact counted.quiet (fun _ => rfl) nofun (fun _ => pending_asks ..) (fine'.pending nofun)
        fun _ => id
  | again before =>
      exact counted.quiet (fun _ => rfl) nofun (fun _ => pending_asks ..) (fine'.pending nofun)
        fun _ => id
  | passed firstly =>
      exact counted.quiet (fun _ => rfl) nofun (fun _ => pending_asks ..) (fine'.pending nofun)
        fun _ => List.mem_cons_of_mem _
  | done =>
      exact counted.quiet (fun _ => rfl) nofun (fun _ => pending_done ..) (fun _ => rfl) fun _ => id
  | terminated => exact counted.quiet (fun _ => rfl) nofun (fun _ => rfl) (fun _ => rfl) fun _ => id
  | @ended _ _ completed g first g' e k tries firstly =>
      have calm := fine.calm rfl
      obtain rfl : g' = g := calm.1
      constructor
      · intro g
        rw [endings_append, endings_ended]
        split
        · next same =>
            rw [← same, counted.completed g' firstly]
            exact Nat.le_refl 1
        · rw [List.append_nil]
          exact counted.once g
      · intro g fresh
        obtain ⟨other, before⟩ := not_or.mp (mt List.mem_cons.mpr fresh)
        rw [endings_append, endings_ended, if_neg (Ne.symm other), List.append_nil]
        exact counted.completed g before
      · intro g
        have escaped := counted.escaped g
        rw [pending_asks, List.append_nil] at escaped
        rw [endings_append, escapes_append, List.filterMap_append, pending_rethrow calm, ← escaped]
        exact congrArg (· ++ _) (List.append_nil _)
      · intro g e' member
        have earlier : .escaped g e' ∈ trace := by simpa using member
        exact (counted.adjacent g e' earlier).trans (List.prefix_append _ _).isInfix
  | @escaped _ _ _ g e =>
      obtain ⟨e', before, same, freed, thrown⟩ : Thrown isFreed trace g false (.escaped e) :=
        (fine.running g false _ rfl).resolve_left id
      cases same
      have none (g' : Nat) : endings g' (trace ++ [.escaped g e]) = endings g' trace :=
        (endings_append g' trace _).trans (List.append_nil _)
      constructor
      · intro g'
        rw [none]
        exact counted.once g'
      · intro g' fresh
        rw [none]
        exact counted.completed g' fresh
      · intro g'
        rw [none, escapes_append, escapes_escaped, ← counted.escaped g']
        exact List.append_nil _
      · intro g' e' member
        rcases List.mem_append.mp member with earlier | last
        · exact (counted.adjacent g' e' earlier).trans (List.prefix_append _ _).isInfix
        · cases List.mem_singleton.mp last
          rw [thrown, List.append_assoc]
          exact (List.suffix_append before _).isInfix

theorem run_counted (built : ∀ n, Built true (program n)) {trace : List (Label E)} {s : State E}
    (run : Run (Step isFreed program) initial trace s) :
    Fine isFreed trace s ∧ Counted isFreed trace s := by
  refine run.invariant (I := fun trace s => Fine isFreed trace s ∧ Counted isFreed trace s) ?_ ?_
  · constructor
    · exact .of_calm (fun _ _ member => nomatch member) fun _ _ _ absurd => nomatch absurd
    · exact ⟨fun _ => Nat.zero_le 1, fun _ _ => rfl, fun _ => rfl, fun _ _ member => nomatch member⟩
  · rintro trace s l s' ⟨fine, counted⟩ step
    have fine' := fine.step built step
    exact ⟨fine', counted.step fine fine' step⟩

/-- Whenever no function called by `now_idle` is running: every crash has been
reported exactly when, in each, `fail` was called with a `Freed` or where no try
block was open and no `run` below. -/
theorem reported_iff (built : ∀ n, Built true (program n)) {trace : List (Label E)} {s : State E}
    (run : Run (Step isFreed program) initial trace s)
    (rest : ∀ g first stop, s.control ≠ .running g first stop) :
    Reported isFreed trace ↔ ∀ g e, .ended g e false ∈ trace → isFreed e = true := by
  have counted := (run_counted built run).2
  have still (g : Nat) : pending g s.control = [] := by
    rcases control : s.control with - | - | ⟨g', first, stop⟩ | -
    · rfl
    · rfl
    · exact absurd control (rest g' first stop)
    · rfl
  have only {g : Nat} {e : E} {bare : Bool} (ended : .ended g e bare ∈ trace) :
      escapes g trace = [(e, bare)].filterMap (due isFreed) := by
    have member := mem_endings.mpr ended
    have one := counted.once g
    have escaped := counted.escaped g
    rw [still, List.append_nil] at escaped
    rw [escaped]
    rcases list : endings g trace with - | ⟨first, - | ⟨second, rest⟩⟩
    · simp [list] at member
    · rw [list, List.mem_singleton] at member
      rw [member]
    · simp [list] at one
  constructor
  · intro reported g e ended
    by_contra other
    have gone := (reported g e false ended)
    rw [if_neg other] at gone
    have none := only ended
    rw [gone.1] at none
    simp [due] at none
  · intro bare g e b ended
    have gone := only ended
    split
    · next freed =>
        rw [gone]
        simp [due, freed]
    · next other =>
        have through : b = true := by
          by_contra shut
          rw [Bool.not_eq_true] at shut
          exact other (bare g e (shut ▸ ended))
        have one : escapes g trace = [e] := by
          rw [gone]
          simp [due, other, through]
        have left : .escaped g e ∈ trace := mem_escapes.mp (one ▸ List.mem_singleton_self e)
        exact ⟨one, through ▸ counted.adjacent g e left⟩

/-! ## Two greenthreads -/

def isZero (e : Nat) : Bool := e == 0

/-- A continuation that throws. -/
def crashes : Io Nat Unit := Core.thenVoid (Core.lift ()) (.error 1)

/-- One that throws right after a yield. -/
def yieldsAndCrashes : Io Nat Unit := Core.thenVoid yield (.error 1)

/-- One that throws deeper, after a yield. -/
def yieldsAndCrashesDeeper : Io Nat Unit := Core.thenVoid yield (.ok crashes)

/-- A greenthread is started, and `now_idle` calls its first function. -/
theorem first_run (io : Io Nat Unit) :
    Run (Step isZero fun _ => io) initial [.starts 0, .nowIdle, .calls]
      ⟨[], 1, [], .running 0 true (Proc.settle (run 0 io) [])⟩ :=
  ((Run.nil.snoc (.starts 0)).snoc .nowIdle).snoc .first

/-- The exception of a greenthread is swallowed, in its first function or after
a yield, when it meets an open try block. -/
theorem crash_swallowed :
    (∃ trace s, Run (Step isZero fun _ => crashes) initial trace s ∧ s.control = .outside ∧
      .ended 0 1 false ∈ trace ∧ escapes 0 trace = []) ∧
    ∃ trace s, Run (Step isZero fun _ => yieldsAndCrashesDeeper) initial trace s ∧
      s.control = .outside ∧ .ended 0 1 false ∈ trace ∧ escapes 0 trace = [] := by
  constructor
  · have swallowed := ((first_run crashes).snoc (.ended (by simp))).snoc (.again (by simp))
    exact ⟨_, _, (swallowed.snoc .done).snoc .returns, rfl, by simp, rfl⟩
  · have resumed := ((first_run yieldsAndCrashesDeeper).snoc .yield).snoc .resume
    have swallowed := (resumed.snoc (.ended (by simp))).snoc (.again (by simp))
    exact ⟨_, _, (swallowed.snoc .done).snoc .returns, rfl, by simp, rfl⟩

/-- Thrown by the continuation of the yield itself, it leaves `now_idle`. -/
theorem crash_reported :
    ∃ trace s, Run (Step isZero fun _ => yieldsAndCrashes) initial trace s ∧
      .ended 0 1 true ∈ trace ∧ Reported isZero trace := by
  have resumed := ((first_run yieldsAndCrashes).snoc .yield).snoc .resume
  have left := (resumed.snoc (.ended (by simp))).snoc .escaped
  have built (_ : Nat) : Built true yieldsAndCrashes :=
    .thenVoid .yield fun _ absurd => nomatch absurd
  refine ⟨_, _, left, by simp, (reported_iff built left ?_).mpr ?_⟩
  · intro g first stop absurd
    cases absurd
  · intro g e ended
    simp at ended

end SidepoolFormal.Idler
