import SidepoolFormal.Saver.Once

/-!
# Calls that run side by side

Calls of `rmw`, or of `crud`, on one entry, each as it runs (`Saver.Thread`), with
the try blocks that are open and with callers that may throw.  The saver performs
an operation inside its core, or at a moment of its own choice before it calls back.
-/

namespace SidepoolFormal.Saver.Threads

open Library

variable {ι V A : Type}

/-! ## One call -/

/-- Where a call stands, what the saver has performed for it without having called
back yet, and what its caller was first told. -/
structure Lane (V A : Type) where
  stop : Stop V A
  performed : Option (Σ o : Op V A, Except Exn o.Ans)
  told : Option (Except Exn A)

/-- The caller's `pass` or `fail` is called. -/
def tells : Stop V A → Option (Except Exn A)
  | .asks (.passed v) _ _ => some (.ok v)
  | .asks (.failed e) _ _ => some (.error e)
  | _ => none

namespace Lane

def next (c : Lane V A) (stop : Stop V A) : Lane V A := ⟨stop, none, c.told.or (tells stop)⟩

/-- What a step of the call does to the entry.  What the saver calls back with is
what it has performed. -/
def Touches (c : Lane V A) (answers : A → A → Prop) (before after : Option (Nat × V)) :
    Happening V A → Prop
  | .now (.op o) r _ => Performs answers o r before after
  | .resumed (.op o) r _ =>
      if o.stored then c.performed = some ⟨o, r⟩ ∧ after = before
      else Performs answers o r before after
  | _ => after = before

/-- The operation that is performed with a step of the call.  A function that throws
has failed; what it does once the call has been told does not count. -/
def event (c : Lane V A) (i : ι) (before after : Option (Nat × V)) :
    Happening V A → Option (Event ι V A)
  | .now (.op o) r _ =>
      if o.stored || c.told.isNone then some ⟨some i, o, r, before, after⟩ else none
  | .resumed (.op o) r _ =>
      if !o.stored && c.told.isNone then some ⟨some i, o, r, before, after⟩ else none
  | .raises (.calls content) e =>
      if c.told.isNone then some ⟨some i, .func content, .error e, before, after⟩ else none
  | .raises (.op (.func content)) e =>
      if c.told.isNone then some ⟨some i, .func content, .error e, before, after⟩ else none
  | _ => none

end Lane

/-! ## All calls -/

structure State (ι V A : Type) where
  entry : Option (Nat × V)
  lane : ι → Lane V A

/-- A step of a call, and the operation that is performed, if any. -/
structure Label (ι V A : Type) where
  step : Option (ι × Happening V A)
  event : Option (Event ι V A)

/-- The operations that were performed. -/
def history (trace : List (Label ι V A)) : List (Event ι V A) := trace.filterMap Label.event

/-- How often a call was made once more. -/
def restarts [DecidableEq ι] (i : ι) (trace : List (Label ι V A)) : Nat :=
  trace.countP fun l =>
    match l.step with
    | some (j, ev) => decide (j = i) && retried ev
    | none => false

/-- The saver performs what a call waits for, or a call goes on, or somebody updates
the entry directly. -/
inductive Step [DecidableEq ι] (answers : ι → A → A → Prop) (program : Call V A A)
    (s : State ι V A) : Label ι V A → State ι V A → Prop
  | performs {i : ι} {o : Op V A} {k : Except Exn o.Ans → Code V A} {r : Except Exn o.Ans}
      {entry : Option (Nat × V)} (waits : (s.lane i).stop = .waits (.op o) k)
      (stored : o.stored = true) (undone : (s.lane i).performed = none)
      (performs : Performs (answers i) o r s.entry entry) :
      Step answers program s ⟨none, some ⟨some i, o, r, s.entry, entry⟩⟩
        ⟨entry, Function.update s.lane i { s.lane i with performed := some ⟨o, r⟩ }⟩
  | happens {i : ι} {ev : Happening V A} {stop : Stop V A} {entry : Option (Nat × V)}
      (step : Thread.Step program (s.lane i).stop ev stop)
      (touches : (s.lane i).Touches (answers i) s.entry entry ev) :
      Step answers program s ⟨some (i, ev), (s.lane i).event i s.entry entry ev⟩
        ⟨entry, Function.update s.lane i ((s.lane i).next stop)⟩
  | direct {g : Nat} {v : V} {r : Except Exn Nat} {entry : Option (Nat × V)}
      (performs : Performs (fun _ _ => False) (.update g v : Op V A) r s.entry entry) :
      Step answers program s ⟨none, some ⟨none, .update g v, r, s.entry, entry⟩⟩ ⟨entry, s.lane⟩

/-- No call has begun. -/
def start (program : Call V A A) (entry : Option (Nat × V)) : State ι V A :=
  ⟨entry, fun _ => ⟨Thread.initial program, none, none⟩⟩

/-! ## What comes back into a call -/

/-- An exception that comes back into a call is given by the innermost try block to
the caller's `fail`; and once the caller has been told something the function's `Io`,
if such an exception makes it go on, gives no value that is to be written. -/
structure Fair (kept : A → A → Prop) (c : Lane V A) (ev : Happening V A) : Prop where
  thrown : ∀ r k handler tries e, c.stop = .asks r k (.code handler :: tries) →
    ev = .raises r e → handler e = failing e
  repeated : ∀ content v, Ends (.op (.func content)) (.ok v) c.stop ev → c.told ≠ none →
    kept content v

abbrev Fairly [DecidableEq ι] (answers : ι → A → A → Prop) (program : Call V A A)
    (kept : A → A → Prop) (entry : Option (Nat × V)) : List (Label ι V A) → Prop :=
  Run.Meets (Step answers program) (start program entry) fun _ s l =>
    ∀ i ev, l.step = some (i, ev) → Fair kept (s.lane i) ev

/-! ## Where nothing comes back -/

/-- Nothing throws: no continuation of a caller, and no function. -/
def Calm (trace : List (Label ι V A)) : Prop :=
  ∀ l ∈ trace, ∀ i r e, l.step ≠ some (i, .raises r e)

/-- All that is left is that the caller's continuation returns. -/
def Leaves (s : Stop V A) : Prop :=
  ∀ r, request s = some r → (∃ v, r = .passed v) ∨ ∃ e, r = .failed e

theorem leaves_of_tells {s : Stop V A} (tells : tells s ≠ none) : Leaves s := by
  intro r asks
  cases s with
  | asks r' k tries =>
      cases asks
      cases r with
      | passed v => exact .inl ⟨v, rfl⟩
      | failed e => exact .inr ⟨e, rfl⟩
      | op o => exact absurd rfl tells
      | calls content => exact absurd rfl tells
  | waits r' k => exact absurd rfl tells
  | done => exact absurd rfl tells
  | escaped e => exact absurd rfl tells

/-- A continuation that returns leaves nothing to do. -/
theorem Leaves.step {X : Type} {p : Plan V A X} {s s' : Stop V A} {ev : Happening V A}
    (leaves : Leaves s) (point : p.At s) (step : Thread.Step p.program s ev s')
    (calm : ∀ r e, ev ≠ .raises r e) : Leaves s' := by
  obtain ⟨step, allowed⟩ := step
  cases step with
  | raises foreign e => exact absurd rfl (calm _ e)
  | now foreign r guarded =>
      rcases leaves _ rfl with ⟨v, rfl⟩ | ⟨e, rfl⟩
      · cases point
        exact fun r asks => nomatch asks
      · cases point
        exact fun r asks => nomatch asks
  | later foreign => exact leaves
  | resumed r guarded =>
      rcases leaves _ rfl with ⟨v, rfl⟩ | ⟨e, rfl⟩
      · cases point
      · cases point
  | enters own =>
      rcases leaves _ rfl with ⟨v, rfl⟩ | ⟨e, rfl⟩
      · cases own
      · cases own

section

variable [DecidableEq ι] {X : Type} {p : Plan V A X} {answers : ι → A → A → Prop}
  {entry : Option (Nat × V)}

/-- A call that has told its caller something has nothing left to do. -/
theorem run_leaves {trace : List (Label ι V A)} {s : State ι V A}
    (run : Run (Step answers p.program) (start p.program entry) trace s) (calm : Calm trace) :
    ∀ i, p.At (s.lane i).stop ∧ ((s.lane i).told ≠ none → Leaves (s.lane i).stop) := by
  induction run with
  | nil => exact fun i => ⟨Plan.run_at .nil, fun told => absurd rfl told⟩
  | @snoc trace s s' l run next ih =>
      have before := ih fun l member => calm l (List.mem_append_left _ member)
      cases next with
      | @performs i o k r after waits stored undone performs =>
          intro j
          by_cases same : j = i
          · subst same
            simpa using before j
          · simpa [same] using before j
      | @happens i ev stop after step touches =>
          have quiet (r : Req V A) (e : Exn) : ev ≠ .raises r e := by
            rintro rfl
            exact calm _ (List.mem_append_right _ (List.mem_singleton_self _)) i r e rfl
          intro j
          by_cases same : j = i
          · subst same
            obtain ⟨point, leaves⟩ := before j
            dsimp only
            rw [Function.update_self]
            refine ⟨(point.turn step).1, fun told => ?_⟩
            by_cases earlier : (s.lane j).told = none
            · rw [Lane.next, earlier] at told
              exact leaves_of_tells told
            · exact (leaves earlier).step point step quiet
          · simpa [same] using before j
      | direct performs => exact before

/-- Where nothing throws, every step is fair. -/
theorem fairly_of_calm {kept : A → A → Prop} {trace : List (Label ι V A)} (calm : Calm trace) :
    Fairly answers p.program kept entry trace := by
  intro pre l s inside run i ev same
  have calm' : Calm pre := fun l' member =>
    calm l' (inside.subset (List.mem_append_left _ member))
  constructor
  · intro r k handler tries e _ raised
    exact absurd (raised ▸ same) (calm l (inside.subset (by simp)) i r e)
  · intro content v ends told
    rcases (run_leaves run calm' i).2 told _ ends.request with ⟨v, absurd⟩ | ⟨e, absurd⟩
    · cases absurd
    · cases absurd

end

end SidepoolFormal.Saver.Threads
