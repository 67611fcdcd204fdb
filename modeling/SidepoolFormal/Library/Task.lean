import Mathlib.Logic.Basic

/-!
# Tasks

A task ends with a value or an exception, or asks something and goes on with
the answer, which may be an exception too.  Sequencing and catching are those
of the exception monad.
-/

namespace SidepoolFormal.Library

inductive Task (Op : Type) (Ans : Op → Type) (ε α : Type) : Type where
  | done (r : Except ε α)
  | ask (op : Op) (k : Except ε (Ans op) → Task Op Ans ε α)

namespace Task

variable {Op : Type} {Ans : Op → Type} {ε α β : Type}

def lift (v : α) : Task Op Ans ε α := .done (.ok v)

/-- Ask, and end with the answer. -/
def request (op : Op) : Task Op Ans ε (Ans op) := .ask op .done

/-- What the task has ended with. -/
def ended : Task Op Ans ε α → Option (Except ε α)
  | .done r => some r
  | .ask _ _ => none

/-- Go on with the result of a task, whatever it is. -/
def continue_ (f : Except ε α → Task Op Ans ε β) : Task Op Ans ε α → Task Op Ans ε β
  | .done r => f r
  | .ask op k => .ask op fun r => continue_ f (k r)

/-- Go on with the value of a task. -/
def andThen (t : Task Op Ans ε α) (f : α → Task Op Ans ε β) : Task Op Ans ε β :=
  t.continue_ fun
    | .ok v => f v
    | .error e => .done (.error e)

/-- Handle those exceptions of a task that satisfy `isA`. -/
def catching (t : Task Op Ans ε α) (isA : ε → Bool) (h : ε → Task Op Ans ε α) : Task Op Ans ε α :=
  t.continue_ fun
    | .ok v => lift v
    | .error e => if isA e then h e else .done (.error e)

theorem ask_congr {op : Op} {k k' : Except ε (Ans op) → Task Op Ans ε α} (same : ∀ r, k r = k' r) :
    Task.ask op k = .ask op k' := congrArg (Task.ask op) (funext same)

theorem continue_done (t : Task Op Ans ε α) : t.continue_ .done = t := by
  induction t with
  | done r => rfl
  | ask op k ih => exact ask_congr ih

/-! ## Exceptions that end a task -/

/-- Whenever the task is answered with `e`, it ends with `e`. -/
def EndsOn (e : ε) : Task Op Ans ε α → Prop
  | .done _ => True
  | .ask _ k => k (.error e) = .done (.error e) ∧ ∀ r, EndsOn e (k r)

theorem endsOn_lift (e : ε) (v : α) : (lift v : Task Op Ans ε α).EndsOn e := trivial

theorem endsOn_request (e : ε) (op : Op) : (request op : Task Op Ans ε (Ans op)).EndsOn e :=
  ⟨rfl, fun _ => trivial⟩

theorem EndsOn.continue_ {e : ε} {t : Task Op Ans ε α} {f : Except ε α → Task Op Ans ε β}
    (ends : t.EndsOn e) (through : f (.error e) = .done (.error e)) (after : ∀ r, (f r).EndsOn e) :
    (t.continue_ f).EndsOn e := by
  induction t with
  | done r => exact after r
  | ask op k ih =>
      constructor
      · change (k (.error e)).continue_ f = .done (.error e)
        rw [ends.1]
        exact through
      · intro r
        exact ih r (ends.2 r)

theorem EndsOn.andThen {e : ε} {t : Task Op Ans ε α} {f : α → Task Op Ans ε β}
    (ends : t.EndsOn e) (after : ∀ v, (f v).EndsOn e) : (t.andThen f).EndsOn e := by
  refine EndsOn.continue_ ends ?_ ?_
  · rfl
  · intro r
    cases r with
    | ok v => exact after v
    | error e' => trivial

theorem EndsOn.catching {e : ε} {t : Task Op Ans ε α} {isA : ε → Bool} {h : ε → Task Op Ans ε α}
    (ends : t.EndsOn e) (other : isA e = false) (handled : ∀ e', (h e').EndsOn e) :
    (t.catching isA h).EndsOn e := by
  refine EndsOn.continue_ ends ?_ ?_
  · exact if_neg (by simp [other])
  · intro r
    cases r with
    | ok v => trivial
    | error e' =>
        dsimp only
        split
        · exact handled e'
        · trivial

theorem endsOn_request_lift (e : ε) (op : Op) (f : Ans op → α) :
    ((request op : Task Op Ans ε (Ans op)).andThen fun a => lift (f a)).EndsOn e :=
  (endsOn_request e op).andThen fun a => endsOn_lift e (f a)

end Task

end SidepoolFormal.Library
