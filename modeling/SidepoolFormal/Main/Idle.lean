import SidepoolFormal.Main.Code

/-!
# When the idler's queue is empty

`now_idle` empties the queue before it returns, but only two entry points call
it.  Functions stay behind when they are queued while no call of `now_idle` is
running, and when an exception leaves such a call.
-/

namespace SidepoolFormal.Main

open Library

variable {C R : Type} {threads : Threads C R} {s s' : State C R}

/-! ## Calls of `now_idle` that are running or still to come -/

def Frame.Drains : Frame C → Prop
  | .nowIdle => True
  | .destroy members => .idler ∈ members
  | _ => False

def Draining (stack : List (Frame C)) : Prop := ∃ frame ∈ stack, frame.Drains

theorem draining_nil : ¬Draining ([] : List (Frame C)) := by
  rintro ⟨frame, member, -⟩
  cases member

theorem draining_cons {frame : Frame C} {rest : List (Frame C)} :
    Draining (frame :: rest) ↔ frame.Drains ∨ Draining rest := by
  simp [Draining]

/-- The step queues a function only for a call of `now_idle`, and lets no
exception out of the last one while functions are queued. -/
def State.Drained (s : State C R) : Event C R → Prop
  | .does (.enqueue _ _) => Draining s.stack
  | .unwinds => ∀ rest, s.stack = .nowIdle :: rest → s.toCall = [] ∨ Draining rest
  | _ => True

def DrainedStep (threads : Threads C R) (s : State C R) (e : Event C R) (s' : State C R) : Prop :=
  Step threads s e s' ∧ s.Drained e

/-! ## The queue -/

/-- Whoever is queued will be run by a call of `now_idle`. -/
def State.Served (s : State C R) : Prop := s.toCall = [] ∨ Draining s.stack

/-- Popping a frame that is no call of `now_idle`. -/
theorem State.Served.pop {toCall : List C} {frame : Frame C} {rest : List (Frame C)}
    (served : toCall = [] ∨ Draining (frame :: rest)) (other : ¬frame.Drains) :
    toCall = [] ∨ Draining rest :=
  served.imp_right fun draining => (draining_cons.mp draining).resolve_left other

theorem State.Served.act {c : C} {act : Act C R} {rest : List (Frame C)} (served : s.Served)
    (top : s.stack = .code c :: rest) (drained : s.Drained (.does act)) :
    (s.act rest act).Served := by
  rw [State.Served, top] at served
  have below := State.Served.pop served id
  cases act with
  | returns => exact below
  | throws => exact below
  | enqueue f d =>
      have draining : Draining s.stack := drained
      rw [top, draining_cons] at draining
      exact .inr (draining_cons.mpr (.inr (draining.resolve_left id)))
  | call i d => exact below.imp_right fun d => draining_cons.mpr (.inr (draining_cons.mpr (.inr d)))
  | request i callback d =>
      exact below.imp_right fun d => draining_cons.mpr (.inr (draining_cons.mpr (.inr d)))
  | wait fail d => exact below.imp_right fun d => draining_cons.mpr (.inr d)
  | wake d => exact below.imp_right fun d => draining_cons.mpr (.inr d)
  | share d => exact below.imp_right fun d => draining_cons.mpr (.inr d)

theorem State.Served.destroy {m : Member} {members : List Member} {rest : List (Frame C)}
    (served : s.Served) (top : s.stack = .destroy (m :: members) :: rest) :
    (s.destroy (.destroy members :: rest) m).Served := by
  rw [State.Served, top, draining_cons] at served
  have later (other : m ≠ .idler) : s.toCall = [] ∨ Draining (.destroy members :: rest) :=
    served.imp_right fun draining => draining_cons.mpr <| draining.imp_left fun member =>
      (List.mem_cons.mp member).resolve_left (Ne.symm other)
  cases m with
  | idler => exact .inr (draining_cons.mpr (.inl trivial))
  | mods => exact later nofun
  | math => exact later nofun
  | bus => exact later nofun
  | saver => exact (later nofun).imp_right fun draining => draining_cons.mpr (.inr draining)
  | rng => exact (later nofun).imp_right fun draining => draining_cons.mpr (.inr draining)
  | logger => exact (later nofun).imp_right fun draining => draining_cons.mpr (.inr draining)

theorem State.Served.push {toCall : List C} {frame : Frame C} {rest : List (Frame C)}
    (served : toCall = [] ∨ Draining rest) : toCall = [] ∨ Draining (frame :: rest) :=
  served.imp_right fun draining => draining_cons.mpr (.inr draining)

theorem State.Served.step {e : Event C R} (served : s.Served) (step : DrainedStep threads s e s') :
    s'.Served := by
  obtain ⟨step, drained⟩ := step
  cases step with
  | initFinish absent idle => exact .inr (draining_cons.mpr (.inl trivial))
  | receiveMessage running fromC => exact .inr (draining_cons.mpr (.inl trivial))
  | outOfMemory running fromC => exact State.Served.push served
  | callback r exists_ fromC held => exact State.Served.push served
  | free running quiet idle =>
      rw [State.Served, idle] at served
      exact .inl (served.resolve_right draining_nil)
  | runs quiet top queued =>
      exact State.Served.push (.inr (draining_cons.mpr (.inl trivial)))
  | idle quiet top empty => exact .inl empty
  | does quiet top next => exact served.act top drained
  | clientReturns quiet top =>
      rw [State.Served, top] at served
      exact State.Served.pop served id
  | returns quiet top done =>
      rw [State.Served, top] at served
      obtain rfl | rfl := done
      · exact State.Served.pop served id
      · exact State.Served.pop served id
  | catches thrown top caught =>
      rw [State.Served, top] at served
      exact State.Served.push (State.Served.pop served id)
  | unwinds thrown top through =>
      obtain ⟨c, rfl⟩ | rfl | ⟨i, rfl⟩ := through
      · rw [State.Served, top] at served
        exact State.Served.pop served id
      · exact drained _ top
      · rw [State.Served, top] at served
        exact State.Served.pop served id
  | reports thrown top => exact State.Served.push served
  | aborts thrown top =>
      have member : Member.idler ∈ mainMembers.reverse := by decide
      exact .inr (draining_cons.mpr (.inl member))
  | fails quiet top waiting => exact State.Served.push served
  | destroys quiet top cleared => exact served.destroy top
  | mathFreed dropped once unheld => exact State.Served.push served
  | freed quiet top =>
      rw [State.Served, top] at served
      exact State.Served.pop served (by simp [Frame.Drains])

/-- When control is back in the client's event loop, nothing is queued. -/
theorem idle_when_returned {trace : List (Event C R)}
    (run : Run (DrainedStep threads) State.init trace s) (returned : s.stack = []) :
    s.toCall = [] := by
  have served : s.Served :=
    run.invariant (I := fun _ s => s.Served) (.inl rfl) fun _ _ _ _ => State.Served.step
  rw [State.Served, returned] at served
  exact served.resolve_right draining_nil

end SidepoolFormal.Main
