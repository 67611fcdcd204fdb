import SidepoolFormal.S.Raise

/-!
# How the functions answer

Every function that a raise calls returns, throws or is still running.  A raise
is left when it has come to the end of the list, or when a function throws, and
then for ever.
-/

namespace SidepoolFormal.S

open Library Registry

variable {E : Type}

/-- The r-th raise has called the function of a lease, which has returned or thrown
since, or is still running. -/
def Answered (trace : List (Label E)) (stack : List Frame) (r l : Nat) : Prop :=
  .returns r l ∈ trace ∨ (∃ e, .throws r l e ∈ trace) ∨ ∃ prev, .function r prev l ∈ stack

/-- The r-th raise has come to its end, or a function has thrown. -/
def Left (trace : List (Label E)) (r : Nat) : Prop :=
  .ends r ∈ trace ∨ ∃ l e, .throws r l e ∈ trace

theorem Answered.later {trace : List (Label E)} {stack stack' : List Frame} {r l : Nat}
    (answered : Answered trace stack r l) (label : Label E)
    (running : ∀ prev, .function r prev l ∈ stack → Answered (trace ++ [label]) stack' r l) :
    Answered (trace ++ [label]) stack' r l := by
  rcases answered with returns | ⟨e, throws⟩ | ⟨prev, frame⟩
  · exact .inl (S.later label returns)
  · exact .inr (.inl ⟨e, S.later label throws⟩)
  · exact running prev frame

theorem Left.later {trace : List (Label E)} {r : Nat} (left : Left trace r) (label : Label E) :
    Left (trace ++ [label]) r := by
  rcases left with ends | ⟨l, e, throws⟩
  · exact .inl (S.later label ends)
  · exact .inr ⟨l, e, S.later label throws⟩

structure Answers (trace : List (Label E)) (s : State E) : Prop where
  answered : ∀ r l, .calls r l ∈ trace → Answered trace s.stack r l
  threw : ∀ r l e, .throws r l e ∈ trace →
    .calls r l ∈ trace ∧ .ends r ∉ trace ∧ r ∉ s.stack.map Frame.raise
  left : ∀ r n, .raises r n ∈ trace → r ∉ s.stack.map Frame.raise → Left trace r

/-- Whether a step neither begins nor leaves a walk, nor calls a function, nor
comes back from one. -/
def Label.still : Label E → Bool
  | .raises _ _ | .calls _ _ | .returns _ _ | .throws _ _ _ | .ends _ => false
  | _ => true

namespace Answers

variable {trace : List (Label E)} {s s' : State E}

theorem quiet (answers : Answers trace s) {label : Label E} (still : label.still = true)
    (functions : ∀ r prev l, .function r prev l ∈ s.stack → .function r prev l ∈ s'.stack)
    (new : ∀ r, r ∈ s'.stack.map Frame.raise → r ∈ s.stack.map Frame.raise ∨ .ends r ∈ trace)
    (old : ∀ r, r ∈ s.stack.map Frame.raise → r ∈ s'.stack.map Frame.raise ∨ .ends r ∈ trace) :
    Answers (trace ++ [label]) s' := by
  have past {l : Label E} (moves : l.still = false) (member : l ∈ trace ++ [label]) :
      l ∈ trace := by
    refine earlier member ?_
    rintro rfl
    cases still.symm.trans moves
  refine ⟨?_, ?_, ?_⟩
  · intro r l member
    refine (answers.answered r l (past rfl member)).later label ?_
    exact fun prev frame => .inr (.inr ⟨prev, functions r prev l frame⟩)
  · intro r l e member
    obtain ⟨calls, going, apart⟩ := answers.threw r l e (past rfl member)
    refine ⟨later label calls, fun ends => going (past rfl ends), ?_⟩
    intro inside
    exact (new r inside).elim apart going
  · intro r n member apart
    by_cases inside : r ∈ s.stack.map Frame.raise
    · exact .inl (later label ((old r inside).resolve_left apart))
    · exact (answers.left r n (past rfl member) inside).later label

/-- Where the frame on top, not a function, goes on. -/
theorem turn (answers : Answers trace s) {label : Label E} (still : label.still = true)
    {frame frame' : Frame} {stack : List Frame} (control : s.stack = frame :: stack)
    (next : s'.stack = frame' :: stack) (own : frame'.raise = frame.raise)
    (other : ∀ r prev l, frame ≠ .function r prev l) : Answers (trace ++ [label]) s' := by
  have same : s'.stack.map Frame.raise = s.stack.map Frame.raise := by
    rw [control, next, List.map_cons, List.map_cons, own]
  refine answers.quiet still ?_ ?_ ?_
  · intro r prev l member
    rw [control] at member
    rw [next]
    rcases List.mem_cons.mp member with top | below
    · exact absurd top.symm (other r prev l)
    · exact List.mem_cons_of_mem _ below
  · rw [same]
    exact fun r => .inl
  · rw [same]
    exact fun r => .inl

theorem begin (answers : Answers trace s) (raised : Raised trace s) {n : Nat} {ptr : Option Nat}
    (stack : s'.stack = .iterate s.raises.length none ptr :: s.stack) :
    Answers (trace ++ [.raises s.raises.length n]) s' := by
  refine ⟨?_, ?_, ?_⟩
  · intro r l member
    refine (answers.answered r l (earlier member nofun)).later _ ?_
    rw [stack]
    exact fun prev frame => .inr (.inr ⟨prev, List.mem_cons_of_mem _ frame⟩)
  · intro r l e member
    have throws := earlier member nofun
    obtain ⟨calls, going, apart⟩ := answers.threw r l e throws
    refine ⟨later _ calls, fun ends => going (earlier ends nofun), ?_⟩
    rw [stack]
    intro inside
    rcases List.mem_cons.mp inside with rfl | below
    · exact Nat.lt_irrefl _ (raised.known _ throws _ rfl)
    · exact apart below
  · intro r n member apart
    rw [stack] at apart
    rcases List.mem_append.mp member with before | now
    · exact (answers.left r n before fun inside => apart (List.mem_cons_of_mem _ inside)).later _
    · cases List.mem_singleton.mp now
      exact absurd List.mem_cons_self apart

/-- Where a function is called or returns: a frame of the same raise comes on top. -/
theorem walk (answers : Answers trace s) {label : Label E} {frame frame' : Frame}
    {stack : List Frame} (control : s.stack = frame :: stack) (next : s'.stack = frame' :: stack)
    (own : frame'.raise = frame.raise) (notThrows : ∀ r l e, label ≠ .throws r l e)
    (notEnds : ∀ r, label ≠ .ends r) (notRaises : ∀ r n, label ≠ .raises r n)
    (answered : ∀ r l, .calls r l ∈ trace ++ [label] → Answered (trace ++ [label]) s'.stack r l) :
    Answers (trace ++ [label]) s' := by
  have same : s'.stack.map Frame.raise = s.stack.map Frame.raise := by
    rw [control, next, List.map_cons, List.map_cons, own]
  refine ⟨answered, ?_, ?_⟩
  · intro r l e member
    obtain ⟨calls, going, apart⟩ := answers.threw r l e (earlier member (notThrows r l e))
    exact ⟨later _ calls, fun ends => going (earlier ends (notEnds r)), same.symm ▸ apart⟩
  · intro r n member apart
    exact (answers.left r n (earlier member (notRaises r n)) (same ▸ apart)).later label

theorem step (answers : Answers trace s) (called : Called trace s) (raised : Raised trace s)
    {label : Label E} (step : Step s label s') : Answers (trace ++ [label]) s' := by
  cases step with
  | makes control => exact answers.quiet rfl (fun _ _ _ => id) (fun _ => .inl) (fun _ => .inl)
  | subscribes control lessee | destroys control lessee =>
      exact answers.quiet rfl (fun _ _ _ => id) (fun _ => .inl) (fun _ => .inl)
  | raises control => exact answers.begin raised rfl
  | removes control cleared => exact answers.turn rfl control rfl rfl nofun
  | @calls r l prev stack control live =>
      refine answers.walk control rfl rfl nofun nofun nofun ?_
      intro r' l' member
      rcases List.mem_append.mp member with before | now
      · refine (answers.answered r' l' before).later _ ?_
        rw [control]
        intro prev' frame
        have below := (List.mem_cons.mp frame).resolve_left nofun
        exact .inr (.inr ⟨prev', List.mem_cons_of_mem _ below⟩)
      · cases List.mem_singleton.mp now
        exact .inr (.inr ⟨prev, List.mem_cons_self⟩)
  | @returns r l prev stack control =>
      refine answers.walk control rfl rfl nofun nofun nofun ?_
      intro r' l' member
      refine (answers.answered r' l' (earlier member nofun)).later _ ?_
      rw [control]
      intro prev' frame
      rcases List.mem_cons.mp frame with top | below
      · cases top
        exact .inl (now trace _)
      · exact .inr (.inr ⟨prev', List.mem_cons_of_mem _ below⟩)
  | @throws r l prev stack control e =>
      have top : Frame.function r prev l ∈ s.stack := control ▸ List.mem_cons_self
      obtain ⟨raise, found, unreturned, -⟩ := raised.found control
      have marks := (raised.sound r raise found).marks
      refine ⟨?_, ?_, ?_⟩
      · intro r' l' member
        refine (answers.answered r' l' (earlier member nofun)).later _ ?_
        rw [control]
        intro prev' frame
        rcases List.mem_cons.mp frame with top | below
        · cases top
          exact .inr (.inl ⟨e, now trace _⟩)
        · exact .inr (.inr ⟨prev', below⟩)
      · intro r' l' e' member
        rcases List.mem_append.mp member with before | now
        · obtain ⟨calls, going, apart⟩ := answers.threw r' l' e' before
          rw [control] at apart
          exact ⟨later _ calls, fun ends => going (earlier ends nofun),
            fun below => apart (List.mem_cons_of_mem _ below)⟩
        · cases List.mem_singleton.mp now
          refine ⟨later _ (called.frames r prev l top), ?_, raised.apart control⟩
          intro ends
          cases unreturned.symm.trans (marks.ends.mp (earlier ends nofun))
      · intro r' n member apart
        by_cases same : r' = r
        · exact .inr ⟨l, e, same ▸ now trace _⟩
        · refine (answers.left r' n (earlier member nofun) ?_).later _
          rw [control]
          exact fun inside => (List.mem_cons.mp inside).elim same apart
  | @ends r prev stack control =>
      refine ⟨?_, ?_, ?_⟩
      · intro r' l' member
        refine (answers.answered r' l' (earlier member nofun)).later _ ?_
        rw [control]
        exact fun prev' frame => .inr (.inr ⟨prev', (List.mem_cons.mp frame).resolve_left nofun⟩)
      · intro r' l' e' member
        obtain ⟨calls, going, apart⟩ := answers.threw r' l' e' (earlier member nofun)
        rw [control] at apart
        refine ⟨later _ calls, fun ends => going (earlier ends ?_), fun below =>
          apart (List.mem_cons_of_mem _ below)⟩
        rintro ⟨⟩
        exact apart List.mem_cons_self
      · intro r' n member apart
        by_cases same : r' = r
        · exact .inl (same ▸ now trace _)
        · refine (answers.left r' n (earlier member nofun) ?_).later _
          rw [control]
          exact fun inside => (List.mem_cons.mp inside).elim same apart
  | @runs r raise control found returned ran =>
      have ends := (raised.sound r raise found).marks.ends.mpr returned
      refine answers.quiet rfl (fun _ _ _ => List.mem_cons_of_mem _) ?_
        (fun _ inside => .inl (List.mem_cons_of_mem _ inside))
      intro r' member
      rcases List.mem_cons.mp member with rfl | below
      · exact .inr ends
      · exact .inl below
  | starts control found next => exact answers.turn rfl control rfl rfl nofun
  | leaves control => exact answers.turn rfl control rfl rfl nofun
  | crashes control e => exact answers.turn rfl control rfl rfl nofun
  | @joins r i raise stack control found none =>
      have inside : Frame.chain r i ∈ s.stack := control ▸ List.mem_cons_self
      have sound := raised.sound r raise found
      have returned := sound.returned_of_ran (raised.fits _ inside raise found).1
      refine answers.quiet rfl ?_ ?_ ?_
      · intro r' prev l member
        rw [control] at member
        exact (List.mem_cons.mp member).resolve_left nofun
      · rw [control]
        exact fun _ below => .inl (List.mem_cons_of_mem _ below)
      · rw [control]
        intro r' member
        rcases List.mem_cons.mp member with rfl | below
        · exact .inr (sound.marks.ends.mpr returned)
        · exact .inl below
  | completes control found started result =>
      exact answers.quiet rfl (fun _ _ _ => id) (fun _ => .inl) (fun _ => .inl)

end Answers

theorem answers_of_run {trace : List (Label E)} {s : State E} (run : Run Step initial trace s) :
    Answers trace s := by
  induction run with
  | nil => exact ⟨nofun, nofun, nofun⟩
  | snoc run next ih => exact ih.step (called_of_run run) (raised_of_run run) next

end SidepoolFormal.S
