import SidepoolFormal.Io.Settle

/-!
# When running is evaluating

In a program that is not clean some function is entered that the evaluation
does not enter, or the other way around, whatever the program is followed by.
So running a program is evaluating it exactly when the program is clean.
-/

namespace SidepoolFormal.Io

open Library

variable {E a b R : Type}

/-- Continuations that enter nothing at or below a site. -/
structure Conts.Apart (k : Conts R E a) (s : Site) : Prop where
  pass : ∀ p, s <:+ p → ∀ v, (k.pass v).Moves (Keeps p)
  fail : ∀ p, s <:+ p → ∀ e, (k.fail e).Moves (Keeps p)

/-- Of some site at or below `s`, the evaluation of the program there and what
has happened between two states tell different things. -/
def Prog.Differs (m : Prog E a) (s : Site) (st st' : Shared (World R)) : Prop :=
  ∃ p, s <:+ p ∧ ((p ∈ m.entries s ∧ visits p st' = visits p st) ∨
    (p ∉ m.entries s ∧ visits p st < visits p st'))

theorem visits_tryCatch {p : Site} {x : Act R E Unit} {h : E → Act R E Unit}
    (keeps : ∀ e, (h e).Moves (Keeps p)) (st : Shared (World R)) :
    visits p ((tryCatch x h) st).2 = visits p (x st).2 := by
  rw [Effect.tryCatch_apply]
  rcases x st with ⟨e | u, st'⟩
  · exact keeps e st'
  · rfl

/-! ## Continuations stay apart -/

theorem next_keeps {s p : Site} (under : (Side.left :: s) <:+ p) (throws : Option E)
    (q : Prog E b) {k : Conts R E b} (apart : k.Apart s) :
    (next s throws q k).Moves (Keeps p) := by
  refine next_moves (fun st => keeps_log (by simpa using ne_of_side under) st) ?_
  refine q.go_moves _ (fun p' under' st => keeps_log ?_ st)
    (apart.pass p (under_of_side under)) (apart.fail p (under_of_side under))
  simp only [List.mem_singleton]
  rintro rfl
  exact not_left_of_right under' under

namespace Conts.Apart

theorem thenVal {k : Conts R E b} {s : Site} (apart : k.Apart s) (throws : a → Option E)
    (f : a → Prog E b) : (k.thenVal s throws f).Apart (.left :: s) where
  pass _ under v := next_keeps under (throws v) (f v) apart
  fail p under := apart.fail p (under_of_side under)

theorem thenVoid {k : Conts R E b} {s : Site} (apart : k.Apart s) (throws : Option E)
    (f : Prog E b) : (k.thenVoid s throws f).Apart (.left :: s) where
  pass p under _ := Effect.Moves.tryCatch (next_keeps under throws f apart)
    (apart.fail p (under_of_side under))
  fail p under := apart.fail p (under_of_side under)

theorem catching {k : Conts R E a} {s : Site} (apart : k.Apart s) (isA : E → Bool)
    (throws : E → Option E) (h : E → Prog E a) :
    (k.catching s isA throws h).Apart (.left :: s) where
  pass p under := apart.pass p (under_of_side under)
  fail p under e := by
    simp only [Conts.catching]
    split
    · exact Effect.Moves.tryCatch (next_keeps under (throws e) (h e) apart)
        (apart.fail p (under_of_side under))
    · exact apart.fail p (under_of_side under) e

theorem right {k : Conts R E a} {s : Site} (apart : k.Apart s) : k.Apart (.right :: s) where
  pass p under := apart.pass p (under_of_side under)
  fail p under := apart.fail p (under_of_side under)

end Conts.Apart

/-! ## Programs that are not clean -/

namespace Prog

theorem differs_left {m : Prog E a} {c : Prog E b} {s p : Site} {st st' : Shared (World R)}
    (under : (Side.left :: s) <:+ p) (same : p ∈ c.entries s ↔ p ∈ m.entries (.left :: s))
    (differs : (p ∈ m.entries (.left :: s) ∧ visits p st' = visits p st) ∨
      (p ∉ m.entries (.left :: s) ∧ visits p st < visits p st')) : c.Differs s st st' :=
  ⟨p, under_of_side under, by rwa [same]⟩

theorem differs_right {m : Prog E a} {q : Prog E b} {c : Prog E b} {s : Site}
    {st st' : Shared (World R)}
    (whole : c.entries s = m.entries (.left :: s) ++ s :: q.entries (.right :: s)) {p : Site}
    (under : (Side.right :: s) <:+ p)
    (differs : (p ∈ q.entries (.right :: s) ∧
        visits p st' = visits p (log (m.entries (.left :: s) ++ [s]) st)) ∨
      (p ∉ q.entries (.right :: s) ∧
        visits p (log (m.entries (.left :: s) ++ [s]) st) < visits p st')) :
    c.Differs s st st' := by
  have same : p ∈ c.entries s ↔ p ∈ q.entries (.right :: s) := by
    rw [whole, List.mem_append, List.mem_cons, or_iff_right (not_mem_left under),
      or_iff_right (ne_of_side under)]
  have before : visits p (log (m.entries (.left :: s) ++ [s]) st) = visits p st :=
    keeps_log (by simpa using ⟨not_mem_left under, ne_of_side under⟩) st
  rw [before] at differs
  exact ⟨p, under_of_side under, by rwa [same]⟩

theorem next_thrown {s : Site} {throws : Option E} {p : Prog E b} {e : E}
    (thrown : Prog.thrown throws p = some e) (k : Conts R E b) (st : Shared (World R)) :
    next s throws p k st = (.error e, log [s] st) := by
  rw [next_apply]
  cases throws with
  | some e' =>
      cases thrown
      rfl
  | none => exact go_raised (by simpa [Prog.thrown] using thrown) _ k _

theorem not_mem_entered {s p : Site} (under : (Side.left :: s) <:+ p) (throws : Option E)
    (q : Prog E b) :
    p ∉ s :: match throws with
      | some _ => []
      | none => q.entries (.right :: s) := by
  rw [List.mem_cons, not_or]
  constructor
  · exact ne_of_side under
  · cases throws with
    | some e => exact List.not_mem_nil
    | none => exact not_mem_right under

theorem mem_thenVal {m : Prog E a} {throws : a → Option E} {f : a → Prog E b} {s p : Site}
    (under : (Side.left :: s) <:+ p) :
    p ∈ (Prog.thenVal m throws f).entries s ↔ p ∈ m.entries (.left :: s) := by
  simp only [entries, List.mem_append]
  apply or_iff_left
  cases m.outcome with
  | error e => exact List.not_mem_nil
  | ok v => exact not_mem_entered under (throws v) (f v)

theorem mem_thenVoid {m : Prog E Unit} {throws : Option E} {f : Prog E b} {s p : Site}
    (under : (Side.left :: s) <:+ p) :
    p ∈ (Prog.thenVoid m throws f).entries s ↔ p ∈ m.entries (.left :: s) := by
  simp only [entries, List.mem_append]
  apply or_iff_left
  cases m.outcome with
  | error e => exact List.not_mem_nil
  | ok v => exact not_mem_entered under throws f

theorem mem_catching {m : Prog E a} {isA : E → Bool} {throws : E → Option E} {h : E → Prog E a}
    {s p : Site} (under : (Side.left :: s) <:+ p) :
    p ∈ (Prog.catching m isA throws h).entries s ↔ p ∈ m.entries (.left :: s) := by
  simp only [entries, List.mem_append]
  apply or_iff_left
  cases m.outcome with
  | ok v => exact List.not_mem_nil
  | error e =>
      cases taken : isA e with
      | false => simp [taken]
      | true =>
          simp only [taken, if_true]
          exact not_mem_entered under (throws e) (h e)

/-- A function entered in a try block of its own that returns a program which
is not clean. -/
theorem differs_next {m : Prog E a} {q c : Prog E b} {s : Site} {k : Conts R E b}
    (apart : k.Apart s)
    (whole : c.entries s = m.entries (.left :: s) ++ s :: q.entries (.right :: s))
    (right : ∀ st, q.Differs (.right :: s) st (q.go (.right :: s) k st).2)
    (st : Shared (World R)) :
    c.Differs s st ((tryCatch (next s none q k) k.fail) (log (m.entries (.left :: s)) st)).2 := by
  obtain ⟨p, under, differs⟩ := right (log (m.entries (.left :: s) ++ [s]) st)
  apply differs_right whole under
  rw [visits_tryCatch (apart.fail p (under_of_side under)), next_apply, log_log]
  exact differs

theorem differs_thenVal {m : Prog E a} {throws : a → Option E} {f : a → Prog E b} {s : Site}
    {k : Conts R E b} (fit : k.Fit) (apart : k.Apart s) (clean : m.Clean) {v : a}
    (result : m.outcome = .ok v)
    (right : (∃ e, thrown (throws v) (f v) = some e ∧
        (m.exposed.getD []).any (· e) = true) ∨
      (throws v = none ∧ ∀ st, (f v).Differs (.right :: s) st ((f v).go (.right :: s) k st).2))
    (st : Shared (World R)) :
    (Prog.thenVal m throws f).Differs s st ((Prog.thenVal m throws f).go s k st).2 := by
  obtain ⟨outer, strays, go⟩ := settles clean (.left :: s) (fit.thenVal s throws f)
  have inside : (Prog.thenVal m throws f).go s k st =
      guarded (some (m.exposed.getD [])) outer k.fail (next s (throws v) (f v) k)
        (log (m.entries (.left :: s)) st) := by
    refine (Effect.tryCatch_congr k.fail (go st)).trans ?_
    rw [finish_ok result]
    exact congrFun (tryCatch_guarded _ strays.quiet fit.quiet _) _
  rw [inside, guarded, Effect.tryCatch_apply]
  have strayed {e : E} {st' : Shared (World R)} (taken : (m.exposed.getD []).any (· e) = true)
      (entered : next s (throws v) (f v) k (log (m.entries (.left :: s)) st) = (.error e, st')) :
      (Prog.thenVal m throws f).Differs s st (outer e st').2 := by
    have grown := next_grows s (throws v) (f v) fit (log (m.entries (.left :: s)) st)
    rw [entered] at grown
    have opened : m.exposed = some (m.exposed.getD []) := by
      cases exposed : m.exposed with
      | none => simp [exposed] at taken
      | some handlers => rfl
    obtain ⟨p, under, fresh, more⟩ := strays.enters v result _ opened e taken
    have before : visits p st ≤ visits p st' := Nat.le_trans (grows_log _ st p) (grown p)
    exact differs_left under (mem_thenVal under)
      (.inr ⟨fresh, Nat.lt_of_le_of_lt before (more st')⟩)
  rcases right with ⟨e, thrown, taken⟩ | ⟨returns, right⟩
  · have entered := next_thrown thrown k (log (m.entries (.left :: s)) st) (s := s)
    rw [entered]
    simp only [taken, if_true]
    exact strayed taken entered
  · obtain ⟨p, under, differs⟩ := right (log (m.entries (.left :: s) ++ [s]) st)
    have entered : next s (throws v) (f v) k (log (m.entries (.left :: s)) st) =
        (f v).go (.right :: s) k (log (m.entries (.left :: s) ++ [s]) st) := by
      rw [next_apply, returns, log_log]
      rfl
    have whole : (Prog.thenVal m throws f).entries s =
        m.entries (.left :: s) ++ s :: (f v).entries (.right :: s) := by
      simp only [entries, result, returns]
    rw [← entered] at differs
    rcases ended : next s (throws v) (f v) k (log (m.entries (.left :: s)) st) with ⟨e | u, st'⟩
    · rw [ended] at differs
      cases taken : (m.exposed.getD []).any (· e) with
      | true =>
          simp only [taken, if_true]
          exact strayed taken ended
      | false =>
          simp only [taken, Bool.false_eq_true, if_false]
          apply differs_right whole under
          rwa [apart.fail p (under_of_side under) e st']
    · rw [ended] at differs
      exact differs_right whole under differs

theorem differs_thenVoid {m : Prog E Unit} {throws : Option E} {f : Prog E b} {s : Site}
    {k : Conts R E b} (fit : k.Fit) (apart : k.Apart s) (clean : m.Clean) {v : Unit}
    (result : m.outcome = .ok v) (returns : throws = none)
    (right : ∀ st, f.Differs (.right :: s) st (f.go (.right :: s) k st).2)
    (st : Shared (World R)) :
    (Prog.thenVoid m throws f).Differs s st ((Prog.thenVoid m throws f).go s k st).2 := by
  obtain ⟨outer, strays, go⟩ := settles clean (.left :: s) (fit.thenVoid s throws f)
  have own : ((k.thenVoid s throws f).pass v).Quiet := Effect.Quiet.tryCatch fit.quiet
  have inside : (Prog.thenVoid m throws f).go s k st =
      (tryCatch (next s throws f k) k.fail) (log (m.entries (.left :: s)) st) := by
    refine (Effect.tryCatch_congr k.fail (go st)).trans ?_
    rw [finish_ok result, guarded_quiet own]
    exact Effect.tryCatch_ok k.fail (own _)
  subst returns
  rw [inside]
  exact differs_next apart (by simp only [entries, result]) right st

theorem differs_catching {m : Prog E a} {isA : E → Bool} {throws : E → Option E}
    {h : E → Prog E a} {s : Site} {k : Conts R E a} (fit : k.Fit) (apart : k.Apart s)
    (clean : m.Clean) {e : E} (result : m.outcome = .error e) (taken : isA e = true)
    (right : m.raised = some e ∨ (throws e = none ∧
      ∀ st, (h e).Differs (.right :: s) st ((h e).go (.right :: s) k st).2))
    (st : Shared (World R)) :
    (Prog.catching m isA throws h).Differs s st
      ((Prog.catching m isA throws h).go s k st).2 := by
  rw [go_catching]
  by_cases raises : m.raised = some e
  · rw [go_raised raises]
    refine ⟨s, List.suffix_rfl, .inl ⟨?_, rfl⟩⟩
    simp [entries, result, taken]
  · obtain ⟨returns, right⟩ := right.resolve_left raises
    have silent : m.raised = none := by
      cases raises' : m.raised with
      | none => rfl
      | some e' =>
          have same := Except.error.inj ((outcome_raised raises' clean).symm.trans result)
          exact absurd (same ▸ raises') raises
    obtain ⟨outer, strays, go⟩ := settles clean (.left :: s) (fit.catching s isA throws h)
    rw [go]
    simp only [finish, result, silent, Option.isSome_none, Bool.false_eq_true, if_false,
      Conts.catching, taken, if_true, returns]
    exact differs_next apart (by simp only [entries, result, taken, returns, if_true]) right st

theorem differs_of_unclean {m : Prog E a} (unclean : ¬ m.Clean) (s : Site) {k : Conts R E a}
    (fit : k.Fit) (apart : k.Apart s) (st : Shared (World R)) :
    m.Differs s st (m.go s k st).2 := by
  induction m generalizing s st with
  | lift v => exact absurd trivial unclean
  | prim r => exact absurd trivial unclean
  | thenVal m throws f ih ihf =>
      by_cases clean : m.Clean
      · simp only [Clean, clean, true_and, not_forall] at unclean
        obtain ⟨v, result, wrong⟩ := unclean
        refine differs_thenVal fit apart clean result ?_ st
        by_cases free : ∀ e, thrown (throws v) (f v) = some e →
            ∀ handlers, m.exposed = some handlers → handlers.any (· e) = false
        · obtain ⟨returns, unclean⟩ := not_forall.mp fun c => wrong ⟨free, c⟩
          exact .inr ⟨returns, fun st => ihf v unclean _ fit apart.right st⟩
        · simp only [not_forall, Bool.not_eq_false] at free
          obtain ⟨e, thrown, handlers, opened, taken⟩ := free
          exact .inl ⟨e, thrown, by rwa [opened]⟩
      · obtain ⟨p, under, differs⟩ := ih clean (.left :: s) (fit.thenVal s throws f)
          (apart.thenVal throws f) st
        apply differs_left under (mem_thenVal under)
        rwa [go_thenVal, visits_tryCatch (apart.fail p (under_of_side under))]
  | thenVoid m throws f ih ihf =>
      by_cases clean : m.Clean
      · simp only [Clean, clean, true_and, not_forall] at unclean
        obtain ⟨v, result, returns, unclean⟩ := unclean
        exact differs_thenVoid fit apart clean result returns
          (fun st => ihf unclean _ fit apart.right st) st
      · obtain ⟨p, under, differs⟩ := ih clean (.left :: s) (fit.thenVoid s throws f)
          (apart.thenVoid throws f) st
        apply differs_left under (mem_thenVoid under)
        rwa [go_thenVoid, visits_tryCatch (apart.fail p (under_of_side under))]
  | catching m isA throws h ih ihh =>
      by_cases clean : m.Clean
      · by_cases raising : ∀ e, m.raised = some e → isA e = false
        · have wrong : ¬ ∀ e, m.outcome = .error e → isA e = true → throws e = none →
              (h e).Clean := fun c => unclean ⟨clean, raising, c⟩
          simp only [not_forall] at wrong
          obtain ⟨e, result, taken, returns, unclean⟩ := wrong
          exact differs_catching fit apart clean result taken
            (.inr ⟨returns, fun st => ihh e unclean _ fit apart.right st⟩) st
        · simp only [not_forall, Bool.not_eq_false] at raising
          obtain ⟨e, raises, taken⟩ := raising
          exact differs_catching fit apart clean (outcome_raised raises clean) taken
            (.inl raises) st
      · obtain ⟨p, under, differs⟩ := ih clean (.left :: s) (fit.catching s isA throws h)
          (apart.catching isA throws h) st
        exact differs_left under (mem_catching under) differs

end Prog

/-! ## Running a whole program -/

namespace Prog

/-- The continuations that `run` gives to the core. -/
def outermost : Conts (Except E a) E a where
  pass v := once (call (.ok v))
  fail e := once (call (.error e))

theorem outermost_pass (v : a) :
    (outermost.pass v : Act (Except E a) E Unit) = once (call (.ok v)) := rfl

theorem outermost_fail (e : E) :
    ((outermost : Conts (Except E a) E a).fail e) = once (call (.error e)) := rfl

theorem once_apply (r : R) (st : Shared (World R)) :
    (once (call r) : Act R E Unit) st = (.ok (), if st.completed then st
      else ⟨true, { st.rest with calls := st.rest.calls ++ [r] }⟩) := by
  unfold once
  rw [Effect.bind_apply, Effect.get_apply]
  rcases st with ⟨completed, rest⟩
  cases completed <;> rfl

theorem once_entered (r : R) (st : Shared (World R)) :
    ((once (call r) : Act R E Unit) st).2.rest.entered = st.rest.entered := by
  rw [once_apply]
  cases st.completed <;> rfl

theorem once_moves {r : Shared (World R) → Shared (World R) → Prop} (result : R)
    (same : ∀ st st', st'.rest.entered = st.rest.entered → r st st') :
    (once (call result) : Act R E Unit).Moves r :=
  fun st => same st _ (once_entered result st)

theorem once_quiet (result : R) : (once (call result) : Act R E Unit).Quiet :=
  fun st => by rw [once_apply]

theorem outermost_fit : (outermost : Conts (Except E a) E a).Fit where
  quiet e := by
    rw [outermost_fail]
    exact once_quiet _
  pass v := once_moves _ fun st st' same p => by rw [visits, visits, same]
  fail e := once_moves _ fun st st' same p => by rw [visits, visits, same]

theorem outermost_apart (s : Site) : (outermost : Conts (Except E a) E a).Apart s where
  pass p _ v := once_moves _ fun st st' same => by rw [Keeps, visits, visits, same]
  fail p _ e := once_moves _ fun st st' same => by rw [Keeps, visits, visits, same]

theorem run_start (m : Prog E a) :
    m.run start = (tryCatch (m.go [] outermost) outermost.fail) start := by
  rw [run, Io.run, Effect.bind_apply, Effect.modify_apply]
  rfl

/-- A clean program runs as it evaluates. -/
theorem run_clean {m : Prog E a} (clean : m.Clean) :
    m.run start = (.ok (), ⟨true, m.entries [], [m.outcome]⟩) := by
  obtain ⟨stray, -, go⟩ := settles clean [] (outermost_fit (a := a) (E := E))
  rw [run_start, Effect.tryCatch_congr _ (go start)]
  cases result : m.outcome with
  | ok v =>
      have quiet : (outermost.pass v : Act (Except E a) E Unit).Quiet := by
        rw [outermost_pass]
        exact once_quiet _
      rw [finish_ok result, guarded_quiet quiet, Effect.tryCatch_ok _ (quiet _), outermost_pass,
        once_apply]
      rfl
  | error e =>
      rw [tryCatch_finish_error result _ outermost_fit.quiet, outermost_fail, once_apply]
      rfl

/-- Running a program is evaluating it exactly when it is clean. -/
theorem faithful_iff_clean (m : Prog E a) : m.Faithful ↔ m.Clean := by
  constructor
  · intro faithful
    by_contra unclean
    obtain ⟨p, -, differs⟩ := differs_of_unclean unclean [] outermost_fit (outermost_apart [])
      (start : Shared (World (Except E a)))
    have entered := faithful.entered p
    rw [run_start, eval_apply] at entered
    have ran : visits p ((m.go [] outermost) start).2 = (m.entries []).count p :=
      (visits_tryCatch ((outermost_apart []).fail p List.nil_suffix) start).symm.trans
        (by simpa [visits, start] using entered)
    have fresh : visits p (start : Shared (World (Except E a))) = 0 := rfl
    rcases differs with ⟨member, same⟩ | ⟨absent, more⟩
    · have positive := List.count_pos_iff.mpr member
      omega
    · have zero := List.count_eq_zero_of_not_mem absent
      omega
  · intro clean
    constructor
    · rw [run_clean clean, eval_apply]
    · intro s
      rw [run_clean clean, eval_apply]
      rfl

/-- A read that takes one exception for a missing entry, followed by a
continuation that throws that exception. -/
def strayed : Prog Nat Nat :=
  .thenVal
    (.catching (.thenVal (.lift 0) (fun _ => none) .lift) (· == 7) (fun _ => none) fun _ => .lift 1)
    (fun _ => some 7) .lift

/-- The exception enters the handler before it, and the continuation runs a
second time. -/
theorem strayed_not_faithful : ¬ strayed.Faithful :=
  fun faithful => absurd (faithful.entered []) (by decide)

end Prog

end SidepoolFormal.Io
