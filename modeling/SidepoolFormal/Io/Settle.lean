import SidepoolFormal.Io.Evaluation

/-!
# What a clean program does

Given its continuations, a clean program enters the functions of its
evaluation and then passes its value, inside the try block that it leaves
open, or fails, or throws where a primitive has thrown.  An exception that
comes back to the open try block through a handler is handled a second time:
it strays.
-/

namespace SidepoolFormal.Io

open Library

variable {E a b R : Type}

/-! ## Growing records -/

/-- How often a site was entered. -/
def visits (p : Site) (st : Shared (World R)) : Nat := st.rest.entered.count p

/-- No visit is ever forgotten. -/
def Grows (st st' : Shared (World R)) : Prop := ∀ p, visits p st ≤ visits p st'

/-- The visits of one site stay as they are. -/
def Keeps (p : Site) (st st' : Shared (World R)) : Prop := visits p st' = visits p st

instance : IsPreorder (Shared (World R)) Grows where
  refl _ _ := Nat.le_refl _
  trans _ _ _ h h' p := Nat.le_trans (h p) (h' p)

instance (p : Site) : IsPreorder (Shared (World R)) (Keeps p) where
  refl _ := rfl
  trans _ _ _ h h' := h'.trans h

@[simp] theorem visits_log (p : Site) (l : List Site) (st : Shared (World R)) :
    visits p (log l st) = visits p st + l.count p := by
  simp [visits]

theorem grows_log (l : List Site) (st : Shared (World R)) : Grows st (log l st) := by
  intro p
  rw [visits_log]
  exact Nat.le_add_right _ _

theorem keeps_log {p : Site} {l : List Site} (absent : p ∉ l) (st : Shared (World R)) :
    Keeps p st (log l st) := by
  rw [Keeps, visits_log, List.count_eq_zero_of_not_mem absent, Nat.add_zero]

/-! ## Entering a function and running what it returns -/

/-- The two continuations that a program is given. -/
structure Conts (R E a : Type) where
  pass : a → Act R E Unit
  fail : E → Act R E Unit

/-- Enter a function at a site and run the program it returns. -/
def next (s : Site) (throws : Option E) (p : Prog E b) (k : Conts R E b) : Act R E Unit := do
  let io ← enter s throws (p.io (.right :: s))
  io k.pass k.fail

theorem next_apply (s : Site) (throws : Option E) (p : Prog E b) (k : Conts R E b)
    (st : Shared (World R)) :
    next s throws p k st = match throws with
      | some e => (.error e, log [s] st)
      | none => p.io (.right :: s) k.pass k.fail (log [s] st) := by
  rw [next, Effect.bind_apply, enter_apply]
  cases throws <;> rfl

/-- The continuations of the program to the left of a `then`. -/
def Conts.thenVal (k : Conts R E b) (s : Site) (throws : a → Option E) (f : a → Prog E b) :
    Conts R E a :=
  ⟨fun v => next s (throws v) (f v) k, k.fail⟩

def Conts.thenVoid (k : Conts R E b) (s : Site) (throws : Option E) (f : Prog E b) :
    Conts R E Unit :=
  ⟨fun _ => tryCatch (next s throws f k) k.fail, k.fail⟩

/-- The continuations of the program to the left of a `catching`. -/
def Conts.catching (k : Conts R E a) (s : Site) (isA : E → Bool) (throws : E → Option E)
    (h : E → Prog E a) : Conts R E a :=
  ⟨k.pass, fun e => if isA e then tryCatch (next s (throws e) (h e) k) k.fail else k.fail e⟩

namespace Prog

/-- Run a program with its continuations. -/
def go (m : Prog E a) (s : Site) (k : Conts R E a) : Act R E Unit := m.io s k.pass k.fail

theorem go_thenVal (m : Prog E a) (throws : a → Option E) (f : a → Prog E b) (s : Site)
    (k : Conts R E b) :
    (Prog.thenVal m throws f).go s k =
      tryCatch (m.go (.left :: s) (k.thenVal s throws f)) k.fail := rfl

theorem go_thenVoid (m : Prog E Unit) (throws : Option E) (f : Prog E b) (s : Site)
    (k : Conts R E b) :
    (Prog.thenVoid m throws f).go s k =
      tryCatch (m.go (.left :: s) (k.thenVoid s throws f)) k.fail := rfl

theorem go_catching (m : Prog E a) (isA : E → Bool) (throws : E → Option E) (h : E → Prog E a)
    (s : Site) (k : Conts R E a) :
    (Prog.catching m isA throws h).go s k = m.go (.left :: s) (k.catching s isA throws h) := rfl

end Prog

/-! ## Contexts -/

/-- Continuations that a program may be given: records only grow, and the one
for exceptions never throws. -/
structure Conts.Fit (k : Conts R E a) : Prop where
  quiet : ∀ e, (k.fail e).Quiet
  pass : ∀ v, (k.pass v).Moves Grows
  fail : ∀ e, (k.fail e).Moves Grows

theorem next_moves {r : Shared (World R) → Shared (World R) → Prop}
    [IsPreorder (Shared (World R)) r] {s : Site} {throws : Option E} {p : Prog E b}
    {k : Conts R E b} (recording : ∀ st, r st (log [s] st))
    (right : (p.go (.right :: s) k).Moves r) : (next s throws p k).Moves r := by
  intro st
  rw [next_apply]
  cases throws with
  | some e => exact recording st
  | none => exact IsTrans.trans _ _ _ (recording st) (right _)

/-- A relation that recording below a site respects is respected by a program
there, if its continuations respect it. -/
theorem Prog.go_moves {r : Shared (World R) → Shared (World R) → Prop}
    [IsPreorder (Shared (World R)) r] (m : Prog E a) (s : Site) {k : Conts R E a}
    (recording : ∀ p, s <:+ p → ∀ st, r st (log [p] st)) (pass : ∀ v, (k.pass v).Moves r)
    (fail : ∀ e, (k.fail e).Moves r) : (m.go s k).Moves r := by
  have here (side : Side) {s : Site} (recording : ∀ p, s <:+ p → ∀ st, r st (log [p] st)) :
      ∀ p, (side :: s) <:+ p → ∀ st, r st (log [p] st) :=
    fun p under => recording p (under_of_side under)
  induction m generalizing s with
  | lift v => exact pass v
  | prim p =>
      cases p with
      | pass v => exact pass v
      | fail e => exact fail e
      | raise e => exact Effect.Moves.throw e
  | thenVal m throws f ih ihf =>
      have entering (v) : (next s (throws v) (f v) k).Moves r :=
        next_moves (recording s List.suffix_rfl) (ihf v _ (here .right recording) pass fail)
      have left : (m.go (.left :: s) (k.thenVal s throws f)).Moves r :=
        ih _ (here .left recording) entering fail
      exact Effect.Moves.tryCatch left fail
  | thenVoid m throws f ih ihf =>
      have entering : (next s throws f k).Moves r :=
        next_moves (recording s List.suffix_rfl) (ihf _ (here .right recording) pass fail)
      have left : (m.go (.left :: s) (k.thenVoid s throws f)).Moves r :=
        ih _ (here .left recording) (fun _ => Effect.Moves.tryCatch entering fail) fail
      exact Effect.Moves.tryCatch left fail
  | catching m isA throws h ih ihh =>
      have entering (e) : (next s (throws e) (h e) k).Moves r :=
        next_moves (recording s List.suffix_rfl) (ihh e _ (here .right recording) pass fail)
      have subFail (e) : ((k.catching s isA throws h).fail e).Moves r := by
        simp only [Conts.catching]
        split
        · exact Effect.Moves.tryCatch (entering e) fail
        · exact fail e
      exact ih _ (k := k.catching s isA throws h) (here .left recording) pass subFail

theorem Prog.go_grows (m : Prog E a) (s : Site) {k : Conts R E a} (fit : k.Fit) :
    (m.go s k).Moves Grows :=
  m.go_moves s (fun p _ => grows_log [p]) fit.pass fit.fail

theorem next_grows (s : Site) (throws : Option E) (p : Prog E b) {k : Conts R E b} (fit : k.Fit) :
    (next s throws p k).Moves Grows :=
  next_moves (grows_log [s]) (p.go_grows _ fit)

/-- Entering a function is a visit, whatever happens next. -/
theorem visits_next (s : Site) (throws : Option E) (p : Prog E b) {k : Conts R E b} (fit : k.Fit)
    (st : Shared (World R)) :
    visits s st < visits s ((tryCatch (next s throws p k) k.fail) st).2 := by
  have entered : visits s (log [s] st) = visits s st + 1 := by simp
  have later : Grows (log [s] st) ((tryCatch (next s throws p k) k.fail) st).2 := by
    rw [Effect.tryCatch_apply, next_apply]
    cases throws with
    | some e => exact fit.fail e _
    | none =>
        have moved := p.go_grows (.right :: s) fit (log [s] st)
        rw [Prog.go] at moved
        rcases result : p.io (.right :: s) k.pass k.fail (log [s] st) with ⟨e | u, st'⟩
        · rw [result] at moved
          exact IsTrans.trans _ _ _ moved (fit.fail e st')
        · rwa [result] at moved
  have := later s
  omega

namespace Conts.Fit

theorem thenVal {k : Conts R E b} (fit : k.Fit) (s : Site) (throws : a → Option E)
    (f : a → Prog E b) : (k.thenVal s throws f).Fit where
  quiet := fit.quiet
  pass v := next_grows s (throws v) (f v) fit
  fail := fit.fail

theorem thenVoid {k : Conts R E b} (fit : k.Fit) (s : Site) (throws : Option E) (f : Prog E b) :
    (k.thenVoid s throws f).Fit where
  quiet := fit.quiet
  pass _ := Effect.Moves.tryCatch (next_grows s throws f fit) fit.fail
  fail := fit.fail

theorem catching {k : Conts R E a} (fit : k.Fit) (s : Site) (isA : E → Bool)
    (throws : E → Option E) (h : E → Prog E a) : (k.catching s isA throws h).Fit where
  quiet e := by
    simp only [Conts.catching]
    split
    · exact Effect.Quiet.tryCatch fit.quiet
    · exact fit.quiet e
  pass := fit.pass
  fail e := by
    simp only [Conts.catching]
    split
    · exact Effect.Moves.tryCatch (next_grows s (throws e) (h e) fit) fit.fail
    · exact fit.fail e

end Conts.Fit

/-! ## Settling -/

/-- A computation inside the open try block, if there is one. -/
def guarded (exposed : Option (List (E → Bool))) (stray fail : E → Act R E Unit)
    (x : Act R E Unit) : Act R E Unit :=
  match exposed with
  | none => x
  | some handlers => tryCatch x fun e => if handlers.any (· e) then stray e else fail e

theorem quiet_stray {stray fail : E → Act R E Unit} (strays : ∀ e, (stray e).Quiet)
    (fails : ∀ e, (fail e).Quiet) (handlers : List (E → Bool)) (e : E) :
    (if handlers.any (· e) then stray e else fail e).Quiet := by
  split
  · exact strays e
  · exact fails e

/-- Inside another try block with the same way out, something is always open. -/
theorem tryCatch_guarded (exposed : Option (List (E → Bool))) {stray fail : E → Act R E Unit}
    (strays : ∀ e, (stray e).Quiet) (fails : ∀ e, (fail e).Quiet) (x : Act R E Unit) :
    tryCatch (guarded exposed stray fail x) fail =
      guarded (some (exposed.getD [])) stray fail x := by
  cases exposed with
  | none => simp [guarded]
  | some handlers =>
      exact Effect.tryCatch_tryCatch _ (quiet_stray strays fails handlers)

/-- An exception that no handler takes leaves the open try block for good. -/
theorem guarded_error (exposed : Option (List (E → Bool))) {stray fail : E → Act R E Unit}
    {x : Act R E Unit} {st st' : Shared (World R)} {e : E} (thrown : x st = (.error e, st'))
    (untaken : ∀ handlers, exposed = some handlers → handlers.any (· e) = false) :
    guarded (some (exposed.getD [])) stray fail x st = fail e st' := by
  have none : (exposed.getD []).any (· e) = false := by
    cases exposed with
    | none => rfl
    | some handlers => exact untaken handlers rfl
  rw [guarded, Effect.tryCatch_apply, thrown]
  simp [none]

theorem guarded_nil (stray fail : E → Act R E Unit) (x : Act R E Unit) :
    guarded (some []) stray fail x = tryCatch x fail := by
  simp [guarded]

theorem guarded_quiet {exposed : Option (List (E → Bool))} {stray fail : E → Act R E Unit}
    {x : Act R E Unit} (quiet : x.Quiet) : guarded exposed stray fail x = x := by
  cases exposed with
  | none => rfl
  | some handlers => exact Effect.tryCatch_quiet quiet _

/-- How a program goes on when its evaluation has ended. -/
def Prog.finish (m : Prog E a) (stray : E → Act R E Unit) (k : Conts R E a) : Act R E Unit :=
  match m.outcome with
  | .ok v => guarded m.exposed stray k.fail (k.pass v)
  | .error e => if m.raised.isSome then throw e else k.fail e

/-- What happens to an exception that a handler takes wrongly: nothing is
thrown, and a function is entered that the evaluation does not enter. -/
structure Prog.Strays (m : Prog E a) (s : Site) (stray : E → Act R E Unit) : Prop where
  quiet : ∀ e, (stray e).Quiet
  enters : ∀ v, m.outcome = .ok v → ∀ handlers, m.exposed = some handlers →
    ∀ e, handlers.any (· e) = true →
      ∃ p, s <:+ p ∧ p ∉ m.entries s ∧ ∀ st, visits p st < visits p (stray e st).2

/-- The program does what its evaluation says. -/
def Prog.Settles (m : Prog E a) (s : Site) (k : Conts R E a) : Prop :=
  ∃ stray, m.Strays s stray ∧ ∀ st, m.go s k st = m.finish stray k (log (m.entries s) st)

/-- A core that throws at once does nothing else. -/
theorem Prog.go_raised {m : Prog E a} {e : E} (raises : m.raised = some e) (s : Site)
    (k : Conts R E a) (st : Shared (World R)) : m.go s k st = (.error e, st) := by
  induction m generalizing s with
  | lift v => cases raises
  | prim p =>
      cases p with
      | pass v => cases raises
      | fail e' => cases raises
      | raise e' =>
          cases raises
          rfl
  | thenVal m throws f ih ihf => cases raises
  | thenVoid m throws f ih ihf => cases raises
  | catching m isA throws h ih ihh => exact ih raises _ (k.catching s isA throws h)

theorem Prog.outcome_raised {m : Prog E a} {e : E} (raises : m.raised = some e)
    (untaken : m.Clean) : m.outcome = .error e := by
  induction m with
  | lift v => cases raises
  | prim p =>
      cases p with
      | pass v => cases raises
      | fail e' => cases raises
      | raise e' =>
          cases raises
          rfl
  | thenVal m throws f ih ihf => cases raises
  | thenVoid m throws f ih ihf => cases raises
  | catching m isA throws h ih ihh =>
      have inner := ih raises untaken.1
      simp [outcome, inner, untaken.2.1 e raises]

/-- How a function goes on inside a try block when what it returns has been
evaluated. -/
def Prog.follow (p : Prog E b) (s : Site) (throws : Option E) (handlers : List (E → Bool))
    (stray : E → Act R E Unit) (k : Conts R E b) : Act R E Unit := fun st =>
  match throws with
  | some e => k.fail e (log [s] st)
  | none => (match p.outcome with
    | .ok w => guarded (some (p.exposed.getD handlers)) stray k.fail (k.pass w)
    | .error e => k.fail e) (log (s :: p.entries (.right :: s)) st)

/-- Entering a function inside a try block that takes nothing the function
throws at once. -/
theorem guarded_next (p : Prog E b) {s : Site} {throws : Option E} {k : Conts R E b}
    (quiet : ∀ e, (k.fail e).Quiet) (handlers : List (E → Bool)) {outer : E → Act R E Unit}
    (outerQuiet : ∀ e, (outer e).Quiet)
    (untaken : ∀ e, Prog.thrown throws p = some e → handlers.any (· e) = false)
    (settles : throws = none → p.Settles (.right :: s) k) :
    ∃ stray, (∀ e, (stray e).Quiet) ∧
      (throws = none → (p.exposed = none → stray = outer) ∧
        ∀ hs, p.exposed = some hs → p.Strays (.right :: s) stray) ∧
      guarded (some handlers) outer k.fail (next s throws p k) =
        p.follow s throws handlers stray k := by
  have stays (x : Act R E Unit) (st : Shared (World R)) (fine : (x st).1 = .ok ()) :
      guarded (some handlers) outer k.fail x st = x st := Effect.tryCatch_ok _ fine
  have leaves {x : Act R E Unit} {st st' : Shared (World R)} {e : E}
      (threw : x st = (.error e, st')) (free : handlers.any (· e) = false) :
      guarded (some handlers) outer k.fail x st = k.fail e st' :=
    guarded_error (some handlers) threw fun hs same => Option.some.inj same ▸ free
  cases throws with
  | some e =>
      refine ⟨outer, outerQuiet, fun absurd => (by cases absurd), funext ?_⟩
      intro st
      exact leaves (next_apply s (some e) p k st) (untaken e rfl)
  | none =>
      obtain ⟨stray, strays, go⟩ := settles rfl
      have entered (st) : next s none p k st =
          p.finish stray k (log (s :: p.entries (.right :: s)) st) := by
        rw [next_apply]
        refine (go _).trans ?_
        rw [log_log, List.singleton_append]
      have failed {e : E} (result : p.outcome = .error e) (st : Shared (World R)) :
          guarded (some handlers) outer k.fail (next s none p k) st =
            k.fail e (log (s :: p.entries (.right :: s)) st) := by
        have go := entered st
        simp only [Prog.finish, result] at go
        cases raises : p.raised with
        | none =>
            simp only [raises, Option.isSome_none, Bool.false_eq_true, if_false] at go
            rw [stays _ _ (by rw [go]; exact quiet e _), go]
        | some e' =>
            simp only [raises, Option.isSome_some, if_true, Effect.throw_apply] at go
            have threw : next s none p k st = (.error e', log [s] st) :=
              (next_apply s none p k st).trans (Prog.go_raised raises _ k _)
            have same : e' = e := Except.error.inj (Prod.mk.inj (threw.symm.trans go)).1
            exact leaves go (untaken e (by rw [Prog.thrown, raises, same]; rfl))
      cases exposed : p.exposed with
      | none =>
          refine ⟨outer, outerQuiet, fun _ => ⟨fun _ => rfl, fun hs same => (by cases same)⟩,
            funext ?_⟩
          intro st
          cases result : p.outcome with
          | error e =>
              rw [failed result, Prog.follow, result]
          | ok w =>
              rw [Prog.follow, result, exposed]
              have go := entered st
              simp only [Prog.finish, result, exposed, guarded] at go
              exact Effect.tryCatch_congr _ go
      | some inner =>
          refine ⟨stray, strays.quiet, fun _ => ⟨fun same => (by cases same), fun _ _ => strays⟩,
            funext ?_⟩
          intro st
          cases result : p.outcome with
          | error e =>
              rw [failed result, Prog.follow, result]
          | ok w =>
              rw [Prog.follow, result, exposed]
              have go := entered st
              simp only [Prog.finish, result, exposed] at go
              rw [stays _ _ (by
                rw [go]
                exact Effect.Quiet.tryCatch (quiet_stray strays.quiet quiet inner) _), go]
              rfl

/-! ## Clean programs settle -/

namespace Prog

theorem under_of_mem_entries {m : Prog E a} {s p : Site} (h : p ∈ m.entries s) : s <:+ p := by
  have here {s p : Site} {throws : Option E} {c : Type} {q : Prog E c}
      (right : p ∈ q.entries (.right :: s) → (Side.right :: s) <:+ p)
      (h : p ∈ s :: match throws with
        | some _ => []
        | none => q.entries (.right :: s)) : s <:+ p := by
    rcases List.mem_cons.mp h with rfl | inner
    · exact List.suffix_rfl
    · cases throws with
      | some e => cases inner
      | none => exact under_of_side (right inner)
  induction m generalizing s with
  | lift v => cases h
  | prim r => cases h
  | thenVal m throws f ih ihf =>
      simp only [entries] at h
      rcases List.mem_append.mp h with left | rest
      · exact under_of_side (ih left)
      · cases result : m.outcome with
        | error e => simp [result] at rest
        | ok v =>
            simp only [result] at rest
            exact here (ihf v) rest
  | thenVoid m throws f ih ihf =>
      simp only [entries] at h
      rcases List.mem_append.mp h with left | rest
      · exact under_of_side (ih left)
      · cases result : m.outcome with
        | error e => simp [result] at rest
        | ok v =>
            simp only [result] at rest
            exact here ihf rest
  | catching m isA throws h' ih ihh =>
      simp only [entries] at h
      rcases List.mem_append.mp h with left | rest
      · exact under_of_side (ih left)
      · cases result : m.outcome with
        | ok v => simp [result] at rest
        | error e =>
            cases taken : isA e with
            | false => simp [result, taken] at rest
            | true =>
                simp only [result, taken, if_true] at rest
                exact here (ihh e) rest

theorem not_mem_left {m : Prog E a} {s p : Site} (h : (Side.right :: s) <:+ p) :
    p ∉ m.entries (.left :: s) := fun member => not_left_of_right h (under_of_mem_entries member)

theorem not_mem_right {m : Prog E a} {s p : Site} (h : (Side.left :: s) <:+ p) :
    p ∉ m.entries (.right :: s) := fun member => not_left_of_right (under_of_mem_entries member) h

theorem not_mem_here (m : Prog E a) (side : Side) (s : Site) : s ∉ m.entries (side :: s) :=
  fun member => ne_of_side (under_of_mem_entries member) rfl

/-- What strays before or behind a function enters something new. -/
theorem enters_next {m : Prog E a} {q : Prog E b} {s : Site} {handlers : List (E → Bool)}
    {outer stray : E → Act R E Unit} {w : b} (result : q.outcome = .ok w)
    (left : ∀ e, handlers.any (· e) = true → ∃ p, (Side.left :: s) <:+ p ∧
      p ∉ m.entries (.left :: s) ∧ ∀ st, visits p st < visits p (outer e st).2)
    (closed : q.exposed = none → stray = outer)
    (right : ∀ hs, q.exposed = some hs → q.Strays (.right :: s) stray) {e : E}
    (taken : (q.exposed.getD handlers).any (· e) = true) :
    ∃ p, s <:+ p ∧ p ∉ m.entries (.left :: s) ++ s :: q.entries (.right :: s) ∧
      ∀ st, visits p st < visits p (stray e st).2 := by
  simp only [List.mem_append, List.mem_cons, not_or]
  cases exposed : q.exposed with
  | none =>
      rw [exposed, Option.getD_none] at taken
      obtain ⟨p, under, fresh, more⟩ := left e taken
      rw [closed exposed]
      exact ⟨p, under_of_side under, ⟨fresh, ne_of_side under, not_mem_right under⟩, more⟩
  | some hs =>
      rw [exposed, Option.getD_some] at taken
      obtain ⟨p, under, fresh, more⟩ := (right hs exposed).enters w result hs exposed e taken
      exact ⟨p, under_of_side under, ⟨not_mem_left under, ne_of_side under, fresh⟩, more⟩

theorem finish_ok {m : Prog E a} {v : a} (result : m.outcome = .ok v)
    (stray : E → Act R E Unit) (k : Conts R E a) :
    m.finish stray k = guarded m.exposed stray k.fail (k.pass v) := by
  rw [finish, result]

theorem tryCatch_finish_error {m : Prog E a} {e : E} (result : m.outcome = .error e)
    (stray : E → Act R E Unit) {k : Conts R E a} (quiet : ∀ e, (k.fail e).Quiet) :
    tryCatch (m.finish stray k) k.fail = k.fail e := by
  funext st
  rw [finish, result]
  cases raises : m.raised with
  | none => exact Effect.tryCatch_ok k.fail (quiet e st)
  | some e' => rfl

theorem settles_thenVal {m : Prog E a} {throws : a → Option E} {f : a → Prog E b} {s : Site}
    {k : Conts R E b} (fit : k.Fit) (left : m.Settles (.left :: s) (k.thenVal s throws f))
    (right : ∀ v, m.outcome = .ok v →
      (∀ e, thrown (throws v) (f v) = some e →
        ∀ handlers, m.exposed = some handlers → handlers.any (· e) = false) ∧
      (throws v = none → (f v).Settles (.right :: s) k)) :
    (Prog.thenVal m throws f).Settles s k := by
  obtain ⟨outer, strays, go⟩ := left
  have inside (st) : (Prog.thenVal m throws f).go s k st =
      tryCatch (m.finish outer (k.thenVal s throws f)) k.fail
        (log (m.entries (.left :: s)) st) := Effect.tryCatch_congr k.fail (go st)
  cases result : m.outcome with
  | error e =>
      refine ⟨k.fail, ⟨fit.quiet, ?_⟩, ?_⟩
      · intro v same
        simp [outcome, result] at same
      · intro st
        have failed := tryCatch_finish_error result outer (fit.thenVal s throws f).quiet
        refine (inside st).trans ((congrFun failed _).trans ?_)
        simp [finish, outcome, entries, raised, result, Conts.thenVal]
  | ok v =>
      obtain ⟨untaken, settled⟩ := right v result
      have free (e) (thrown : Prog.thrown (throws v) (f v) = some e) :
          (m.exposed.getD []).any (· e) = false := by
        cases exposed : m.exposed with
        | none => rfl
        | some handlers => exact untaken e thrown handlers exposed
      obtain ⟨stray, quiet, inner, after⟩ :=
        guarded_next (f v) fit.quiet _ strays.quiet free settled
      refine ⟨stray, ⟨quiet, ?_⟩, ?_⟩
      · intro w same hs exposed e taken
        cases threw : throws v with
        | some e' => simp [outcome, result, threw] at same
        | none =>
            simp only [outcome, result, threw] at same
            simp only [Prog.exposed, result, Option.some.injEq] at exposed
            have left (e) (taken : (m.exposed.getD []).any (· e) = true) :
                ∃ p, (Side.left :: s) <:+ p ∧ p ∉ m.entries (.left :: s) ∧
                  ∀ st, visits p st < visits p (outer e st).2 := by
              cases opened : m.exposed with
              | none => simp [opened] at taken
              | some handlers =>
                  rw [opened, Option.getD_some] at taken
                  exact strays.enters v result handlers opened e taken
            have new := enters_next same left (inner threw).1 (inner threw).2
              (exposed.symm ▸ taken)
            simpa only [entries, result, threw] using new
      · intro st
        rw [inside, finish_ok result]
        have opened := tryCatch_guarded m.exposed strays.quiet fit.quiet
          (next s (throws v) (f v) k)
        refine (congrFun (opened.trans after) _).trans ?_
        cases threw : throws v with
        | some e => simp [follow, finish, outcome, entries, raised, result, threw]
        | none =>
            cases resultNext : (f v).outcome <;>
              simp [follow, finish, outcome, entries, raised, exposed, result, threw, resultNext]

/-- A function that is entered in a try block of its own. -/
theorem settles_next {m : Prog E a} {q : Prog E b} {s : Site} {throws : Option E}
    {k : Conts R E b} (fit : k.Fit) (right : throws = none → q.Settles (.right :: s) k) :
    ∃ stray, (∀ e, (stray e).Quiet) ∧
      tryCatch (next s throws q k) k.fail = q.follow s throws [] stray k ∧
      (throws = none → ∀ w, q.outcome = .ok w → ∀ e, (q.exposed.getD []).any (· e) = true →
        ∃ p, s <:+ p ∧ p ∉ m.entries (.left :: s) ++ s :: q.entries (.right :: s) ∧
          ∀ st, visits p st < visits p (stray e st).2) := by
  obtain ⟨stray, quiet, inner, after⟩ :=
    guarded_next q fit.quiet [] fit.quiet (fun _ _ => rfl) right
  refine ⟨stray, quiet, (guarded_nil _ _ _).symm.trans after, ?_⟩
  intro none w result e taken
  exact enters_next result (fun e absurd => by simp at absurd) (inner none).1 (inner none).2 taken

theorem settles_thenVoid {m : Prog E Unit} {throws : Option E} {f : Prog E b} {s : Site}
    {k : Conts R E b} (fit : k.Fit) (left : m.Settles (.left :: s) (k.thenVoid s throws f))
    (right : ∀ v, m.outcome = .ok v → throws = none → f.Settles (.right :: s) k) :
    (Prog.thenVoid m throws f).Settles s k := by
  obtain ⟨outer, strays, go⟩ := left
  have inside (st) : (Prog.thenVoid m throws f).go s k st =
      tryCatch (m.finish outer (k.thenVoid s throws f)) k.fail
        (log (m.entries (.left :: s)) st) := Effect.tryCatch_congr k.fail (go st)
  cases result : m.outcome with
  | error e =>
      refine ⟨k.fail, ⟨fit.quiet, ?_⟩, ?_⟩
      · intro v same
        simp [outcome, result] at same
      · intro st
        have failed := tryCatch_finish_error result outer (fit.thenVoid s throws f).quiet
        refine (inside st).trans ((congrFun failed _).trans ?_)
        simp [finish, outcome, entries, raised, result, Conts.thenVoid]
  | ok v =>
      obtain ⟨stray, quiet, after, enters⟩ := settles_next (m := m) fit (right v result)
      refine ⟨stray, ⟨quiet, ?_⟩, ?_⟩
      · intro w same hs exposed e taken
        cases throws with
        | some e' => simp [outcome, result] at same
        | none =>
            simp only [outcome, result] at same
            simp only [Prog.exposed, Option.some.injEq] at exposed
            simpa only [entries, result] using enters rfl w same e (exposed.symm ▸ taken)
      · intro st
        have own : ((k.thenVoid s throws f).pass v).Quiet := Effect.Quiet.tryCatch fit.quiet
        rw [inside, finish_ok result, guarded_quiet own]
        refine (Effect.tryCatch_ok k.fail (own _)).trans ((congrFun after _).trans ?_)
        cases throws with
        | some e => simp [follow, finish, outcome, entries, raised, result]
        | none =>
            cases resultNext : f.outcome <;>
              simp [follow, finish, outcome, entries, raised, exposed, result, resultNext]

theorem settles_catching {m : Prog E a} {isA : E → Bool} {throws : E → Option E}
    {h : E → Prog E a} {s : Site} {k : Conts R E a} (fit : k.Fit)
    (left : m.Settles (.left :: s) (k.catching s isA throws h))
    (spared : m.Clean) (raising : ∀ e, m.raised = some e → isA e = false)
    (right : ∀ e, m.outcome = .error e → isA e = true → throws e = none →
      (h e).Settles (.right :: s) k) :
    (Prog.catching m isA throws h).Settles s k := by
  obtain ⟨outer, strays, go⟩ := left
  have inside (st) : (Prog.catching m isA throws h).go s k st =
      m.finish outer (k.catching s isA throws h) (log (m.entries (.left :: s)) st) := go st
  cases result : m.outcome with
  | ok v =>
      let stray (e : E) : Act R E Unit :=
        if (m.exposed.getD []).any (· e) then outer e else (k.catching s isA throws h).fail e
      have strayQuiet (e : E) : (stray e).Quiet :=
        quiet_stray strays.quiet (fit.catching s isA throws h).quiet (m.exposed.getD []) e
      refine ⟨stray, ⟨strayQuiet, ?_⟩, ?_⟩
      · intro w same hs exposed e taken
        simp only [Prog.exposed, result] at exposed
        obtain ⟨handlers, opened, rfl⟩ := Option.map_eq_some_iff.mp exposed
        have entries : (Prog.catching m isA throws h).entries s = m.entries (.left :: s) := by
          simp [entries, result]
        rw [entries]
        cases before : handlers.any (· e) with
        | true =>
            obtain ⟨p, under, fresh, more⟩ := strays.enters v result handlers opened e before
            have same : stray e = outer e := by
              simp only [stray, opened, Option.getD_some, before, if_true]
            exact ⟨p, under_of_side under, fresh, same ▸ more⟩
        | false =>
            have here : isA e = true := by simpa [before] using taken
            have same : stray e = tryCatch (next s (throws e) (h e) k) k.fail := by
              simp only [stray, opened, Option.getD_some, before, Bool.false_eq_true, if_false,
                Conts.catching, here, if_true]
            exact ⟨s, List.suffix_rfl, not_mem_here m .left s,
              same ▸ visits_next s (throws e) (h e) fit⟩
      · intro st
        rw [inside, finish_ok result]
        simp only [finish, outcome, entries, Prog.exposed, result, List.append_nil]
        cases opened : m.exposed with
        | none => rfl
        | some handlers =>
            refine Effect.tryCatch_handlers ?_ _
            intro e
            simp only [stray, opened, Option.getD_some, List.any_cons, Conts.catching]
            cases before : handlers.any (· e) <;> cases here : isA e <;> rfl
  | error e =>
      cases taken : isA e with
      | false =>
          refine ⟨k.fail, ⟨fit.quiet, ?_⟩, ?_⟩
          · intro v same
            simp [outcome, result, taken] at same
          · intro st
            rw [inside]
            simp only [finish, outcome, entries, raised, result, taken, Conts.catching,
              Bool.false_eq_true, if_false, List.append_nil]
            rfl
      | true =>
          have silent : m.raised = none := by
            cases raises : m.raised with
            | none => rfl
            | some e' =>
                have same := Except.error.inj ((outcome_raised raises spared).symm.trans result)
                rw [same] at raises
                rw [raising e raises] at taken
                cases taken
          obtain ⟨stray, quiet, after, enters⟩ := settles_next (m := m) fit (right e result taken)
          refine ⟨stray, ⟨quiet, ?_⟩, ?_⟩
          · intro w same hs exposed e' taken'
            cases threw : throws e with
            | some e'' => simp [outcome, result, taken, threw] at same
            | none =>
                simp only [outcome, result, taken, threw, if_true] at same
                simp only [Prog.exposed, result, Option.some.injEq] at exposed
                simpa only [entries, result, taken, threw, if_true] using
                  enters threw w same e' (exposed.symm ▸ taken')
          · intro st
            rw [inside]
            simp only [finish, result, silent, Conts.catching, taken, if_true, Option.isSome_none,
              Bool.false_eq_true, if_false]
            refine (congrFun after _).trans ?_
            cases threw : throws e with
            | some e => simp [follow, outcome, entries, raised, result, taken, threw, silent]
            | none =>
                cases resultNext : (h e).outcome <;>
                  simp [follow, outcome, entries, raised, exposed, result, taken, threw,
                    silent, resultNext]

theorem settles {m : Prog E a} (clean : m.Clean) (s : Site) {k : Conts R E a} (fit : k.Fit) :
    m.Settles s k := by
  induction m generalizing s with
  | lift v =>
      refine ⟨k.fail, ⟨fit.quiet, fun _ _ _ same => (by cases same)⟩, ?_⟩
      intro st
      simp only [finish, outcome, exposed, guarded, entries, log_nil]
      rfl
  | prim r =>
      refine ⟨k.fail, ⟨fit.quiet, fun _ _ _ same => (by cases same)⟩, ?_⟩
      intro st
      cases r <;> simp only [finish, outcome, exposed, raised, guarded, entries, log_nil] <;> rfl
  | thenVal m throws f ih ihf =>
      apply settles_thenVal fit (ih clean.1 _ (fit.thenVal s throws f))
      intro v result
      obtain ⟨untaken, cleanNext⟩ := clean.2 v result
      exact ⟨untaken, fun none => ihf v (cleanNext none) _ fit⟩
  | thenVoid m throws f ih ihf =>
      exact settles_thenVoid fit (ih clean.1 _ (fit.thenVoid s throws f))
        fun v result none => ihf (clean.2 v result none) _ fit
  | catching m isA throws h ih ihh =>
      exact settles_catching fit (ih clean.1 _ (fit.catching s isA throws h)) clean.1 clean.2.1
        fun e result taken none => ihh e (clean.2.2 e result taken none) _ fit

end Prog

end SidepoolFormal.Io
