import Mathlib.Order.Defs.Unbundled

/-!
# Computations that change a state and may throw

What such a computation changed before it threw stays changed.  Two properties
are followed through sequencing and through a try block: that a computation
never throws, and that it moves the state along a reflexive and transitive
relation.  Destructors run however the code in front of them is left.
-/

namespace SidepoolFormal.Library

/-- A computation on states `σ` that throws `ε` or gives an `α`. -/
abbrev Effect (σ ε α : Type) := ExceptT ε (StateM σ) α

namespace Effect

variable {σ ε α β : Type}

theorem bind_apply (x : Effect σ ε α) (f : α → Effect σ ε β) (st : σ) :
    (x >>= f) st = match x st with
      | (.ok a, st) => f a st
      | (.error e, st) => (.error e, st) := by
  change (ExceptT.bindCont f (x st).1) (x st).2 = _
  rcases x st with ⟨e | a, st⟩
  · rfl
  · rfl

theorem tryCatch_apply (x : Effect σ ε α) (h : ε → Effect σ ε α) (st : σ) :
    (tryCatch x h) st = match x st with
      | (.ok a, st) => (.ok a, st)
      | (.error e, st) => h e st := by
  change (match (x st).1 with
    | .ok a => (pure (Except.ok a) : StateM σ (Except ε α))
    | .error e => h e) (x st).2 = _
  rcases x st with ⟨e | a, st⟩
  · rfl
  · rfl

theorem tryCatch_congr {x y : Effect σ ε α} {st st' : σ} (h : ε → Effect σ ε α)
    (same : x st = y st') : (tryCatch x h) st = (tryCatch y h) st' := by
  rw [tryCatch_apply, tryCatch_apply, same]

theorem tryCatch_handlers {x : Effect σ ε α} {h h' : ε → Effect σ ε α} (same : ∀ e, h e = h' e)
    (st : σ) : (tryCatch x h) st = (tryCatch x h') st := by
  rw [funext same]

theorem pure_apply (a : α) (st : σ) : (pure a : Effect σ ε α) st = (.ok a, st) := rfl

theorem throw_apply (e : ε) (st : σ) : (throw e : Effect σ ε α) st = (.error e, st) := rfl

theorem modify_apply (f : σ → σ) (st : σ) :
    (modify f : Effect σ ε PUnit) st = (.ok ⟨⟩, f st) := rfl

theorem get_apply (st : σ) : (get : Effect σ ε σ) st = (.ok st, st) := rfl

/-- Code that runs `clean` when an exception leaves it. -/
def onThrow (clean : σ → σ) (x : Effect σ ε α) : Effect σ ε α :=
  tryCatch x fun e => do
    modify clean
    throw e

/-- Code that runs `clean` when it is left. -/
def scope (clean : σ → σ) (x : Effect σ ε α) : Effect σ ε α := do
  let a ← onThrow clean x
  modify clean
  pure a

theorem onThrow_apply (clean : σ → σ) (x : Effect σ ε α) (st : σ) :
    (onThrow clean x) st = match x st with
      | (.ok a, st) => (.ok a, st)
      | (.error e, st) => (.error e, clean st) := by
  unfold onThrow
  rw [tryCatch_apply]
  rcases x st with ⟨e | a, st⟩
  · simp only [bind_apply, modify_apply, throw_apply]
  · rfl

theorem scope_apply (clean : σ → σ) (x : Effect σ ε α) (st : σ) :
    (scope clean x) st = ((x st).1, clean (x st).2) := by
  unfold scope
  rw [bind_apply, onThrow_apply]
  rcases x st with ⟨e | a, st⟩
  · rfl
  · simp only [bind_apply, modify_apply, pure_apply]

/-! ## Computations that never throw -/

def Quiet (x : Effect σ ε Unit) : Prop := ∀ st, (x st).1 = .ok ()

theorem Quiet.tryCatch {x : Effect σ ε Unit} {h : ε → Effect σ ε Unit}
    (handled : ∀ e, Quiet (h e)) : Quiet (tryCatch x h) := by
  intro st
  rw [tryCatch_apply]
  rcases x st with ⟨e | a, st⟩
  · exact handled e st
  · rfl

/-- A try block around a computation that does not throw here changes nothing. -/
theorem tryCatch_ok {x : Effect σ ε Unit} (h : ε → Effect σ ε Unit) {st : σ}
    (fine : (x st).1 = .ok ()) : (tryCatch x h) st = x st := by
  rw [tryCatch_apply]
  rcases result : x st with ⟨e | a, st⟩
  · rw [result] at fine
    cases fine
  · rfl

theorem tryCatch_quiet {x : Effect σ ε Unit} (quiet : Quiet x) (h : ε → Effect σ ε Unit) :
    tryCatch x h = x :=
  funext fun st => tryCatch_ok h (quiet st)

/-- A second try block around one whose handler never throws changes nothing. -/
theorem tryCatch_tryCatch {x : Effect σ ε Unit} {h : ε → Effect σ ε Unit}
    (h' : ε → Effect σ ε Unit) (handled : ∀ e, Quiet (h e)) :
    tryCatch (tryCatch x h) h' = tryCatch x h :=
  tryCatch_quiet (Quiet.tryCatch handled) h'

/-! ## Computations that move the state along a relation -/

def Moves (R : σ → σ → Prop) (x : Effect σ ε α) : Prop := ∀ st, R st (x st).2

theorem Moves.modify {R : σ → σ → Prop} {f : σ → σ} (moves : ∀ st, R st (f st)) :
    Moves R (modify f : Effect σ ε PUnit) := moves

theorem Moves.scope {R R' : σ → σ → Prop} {clean : σ → σ} {x : Effect σ ε α} (moves : Moves R x)
    (cleans : ∀ st st', R st st' → R' st (clean st')) : Moves R' (scope clean x) := by
  intro st
  rw [scope_apply]
  exact cleans _ _ (moves st)

section

variable {R : σ → σ → Prop} [IsPreorder σ R]

theorem Moves.throw (e : ε) : Moves R (throw e : Effect σ ε α) := fun st => refl st

theorem Moves.tryCatch {x : Effect σ ε α} {h : ε → Effect σ ε α} (first : Moves R x)
    (second : ∀ e, Moves R (h e)) : Moves R (tryCatch x h) := by
  intro st
  have moved := first st
  rw [tryCatch_apply]
  rcases result : x st with ⟨e | a, st'⟩
  · rw [result] at moved
    exact IsTrans.trans _ _ _ moved (second e st')
  · rwa [result] at moved

theorem Moves.pure (a : α) : Moves R (pure a : Effect σ ε α) := fun st => refl st

theorem Moves.get : Moves R (get : Effect σ ε σ) := fun st => refl st

theorem Moves.bind {x : Effect σ ε α} {f : α → Effect σ ε β} (first : Moves R x)
    (second : ∀ a, Moves R (f a)) : Moves R (x >>= f) := by
  intro st
  have moved := first st
  rw [bind_apply]
  rcases result : x st with ⟨e | a, st'⟩
  · rwa [result] at moved
  · rw [result] at moved
    exact IsTrans.trans _ _ _ moved (second a st')

theorem Moves.onThrow {clean : σ → σ} {x : Effect σ ε α} (moves : Moves R x)
    (cleans : ∀ st, R st (clean st)) : Moves R (onThrow clean x) :=
  moves.tryCatch fun e => (Moves.modify cleans).bind fun _ => Moves.throw e

end

/-! ## Computations that return -/

def Returns (x : Effect σ ε α) (st : σ) (a : α) (st' : σ) : Prop :=
  (x st).1 = .ok a ∧ st' = (x st).2

theorem returns_pure {a b : α} {st st' : σ} :
    Returns (pure a : Effect σ ε α) st b st' ↔ b = a ∧ st' = st := by
  simp only [Returns, pure_apply, Except.ok.injEq, eq_comm]

theorem returns_throw {e : ε} {a : α} {st st' : σ} :
    ¬Returns (throw e : Effect σ ε α) st a st' := by
  rintro ⟨returned, -⟩
  cases returned

theorem returns_modify {f : σ → σ} {a : PUnit} {st st' : σ} :
    Returns (modify f : Effect σ ε PUnit) st a st' ↔ st' = f st := by
  simp only [Returns, modify_apply, true_and]

theorem returns_get {st st' st'' : σ} :
    Returns (get : Effect σ ε σ) st st' st'' ↔ st' = st ∧ st'' = st := by
  simp only [Returns, get_apply, Except.ok.injEq, eq_comm]

theorem returns_bind {x : Effect σ ε α} {f : α → Effect σ ε β} {b : β} {st st'' : σ} :
    Returns (x >>= f) st b st'' ↔ ∃ a st', Returns x st a st' ∧ Returns (f a) st' b st'' := by
  unfold Returns
  rw [bind_apply]
  rcases x st with ⟨e | a, st'⟩
  · simp
  · constructor
    · rintro ⟨returned, same⟩
      exact ⟨a, st', ⟨rfl, rfl⟩, returned, same⟩
    · rintro ⟨_, _, ⟨value, rfl⟩, returned, same⟩
      cases value
      exact ⟨returned, same⟩

theorem returns_onThrow {clean : σ → σ} {x : Effect σ ε α} {a : α} {st st' : σ} :
    Returns (onThrow clean x) st a st' ↔ Returns x st a st' := by
  unfold Returns
  rw [onThrow_apply]
  rcases x st with ⟨e | a, st'⟩
  · simp
  · rfl

theorem returns_scope {clean : σ → σ} {x : Effect σ ε α} {a : α} {st st'' : σ} :
    Returns (scope clean x) st a st'' ↔ ∃ st', Returns x st a st' ∧ st'' = clean st' := by
  unfold Returns
  rw [scope_apply]
  constructor
  · rintro ⟨returned, same⟩
    exact ⟨_, ⟨returned, rfl⟩, same⟩
  · rintro ⟨-, ⟨returned, rfl⟩, same⟩
    exact ⟨returned, same⟩

/-- A try block gives what its handler does not when the code in it does. -/
theorem returns_tryCatch {x : Effect σ ε α} {h : ε → Effect σ ε α} {a : α} {st st' : σ}
    (other : ∀ e st st', ¬Returns (h e) st a st') :
    Returns (tryCatch x h) st a st' ↔ Returns x st a st' := by
  unfold Returns
  rw [tryCatch_apply]
  rcases x st with ⟨e | b, st''⟩
  · simpa using fun returned same => other e st'' st' ⟨returned, same⟩
  · rfl

end Effect

end SidepoolFormal.Library
