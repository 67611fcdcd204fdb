import Mathlib.Data.List.Infix

/-!
# Two-way routines on a tape

A tape is either read from its front or written at its end.  A two-way routine
carries an object past the tape: on a writing tape it appends the object's
word, on a reading tape it replaces the object by the one whose word stands
there.  One routine serves both directions, so one statement covers them: the
routine carries `x` as the word `w` when writing appends `w`, when reading `w`
gives `x` whatever the object was, and when no strict prefix of `w` can be
read at all.
-/

namespace SidepoolFormal.Library

inductive Tape (β : Type) where
  | reading (rest : List β)
  | writing (done : List β)
  deriving DecidableEq, Repr

/-- A routine that carries an object of type `α` past a tape, or throws. -/
abbrev Routine (ε β α : Type) := Tape β → α → Except ε (Tape β × α)

section

variable {ε β α γ : Type}

/-- Carry one token. -/
def Tape.token (eof : ε) : Routine ε β β
  | .reading [], _ => .error eof
  | .reading (b :: rest), _ => .ok (.reading rest, b)
  | .writing done, b => .ok (.writing (done ++ [b]), b)

/-- Carry an object through its representation. -/
def Routine.through (r : Routine ε β γ) (pack : α → γ) (unpack : γ → α) : Routine ε β α :=
  fun t x => (r t (pack x)).map fun out => (out.1, unpack out.2)

/-- Carry two objects, one after the other. -/
def Routine.both (r : Routine ε β α) (s : Routine ε β γ) : Routine ε β (α × γ) :=
  fun t x => do
    let (t, a) ← r t x.1
    let (t, c) ← s t x.2
    .ok (t, (a, c))

/-- Carry every element of a list in place. -/
def Routine.each (r : Routine ε β α) : Routine ε β (List α)
  | t, [] => .ok (t, [])
  | t, x :: rest => do
      let (t, x) ← r t x
      let (t, rest) ← each r t rest
      .ok (t, x :: rest)

theorem Routine.each_length {r : Routine ε β α} {t t' : Tape β} {xs ys : List α}
    (h : r.each t xs = .ok (t', ys)) : ys.length = xs.length := by
  induction xs generalizing t t' ys with
  | nil =>
      cases h
      rfl
  | cons x rest ih =>
      simp only [Routine.each, bind, Except.bind] at h
      cases head : r t x with
      | error e => simp [head] at h
      | ok out =>
          cases tail : r.each out.1 rest with
          | error e => simp [head, tail] at h
          | ok out' =>
              simp only [head, tail, Except.ok.injEq, Prod.mk.injEq] at h
              rw [← h.2, List.length_cons, List.length_cons, ih tail]

/-- The routine carries `x` as the word `w`, starting from the object `y`. -/
structure Carries (eof : ε) (r : Routine ε β α) (x : α) (w : List β) (y : α) : Prop where
  writes : ∀ done, r (.writing done) x = .ok (.writing (done ++ w), x)
  reads : ∀ rest, r (.reading (w ++ rest)) y = .ok (.reading rest, x)
  starves : ∀ p, p <+: w → p ≠ w → r (.reading p) y = .error eof

/-- A strict prefix of a concatenation ends in one of its halves. -/
theorem strict_prefix_append {p v w : List β} (inside : p <+: v ++ w) (strict : p ≠ v ++ w) :
    (p <+: v ∧ p ≠ v) ∨ ∃ q, p = v ++ q ∧ q <+: w ∧ q ≠ w := by
  by_cases early : p <+: v ∧ p ≠ v
  · exact .inl early
  · right
    rcases List.prefix_or_prefix_of_prefix inside (List.prefix_append v w) with h | ⟨q, rfl⟩
    · have same : p = v := by
        by_contra differ
        exact early ⟨h, differ⟩
      subst same
      exact ⟨[], (List.append_nil p).symm, List.nil_prefix, by rintro rfl; simp at strict⟩
    · refine ⟨q, rfl, (List.prefix_append_right_inj v).mp inside, ?_⟩
      rintro rfl
      exact strict rfl

namespace Carries

variable {eof : ε} {r : Routine ε β α} {s : Routine ε β γ}

theorem token (eof : ε) (x y : β) : Carries eof (Tape.token eof) x [x] y where
  writes _ := rfl
  reads _ := rfl
  starves p inside strict := by
    cases p with
    | nil => rfl
    | cons b rest =>
        obtain ⟨rfl, short⟩ := List.cons_prefix_cons.mp inside
        exact absurd (congrArg (List.cons b) (List.prefix_nil.mp short)) strict

/-- A representation that loses nothing of `x` carries `x` as its packed form. -/
theorem through {pack : α → γ} {unpack : γ → α} {x y : α} {w : List β}
    (h : Carries eof s (pack x) w (pack y)) (back : unpack (pack x) = x) :
    Carries eof (s.through pack unpack) x w y where
  writes done := by simp [Routine.through, h.writes, back, Except.map]
  reads rest := by simp [Routine.through, h.reads, back, Except.map]
  starves p inside strict := by simp [Routine.through, h.starves p inside strict, Except.map]

theorem both {x y : α} {x' y' : γ} {v w : List β}
    (first : Carries eof r x v y) (second : Carries eof s x' w y') :
    Carries eof (r.both s) (x, x') (v ++ w) (y, y') where
  writes done := by
    simp [Routine.both, first.writes, second.writes, bind, Except.bind]
  reads rest := by
    simp [Routine.both, first.reads, second.reads, bind, Except.bind]
  starves p inside strict := by
    rcases strict_prefix_append inside strict with ⟨h, ne⟩ | ⟨q, rfl, h, ne⟩
    · simp [Routine.both, first.starves p h ne, bind, Except.bind]
    · simp [Routine.both, first.reads, second.starves q h ne, bind, Except.bind]

/-- The elements of a list are carried one after the other over any
destination that already has the right length. -/
theorem each {xs ys : List α} {ws : List (List β)} (room : ys.length = xs.length)
    (h : List.Forall₂ (fun x w => ∀ y, Carries eof r x w y) xs ws) :
    Carries eof r.each xs ws.flatten ys := by
  induction h generalizing ys with
  | nil =>
      obtain rfl := List.length_eq_zero_iff.mp room
      refine ⟨?_, fun rest => rfl, ?_⟩
      · intro done
        simp [Routine.each]
      · intro p inside strict
        exact absurd (List.prefix_nil.mp inside) strict
  | @cons x w xs ws head tail ih =>
      cases ys with
      | nil => cases room
      | cons y ys =>
          have rest := ih (Nat.succ.inj room)
          refine ⟨?_, ?_, ?_⟩
          · intro done
            simp [Routine.each, (head x).writes, rest.writes, bind, Except.bind]
          · intro after
            simp [Routine.each, (head y).reads, rest.reads, bind, Except.bind]
          · intro p inside strict
            rcases strict_prefix_append inside strict with ⟨h, ne⟩ | ⟨q, rfl, h, ne⟩
            · simp [Routine.each, (head y).starves p h ne, bind, Except.bind]
            · simp [Routine.each, (head y).reads, rest.starves q h ne, bind, Except.bind]

end Carries

end

end SidepoolFormal.Library
