import SidepoolFormal.Library.Effect
import SidepoolFormal.Library.Tape

/-!
# Decoders that take notes

A format is a set of words.  A decoder reads a word from the front of its input
and notes what it does on the way; it may also give up.  What it reads and what
it notes is said by the format alone, and of decoders in sequence by the formats
in sequence, provided that no word of the first has another one as a front.
-/

namespace SidepoolFormal.Library

variable {β : Type}

/-! ## Formats -/

/-- No input has two words of the format as its front. -/
def Unambiguous (Word : List β → Prop) : Prop :=
  ∀ w w' rest rest', Word w → Word w' → w ++ rest = w' ++ rest' → w = w'

/-- The words of a fixed length. -/
def Fixed (n : Nat) (w : List β) : Prop := w.length = n

/-- A word, and one of the format that it says comes next. -/
def Then (Word : List β → Prop) (Next : List β → List β → Prop) (w : List β) : Prop :=
  ∃ v u, w = v ++ u ∧ Word v ∧ Next v u

/-- So many words. -/
def Times (Word : List β → Prop) : Nat → List β → Prop
  | 0 => Fixed 0
  | n + 1 => Then Word fun _ => Times Word n

/-- What is noted after a word. -/
def After {ν : Type} (Word : List β → Prop) (Notes : List β → List β → ν → Prop) (bs : List β)
    (n : ν) : Prop :=
  ∃ w rest, bs = w ++ rest ∧ Word w ∧ Notes w rest n

theorem Unambiguous.fixed (n : Nat) : Unambiguous (Fixed n : List β → Prop) := by
  intro w w' rest rest' word word' same
  exact (List.append_inj same (word.trans word'.symm)).1

theorem Unambiguous.then {Word : List β → Prop} {Next : List β → List β → Prop}
    (first : Unambiguous Word) (second : ∀ w, Word w → Unambiguous (Next w)) :
    Unambiguous (Then Word Next) := by
  rintro _ _ rest rest' ⟨v, u, rfl, word, next⟩ ⟨v', u', rfl, word', next'⟩ same
  rw [List.append_assoc, List.append_assoc] at same
  obtain rfl := first v v' _ _ word word' same
  rw [second v word u u' rest rest' next next' (List.append_cancel_left same)]

theorem Unambiguous.times {Word : List β → Prop} (word : Unambiguous Word) (n : Nat) :
    Unambiguous (Times Word n) := by
  induction n with
  | zero => exact .fixed 0
  | succ n ih => exact word.then fun _ _ => ih

theorem After.at {ν : Type} {Word : List β → Prop} {Notes : List β → List β → ν → Prop}
    (plain : Unambiguous Word) {w rest : List β} (word : Word w) {n : ν} :
    After Word Notes (w ++ rest) n ↔ Notes w rest n := by
  constructor
  · rintro ⟨w', rest', same, word', notes⟩
    obtain rfl := plain w w' rest rest' word word' same
    rwa [List.append_cancel_left same]
  · intro notes
    exact ⟨w, rest, rfl, word, notes⟩

theorem not_after {ν : Type} {Word : List β → Prop} {Notes : List β → List β → ν → Prop}
    {bs : List β} (none : ∀ w rest, bs = w ++ rest → ¬Word w) (n : ν) :
    ¬After Word Notes bs n := by
  rintro ⟨w, rest, same, word, -⟩
  exact none w rest same word

/-! ## Decoders -/

section

variable {ν ε α γ : Type} (eof abort : ε) (Over : ν → Prop)

/-- How a decoder ends on the input `bs`: with a word read, having found that
there is none, or having given up over a note.  Unless it gives up, it has noted
all there is to note. -/
inductive Ended (Value : List β → α → Prop) (Word : List β → Prop) (Notes : List β → ν → Prop)
    (bs : List β) (notes : List ν) : Except ε (Tape β × α) × List ν → Prop
  | done {w rest : List β} {x : α} {added : List ν} (same : bs = w ++ rest) (word : Word w)
      (value : Value w x) (exact : ∀ n, n ∈ added ↔ Notes bs n) :
      Ended Value Word Notes bs notes (.ok (.reading rest, x), notes ++ added)
  | starved {added : List ν} (none : ∀ w rest, bs = w ++ rest → ¬Word w)
      (exact : ∀ n, n ∈ added ↔ Notes bs n) :
      Ended Value Word Notes bs notes (.error eof, notes ++ added)
  | aborted {added : List ν} {n : ν} (noted : n ∈ added) (beyond : Over n)
      (sound : ∀ n ∈ added, Notes bs n) :
      Ended Value Word Notes bs notes (.error abort, notes ++ added)

def Reads (p : Effect (List ν) ε (Tape β × α)) (Value : List β → α → Prop) (Word : List β → Prop)
    (Notes : List β → ν → Prop) (bs : List β) : Prop :=
  ∀ notes, Ended eof abort Over Value Word Notes bs notes (p notes)

variable {eof abort : ε} {Over : ν → Prop}

theorem Reads.pure {Value : List β → α → Prop} {bs : List β} {x : α} (value : Value [] x) :
    Reads eof abort Over (pure (.reading bs, x)) Value (Fixed 0) (fun _ _ => False) bs := by
  intro notes
  have ended : Ended eof abort Over Value (Fixed 0) (fun _ _ => False) bs notes
      (.ok (.reading bs, x), notes ++ []) := .done (w := []) rfl rfl value (by simp)
  rwa [List.append_nil] at ended

theorem Reads.congr {p : Effect (List ν) ε (Tape β × α)} {Value : List β → α → Prop}
    {Word Word' : List β → Prop} {Notes Notes' : List β → ν → Prop} {bs : List β}
    (reads : Reads eof abort Over p Value Word Notes bs) (words : ∀ w, Word w ↔ Word' w)
    (notes : ∀ n, Notes bs n ↔ Notes' bs n) :
    Reads eof abort Over p Value Word' Notes' bs := by
  intro before
  have ended := reads before
  generalize p before = result at ended
  cases ended with
  | @done w _ _ _ same word value exact =>
      exact .done same ((words w).mp word) value fun n => (exact n).trans (notes n)
  | starved none exact =>
      refine .starved ?_ fun n => (exact n).trans (notes n)
      exact fun w rest same word => none w rest same ((words w).mpr word)
  | aborted noted beyond sound =>
      exact .aborted noted beyond fun n member => (notes n).mp (sound n member)

/-- Decoders in sequence. -/
theorem Reads.bind {p : Effect (List ν) ε (Tape β × α)}
    {f : Tape β × α → Effect (List ν) ε (Tape β × γ)} {Value : List β → α → Prop}
    {Value' : List β → γ → Prop} {Word : List β → Prop} {Next : List β → List β → Prop}
    {Notes : List β → ν → Prop} {Notes' : List β → List β → ν → Prop} {bs : List β}
    (first : Reads eof abort Over p Value Word Notes bs) (plain : Unambiguous Word)
    (second : ∀ w rest x, bs = w ++ rest → Word w → Value w x →
      Reads eof abort Over (f (.reading rest, x)) (fun u => Value' (w ++ u)) (Next w) (Notes' w)
        rest) :
    Reads eof abort Over (p >>= f) Value' (Then Word Next)
      (fun bs n => Notes bs n ∨ After Word Notes' bs n) bs := by
  intro notes
  have ended := first notes
  rw [Effect.bind_apply]
  generalize p notes = result at ended
  cases ended with
  | @done w rest x added same word value exact =>
      have ended' := second w rest x same word value (notes ++ added)
      subst same
      dsimp only
      generalize f (.reading rest, x) (notes ++ added) = result at ended' ⊢
      cases ended' with
      | @done u rest' y added' same word' value' exact' =>
          subst same
          rw [List.append_assoc]
          refine .done (w := w ++ u) (by simp) ⟨w, u, rfl, word, word'⟩ value' fun n => ?_
          rw [List.mem_append, exact, After.at plain word, exact']
      | @starved added' none exact' =>
          rw [List.append_assoc]
          refine .starved ?_ fun n => ?_
          · rintro _ rest' same ⟨v, u, rfl, word'', next⟩
            rw [List.append_assoc] at same
            obtain rfl := plain w v rest (u ++ rest') word word'' same
            exact none u rest' (List.append_cancel_left same) next
          · rw [List.mem_append, exact, After.at plain word, exact']
      | @aborted added' n noted beyond sound =>
          rw [List.append_assoc]
          refine .aborted (List.mem_append_right _ noted) beyond fun n member => ?_
          rw [After.at plain word]
          exact (List.mem_append.mp member).imp (exact n).mp (sound n)
  | starved none exact =>
      refine .starved ?_ fun n => ?_
      · rintro _ rest same ⟨v, u, rfl, word, -⟩
        exact none v (u ++ rest) (by rw [same, List.append_assoc]) word
      · simp only [exact, not_after none, or_false]
  | aborted noted beyond sound =>
      exact .aborted noted beyond fun n member => .inl (sound n member)

/-- A decoder after a note. -/
theorem Reads.note {p : Effect (List ν) ε (Tape β × α)} {Value : List β → α → Prop}
    {Word : List β → Prop} {Notes : List β → ν → Prop} {bs : List β} {m : ν}
    (reads : Reads eof abort Over p Value Word Notes bs) :
    Reads eof abort Over (modify (· ++ [m]) >>= fun _ => p) Value Word
      (fun bs n => n = m ∨ Notes bs n) bs := by
  intro notes
  have ended := reads (notes ++ [m])
  rw [Effect.bind_apply, Effect.modify_apply]
  dsimp only
  generalize p (notes ++ [m]) = result at ended ⊢
  cases ended with
  | done same word value exact =>
      rw [List.append_assoc]
      exact .done same word value (by simp [exact])
  | starved none exact =>
      rw [List.append_assoc]
      exact .starved none (by simp [exact])
  | aborted noted beyond sound =>
      rw [List.append_assoc]
      refine .aborted (List.mem_cons_of_mem _ noted) beyond fun n member => ?_
      exact (List.mem_cons.mp member).imp_right (sound n)

/-- A decoder that gives up over its note. -/
theorem Reads.giveUp {m : ν} (beyond : Over m) {Value : List β → α → Prop} {Word : List β → Prop}
    {Notes : List β → ν → Prop} {bs : List β} :
    Reads eof abort Over (modify (· ++ [m]) >>= fun _ => throw abort) Value Word
      (fun bs n => n = m ∨ Notes bs n) bs := by
  intro notes
  rw [Effect.bind_apply, Effect.modify_apply]
  dsimp only
  rw [Effect.throw_apply]
  refine .aborted (List.mem_singleton.mpr rfl) beyond fun n member => ?_
  exact .inl (List.mem_singleton.mp member)

/-- The object is made from what was read. -/
theorem Reads.map {p : Effect (List ν) ε (Tape β × α)} {g : α → γ} {Value : List β → α → Prop}
    {Value' : List β → γ → Prop} {Word : List β → Prop} {Notes : List β → ν → Prop} {bs : List β}
    (reads : Reads eof abort Over p Value Word Notes bs)
    (value : ∀ w x, Word w → Value w x → Value' w (g x)) :
    Reads eof abort Over (p >>= fun out => Pure.pure (out.1, g out.2)) Value' Word Notes bs := by
  intro notes
  have ended := reads notes
  rw [Effect.bind_apply]
  generalize p notes = result at ended
  cases ended with
  | @done w rest x added same word holds exact =>
      exact .done same word (value w x word holds) exact
  | starved none exact => exact .starved none exact
  | aborted noted beyond sound => exact .aborted noted beyond sound

/-! ## Routines that take notes -/

/-- A two-way routine that takes notes. -/
abbrev Noting (ν ε β α : Type) := Tape β → α → Effect (List ν) ε (Tape β × α)

/-- A routine that has nothing to note. -/
def Routine.noting (r : Routine ε β α) : Noting ν ε β α := fun t x notes => (r t x, notes)

/-- One element more. -/
def front {m : Nat} (y : α) (ys : { l : List α // l.length = m }) :
    { l : List α // l.length = m + 1 } :=
  ⟨y :: ys.1, congrArg Nat.succ ys.2⟩

theorem Reads.noting_ok {r : Routine ε β α} {Value : List β → α → Prop} {Word : List β → Prop}
    {w rest : List β} {x y : α} (reads : r (.reading (w ++ rest)) x = .ok (.reading rest, y))
    (word : Word w) (value : Value w y) :
    Reads eof abort Over (r.noting (.reading (w ++ rest)) x) Value Word (fun _ _ => False)
      (w ++ rest) := by
  intro notes
  have ended : Ended eof abort Over Value Word (fun _ _ => False) (w ++ rest) notes
      (.ok (.reading rest, y), notes ++ []) := .done rfl word value (by simp)
  rwa [List.append_nil, ← reads] at ended

theorem Reads.noting_eof {r : Routine ε β α} {Value : List β → α → Prop} {Word : List β → Prop}
    {bs : List β} {x : α} (starves : r (.reading bs) x = .error eof)
    (none : ∀ w rest, bs = w ++ rest → ¬Word w) :
    Reads eof abort Over (r.noting (.reading bs) x) Value Word (fun _ _ => False) bs := by
  intro notes
  have ended : Ended eof abort Over Value Word (fun _ _ => False) bs notes
      (.error eof, notes ++ []) := .starved none (by simp)
  rwa [List.append_nil, ← starves] at ended

/-- Carry every element of a list in place. -/
def Noting.each (r : Noting ν ε β α) :
    Tape β → (xs : List α) → Effect (List ν) ε (Tape β × { l : List α // l.length = xs.length })
  | t, [] => Pure.pure (t, ⟨[], rfl⟩)
  | t, x :: xs => do
      let (t, y) ← r t x
      let (t, ys) ← each r t xs
      Pure.pure (t, front y ys)

/-- But for its notes it is the routine `s`. -/
def Noting.Erases (r : Noting ν ε β α) (s : Routine ε β α) : Prop :=
  ∀ t x notes, (r t x notes).1 = s t x

theorem Noting.each_erases {r : Noting ν ε β α} {s : Routine ε β α} (erases : r.Erases s)
    (t : Tape β) (xs : List α) (notes : List ν) :
    (r.each t xs notes).1.map (fun out => (out.1, out.2.1)) = s.each t xs := by
  induction xs generalizing t notes with
  | nil => rfl
  | cons x xs ih =>
      have head := erases t x notes
      rw [Noting.each, Routine.each, ← head, Effect.bind_apply]
      rcases r t x notes with ⟨e | ⟨t', y⟩, notes'⟩
      · rfl
      · have tail := ih t' notes'
        dsimp only
        rw [Effect.bind_apply]
        simp only [bind, Except.bind, ← tail]
        rcases r.each t' xs notes' with ⟨e | ⟨t'', ys⟩, notes''⟩
        · rfl
        · rfl

/-- What is noted over the elements of a list, one after the other. -/
def EachNotes (Word : List β → Prop) (Notes : α → List β → ν → Prop) :
    List α → List β → ν → Prop
  | [], _, _ => False
  | x :: xs, bs, n => Notes x bs n ∨ After Word (fun _ => EachNotes Word Notes xs) bs n

theorem Reads.each {r : Noting ν ε β α} {Word : List β → Prop} {Notes : α → List β → ν → Prop}
    (reads : ∀ x bs, Reads eof abort Over (r (.reading bs) x) (fun _ _ => True) Word (Notes x) bs)
    (plain : Unambiguous Word) (xs : List α) (bs : List β) :
    Reads eof abort Over (r.each (.reading bs) xs) (fun _ _ => True) (Times Word xs.length)
      (EachNotes Word Notes xs) bs := by
  induction xs generalizing bs with
  | nil => exact .pure trivial
  | cons x xs ih =>
      refine (reads x bs).bind plain fun w rest y same word _ => ?_
      exact (ih rest).map (g := front y) fun _ _ _ _ => trivial

end

end SidepoolFormal.Library
