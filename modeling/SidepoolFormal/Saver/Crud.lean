import SidepoolFormal.Saver.Refine

/-!
# `crud`

As long as no write gives the entry a generation that another call has read
and still relies on, the calls are serial in the order of the ledger.  A saver
that starts every entry it creates at the same generation breaks that: a
stale call then overwrites an entry that was deleted and created again.
-/

namespace SidepoolFormal.Saver

open Library Optimistic

variable {ι V : Type}

namespace Crud

/-! ## What a call still has to do -/

def reading : Io V (Option V) (Option V) := (tryRead.andThen modify).andThen finish

/-- The call has read the entry and asks its function. -/
def asking (seen : Option (Nat × V)) : Io V (Option V) (Option V) := (modify seen).andThen finish

/-- The function has answered. -/
def writing (seen : Option (Nat × V)) (n : Option V) : Io V (Option V) (Option V) :=
  (write seen n).andThen finish

theorem crud_eq : (crud : Io V (Option V) (Option V)) = .ask .yield fun
    | .ok _ => reading
    | .error e => .done (.error e) := by
  apply Task.ask_congr
  intro r
  cases r <;> rfl

theorem reading_eq : (reading : Io V (Option V) (Option V)) = .ask .read fun
    | .ok entry => asking (some entry)
    | .error e => if isKeyNotFound e then asking none else .done (.error e) := by
  apply Task.ask_congr
  intro r
  cases r with
  | ok entry => rfl
  | error e => cases e <;> rfl

theorem asking_eq (seen : Option (Nat × V)) :
    asking seen = .ask (.func (seen.map Prod.snd)) fun
      | .ok n => writing seen n
      | .error e => .done (.error e) := by
  apply Task.ask_congr
  intro r
  cases r <;> rfl

theorem writing_create (v : V) :
    writing none (some v) = .ask (.create v) fun
      | .ok _ => .lift (some v)
      | .error e => if isKeyExists e then again else .done (.error e) := by
  apply Task.ask_congr
  intro r
  cases r with
  | ok g => rfl
  | error e => cases e <;> rfl

theorem writing_del (g : Nat) (v : V) :
    writing (some (g, v)) none = .ask (.del g) fun
      | .ok _ => .lift none
      | .error e => if isKeyNotFound e || isWrongGeneration e then again else .done (.error e) := by
  apply Task.ask_congr
  intro r
  cases r with
  | ok g => rfl
  | error e => cases e <;> rfl

theorem writing_update (g : Nat) (v w : V) :
    writing (some (g, v)) (some w) = .ask (.update g w) fun
      | .ok _ => .lift (some w)
      | .error e => if isKeyNotFound e || isWrongGeneration e then again else .done (.error e) := by
  apply Task.ask_congr
  intro r
  cases r with
  | ok g => rfl
  | error e => cases e <;> rfl

/-- The client that a call stands for. -/
inductive Tracks : Io V (Option V) (Option V) → Client V → Prop
  | start : Tracks crud .away
  | reading : Tracks reading .away
  | asking (seen : Option (Nat × V)) : Tracks (asking seen) (.holding seen)
  | writing (seen : Option (Nat × V)) (n : Option V) (some : seen ≠ none ∨ n ≠ none) :
      Tracks (writing seen n) (.proposing seen n)
  | passed (b a : Option V) : Tracks (.lift a) (.committed b a)
  | failed (e : Exn) : Tracks (.done (.error e)) .failed

theorem write_tracks (seen : Option (Nat × V)) (n : Option V) :
    (seen = none ∧ n = none) ∨ (seen ≠ none ∨ n ≠ none) := by
  cases seen <;> cases n <;> simp

/-- Something is wanted, so something is to be written. -/
theorem writing_ended {seen : Option (Nat × V)} {n : Option V} (some : seen ≠ none ∨ n ≠ none) :
    (writing seen n).ended = none := by
  rcases seen with - | ⟨g, u⟩
  · cases n with
    | none => simp at some
    | some w => rfl
  · cases n with
    | none => rfl
    | some w => rfl

theorem enter_writing (seen : Option (Nat × V)) (n : Option V) :
    enter crud (writing seen n) = writing seen n := by
  cases seen <;> cases n <;> rfl

variable [DecidableEq ι] {answers : ι → Option V → Option V → Prop} {v : Option V}
  {trace : List (Event ι V (Option V))} {entry entry' : Option (Nat × V)}
  {call : ι → Io V (Option V) (Option V)} {a : State ι V} {i : ι} {op : Op V (Option V)}
  {r : Except Exn op.Ans}

/-- What holds of the calls and their clients when a call has gone on. -/
def Follows (answers : ι → Option V → Option V → Prop) (v : Option V)
    (trace : List (Event ι V (Option V))) (s : System ι V (Option V)) : Prop :=
  ∃ a, Inv answers v a ∧ Refines record Tracks trace s a

theorem fresh {e : Event ι V (Option V)} (refines : Refines record Tracks trace ⟨entry, call⟩ a)
    (harmless : Harmless trace e) (writes : e.before ≠ e.after) : Fresh a e.who e.after := by
  intro j other g v w held now
  refine harmless g w now writes j (fun same => other same.symm) ?_
  rw [← refines.relied, held]
  rfl

theorem not_listed (inv : Inv answers v a) {c : Client V} (client : a.client i = c)
    (nothing : c.entries i = ([] : List (Commit ι V))) : others i a.log = a.log :=
  others_of_own (by rw [inv.listed, client, nothing])

/-- A call that has committed nothing may have entered that there is no entry. -/
theorem strike_eq (inv : Inv answers v a) {seen : Option (Nat × V)}
    (client : a.client i = .holding seen) : strike i a.log = others i a.log := by
  apply strike_eq_others
  rw [inv.listed, client]
  cases seen with
  | none => simp [Client.entries]
  | some x => simp [Client.entries]

/-- A call ends with an exception. -/
theorem follows_failed (inv : Inv answers v a)
    (refines : Refines record Tracks trace ⟨entry, call⟩ a) {e : Exn}
    {ev : Event ι V (Option V)} (who : ev.who = some i)
    (open_ : ∀ b a', a.client i ≠ .committed b a') (logged : others i a.log = record a.log ev)
    (relies : none = rely ((a.client i).held.map Prod.fst) ev) :
    Follows answers v (trace ++ [ev]) ⟨entry, Function.update call i (.done (.error e))⟩ := by
  have failed := inv.step (.fail open_)
  rw [show a.cell = entry from refines.cell] at failed
  exact ⟨_, failed, refines.set who (.failed e) logged relies⟩

theorem follows_reading (inv : Inv answers v a)
    (refines : Refines record Tracks trace ⟨entry, call⟩ a)
    (client : a.client i = .away) {k : Except Exn op.Ans → Io V (Option V) (Option V)}
    (next : reading = .ask op k) (performs : Performs (answers i) op r entry entry') :
    Follows answers v (trace ++ [⟨some i, op, r, entry, entry'⟩])
      ⟨entry', Function.update call i (enter crud (k r))⟩ := by
  have looked := inv.step (.look client)
  have cell : a.cell = entry := refines.cell
  rw [reading_eq] at next
  cases next
  cases performs with
  | read g w =>
      rw [cell] at looked
      exact ⟨_, looked, refines.set rfl (.asking (some (g, w))) (List.append_nil _) rfl⟩
  | readFails e entry found =>
      by_cases absent : e = .keyNotFound
      · subst absent
        obtain rfl := found rfl
        rw [cell] at looked
        exact ⟨_, looked, refines.set rfl (.asking none) rfl rfl⟩
      · have logged := not_listed inv client rfl
        have closed (b a') : a.client i ≠ .committed b a' := by simp [client]
        have other : isKeyNotFound e = false := by simpa [isKeyNotFound] using absent
        simp only [other, Bool.false_eq_true, if_false]
        refine follows_failed inv refines rfl closed ?_ rfl
        cases e with
        | keyNotFound => exact absurd rfl absent
        | _ => exact logged

theorem follows_asking (inv : Inv answers v a)
    (refines : Refines record Tracks trace ⟨entry, call⟩ a)
    {seen : Option (Nat × V)} (client : a.client i = .holding seen)
    {k : Except Exn op.Ans → Io V (Option V) (Option V)}
    (next : asking seen = .ask op k) (performs : Performs (answers i) op r entry entry') :
    Follows answers v (trace ++ [⟨some i, op, r, entry, entry'⟩])
      ⟨entry', Function.update call i (enter crud (k r))⟩ := by
  have cell : a.cell = entry := refines.cell
  rw [asking_eq] at next
  cases next
  cases performs with
  | @func _ n answer entry =>
      rcases write_tracks seen n with ⟨rfl, rfl⟩ | some
      · have settled := inv.step (.settle client answer)
        rw [cell] at settled
        exact ⟨_, settled, refines.set rfl (.passed none none) rfl (by rw [client]; rfl)⟩
      · have proposed := inv.step (.propose client answer)
        rw [cell] at proposed
        refine ⟨_, proposed, refines.set rfl ?_ ?_ (by rw [client]; rfl)⟩
        · exact (enter_writing seen n).symm ▸ .writing seen n some
        · cases n with
          | some w => exact (strike_eq inv client).symm
          | none =>
              cases seen with
              | none => simp at some
              | some x => exact not_listed inv client rfl
  | funcFails _ e entry =>
      exact follows_failed inv refines rfl (by simp [client]) (strike_eq inv client).symm rfl

/-- A write that failed is made again, or ends the call. -/
theorem follows_conflict (inv : Inv answers v a)
    (refines : Refines record Tracks trace ⟨entry, call⟩ a) {seen : Option (Nat × V)} {n : Option V}
    (client : a.client i = .proposing seen n) {ev : Event ι V (Option V)} (who : ev.who = some i)
    {e : Exn} {conflict : Bool} (logged : record a.log ev = a.log)
    (relies : none = rely ((a.client i).held.map Prod.fst) ev) :
    Follows answers v (trace ++ [ev]) ⟨entry, Function.update call i
      (enter crud (if conflict then again else .done (.error e)))⟩ := by
  cases conflict with
  | true =>
      have retreated := inv.step (.retreat client)
      rw [show a.cell = entry from refines.cell] at retreated
      exact ⟨_, retreated, refines.set who ((enter_again crud).symm ▸ .start) logged.symm relies⟩
  | false =>
      exact follows_failed inv refines who (by simp [client])
        ((not_listed inv client rfl).trans logged.symm) relies

/-- A write that passed ends the call. -/
theorem follows_commit (inv : Inv answers v a)
    (refines : Refines record Tracks trace ⟨entry, call⟩ a) {seen : Option (Nat × V)} {n : Option V}
    (client : a.client i = .proposing seen n) {ev : Event ι V (Option V)}
    (harmless : Harmless trace ev) (who : ev.who = some i) (writes : ev.before ≠ ev.after)
    (matched : Matches seen entry) (after : Cell.content ev.after = n)
    (logged : a.log ++ [⟨some i, entry.map Prod.snd, n⟩] = record a.log ev)
    (relies : none = rely ((a.client i).held.map Prod.fst) ev) :
    Follows answers v (trace ++ [ev]) ⟨ev.after, Function.update call i (.lift n)⟩ := by
  have cell : a.cell = entry := refines.cell
  have unheld := fresh refines harmless writes
  rw [who] at unheld
  have committed := inv.step (.commit ev.after client (cell ▸ matched) after unheld)
  rw [cell] at committed
  exact ⟨_, committed, refines.set who (.passed _ n) logged relies⟩

theorem follows_writing (inv : Inv answers v a)
    (refines : Refines record Tracks trace ⟨entry, call⟩ a)
    {seen : Option (Nat × V)} {n : Option V} (client : a.client i = .proposing seen n)
    {k : Except Exn op.Ans → Io V (Option V) (Option V)}
    (next : writing seen n = .ask op k) (performs : Performs (answers i) op r entry entry')
    (harmless : Harmless trace ⟨some i, op, r, entry, entry'⟩) :
    Follows answers v (trace ++ [⟨some i, op, r, entry, entry'⟩])
      ⟨entry', Function.update call i (enter crud (k r))⟩ := by
  cases seen with
  | none =>
      cases n with
      | none => cases next
      | some w =>
          rw [writing_create] at next
          cases next
          cases performs with
          | create w g =>
              exact follows_commit inv refines client harmless rfl (by simp) rfl rfl rfl rfl
          | createFails w e entry => exact follows_conflict inv refines client rfl rfl rfl
  | some x =>
      obtain ⟨g, u⟩ := x
      cases n with
      | none =>
          rw [writing_del] at next
          cases next
          cases performs with
          | del g u =>
              exact follows_commit inv refines client harmless rfl (by simp) rfl rfl rfl rfl
          | delFails g e entry => exact follows_conflict inv refines client rfl rfl rfl
      | some w =>
          rw [writing_update] at next
          cases next
          cases performs with
          | update g g' u w higher =>
              exact follows_commit inv refines client harmless rfl (by simp; omega) rfl rfl rfl rfl
          | updateFails g w e entry => exact follows_conflict inv refines client rfl rfl rfl

/-- Every operation of a call is a step of its client, or none. -/
theorem follows_step {s s' : System ι V (Option V)} {e : Event ι V (Option V)}
    (follows : Follows answers v trace s) (harmless : Harmless trace e)
    (step : Step answers crud s e s') : Follows answers v (trace ++ [e]) s' := by
  obtain ⟨a, inv, refines⟩ := follows
  obtain ⟨entry, call⟩ := s
  cases step with
  | @perform i op k r entry' next performs =>
      have tracked : Tracks (call i) (a.client i) := refines.tracks i
      have next : call i = .ask op k := next
      generalize client : a.client i = c at tracked
      generalize task : call i = t at tracked next
      cases tracked with
      | start =>
          rw [crud_eq] at next
          cases next
          cases performs
          exact ⟨a, inv, refines.stay rfl (client ▸ .reading) rfl (by rw [client]; rfl)⟩
      | reading => exact follows_reading inv refines client next performs
      | asking seen => exact follows_asking inv refines client next performs
      | writing seen n some =>
          exact follows_writing inv refines client next performs harmless
      | passed b a' => cases next
      | failed e => cases next
  | @direct g w r entry' performs =>
      cases performs with
      | update g g' u w higher =>
          have unheld := fresh refines harmless (by simp; omega)
          have written := inv.step (.direct (some (g', w)) unheld)
          rw [show a.cell = some (g, u) from refines.cell] at written
          exact ⟨_, written, refines.direct rfl rfl⟩
      | updateFails g w e entry =>
          have idle : Refines record Tracks
              (trace ++ [⟨none, .update g w, .error e, entry, entry⟩]) ⟨entry, call⟩
              ⟨entry, a.client, a.log⟩ := refines.direct rfl rfl
          rw [← show a.cell = entry from refines.cell] at idle ⊢
          exact ⟨a, inv, idle⟩

end Crud

/-! ## Runs -/

section

variable [DecidableEq ι] {answers : ι → Option V → Option V → Prop}

/-- No call has begun. -/
def Crud.start (entry : Option (Nat × V)) : System ι V (Option V) := ⟨entry, fun _ => crud⟩

theorem Crud.follows_run {entry : Option (Nat × V)} {trace : List (Event ι V (Option V))}
    {s : System ι V (Option V)} (run : Run (Step answers crud) (Crud.start entry) trace s)
    (undisturbed : Undisturbed trace) : Crud.Follows answers (entry.map Prod.snd) trace s := by
  induction run with
  | nil => exact ⟨_, inv_start answers entry, rfl, fun _ => .start, rfl, fun _ => rfl⟩
  | @snoc trace s s' e run step ih =>
      have before := ih fun pre e' inside =>
        undisturbed pre e' (inside.trans (List.prefix_append trace [e]))
      exact Crud.follows_step before (undisturbed trace e (List.prefix_refl _)) step

/-- What has been told of a call is what its client has come to. -/
theorem Crud.listed {v : Option V} {trace : List (Event ι V (Option V))}
    {s : System ι V (Option V)} {a : State ι V} (inv : Inv answers v a)
    (refines : Refines Crud.record Crud.Tracks trace s a) :
    Listed id answers a.log fun i => (s.call i).ended := by
  constructor
  · intro i b told
    have answered := inv.answered i
    have tracked := refines.tracks i
    rw [inv.listed]
    generalize a.client i = c at tracked answered
    generalize s.call i = t at tracked told
    cases tracked with
    | passed b' a' =>
        cases told
        exact ⟨b', answered, rfl⟩
    | writing seen n some => cases (writing_ended some).symm.trans told
    | start => cases told
    | reading => cases told
    | asking seen => cases told
    | failed e => cases told
  · intro i e told
    have tracked := refines.tracks i
    rw [inv.listed]
    generalize a.client i = c at tracked
    generalize s.call i = t at tracked told
    cases tracked with
    | failed e' => rfl
    | writing seen n some => cases (writing_ended some).symm.trans told
    | start => cases told
    | reading => cases told
    | asking seen => cases told
    | passed b a => cases told
  · intro i told
    have tracked := refines.tracks i
    rw [inv.listed]
    generalize a.client i = c at tracked
    generalize s.call i = t at tracked told
    left
    cases tracked with
    | start => simp [Client.entries]
    | reading => simp [Client.entries]
    | asking seen => cases seen <;> simp [Client.entries]
    | writing seen n some => simp [Client.entries]
    | passed b a => cases told
    | failed e => cases told

/-- Undisturbed `crud` calls are serial in the order of their commits. -/
theorem Crud.run_serialised {entry : Option (Nat × V)} {trace : List (Event ι V (Option V))}
    {s : System ι V (Option V)} (run : Run (Step answers crud) (Crud.start entry) trace s)
    (undisturbed : Undisturbed trace) :
    Serialised id answers (entry.map Prod.snd) (ledger Crud.record trace) (s.entry.map Prod.snd)
      fun i => (s.call i).ended := by
  obtain ⟨a, inv, refines⟩ := Crud.follows_run run undisturbed
  rw [← refines.log, ← refines.cell]
  exact ⟨inv.serial, Crud.listed inv refines⟩

end

end SidepoolFormal.Saver
