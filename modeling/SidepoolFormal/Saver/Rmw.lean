import SidepoolFormal.Saver.Refine

/-!
# `rmw`

Of an entry that is never deleted the generation only grows, so a generation
that a call has read is never given to another content, and no update is lost.
-/

namespace SidepoolFormal.Saver

open Library Optimistic

variable {ι V : Type}

namespace Rmw

/-! ## What a call still has to do -/

def reading : Io V V V := (read.andThen modify).andThen finish

/-- The call has read the entry and asks its function. -/
def asking (entry : Nat × V) : Io V V V := (modify entry).andThen finish

/-- The function has answered. -/
def writing (generation : Nat) (nvalue : V) : Io V V V := (write generation nvalue).andThen finish

theorem rmw_eq : (rmw : Io V V V) = .ask .yield fun
    | .ok _ => reading
    | .error e => .done (.error e) := by
  apply Task.ask_congr
  intro r
  cases r <;> rfl

theorem reading_eq : (reading : Io V V V) = .ask .read fun
    | .ok entry => asking entry
    | .error e => .done (.error e) := by
  apply Task.ask_congr
  intro r
  cases r <;> rfl

theorem asking_eq (entry : Nat × V) : asking entry = .ask (.func entry.2) fun
    | .ok nvalue => writing entry.1 nvalue
    | .error e => .done (.error e) := by
  apply Task.ask_congr
  intro r
  cases r <;> rfl

theorem writing_eq (g : Nat) (nvalue : V) : writing g nvalue = .ask (.update g nvalue) fun
    | .ok _ => .lift nvalue
    | .error e => if isWrongGeneration e then again else .done (.error e) := by
  apply Task.ask_congr
  intro r
  cases r with
  | ok g' => rfl
  | error e => cases e <;> rfl

/-- The client that a call stands for. -/
inductive Tracks : Io V V V → Client V → Prop
  | start : Tracks rmw .away
  | reading : Tracks reading .away
  | asking (g : Nat) (c : V) : Tracks (asking (g, c)) (.holding (some (g, c)))
  | writing (g : Nat) (c n : V) : Tracks (writing g n) (.proposing (some (g, c)) (some n))
  | passed (b a : V) : Tracks (.lift a) (.committed (some b) (some a))
  | failed (e : Exn) : Tracks (.done (.error e)) .failed

/-- What the functions may answer, as contents. -/
def contents (answers : ι → V → V → Prop) (i : ι) (c n : Option V) : Prop :=
  ∃ b a, c = some b ∧ n = some a ∧ answers i b a

variable [DecidableEq ι] {answers : ι → V → V → Prop} {v : Option V}
  {trace : List (Event ι V V)} {entry entry' : Option (Nat × V)} {call : ι → Io V V V}
  {a : State ι V} {i : ι} {op : Op V V} {r : Except Exn op.Ans} {g : Nat}

/-- The calls are clients of an entry whose generation is above all they hold. -/
def Follows (answers : ι → V → V → Prop) (v : Option V) (trace : List (Event ι V V))
    (s : System ι V V) : Prop :=
  ∃ a g, Inv (contents answers) v a ∧ Refines record Tracks trace s a ∧ Below a g

theorem not_listed (inv : Inv (contents answers) v a) {c : Client V} (client : a.client i = c)
    (nothing : c.entries i = ([] : List (Commit ι V))) : others i a.log = a.log :=
  others_of_own (by rw [inv.listed, client, nothing])

/-- The client of a call changes, and the entry does not. -/
theorem follows_set {a' : State ι V} (inv : Inv (contents answers) v a')
    (refines : Refines record Tracks trace ⟨entry, call⟩ a) (below : Below a g) {t : Io V V V}
    {c : Client V} {log : List (Commit ι V)} {ev : Event ι V V} (who : ev.who = some i)
    (tracks : Tracks t c) (logged : log = record a.log ev)
    (relies : c.held.map Prod.fst = rely ((a.client i).held.map Prod.fst) ev)
    (same : a' = ⟨a.cell, Function.update a.client i c, log⟩)
    (held : ∀ h w, c.held = some (h, w) → h ≤ g) :
    Follows answers v (trace ++ [ev]) ⟨entry, Function.update call i t⟩ := by
  subst same
  have next := below.set i log below.1 (Nat.le_refl g) held
  rw [show a.cell = entry from refines.cell] at inv next
  exact ⟨_, g, inv, refines.set who tracks logged relies, next⟩

theorem follows_failed (inv : Inv (contents answers) v a)
    (refines : Refines record Tracks trace ⟨entry, call⟩ a) (below : Below a g) {e : Exn}
    {ev : Event ι V V} (who : ev.who = some i) (open_ : ∀ b a', a.client i ≠ .committed b a')
    (logged : others i a.log = record a.log ev)
    (relies : none = rely ((a.client i).held.map Prod.fst) ev) :
    Follows answers v (trace ++ [ev]) ⟨entry, Function.update call i (.done (.error e))⟩ :=
  follows_set (inv.step (.fail open_)) refines below who (.failed e) logged relies rfl
    fun _ _ held => by cases held

theorem follows_reading (inv : Inv (contents answers) v a)
    (refines : Refines record Tracks trace ⟨entry, call⟩ a) (below : Below a g)
    (client : a.client i = .away) {k : Except Exn op.Ans → Io V V V}
    (next : reading = .ask op k) (performs : Performs (answers i) op r entry entry') :
    Follows answers v (trace ++ [⟨some i, op, r, entry, entry'⟩])
      ⟨entry', Function.update call i (enter rmw (k r))⟩ := by
  have cell : a.cell = entry := refines.cell
  have there := below.1
  rw [cell] at there
  rw [reading_eq] at next
  cases next
  cases performs with
  | read h w =>
      have looked := inv.step (.look client)
      obtain rfl : h = g := Option.some.inj there
      rw [cell] at looked
      refine follows_set looked refines below rfl (.asking h w) (List.append_nil _) rfl
        (by rw [cell]; rfl) ?_
      intro h' w' held
      cases held
      exact Nat.le_refl h
  | readFails e entry found =>
      exact follows_failed inv refines below rfl (by simp [client]) (not_listed inv client rfl) rfl

theorem follows_asking (inv : Inv (contents answers) v a)
    (refines : Refines record Tracks trace ⟨entry, call⟩ a) (below : Below a g) {h : Nat} {c : V}
    (client : a.client i = .holding (some (h, c))) {k : Except Exn op.Ans → Io V V V}
    (next : asking (h, c) = .ask op k) (performs : Performs (answers i) op r entry entry') :
    Follows answers v (trace ++ [⟨some i, op, r, entry, entry'⟩])
      ⟨entry', Function.update call i (enter rmw (k r))⟩ := by
  rw [asking_eq] at next
  cases next
  cases performs with
  | @func _ n answer entry =>
      have proposed := inv.step (.propose client ⟨c, n, rfl, rfl, answer⟩)
      apply follows_set proposed refines below rfl (.writing h c n) (not_listed inv client rfl)
        (by rw [client]; rfl) rfl
      intro h' w held
      exact below.2 i h' w (by rw [client]; exact held)
  | funcFails _ e entry =>
      exact follows_failed inv refines below rfl (by simp [client]) (not_listed inv client rfl) rfl

theorem follows_writing (inv : Inv (contents answers) v a)
    (refines : Refines record Tracks trace ⟨entry, call⟩ a) (below : Below a g) {h : Nat} {c n : V}
    (client : a.client i = .proposing (some (h, c)) (some n)) {k : Except Exn op.Ans → Io V V V}
    (next : writing h n = .ask op k) (performs : Performs (answers i) op r entry entry') :
    Follows answers v (trace ++ [⟨some i, op, r, entry, entry'⟩])
      ⟨entry', Function.update call i (enter rmw (k r))⟩ := by
  have cell : a.cell = entry := refines.cell
  have there := below.1
  rw [cell] at there
  rw [writing_eq] at next
  cases next
  cases performs with
  | update h h' u n higher =>
      obtain rfl : h = g := Option.some.inj there
      have committed := inv.step
        (.commit (some (h', n)) client (cell ▸ rfl) rfl (below.fresh higher (some i) n))
      rw [cell] at committed
      exact ⟨_, h', committed, refines.set rfl (.passed c n) rfl rfl,
        below.set i _ rfl (Nat.le_of_lt higher) fun _ _ held => by cases held⟩
  | updateFails h n e entry =>
      cases wrong : isWrongGeneration e with
      | true =>
          simp only [wrong, if_true]
          exact follows_set (inv.step (.retreat client)) refines below rfl
            ((enter_again rmw).symm ▸ .start) rfl rfl rfl fun _ _ held => by cases held
      | false =>
          simp only [wrong, Bool.false_eq_true, if_false]
          exact follows_failed inv refines below rfl (by simp [client]) (not_listed inv client rfl)
            rfl

/-- Every operation of a call is a step of its client, or none. -/
theorem follows_step {s s' : System ι V V} {e : Event ι V V} (follows : Follows answers v trace s)
    (step : Step answers rmw s e s') : Follows answers v (trace ++ [e]) s' := by
  obtain ⟨a, g, inv, refines, below⟩ := follows
  obtain ⟨entry, call⟩ := s
  cases step with
  | @perform i op k r entry' next performs =>
      have tracked : Tracks (call i) (a.client i) := refines.tracks i
      have next : call i = .ask op k := next
      generalize client : a.client i = c at tracked
      generalize task : call i = t at tracked next
      cases tracked with
      | start =>
          rw [rmw_eq] at next
          cases next
          cases performs
          exact ⟨a, g, inv, refines.stay rfl (client ▸ .reading) rfl (by rw [client]; rfl), below⟩
      | reading => exact follows_reading inv refines below client next performs
      | asking h c => exact follows_asking inv refines below client next performs
      | writing h c n => exact follows_writing inv refines below client next performs
      | passed b a' => cases next
      | failed e => cases next
  | @direct h w r entry' performs =>
      cases performs with
      | update h h' u w higher =>
          have cell : a.cell = some (h, u) := refines.cell
          have there := below.1
          rw [cell] at there
          obtain rfl : h = g := Option.some.inj there
          have written := inv.step (.direct (some (h', w)) (below.fresh higher none w))
          rw [cell] at written
          refine ⟨_, h', written, refines.direct rfl rfl, rfl, ?_⟩
          intro j h'' w' held
          exact Nat.le_trans (below.2 j h'' w' held) (Nat.le_of_lt higher)
      | updateFails h w e entry =>
          have idle : Refines record Tracks
              (trace ++ [⟨none, .update h w, .error e, entry, entry⟩]) ⟨entry, call⟩
              ⟨entry, a.client, a.log⟩ := refines.direct rfl rfl
          rw [← show a.cell = entry from refines.cell] at idle ⊢
          exact ⟨a, g, inv, idle, below⟩

end Rmw

/-! ## Runs -/

section

variable [DecidableEq ι]

/-- No call has begun. -/
def Rmw.start (g : Nat) (c : V) : System ι V V := ⟨some (g, c), fun _ => rmw⟩

theorem Rmw.follows_run {answers : ι → V → V → Prop} {g : Nat} {c : V}
    {trace : List (Event ι V V)} {s : System ι V V}
    (run : Run (Step answers rmw) (Rmw.start g c) trace s) :
    Rmw.Follows answers (some c) trace s := by
  refine run.invariant ?_ fun trace s e s' => Rmw.follows_step
  refine ⟨_, g, inv_start (Rmw.contents answers) (some (g, c)),
    ⟨rfl, fun _ => .start, rfl, fun _ => rfl⟩, rfl, ?_⟩
  intro j h w held
  cases held

/-- The ledger applied to a content: the functions of the calls, and the
direct updates, one after the other. -/
inductive Applies (answers : ι → V → V → Prop) (c : Option V) :
    List (Commit ι V) → Option V → Prop
  | nil : Applies answers c [] c
  | call {log : List (Commit ι V)} {i : ι} {b a : V} (applies : Applies answers c log (some b))
      (answer : answers i b a) : Applies answers c (log ++ [⟨some i, some b, some a⟩]) (some a)
  | direct {log : List (Commit ι V)} {b : Option V} (a : Option V)
      (applies : Applies answers c log b) : Applies answers c (log ++ [⟨none, b, a⟩]) a

omit [DecidableEq ι] in
theorem applies_of_serial {answers : ι → V → V → Prop} {c w : Option V} {log : List (Commit ι V)}
    (serial : Serial c log w) (answered : ∀ e ∈ log, ∀ i, e.who = some i →
      ∃ b a, e.before = some b ∧ e.after = some a ∧ answers i b a) : Applies answers c log w := by
  induction serial with
  | nil => exact .nil
  | @snoc log w e serial here ih =>
      have rest := ih fun e' member => answered e' (List.mem_append_left _ member)
      have last := answered e (List.mem_append_right _ (List.mem_singleton_self e))
      obtain ⟨who, before, after⟩ := e
      subst here
      cases who with
      | none => exact .direct after rest
      | some i =>
          obtain ⟨b, a, rfl, rfl, answer⟩ := last i rfl
          exact .call rest answer

/-- The content is the ledger applied to the content at first, and what the calls are
told is what the ledger has of them. -/
structure Rmw.Atomic (answers : ι → V → V → Prop) (v : Option V) (log : List (Commit ι V))
    (w : Option V) (told : ι → Option (Except Exn V)) : Prop where
  applied : Applies answers v log w
  calls : Listed some answers log told

/-- A call's entries in the ledger, by what it still has to do. -/
theorem Rmw.listed {answers : ι → V → V → Prop} {v : Option V} {a : State ι V}
    (inv : Inv (Rmw.contents answers) v a) {i : ι} {t : Io V V V}
    (tracks : Rmw.Tracks t (a.client i)) :
    (own i a.log = [] ∧ ∀ n, t.ended ≠ some (.ok n)) ∨
      ∃ b n, t = .lift n ∧ answers i b n ∧ own i a.log = [⟨some i, some b, some n⟩] := by
  have answered := inv.answered i
  rw [inv.listed]
  generalize a.client i = c at tracks answered
  cases tracks with
  | passed b n =>
      obtain ⟨b', n', same, same', answer⟩ := answered
      cases same
      cases same'
      exact .inr ⟨b, n, rfl, answer, rfl⟩
  | _ => exact .inl ⟨rfl, fun n same => by cases same⟩

/-- No update of an entry is lost. -/
theorem Rmw.run_atomic {answers : ι → V → V → Prop} {g : Nat} {c : V} {trace : List (Event ι V V)}
    {s : System ι V V} (run : Run (Step answers rmw) (Rmw.start g c) trace s) :
    Rmw.Atomic answers (some c) (ledger record trace) (s.entry.map Prod.snd)
      fun i => (s.call i).ended := by
  obtain ⟨a, h, inv, refines, -⟩ := Rmw.follows_run run
  rw [← refines.log, show s.entry.map Prod.snd = a.cell.content from refines.cell ▸ rfl]
  constructor
  · apply applies_of_serial inv.serial
    intro e member i who
    have mine : e ∈ own i a.log := List.mem_filter.mpr ⟨member, by simpa using who⟩
    rcases Rmw.listed inv (refines.tracks i) with ⟨nothing, -⟩ | ⟨b, n, -, answer, once⟩
    · rw [nothing] at mine
      cases mine
    · rw [once, List.mem_singleton] at mine
      subst mine
      exact ⟨b, n, rfl, rfl, answer⟩
  · constructor
    · intro i b told
      rcases Rmw.listed inv (refines.tracks i) with ⟨-, open_⟩ | ⟨b', n, same, answer, once⟩
      · exact absurd told (open_ b)
      · rw [same] at told
        cases told
        exact ⟨b', answer, once⟩
    · intro i e told
      rcases Rmw.listed inv (refines.tracks i) with ⟨nothing, -⟩ | ⟨b', n, same, -, -⟩
      · exact nothing
      · rw [same] at told
        cases told
    · intro i told
      rcases Rmw.listed inv (refines.tracks i) with ⟨nothing, -⟩ | ⟨b', n, same, -, -⟩
      · exact .inl (by simp [nothing])
      · rw [same] at told
        cases told

end

end SidepoolFormal.Saver
