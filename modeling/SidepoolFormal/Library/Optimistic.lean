import SidepoolFormal.Library.Run
import Mathlib.Logic.Function.Basic

/-!
# Optimistic transactions on a versioned cell

A cell is absent, or has a version and a content.  A client looks at the cell,
makes up its mind about a new content (or none), and commits only if the cell
then has the version it looked at, or is still absent.  A client that saw no
cell and wants none has nothing to commit: it is as if it had committed when it
looked, so a look at an absent cell is entered in the log and struck out when
the client turns out to want something.

If no write gives the cell a version that some client holds, the log is a
serial history.
-/

namespace SidepoolFormal.Library.Optimistic

/-- A cell that may be absent: its version and its content. -/
abbrev Cell (V : Type) := Option (Nat × V)

def Cell.content {V : Type} (c : Cell V) : Option V := c.map Prod.snd

/-- Where a client stands. -/
inductive Client (V : Type) where
  | away
  | holding (seen : Cell V)
  | proposing (seen : Cell V) (wants : Option V)
  | committed (before after : Option V)
  | failed

/-- One entry of the log; nobody is a writer that does not look first. -/
structure Commit (ι V : Type) where
  who : Option ι
  before : Option V
  after : Option V

structure State (ι V : Type) where
  cell : Cell V
  client : ι → Client V
  log : List (Commit ι V)

/-- A log that leads from one content to another. -/
inductive Serial {ι V : Type} (v : Option V) : List (Commit ι V) → Option V → Prop
  | nil : Serial v [] v
  | snoc {log : List (Commit ι V)} {w : Option V} (c : Commit ι V) (serial : Serial v log w)
      (here : c.before = w) : Serial v (log ++ [c]) c.after

/-- The version that the cell has matches what a client has seen. -/
def Matches {V : Type} (seen cell : Cell V) : Prop := seen.map Prod.fst = cell.map Prod.fst

variable {ι V : Type} [DecidableEq ι]

/-- Entries of other clients. -/
def others (i : ι) (log : List (Commit ι V)) : List (Commit ι V) :=
  log.filter fun c => c.who ≠ some i

/-- Entries of a client. -/
def own (i : ι) (log : List (Commit ι V)) : List (Commit ι V) :=
  log.filter fun c => c.who = some i

/-- All entries but those of a client that saw no cell and wants none. -/
def strike (i : ι) (log : List (Commit ι V)) : List (Commit ι V) :=
  log.filter fun c => !(decide (c.who = some i) && c.before.isNone && c.after.isNone)

/-! ## The log -/

theorem own_append (i : ι) (log log' : List (Commit ι V)) :
    own i (log ++ log') = own i log ++ own i log' := List.filter_append ..

theorem own_others (i : ι) (log : List (Commit ι V)) : own i (others i log) = [] := by
  simp [own, others]

theorem own_others_of_ne {i j : ι} (ne : j ≠ i) (log : List (Commit ι V)) :
    own j (others i log) = own j log := by
  rw [own, others, List.filter_filter]
  apply List.filter_congr
  intro c _
  by_cases mine : c.who = some j
  · simp [mine, ne]
  · simp [mine]

theorem others_of_own {i : ι} {log : List (Commit ι V)} (none : own i log = []) :
    others i log = log := by
  rw [others, List.filter_eq_self]
  intro c member
  have absent := List.filter_eq_nil_iff.mp none c member
  simpa using absent

/-- A client that has committed nothing has no other entries. -/
theorem strike_eq_others {i : ι} {log : List (Commit ι V)}
    (open_ : ∀ c ∈ own i log, c.before = none ∧ c.after = none) : strike i log = others i log := by
  rw [strike, others]
  apply List.filter_congr
  intro c member
  by_cases mine : c.who = some i
  · obtain ⟨before, after⟩ := open_ c (List.mem_filter.mpr ⟨member, by simpa using mine⟩)
    simp [mine, before, after]
  · simp [mine]

/-- Striking out entries that change nothing leaves a serial log. -/
theorem Serial.others {v w : Option V} {log : List (Commit ι V)} (serial : Serial v log w) {i : ι}
    (idle : ∀ c ∈ own i log, c.before = c.after) : Serial v (others i log) w := by
  induction serial with
  | nil => exact .nil
  | @snoc log w c serial here ih =>
      rw [own_append] at idle
      have rest := ih fun c member => idle c (List.mem_append_left _ member)
      rw [Optimistic.others, List.filter_append]
      by_cases mine : c.who = some i
      · have same := idle c (List.mem_append_right _ (by simp [own, mine]))
        rw [← same, here]
        simpa [mine, Optimistic.others] using rest
      · simpa [mine, Optimistic.others] using rest.snoc c here

/-! ## Steps -/

/-- The cell that a client relies on. -/
def Client.held : Client V → Cell V
  | .holding seen => seen
  | .proposing seen _ => seen
  | _ => none

/-- No other client holds the version that a write gives the cell. -/
def Fresh (s : State ι V) (who : Option ι) (cell : Cell V) : Prop :=
  ∀ j, some j ≠ who → ∀ g v w, (s.client j).held = some (g, v) → cell ≠ some (g, w)

/-- `answers i c n`: to the content `c`, client `i` may want `n`. -/
inductive Step (answers : ι → Option V → Option V → Prop) (s : State ι V) : State ι V → Prop
  | look {i : ι} (away : s.client i = .away) :
      Step answers s
        { s with
          client := Function.update s.client i (.holding s.cell)
          log := s.log ++ if s.cell.isNone then [⟨some i, none, none⟩] else [] }
  | settle {i : ι} (holding : s.client i = .holding none) (answer : answers i none none) :
      Step answers s { s with client := Function.update s.client i (.committed none none) }
  | propose {i : ι} {seen : Cell V} {n : Option V} (holding : s.client i = .holding seen)
      (answer : answers i seen.content n) :
      Step answers s
        { s with
          client := Function.update s.client i (.proposing seen n)
          log := others i s.log }
  | commit {i : ι} {seen : Cell V} {n : Option V} (cell : Cell V)
      (proposing : s.client i = .proposing seen n) (matched : Matches seen s.cell)
      (writes : cell.content = n) (fresh : Fresh s (some i) cell) :
      Step answers s
        { cell := cell
          client := Function.update s.client i (.committed seen.content n)
          log := s.log ++ [⟨some i, s.cell.content, n⟩] }
  | retreat {i : ι} {seen : Cell V} {n : Option V} (proposing : s.client i = .proposing seen n) :
      Step answers s { s with client := Function.update s.client i .away }
  | fail {i : ι} (open_ : ∀ b a, s.client i ≠ .committed b a) :
      Step answers s
        { s with
          client := Function.update s.client i .failed
          log := others i s.log }
  | direct (cell : Cell V) (fresh : Fresh s none cell) :
      Step answers s
        { s with
          cell := cell
          log := s.log ++ [⟨none, s.cell.content, cell.content⟩] }

/-! ## The invariant -/

/-- The entries that a client has in the log. -/
def Client.entries (i : ι) : Client V → List (Commit ι V)
  | .holding none => [⟨some i, none, none⟩]
  | .committed b a => [⟨some i, b, a⟩]
  | _ => []

/-- What a client wants is an answer of its own. -/
def Client.Answered (answers : ι → Option V → Option V → Prop) (i : ι) : Client V → Prop
  | .proposing seen n => answers i seen.content n
  | .committed b a => answers i b a
  | _ => True

/-- A version that is held still determines the content. -/
def Pins (seen cell : Cell V) : Prop :=
  ∀ g v w, seen = some (g, v) → cell = some (g, w) → w = v

structure Inv (answers : ι → Option V → Option V → Prop) (v : Option V) (s : State ι V) : Prop where
  serial : Serial v s.log s.cell.content
  listed : ∀ i, own i s.log = (s.client i).entries i
  answered : ∀ i, (s.client i).Answered answers i
  pins : ∀ i, Pins (s.client i).held s.cell

variable {answers : ι → Option V → Option V → Prop} {v : Option V} {s s' : State ι V}

omit [DecidableEq ι] in
theorem Pins.content {seen cell : Cell V} (pins : Pins seen cell) (matched : Matches seen cell) :
    cell.content = seen.content := by
  cases seen with
  | none =>
      cases cell with
      | none => rfl
      | some c => cases matched
  | some x =>
      cases cell with
      | none => cases matched
      | some y =>
          obtain ⟨g, u⟩ := x
          obtain ⟨g', w⟩ := y
          obtain rfl : g = g' := Option.some.inj matched
          exact congrArg some (pins g u w rfl rfl)

omit [DecidableEq ι] in
theorem pins_self (cell : Cell V) : Pins cell cell := by
  intro g u w held now
  obtain ⟨-, rfl⟩ := Prod.mk.inj (Option.some.inj (held.symm.trans now))
  rfl

omit [DecidableEq ι] in
theorem pins_none (cell : Cell V) : Pins none cell := fun _ _ _ held => by cases held

omit [DecidableEq ι] in
/-- A fresh version is held by nobody, so it contradicts nothing. -/
theorem Fresh.pins {who : Option ι} {cell : Cell V} (fresh : Fresh s who cell) {j : ι}
    (other : some j ≠ who) : Pins (s.client j).held cell :=
  fun g u w held now => absurd now (fresh j other g u w held)

/-- One client changes, the others keep their entries. -/
theorem Inv.set (inv : Inv answers v s) {i : ι} {x : Client V} {log : List (Commit ι V)}
    {cell : Cell V} (serial : Serial v log cell.content) (mine : own i log = x.entries i)
    (theirs : ∀ j, j ≠ i → own j log = own j s.log)
    (answered : x.Answered answers i) (pinned : Pins x.held cell)
    (pins : ∀ j, j ≠ i → Pins (s.client j).held cell) :
    Inv answers v ⟨cell, Function.update s.client i x, log⟩ where
  serial := serial
  listed j := by
    by_cases same : j = i
    · subst same
      simpa using mine
    · simpa [same, theirs j same] using inv.listed j
  answered j := by
    by_cases same : j = i
    · subst same
      simpa using answered
    · simpa [same] using inv.answered j
  pins j := by
    by_cases same : j = i
    · subst same
      simpa using pinned
    · simpa [same] using pins j same

theorem own_single {i : ι} (b a : Option V) : own i [⟨some i, b, a⟩] = [⟨some i, b, a⟩] := by
  simp [own]

theorem own_single_of_ne {who : Option ι} {j : ι} (other : who ≠ some j) (b a : Option V) :
    own j [⟨who, b, a⟩] = [] := by
  simp [own, other]

/-- Striking out a client's provisional entry changes no content. -/
theorem Inv.strike (inv : Inv answers v s) {i : ι} (open_ : ∀ b a, s.client i ≠ .committed b a) :
    Serial v (others i s.log) s.cell.content := by
  apply inv.serial.others
  intro c member
  rw [inv.listed] at member
  cases client : s.client i with
  | holding seen =>
      cases seen with
      | none =>
          rw [client, Client.entries, List.mem_singleton] at member
          rw [member]
      | some x => simp [client, Client.entries] at member
  | committed b a => exact absurd client (open_ b a)
  | away => simp [client, Client.entries] at member
  | proposing seen n => simp [client, Client.entries] at member
  | failed => simp [client, Client.entries] at member

theorem Inv.step (inv : Inv answers v s) (step : Step answers s s') : Inv answers v s' := by
  cases step with
  | @look i away =>
      have mine : own i s.log = [] := by
        rw [inv.listed, away]
        rfl
      cases cell : s.cell with
      | none =>
          have serial := inv.serial
          rw [cell] at serial
          refine inv.set (serial.snoc ⟨some i, none, none⟩ rfl) ?_ ?_ trivial
            (pins_none _) fun j _ => cell ▸ inv.pins j
          · simp [own_append, mine, own_single, Client.entries]
          · intro j other
            simp [own_append, own_single_of_ne (fun same => other (Option.some.inj same).symm)]
      | some x =>
          have serial := inv.serial
          rw [cell] at serial
          refine inv.set (by simpa using serial) ?_ ?_ trivial
            (pins_self _) fun j _ => cell ▸ inv.pins j
          · simpa [Client.entries] using mine
          · intro j other
            simp
  | @settle i holding answer =>
      refine inv.set inv.serial ?_ (fun j _ => rfl) answer (pins_none _) fun j _ => inv.pins j
      rw [inv.listed, holding]
      rfl
  | @propose i seen n holding answer =>
      have pinned := inv.pins i
      rw [holding] at pinned
      refine inv.set (inv.strike ?_) (own_others i s.log)
        (fun j other => own_others_of_ne other s.log) answer pinned fun j _ => inv.pins j
      intro b a same
      rw [holding] at same
      cases same
  | @commit i seen n cell proposing matched writes fresh =>
      have pinned := inv.pins i
      have answered := inv.answered i
      have mine := inv.listed i
      rw [proposing] at pinned answered mine
      have same := pinned.content matched
      refine inv.set (writes ▸ inv.serial.snoc ⟨some i, s.cell.content, n⟩ rfl) ?_
        (fun j other => ?_) answered (pins_none _) fun j other => fresh.pins fun same' =>
          other (Option.some.inj same')
      · rw [own_append, mine, own_single, same]
        rfl
      · rw [own_append, own_single_of_ne (fun same' => other (Option.some.inj same').symm),
          List.append_nil]
  | @retreat i seen n proposing =>
      refine inv.set inv.serial ?_ (fun j _ => rfl) trivial (pins_none _) fun j _ => inv.pins j
      rw [inv.listed, proposing]
      rfl
  | @fail i open_ =>
      exact inv.set (inv.strike open_) (own_others i s.log)
        (fun j other => own_others_of_ne other s.log) trivial (pins_none _) fun j _ => inv.pins j
  | direct cell fresh =>
      refine ⟨inv.serial.snoc ⟨none, s.cell.content, cell.content⟩ rfl, ?_, inv.answered,
        fun j => fresh.pins (by simp)⟩
      intro j
      rw [own_append, own_single_of_ne (by simp), List.append_nil]
      exact inv.listed j

/-- Nobody has looked yet. -/
theorem inv_start (answers : ι → Option V → Option V → Prop) (cell : Cell V) :
    Inv answers cell.content (⟨cell, fun _ => .away, []⟩ : State ι V) where
  serial := .nil
  listed _ := rfl
  answered _ := trivial
  pins _ := pins_none cell

/-! ## Versions that only grow -/

/-- The cell is there, and nobody holds a version above its own. -/
def Below (s : State ι V) (g : Nat) : Prop :=
  s.cell.map Prod.fst = some g ∧ ∀ j h w, (s.client j).held = some (h, w) → h ≤ g

omit [DecidableEq ι] in
/-- A version above the present one is fresh. -/
theorem Below.fresh {g g' : Nat} (below : Below s g) (higher : g < g') (who : Option ι) (w : V) :
    Fresh s who (some (g', w)) := by
  rintro j - h u w' held now
  have bound := below.2 j h u held
  obtain ⟨rfl, -⟩ := Prod.mk.inj (Option.some.inj now)
  omega

theorem Below.set {g g' : Nat} (below : Below s g) (i : ι) {x : Client V} {cell : Cell V}
    (log : List (Commit ι V)) (now : cell.map Prod.fst = some g') (higher : g ≤ g')
    (held : ∀ h w, x.held = some (h, w) → h ≤ g') :
    Below ⟨cell, Function.update s.client i x, log⟩ g' := by
  constructor
  · exact now
  · intro j h w holds
    by_cases same : j = i
    · subst same
      exact held h w (by simpa using holds)
    · exact Nat.le_trans (below.2 j h w (by simpa [same] using holds)) higher

end SidepoolFormal.Library.Optimistic
