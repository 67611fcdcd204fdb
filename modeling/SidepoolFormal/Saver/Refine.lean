import SidepoolFormal.Saver.Code

/-!
# Calls as optimistic transactions

The ledger of a run is the log of an optimistic protocol whose clients are the
calls.  A kind of call says which of its remaining programs stand for which
client.
-/

namespace SidepoolFormal.Saver

open Library Optimistic

variable {ι V A : Type}

theorem ledger_snoc (record : List (Commit ι V) → Event ι V A → List (Commit ι V))
    (trace : List (Event ι V A)) (e : Event ι V A) :
    ledger record (trace ++ [e]) = record (ledger record trace) e := by
  rw [ledger, List.foldl_append]
  rfl

variable [DecidableEq ι]

theorem relied_snoc (i : ι) (trace : List (Event ι V A)) (e : Event ι V A) :
    relied i (trace ++ [e]) =
      if e.who = some i then rely (relied i trace) e else relied i trace := by
  rw [relied, List.foldl_append]
  rfl

/-- The calls stand for the clients, and the ledger is their log. -/
structure Refines (record : List (Commit ι V) → Event ι V A → List (Commit ι V))
    (Tracks : Io V A A → Client V → Prop) (trace : List (Event ι V A)) (s : System ι V A)
    (a : State ι V) : Prop where
  cell : a.cell = s.entry
  tracks : ∀ i, Tracks (s.call i) (a.client i)
  log : a.log = ledger record trace
  relied : ∀ i, (a.client i).held.map Prod.fst = relied i trace

section

variable {record : List (Commit ι V) → Event ι V A → List (Commit ι V)}
  {Tracks : Io V A A → Client V → Prop} {trace : List (Event ι V A)} {s : System ι V A}
  {a : State ι V} {e : Event ι V A} {entry : Option (Nat × V)} {i : ι}

/-- One call goes on, and so does its client. -/
theorem Refines.set (refines : Refines record Tracks trace s a) (who : e.who = some i)
    {t : Io V A A} {c : Client V} {log : List (Commit ι V)} (tracks : Tracks t c)
    (logged : log = record a.log e)
    (relies : c.held.map Prod.fst = rely ((a.client i).held.map Prod.fst) e) :
    Refines record Tracks (trace ++ [e]) ⟨entry, Function.update s.call i t⟩
      ⟨entry, Function.update a.client i c, log⟩ where
  cell := rfl
  tracks j := by
    by_cases same : j = i
    · subst same
      simpa using tracks
    · simpa [same] using refines.tracks j
  log := by
    rw [ledger_snoc, ← refines.log]
    exact logged
  relied j := by
    rw [relied_snoc, who, ← refines.relied]
    by_cases same : j = i
    · subst same
      simpa using relies
    · simp [same, Ne.symm same]

/-- One call goes on without its client noticing. -/
theorem Refines.stay (refines : Refines record Tracks trace s a) (who : e.who = some i)
    {t : Io V A A} (tracks : Tracks t (a.client i)) (logged : a.log = record a.log e)
    (relies : (a.client i).held.map Prod.fst = rely ((a.client i).held.map Prod.fst) e) :
    Refines record Tracks (trace ++ [e]) ⟨s.entry, Function.update s.call i t⟩ a where
  cell := refines.cell
  tracks j := by
    by_cases same : j = i
    · subst same
      simpa using tracks
    · simpa [same] using refines.tracks j
  log := by
    rw [ledger_snoc, ← refines.log]
    exact logged
  relied j := by
    rw [relied_snoc, who, ← refines.relied]
    by_cases same : j = i
    · subst same
      simpa using relies
    · simp [Ne.symm same]

/-- Nobody's call goes on. -/
theorem Refines.direct (refines : Refines record Tracks trace s a) (who : e.who = none)
    {log : List (Commit ι V)} (logged : log = record a.log e) :
    Refines record Tracks (trace ++ [e]) ⟨entry, s.call⟩ ⟨entry, a.client, log⟩ where
  cell := rfl
  tracks := refines.tracks
  log := by
    rw [ledger_snoc, ← refines.log]
    exact logged
  relied j := by
    rw [relied_snoc, who, ← refines.relied]
    rfl

end

theorem enter_again (program : Io V A A) : enter program again = program :=
  program.continue_done

/-! ## What is told -/

/-- What the calls are told is what the ledger has of them.  A call that passes is in it
once, with a content that its function has made into the value passed; one that
fails is not; and one that is not told yet is in it at most once, or has only found
that there is no entry. -/
structure Listed (content : A → Option V) (answers : ι → A → A → Prop) (log : List (Commit ι V))
    (told : ι → Option (Except Exn A)) : Prop where
  passed : ∀ i b, told i = some (.ok b) →
    ∃ c, answers i c b ∧ own i log = [⟨some i, content c, content b⟩]
  failed : ∀ i e, told i = some (.error e) → own i log = []
  untold : ∀ i, told i = none → (∀ c ∈ own i log, c.before = none ∧ c.after = none) ∨
    ∃ c b, answers i c b ∧ own i log = [⟨some i, content c, content b⟩]

/-- A call may be told later what it has come to. -/
theorem Listed.later {content : A → Option V} {answers : ι → A → A → Prop}
    {log : List (Commit ι V)} {told told' : ι → Option (Except Exn A)}
    (listed : Listed content answers log told)
    (later : ∀ i r, told' i = some r → told i = some r) : Listed content answers log told' where
  passed i b same := listed.passed i b (later i _ same)
  failed i e same := listed.failed i e (later i _ same)
  untold i _ := by
    cases same : told i with
    | none => exact listed.untold i same
    | some r =>
        cases r with
        | ok b =>
            obtain ⟨c, answer, once⟩ := listed.passed i b same
            exact .inr ⟨c, b, answer, once⟩
        | error e => exact .inl (by simp [listed.failed i e same])

/-- The content is what the entries of the ledger make of the content at first, one
after the other. -/
structure Serialised (content : A → Option V) (answers : ι → A → A → Prop) (v : Option V)
    (log : List (Commit ι V)) (w : Option V) (told : ι → Option (Except Exn A)) : Prop where
  serial : Serial v log w
  calls : Listed content answers log told

end SidepoolFormal.Saver
