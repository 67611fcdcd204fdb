import SidepoolFormal.S.Answer
import SidepoolFormal.S.Iterate

/-!
# The subscribers that a raise joins

When a raise returns its `Io`, this has the actions of the functions that the walk
has called, each once and in order.  So it joins all leases that were live
throughout the walk exactly where the walk visits them.
-/

namespace SidepoolFormal.S

open Library Registry

variable {E : Type}

/-! ## The order of the actions -/

theorem returned_of_silent {r : Nat} (trace : List (Label E)) {label : Label E}
    (silent : returned r label = none) :
    (trace ++ [label]).filterMap (returned r) = trace.filterMap (returned r) := by
  rw [List.filterMap_append, List.filterMap_cons_none silent, List.filterMap_nil, List.append_nil]

theorem mem_returned {r l : Nat} {trace : List (Label E)} :
    l ∈ trace.filterMap (returned r) ↔ .returns r l ∈ trace := by
  constructor
  · intro member
    obtain ⟨label, inside, returns⟩ := List.mem_filterMap.mp member
    exact returned_eq_some returns ▸ inside
  · intro inside
    exact List.mem_filterMap.mpr ⟨_, inside, if_pos rfl⟩

/-- Only a call puts a function on the stack. -/
theorem function_of_step {s s' : State E} {label : Label E} {r l : Nat} {prev : Option Nat}
    (step : Step s label s') (member : .function r prev l ∈ s'.stack) :
    .function r prev l ∈ s.stack ∨
      label = .calls r l ∧ ∃ stack, s.stack = .iterate r prev (some l) :: stack := by
  cases step with
  | makes control => exact .inl member
  | subscribes control lessee => exact .inl member
  | destroys control lessee => exact .inl member
  | raises control => exact .inl ((List.mem_cons.mp member).resolve_left nofun)
  | runs control found returned ran => exact .inl ((List.mem_cons.mp member).resolve_left nofun)
  | completes control found started result => exact .inl member
  | calls control live =>
      rcases List.mem_cons.mp member with same | below
      · cases same
        exact .inr ⟨rfl, _, control⟩
      · exact .inl (control ▸ List.mem_cons_of_mem _ below)
  | removes control cleared =>
      have below := (List.mem_cons.mp member).resolve_left nofun
      exact .inl (control ▸ List.mem_cons_of_mem _ below)
  | returns control =>
      have below := (List.mem_cons.mp member).resolve_left nofun
      exact .inl (control ▸ List.mem_cons_of_mem _ below)
  | starts control found next =>
      have below := (List.mem_cons.mp member).resolve_left nofun
      exact .inl (control ▸ List.mem_cons_of_mem _ below)
  | leaves control =>
      have below := (List.mem_cons.mp member).resolve_left nofun
      exact .inl (control ▸ List.mem_cons_of_mem _ below)
  | crashes control e =>
      have below := (List.mem_cons.mp member).resolve_left nofun
      exact .inl (control ▸ List.mem_cons_of_mem _ below)
  | throws control e => exact .inl (control ▸ List.mem_cons_of_mem _ member)
  | ends control => exact .inl (control ▸ List.mem_cons_of_mem _ member)
  | joins control found none => exact .inl (control ▸ List.mem_cons_of_mem _ member)

/-- Of the frames on the stack, only the one on top walks for its raise. -/
theorem Walking.only {trace : List (Label E)} {s : State E} {frame frame' : Frame}
    {stack : List Frame} {r : Nat} (walking : Walking trace s) (control : s.stack = frame :: stack)
    (walk : frame.walk = some r) (below : frame' ∈ stack) : frame'.walk ≠ some r := by
  intro walk'
  have distinct := walking.distinct
  rw [control, List.filterMap_cons_some walk, List.nodup_cons] at distinct
  exact distinct.1 (List.mem_filterMap.mpr ⟨frame', below, walk'⟩)

/-- The functions return in order, each after those in front of it. -/
structure Sorted (trace : List (Label E)) (s : State E) : Prop where
  order : ∀ r, (trace.filterMap (returned r)).Pairwise (· < ·)
  ahead : ∀ r prev l, .function r prev l ∈ s.stack →
    ∀ l' ∈ trace.filterMap (returned r), l' < l

theorem Sorted.step {trace : List (Label E)} {s s' : State E} {label : Label E}
    (sorted : Sorted trace s) (walking : Walking trace s) (called : Called trace s)
    (step : Step s label s') : Sorted (trace ++ [label]) s' := by
  refine ⟨fun r => ?_, fun r prev l member l' inside => ?_⟩
  · cases which : returned r label with
    | none => exact (returned_of_silent trace which).symm ▸ sorted.order r
    | some l =>
        cases returned_eq_some which
        cases step with
        | @returns _ _ prev stack control =>
            have before := sorted.ahead r prev l (control ▸ List.mem_cons_self)
            rw [List.filterMap_append, List.filterMap_cons_some which, List.filterMap_nil]
            refine List.pairwise_append.mpr ⟨sorted.order r, List.pairwise_singleton _ _, ?_⟩
            intro l' inside l'' same
            exact List.mem_singleton.mp same ▸ before l' inside
  · rcases function_of_step step member with old | ⟨rfl, stack, control⟩
    · refine sorted.ahead r prev l old l' (mem_returned.mpr ?_)
      refine earlier (mem_returned.mp inside) ?_
      rintro rfl
      cases step with
      | @returns _ _ prev' stack control =>
          have below := (List.mem_cons.mp member).resolve_left nofun
          exact walking.only control rfl below rfl
    · rw [returned_of_silent trace rfl, mem_returned] at inside
      have visit : l' ∈ visits r trace :=
        List.mem_filterMap.mpr ⟨_, (called.before r l' inside).1, if_pos rfl⟩
      exact walking.ahead _ (control ▸ List.mem_cons_self) r rfl l' visit

theorem sorted_of_run {trace : List (Label E)} {s : State E} (run : Run Step initial trace s) :
    Sorted trace s := by
  induction run with
  | nil => exact ⟨fun _ => .nil, nofun⟩
  | snoc run next ih => exact ih.step (walking_of_run run) (called_of_run run) next

/-! ## What is visited and what is collected -/

section

variable {trace : List (Label E)} {s s' : State E} {r l : Nat}

theorem ends_iff_returned (run : Run Step initial trace s) {raise : Raise E}
    (found : s.raises[r]? = some raise) : .ends r ∈ trace ↔ raise.returned = true :=
  ((raised_of_run run).sound r raise found).marks.ends

/-- A raise that has returned its `Io` walks no more. -/
theorem nowhere_of_ends (run : Run Step initial trace s) (ends : .ends r ∈ trace) :
    ∀ frame ∈ s.stack, frame.walk ≠ some r := by
  intro frame member walk
  have raised := raised_of_run run
  have own : frame.raise = r := by
    cases frame with
    | iterate r' prev ptr => exact Option.some.inj walk
    | function r' prev ptr => exact Option.some.inj walk
    | chain r' i => cases walk
    | act r' i => cases walk
  have bound := raised.bound frame member
  have found := List.getElem?_eq_getElem bound
  have fits := raised.fits frame member _ found
  have returned := (ends_iff_returned run found).mp (own.symm ▸ ends)
  cases frame with
  | iterate r' prev ptr => cases returned.symm.trans fits.1
  | function r' prev ptr => cases returned.symm.trans fits.1
  | chain r' i => cases walk
  | act r' i => cases walk

theorem visited_of_ends (run : Run Step initial trace s) (ends : .ends r ∈ trace)
    {label : Label E} (step : Step s label s') : visited r label = none := by
  have nowhere := nowhere_of_ends run ends
  cases step with
  | @removes r' l prev stack control cleared =>
      have top : s.stack.head? = some _ := congrArg List.head? control
      refine if_neg fun same => ?_
      exact nowhere _ (List.mem_of_mem_head? top) (congrArg some same)
  | @calls r' l prev stack control live =>
      have top : s.stack.head? = some _ := congrArg List.head? control
      refine if_neg fun same => ?_
      exact nowhere _ (List.mem_of_mem_head? top) (congrArg some same)
  | _ => rfl

theorem visits_of_ends (run : Run Step initial trace s) (ends : .ends r ∈ trace)
    {behind : List (Label E)} (rest : Run Step s behind s') :
    visits r (trace ++ behind) = visits r trace := by
  induction rest with
  | nil => rw [List.append_nil]
  | @snoc behind s₁ s₂ label rest step ih =>
      have silent := visited_of_ends (run.append rest) (List.mem_append_left _ ends) step
      rw [← List.append_assoc, visits_of_silent _ silent, ih]

/-- A lease that a walk has visited and that is live has been called. -/
theorem calls_of_visits (run : Run Step initial trace s) (live : s.registry.live l = true)
    (visit : l ∈ visits r trace) : .calls r l ∈ trace := by
  obtain ⟨label, member, here⟩ := List.mem_filterMap.mp visit
  cases label with
  | removes r' l' =>
      rw [visited] at here
      split at here
      · cases here
        obtain ⟨chain, history, -⟩ := (kept_of_run run).list
        exact absurd (history.listed.live l live) ((history.gone l).mp ⟨r', member⟩).2
      · cases here
  | calls r' l' =>
      rw [visited] at here
      split at here
      · rename_i same
        cases same
        cases here
        exact member
      · cases here
  | _ => cases here

/-- At the end of its walk a raise has the actions of all functions it has called. -/
theorem returns_at_end (run : Run Step initial trace s) {prev : Option Nat} {stack : List Frame}
    (control : s.stack = .iterate r prev none :: stack) (calls : .calls r l ∈ trace) :
    .returns r l ∈ trace := by
  have answers := answers_of_run run
  have top : .iterate r prev none ∈ s.stack := control ▸ List.mem_cons_self
  rcases answers.answered r l calls with returns | ⟨e, throws⟩ | ⟨prev', frame⟩
  · exact returns
  · exact absurd (List.mem_map.mpr ⟨_, top, rfl⟩) (answers.threw r l e throws).2.2
  · rw [control] at frame
    have below := (List.mem_cons.mp frame).resolve_left nofun
    exact absurd rfl ((walking_of_run run).only control rfl below)

end

/-! ## Joining -/

/-- The `Io` of a raise joins its subscribers: it joins the actions that it has, these
are in order and of a lease each, and of all leases that were there when the raise
was made and were still live when it returned the `Io`. -/
structure JoinsAll (trace : List (Label E)) (s : State E) (r : Nat) (raise : Raise E) : Prop where
  joins : Joins trace s r raise
  ordered : raise.leases.Pairwise (· < ·)
  all : ∀ pre s₁ n, pre ++ [.ends r] <+: trace → Run Step initial pre s₁ → .raises r n ∈ pre →
    ∀ l, s₁.registry.live l = true → l < n → l ∈ raise.leases

section Raises

variable {trace : List (Label E)} {s : State E}

theorem leases_ordered (run : Run Step initial trace s) {r : Nat} {raise : Raise E}
    (found : s.raises[r]? = some raise) : raise.leases.Pairwise (· < ·) := by
  rw [(called_of_run run).acts r raise found]
  exact (sorted_of_run run).order r

theorem joinsAll_of_complete (run : Run Step initial trace s)
    (complete : Run.Meets Step initial Complete trace) {r : Nat} {raise : Raise E}
    (found : s.raises[r]? = some raise) (returned : raise.returned = true) :
    JoinsAll trace s r raise := by
  refine ⟨raise_joins run found returned, leases_ordered run found, ?_⟩
  rintro pre s₁ n ⟨post, rfl⟩ before raised l live bound
  have visit :=
    complete pre (.ends r) s₁ (List.prefix_append _ _) before r rfl n raised l live bound
  have calls := calls_of_visits before live visit
  rw [(called_of_run run).acts r raise found, mem_returned]
  rw [List.append_assoc] at run
  obtain ⟨s₂, before', behind⟩ := run.split
  cases run_deterministic before before'
  obtain ⟨s₃, step, -⟩ := behind.uncons
  cases step with
  | ends control =>
      have returns := returns_at_end before control calls
      exact List.mem_append_left _ (List.mem_append_left _ returns)

theorem complete_of_joinsAll (run : Run Step initial trace s)
    (joins : ∀ r raise, s.raises[r]? = some raise → raise.returned = true →
      JoinsAll trace s r raise) : Run.Meets Step initial Complete trace := by
  rintro pre label s₁ inside before r rfl n raised l live bound
  have ends : .ends r ∈ trace := inside.subset (now pre _)
  have known := (raised_of_run run).known _ ends r rfl
  have found := List.getElem?_eq_getElem known
  have returned := (ends_iff_returned run found).mp ends
  have member := (joins r _ found returned).all pre s₁ n inside before raised l live bound
  rw [(called_of_run run).acts r _ found, mem_returned] at member
  have visit : l ∈ visits r trace :=
    List.mem_filterMap.mpr ⟨_, ((called_of_run run).before r l member).1, if_pos rfl⟩
  obtain ⟨post, rfl⟩ := inside
  obtain ⟨s₂, before', behind⟩ := run.split
  rw [visits_of_ends before' (now pre _) behind, visits_of_silent pre rfl] at visit
  exact visit

/-- The `Io` of a raise joins the actions of the functions that returned one.  It
joins the leases that were live throughout, each once and in order, if and only
if, whenever a function returned after its lease had been removed by another
walk, none of the leases behind it was live. -/
theorem raise_joins_all_iff (run : Run Step initial trace s) :
    (∀ r raise, s.raises[r]? = some raise → raise.returned = true →
      Joins trace s r raise ∧ raise.leases.Pairwise (· < ·)) ∧
    (Run.Meets Step initial Uncut trace →
      ∀ r raise, s.raises[r]? = some raise → raise.returned = true → JoinsAll trace s r raise) ∧
    (free s.stack = true → (∀ r raise, s.raises[r]? = some raise → raise.returned = true →
      JoinsAll trace s r raise) → Run.Meets Step initial Uncut trace) := by
  refine ⟨fun r raise found returned => ?_, fun uncut r raise found returned => ?_,
    fun control joins => ?_⟩
  · exact ⟨raise_joins run found returned, leases_ordered run found⟩
  · exact joinsAll_of_complete run (complete_of_uncut run uncut) found returned
  · exact uncut_of_complete run control (complete_of_joinsAll run joins)

end Raises

/-- The first action fails while it is started, the second one later, and twice. -/
def failing : List (Label Bool) :=
  [.makes 0, .subscribes 0 0, .subscribes 0 1, .raises 0 2, .calls 0 0, .returns 0 0, .calls 0 1,
    .returns 0 1, .ends 0, .runs 0, .starts 0 0 0, .completes 0 0 (some true), .leaves 0 0,
    .starts 0 1 1, .leaves 0 1, .joins 0, .completes 0 1 (some false), .completes 0 1 none]

theorem raise_joins_all_iff_failing : ∃ s raise, Run Step initial failing s ∧
    s.raises[0]? = some raise ∧ JoinsAll failing s 0 raise ∧ raise.leases = [0, 1] ∧
    raise.results = [some true] := by
  have run : ∃ s, replay initial failing = some s ∧ ∃ raise, s.raises[0]? = some raise ∧
      raise.returned = true ∧ raise.leases = [0, 1] ∧ raise.results = [some true] :=
    ⟨_, rfl, _, rfl, rfl, rfl, rfl⟩
  obtain ⟨s, replayed, raise, found, returned, leases, results⟩ := run
  have run := run_of_replay replayed
  refine ⟨s, raise, run, found, ?_, leases, results⟩
  refine (raise_joins_all_iff run).2.1 ?_ 0 raise found returned
  intro pre label s₁ inside before r l r' same removed
  have part : pre <+: failing := (List.prefix_append _ _).trans inside
  have there := part.subset removed
  simp [failing] at there

/-- Where the function of the first lease destroys its lessee and raises once more,
the outer raise returns an `Io` that does not join the second lease, which is
live all the time. -/
theorem not_joins_all :
    ∃ s raise, Run Step initial (subscribing ++ .raises 0 2 :: renested ++ [.ends 0]) s ∧
      s.raises[0]? = some raise ∧ raise.returned = true ∧ raise.leases = [0] ∧
      ¬ JoinsAll (subscribing ++ .raises 0 2 :: renested ++ [.ends 0]) s 0 raise := by
  have run : ∃ s, replay initial (subscribing ++ .raises 0 2 :: renested ++ [.ends 0]) = some s ∧
      ∃ raise, s.raises[0]? = some raise ∧ raise.returned = true ∧ raise.leases = [0] :=
    ⟨_, rfl, _, rfl, rfl, rfl⟩
  obtain ⟨s, replayed, raise, found, returned, leases⟩ := run
  refine ⟨s, raise, run_of_replay replayed, found, returned, leases, fun joins => ?_⟩
  have member := joins.all (subscribing ++ .raises 0 2 :: renested) _ 2 (List.prefix_refl _)
    (run_of_replay rfl) (by simp) 1 rfl (by decide)
  rw [leases] at member
  exact absurd member (by decide)

end SidepoolFormal.S
