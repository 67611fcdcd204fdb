import SidepoolFormal.S.Calls
import Mathlib.Data.List.Nodup

/-!
# Walks along the list

A call of `iterate` goes forward along the list, whatever the functions do that
it calls.  It passes over a lease that is there all the time only if the lease
whose function is running is removed by another walk: then the walk ends.
-/

namespace SidepoolFormal.S

open Library Registry

variable {E : Type}

/-! ## The list at every moment -/

/-- The list after what has happened: a lease is removed from it only by a walk,
and does not come back. -/
structure History (trace : List (Label E)) (registry : Registry) (chain : List Nat) : Prop where
  listed : Listed registry chain
  gone : ∀ l, (∃ r, .removes r l ∈ trace) ↔ l < registry.leases.length ∧ l ∉ chain

theorem History.quiet {trace : List (Label E)} {registry registry' : Registry} {chain : List Nat}
    (history : History trace registry chain) {label : Label E}
    (other : ∀ r l, label ≠ .removes r l) (listed : Listed registry' chain)
    (leases : registry'.leases.length = registry.leases.length) :
    History (trace ++ [label]) registry' chain := by
  refine ⟨listed, ?_⟩
  intro l
  rw [leases, ← history.gone l]
  constructor
  · rintro ⟨r, member⟩
    exact ⟨r, earlier member (other r l)⟩
  · rintro ⟨r, member⟩
    exact ⟨r, later label member⟩

/-- Where a walk is about to look at a lease, it stands right behind `prev`. -/
structure Kept (trace : List (Label E)) (s : State E) : Prop where
  nested : ∀ frame ∈ s.stack.tail, frame.user = true
  list : ∃ chain, History trace s.registry chain ∧
    ∀ r prev l stack, s.stack = .iterate r prev (some l) :: stack →
      ∃ pre post, chain = pre ++ l :: post ∧ prev = pre.getLast?

theorem nested_of_free {stack : List Frame} (control : free stack = true)
    (nested : ∀ frame ∈ stack.tail, frame.user = true) : ∀ frame ∈ stack, frame.user = true := by
  cases stack with
  | nil => exact nested
  | cons frame stack => exact List.forall_mem_cons.mpr ⟨control, nested⟩

theorem free_of_nested {stack : List Frame} (nested : ∀ frame ∈ stack, frame.user = true) :
    free stack = true := by
  cases stack with
  | nil => rfl
  | cons frame stack => exact nested frame List.mem_cons_self

theorem not_iterate {stack stack' : List Frame} {r : Nat} {prev ptr : Option Nat}
    (control : free stack = true) : stack ≠ .iterate r prev ptr :: stack' := by
  rintro rfl
  cases control

namespace Kept

variable {trace : List (Label E)} {s s' : State E}

/-- Where the list is as before, and no walk is about to look at a lease. -/
theorem quiet (kept : Kept trace s) {label : Label E} (other : ∀ r l, label ≠ .removes r l)
    (registry : s'.registry = s.registry) (nested : ∀ frame ∈ s'.stack.tail, frame.user = true)
    (still : ∀ r prev l stack, s'.stack ≠ .iterate r prev (some l) :: stack) :
    Kept (trace ++ [label]) s' := by
  obtain ⟨chain, history, -⟩ := kept.list
  refine ⟨nested, chain, ?_, ?_⟩
  · rw [registry]
    exact history.quiet other history.listed rfl
  · intro r prev l stack control
    exact absurd control (still r prev l stack)

/-- Where a frame is left, and the one below has control. -/
theorem pop (kept : Kept trace s) {label : Label E} (other : ∀ r l, label ≠ .removes r l)
    {frame : Frame} {stack : List Frame} (control : s.stack = frame :: stack)
    (registry : s'.registry = s.registry)
    (left : s'.stack = stack) : Kept (trace ++ [label]) s' := by
  have nested := kept.nested
  rw [control, List.tail_cons] at nested
  refine kept.quiet other registry ?_ ?_
  · rw [left]
    exact fun frame member => nested frame (List.mem_of_mem_tail member)
  · rw [left]
    exact fun r prev l stack => not_iterate (free_of_nested nested)

/-- Where the frame on top is replaced by one that walks nowhere. -/
theorem replace (kept : Kept trace s) {label : Label E} (other : ∀ r l, label ≠ .removes r l)
    {frame frame' : Frame} {stack : List Frame} (control : s.stack = frame :: stack)
    (registry : s'.registry = s.registry) (next : s'.stack = frame' :: stack)
    (still : ∀ r prev l, frame' ≠ .iterate r prev (some l)) : Kept (trace ++ [label]) s' := by
  have nested := kept.nested
  rw [control, List.tail_cons] at nested
  refine kept.quiet other registry ?_ ?_
  · rw [next, List.tail_cons]
    exact nested
  · rw [next]
    intro r prev l stack same
    exact still r prev l (List.cons.inj same).1

theorem step (kept : Kept trace s) {label : Label E} (step : Step s label s') :
    Kept (trace ++ [label]) s' := by
  obtain ⟨chain, history, top⟩ := kept.list
  have listed := history.listed
  cases step with
  | makes control =>
      exact kept.quiet nofun rfl kept.nested fun r prev l stack => not_iterate control
  | subscribes control lessee =>
      refine ⟨kept.nested, _, ⟨listed.addLease, ?_⟩, fun r prev l stack same =>
        absurd same (not_iterate control)⟩
      intro l
      rw [length_addLease, List.mem_append, List.mem_singleton, not_or]
      constructor
      · rintro ⟨r, member⟩
        obtain ⟨bound, outside⟩ := (history.gone l).mp ⟨r, earlier member nofun⟩
        exact ⟨Nat.lt_succ_of_lt bound, outside, Nat.ne_of_lt bound⟩
      · rintro ⟨bound, outside, ne⟩
        obtain ⟨r, removed⟩ := (history.gone l).mpr ⟨by omega, outside⟩
        exact ⟨r, later _ removed⟩
  | @destroys k leases control lessee =>
      exact ⟨kept.nested, chain,
        history.quiet nofun (listed.destroy leases) (length_destroy leases),
        fun r prev l stack same => absurd same (not_iterate control)⟩
  | raises control =>
      refine ⟨nested_of_free control kept.nested, chain, history.quiet nofun listed rfl, ?_⟩
      rintro r prev l stack same
      obtain ⟨-, rfl, first⟩ := Frame.iterate.inj (List.cons.inj same).1
      cases chain with
      | nil =>
          have none := listed.linked.head
          rw [first] at none
          cases none
      | cons a post =>
          have head := listed.linked.head
          rw [first] at head
          cases head
          exact ⟨[], post, rfl, rfl⟩
  | @removes r l prev stack control cleared =>
      obtain ⟨pre, post, rfl, rfl⟩ := top r prev l stack control
      have nested := kept.nested
      rw [control, List.tail_cons] at nested
      have distinct : (pre ++ l :: post).Nodup := listed.sorted.imp Nat.ne_of_lt
      have fresh : l ∉ pre ++ post := (List.nodup_cons.mp (List.nodup_middle.mp distinct)).1
      refine ⟨nested, pre ++ post, ⟨listed.remove cleared, ?_⟩, ?_⟩
      · intro l'
        rw [length_remove]
        have split : l' ∈ pre ++ l :: post ↔ l' = l ∨ l' ∈ pre ++ post := by
          simp only [List.mem_append, List.mem_cons]
          exact or_left_comm
        constructor
        · rintro ⟨r', member⟩
          rcases List.mem_append.mp member with before | now
          · obtain ⟨bound, outside⟩ := (history.gone l').mp ⟨r', before⟩
            exact ⟨bound, fun inside => outside (split.mpr (.inr inside))⟩
          · cases List.mem_singleton.mp now
            exact ⟨listed.bound l (by simp), fresh⟩
        · rintro ⟨bound, outside⟩
          by_cases same : l' = l
          · exact ⟨r, same ▸ now trace _⟩
          · obtain ⟨r', removed⟩ := (history.gone l').mpr ⟨bound, fun inside =>
              (split.mp inside).elim same outside⟩
            exact ⟨r', later _ removed⟩
      · intro r' prev l' stack' same
        obtain ⟨-, rfl, next⟩ := Frame.iterate.inj (List.cons.inj same).1
        rw [listed.next_eq] at next
        cases post with
        | nil => cases next
        | cons a post =>
            cases next
            exact ⟨pre, post, rfl, rfl⟩
  | calls control live =>
      exact kept.replace nofun control rfl rfl fun r prev l => nofun
  | @returns r l prev stack control =>
      have nested := kept.nested
      rw [control, List.tail_cons] at nested
      refine ⟨nested, chain, history.quiet nofun listed rfl, ?_⟩
      intro r' prev' l' stack' same
      obtain ⟨-, rfl, next⟩ := Frame.iterate.inj (List.cons.inj same).1
      by_cases member : l ∈ chain
      · obtain ⟨pre, post, rfl⟩ := List.append_of_mem member
        rw [listed.next_eq] at next
        cases post with
        | nil => cases next
        | cons a post =>
            cases next
            exact ⟨pre ++ [l], post, by simp, List.getLast?_concat.symm⟩
      · rw [listed.apart l member] at next
        cases next
  | throws control e => exact kept.pop nofun control rfl rfl
  | ends control => exact kept.pop nofun control rfl rfl
  | runs control found returned ran =>
      refine kept.quiet nofun rfl ?_ fun r prev l stack => nofun
      exact nested_of_free control kept.nested
  | starts control found next =>
      exact kept.replace nofun control rfl rfl fun r prev l => nofun
  | leaves control => exact kept.replace nofun control rfl rfl fun r prev l => nofun
  | crashes control e => exact kept.replace nofun control rfl rfl fun r prev l => nofun
  | joins control found none => exact kept.pop nofun control rfl rfl
  | completes control found started result =>
      exact kept.quiet nofun rfl kept.nested fun r prev l stack => not_iterate control

end Kept

/-! ## What a walk has visited -/

/-- The lease that `iterate` looks at for the r-th raise. -/
def visited (r : Nat) : Label E → Option Nat
  | .removes r' l => if r' = r then some l else none
  | .calls r' l => if r' = r then some l else none
  | _ => none

def visits (r : Nat) (trace : List (Label E)) : List Nat := trace.filterMap (visited r)

theorem visits_snoc (r : Nat) (trace : List (Label E)) (label : Label E) :
    visits r (trace ++ [label]) = visits r trace ++ (visited r label).toList := by
  rw [visits, List.filterMap_append, visits]
  cases h : visited r label with
  | none => simp [h]
  | some l => simp [h]

theorem visits_of_silent {r : Nat} (trace : List (Label E)) {label : Label E}
    (silent : visited r label = none) : visits r (trace ++ [label]) = visits r trace := by
  rw [visits_snoc, silent]
  exact List.append_nil _

theorem visits_mono {r l : Nat} {trace : List (Label E)} (label : Label E)
    (member : l ∈ visits r trace) : l ∈ visits r (trace ++ [label]) := by
  rw [visits_snoc]
  exact List.mem_append_left _ member

section Visit

variable {r l : Nat} {trace : List (Label E)} {label : Label E}

/-- Once a lease is visited, no visit lies further. -/
theorem le_of_visits (here : visited r label = some l) (before : ∀ v ∈ visits r trace, v < l)
    {v : Nat} (visit : v ∈ visits r (trace ++ [label])) : v ≤ l := by
  rw [visits_snoc, here] at visit
  rcases List.mem_append.mp visit with old | now
  · exact Nat.le_of_lt (before v old)
  · exact Nat.le_of_eq (List.mem_singleton.mp now)

theorem visits_sorted (order : (visits r trace).Pairwise (· < ·)) (here : visited r label = some l)
    (before : ∀ v ∈ visits r trace, v < l) :
    (visits r (trace ++ [label])).Pairwise (· < ·) := by
  rw [visits_snoc, here]
  refine List.pairwise_append.mpr ⟨order, List.pairwise_singleton _ _, ?_⟩
  intro v visit l' same
  rw [List.mem_singleton.mp same]
  exact before v visit

end Visit

/-- How far a walk has come. -/
def Frame.reached : Frame → Nat → Prop
  | .iterate _ _ (some ptr), l => l < ptr
  | .function _ _ ptr, l => l ≤ ptr
  | _, _ => True

/-- A walk that goes on behind a lease has come at least so far. -/
theorem reached_next {registry : Registry} {chain : List Nat} (listed : Listed registry chain)
    (r : Nat) (prev : Option Nat) {v l : Nat} (before : v ≤ l) :
    (Frame.iterate r prev (registry.next l)).reached v := by
  cases next : registry.next l with
  | none => trivial
  | some m => exact Nat.lt_of_le_of_lt before (listed.next_lt next)

/-- Each walk goes forward. -/
structure Walking (trace : List (Label E)) (s : State E) : Prop where
  distinct : (s.stack.filterMap Frame.walk).Nodup
  fresh : ∀ r, s.raises.length ≤ r → visits r trace = [] ∧ ∀ n, .raises r n ∉ trace
  began : ∀ r n, .raises r n ∈ trace → n ≤ s.registry.leases.length
  order : ∀ r, (visits r trace).Pairwise (· < ·)
  ahead : ∀ frame ∈ s.stack, ∀ r, frame.walk = some r → ∀ l ∈ visits r trace, frame.reached l

namespace Walking

variable {trace : List (Label E)} {s s' : State E}

/-- Where nothing is visited and no walk begins or goes on. -/
theorem quiet (walking : Walking trace s) {label : Label E}
    (silent : ∀ r, visited r label = none) (old : ∀ r n, label ≠ .raises r n)
    (raises : s'.raises.length = s.raises.length)
    (leases : s.registry.leases.length ≤ s'.registry.leases.length)
    (frames : ∀ frame ∈ s'.stack, frame ∈ s.stack ∨ frame.walk = none)
    (walks : (s'.stack.filterMap Frame.walk).Sublist (s.stack.filterMap Frame.walk)) :
    Walking (trace ++ [label]) s' := by
  have same (r : Nat) := visits_of_silent trace (silent r)
  refine ⟨walking.distinct.sublist walks, ?_, ?_, ?_, ?_⟩
  · intro r bound
    obtain ⟨none, never⟩ := walking.fresh r (raises ▸ bound)
    exact ⟨(same r).trans none, fun n member => never n (earlier member (old r n))⟩
  · intro r n member
    exact Nat.le_trans (walking.began r n (earlier member (old r n))) leases
  · intro r
    exact (same r).symm ▸ walking.order r
  · intro frame member r walk l visit
    rw [same] at visit
    rcases frames frame member with before | nowhere
    · exact walking.ahead frame before r walk l visit
    · rw [nowhere] at walk
      cases walk

/-- Where the walk on top goes on. -/
theorem advance (walking : Walking trace s) (called : Called trace s) {label : Label E}
    {frame frame' : Frame} {stack : List Frame} {r : Nat} (control : s.stack = frame :: stack)
    (next : s'.stack = frame' :: stack) (walk : frame.walk = some r) (walk' : frame'.walk = some r)
    (raises : s'.raises.length = s.raises.length)
    (leases : s'.registry.leases.length = s.registry.leases.length)
    (others : ∀ r', r' ≠ r → visited r' label = none) (old : ∀ r n, label ≠ .raises r n)
    (order : (visits r (trace ++ [label])).Pairwise (· < ·))
    (ahead : ∀ l ∈ visits r (trace ++ [label]), frame'.reached l) :
    Walking (trace ++ [label]) s' := by
  have distinct := walking.distinct
  rw [control, List.filterMap_cons_some walk, List.nodup_cons] at distinct
  have known : r < s.raises.length :=
    called.known frame (control ▸ List.mem_cons_self) r walk
  have below {frame'' : Frame} (member : frame'' ∈ stack) : frame'' ∈ s.stack :=
    control ▸ List.mem_cons_of_mem _ member
  refine ⟨?_, ?_, ?_, ?_, ?_⟩
  · rw [next, List.filterMap_cons_some walk', List.nodup_cons]
    exact distinct
  · intro r' bound
    rw [raises] at bound
    obtain ⟨none, never⟩ := walking.fresh r' bound
    refine ⟨?_, fun n member => never n (earlier member (old r' n))⟩
    rw [visits_of_silent trace (others r' (by omega)), none]
  · intro r' n member
    exact leases.symm ▸ walking.began r' n (earlier member (old r' n))
  · intro r'
    by_cases same : r' = r
    · exact same ▸ order
    · exact (visits_of_silent trace (others r' same)).symm ▸ walking.order r'
  · rw [next]
    refine List.forall_mem_cons.mpr ⟨?_, ?_⟩
    · intro r' same
      cases walk'.symm.trans same
      exact ahead
    · intro frame'' member r' walk'' l visit
      have ne : r' ≠ r := by
        rintro rfl
        exact distinct.1 (List.mem_filterMap.mpr ⟨frame'', member, walk''⟩)
      rw [visits_of_silent trace (others r' ne)] at visit
      exact walking.ahead frame'' (below member) r' walk'' l visit

/-- Where the walk on top ends, or what is on top walks nowhere. -/
theorem leave (walking : Walking trace s) {label : Label E} {frame : Frame} {stack : List Frame}
    (control : s.stack = frame :: stack) (left : List Frame) (next : s'.stack = left ++ stack)
    (nowhere : ∀ frame' ∈ left, frame'.walk = none)
    (silent : ∀ r, visited r label = none) (old : ∀ r n, label ≠ .raises r n)
    (raises : s'.raises.length = s.raises.length) (registry : s'.registry = s.registry) :
    Walking (trace ++ [label]) s' := by
  refine walking.quiet silent old raises (Nat.le_of_eq (by rw [registry])) ?_ ?_
  · rw [next, control]
    intro frame' member
    rcases List.mem_append.mp member with new | below
    · exact .inr (nowhere frame' new)
    · exact .inl (List.mem_cons_of_mem _ below)
  · have none : left.filterMap Frame.walk = [] := List.filterMap_eq_nil_iff.mpr nowhere
    rw [next, control, List.filterMap_append, none, List.nil_append]
    exact (List.sublist_cons_self frame stack).filterMap _

theorem begin (walking : Walking trace s) (called : Called trace s) {ptr : Option Nat}
    (registry : s'.registry = s.registry) (raises : s'.raises = s.raises ++ [Raise.initial])
    (stack : s'.stack = .iterate s.raises.length none ptr :: s.stack) :
    Walking (trace ++ [.raises s.raises.length s.registry.leases.length]) s' := by
  have silent (r : Nat) :
      visits r (trace ++ [.raises s.raises.length s.registry.leases.length]) = visits r trace :=
    visits_of_silent trace rfl
  obtain ⟨none, -⟩ := walking.fresh s.raises.length (Nat.le_refl _)
  have new : s.raises.length ∉ s.stack.filterMap Frame.walk := by
    intro member
    obtain ⟨frame, inside, walk⟩ := List.mem_filterMap.mp member
    exact Nat.lt_irrefl _ (called.known frame inside _ walk)
  refine ⟨?_, ?_, ?_, ?_, ?_⟩
  · rw [stack]
    exact List.nodup_cons.mpr ⟨new, walking.distinct⟩
  · intro r bound
    rw [raises, List.length_append, List.length_singleton] at bound
    obtain ⟨none, never⟩ := walking.fresh r (Nat.le_of_succ_le bound)
    refine ⟨(silent r).trans none, ?_⟩
    intro n member
    refine never n (earlier member ?_)
    rintro ⟨⟩
    exact Nat.lt_irrefl _ bound
  · intro r n member
    rw [registry]
    rcases List.mem_append.mp member with before | now
    · exact walking.began r n before
    · cases List.mem_singleton.mp now
      exact Nat.le_refl _
  · intro r
    exact (silent r).symm ▸ walking.order r
  · rw [stack]
    refine List.forall_mem_cons.mpr ⟨?_, ?_⟩
    · rintro r ⟨⟩ l visit
      rw [silent, none] at visit
      cases visit
    · intro frame member r walk l visit
      rw [silent] at visit
      exact walking.ahead frame member r walk l visit

theorem step (walking : Walking trace s) (kept : Kept trace s) (called : Called trace s)
    {label : Label E} (step : Step s label s') : Walking (trace ++ [label]) s' := by
  obtain ⟨chain, history, top⟩ := kept.list
  have listed := history.listed
  have still : ∀ frame ∈ s.stack, frame ∈ s.stack ∨ frame.walk = none := fun _ member => .inl member
  cases step with
  | makes control =>
      exact walking.quiet (fun _ => rfl) nofun rfl (Nat.le_refl _) still (List.Sublist.refl _)
  | subscribes control lessee =>
      refine walking.quiet (fun _ => rfl) nofun rfl ?_ still (List.Sublist.refl _)
      rw [length_addLease]
      exact Nat.le_succ _
  | @destroys k leases control lessee =>
      refine walking.quiet (fun _ => rfl) nofun rfl ?_ still (List.Sublist.refl _)
      exact Nat.le_of_eq (length_destroy leases).symm
  | raises control => exact walking.begin called rfl rfl rfl
  | @removes r l prev stack control cleared =>
      have here : visited r (.removes r l : Label E) = some l := if_pos rfl
      have before := walking.ahead _ (control ▸ List.mem_cons_self) r rfl
      refine walking.advance called control rfl rfl rfl rfl (length_remove prev l) ?_ nofun
        (visits_sorted (walking.order r) here before) ?_
      · intro r' other
        exact if_neg (Ne.symm other)
      · intro v visit
        exact reached_next listed r prev (le_of_visits here before visit)
  | @calls r l prev stack control live =>
      have here : visited r (.calls r l : Label E) = some l := if_pos rfl
      have before := walking.ahead _ (control ▸ List.mem_cons_self) r rfl
      refine walking.advance called control rfl rfl rfl (length_modify ..) rfl ?_ nofun
        (visits_sorted (walking.order r) here before) fun v => le_of_visits here before
      intro r' other
      exact if_neg (Ne.symm other)
  | @returns r l prev stack control =>
      have before := walking.ahead _ (control ▸ List.mem_cons_self) r rfl
      have silent (r' : Nat) : visits r' (trace ++ [.returns r l]) = visits r' trace :=
        visits_of_silent trace rfl
      refine walking.advance called control rfl rfl rfl (length_modify ..) rfl (fun _ _ => rfl)
        nofun ?_ ?_
      · exact (silent r).symm ▸ walking.order r
      · rw [silent]
        intro v visit
        exact reached_next listed r (some l) (before v visit)
  | throws control e =>
      exact walking.leave control [] rfl nofun (fun _ => rfl) nofun rfl rfl
  | ends control =>
      exact walking.leave control [] rfl nofun (fun _ => rfl) nofun (length_modify ..) rfl
  | runs control found returned ran =>
      refine walking.quiet (fun _ => rfl) nofun (length_modify ..) (Nat.le_refl _) ?_
        (List.Sublist.refl _)
      exact List.forall_mem_cons.mpr ⟨.inr rfl, still⟩
  | starts control found next =>
      exact walking.leave control [_] rfl (by simp [Frame.walk]) (fun _ => rfl) nofun
        (length_modify ..) rfl
  | leaves control =>
      exact walking.leave control [_] rfl (by simp [Frame.walk]) (fun _ => rfl) nofun rfl rfl
  | crashes control e =>
      exact walking.leave control [_] rfl (by simp [Frame.walk]) (fun _ => rfl) nofun
        (length_modify ..) rfl
  | joins control found none =>
      exact walking.leave control [] rfl nofun (fun _ => rfl) nofun (length_modify ..) rfl
  | completes control found started result =>
      exact walking.quiet (fun _ => rfl) nofun (length_modify ..) (Nat.le_refl _) still
        (List.Sublist.refl _)

end Walking

/-! ## Leases that are there all the time -/

/-- A walk has visited every lease that is still live among those that were there
when it began, as far as it has come. -/
def Seen (trace : List (Label E)) (s : State E) : Prop :=
  ∀ frame ∈ s.stack, ∀ r, frame.walk = some r → ∀ n, .raises r n ∈ trace →
    ∀ l, s.registry.live l = true → l < n → frame.reached l → l ∈ visits r trace

/-- When a function returns to a walk and its lease has been removed meanwhile,
no lease behind it that was there when the walk began is live. -/
def Uncut (trace : List (Label E)) (s : State E) (label : Label E) : Prop :=
  ∀ r l r', label = .returns r l → .removes r' l ∈ trace →
    ∀ n, .raises r n ∈ trace → ∀ l', l < l' → l' < n → s.registry.live l' = false

namespace Seen

variable {trace : List (Label E)} {s s' : State E}

/-- Where no walk begins or goes on. -/
theorem quiet (seen : Seen trace s) {label : Label E} (old : ∀ r n, label ≠ .raises r n)
    (frames : ∀ frame ∈ s'.stack, frame ∈ s.stack ∨ frame.walk = none)
    (live : ∀ r n l, .raises r n ∈ trace → l < n → s'.registry.live l = true →
      s.registry.live l = true) : Seen (trace ++ [label]) s' := by
  intro frame member r walk n raised l alive bound reached
  have before := earlier raised (old r n)
  rcases frames frame member with inside | nowhere
  · have alive := live r n l before bound alive
    exact visits_mono label (seen frame inside r walk n before l alive bound reached)
  · rw [nowhere] at walk
    cases walk

/-- Where the walk on top goes on. -/
theorem advance (seen : Seen trace s) {label : Label E} {frame frame' : Frame}
    {stack : List Frame} {r : Nat} (control : s.stack = frame :: stack)
    (next : s'.stack = frame' :: stack) (walk' : frame'.walk = some r)
    (old : ∀ r n, label ≠ .raises r n) (live : s'.registry.live = s.registry.live)
    (ahead : ∀ n, .raises r n ∈ trace → ∀ l, s.registry.live l = true → l < n →
      frame'.reached l → l ∈ visits r (trace ++ [label])) : Seen (trace ++ [label]) s' := by
  intro frame'' member r' walk'' n raised l alive bound reached
  have before := earlier raised (old r' n)
  rw [live] at alive
  rw [next] at member
  rcases List.mem_cons.mp member with rfl | below
  · cases walk'.symm.trans walk''
    exact ahead n before l alive bound reached
  · have inside : frame'' ∈ s.stack := control ▸ List.mem_cons_of_mem _ below
    exact visits_mono label (seen frame'' inside r' walk'' n before l alive bound reached)

theorem step (seen : Seen trace s) (kept : Kept trace s) (walking : Walking trace s)
    (called : Called trace s) {label : Label E} (step : Step s label s')
    (uncut : Uncut trace s label) : Seen (trace ++ [label]) s' := by
  obtain ⟨chain, history, top⟩ := kept.list
  have listed := history.listed
  have still : ∀ frame ∈ s.stack, frame ∈ s.stack ∨ frame.walk = none := fun _ member => .inl member
  have same : ∀ r n l, .raises r n ∈ trace → l < n → s.registry.live l = true →
      s.registry.live l = true := fun _ _ _ _ _ alive => alive
  have below {frame : Frame} {stack : List Frame} (control : s.stack = frame :: stack) :
      ∀ frame ∈ stack, frame ∈ s.stack ∨ frame.walk = none :=
    fun _ member => .inl (control ▸ List.mem_cons_of_mem _ member)
  cases step with
  | makes control => exact seen.quiet nofun still same
  | subscribes control lessee =>
      refine seen.quiet nofun still ?_
      intro r n l raised bound alive
      rcases live_addLease l alive with old | new
      · exact old
      · have began := walking.began r n raised
        omega
  | @destroys k leases control lessee =>
      refine seen.quiet nofun still ?_
      intro r n l raised bound alive
      exact ((live_destroy leases l).mp alive).1
  | raises control =>
      intro frame member r walk n raised l alive bound reached
      rcases List.mem_cons.mp member with rfl | inside
      · refine (listed.not_before_first (listed.live l alive) ?_).elim
        intro m first
        rw [first] at reached
        exact reached
      · have known := called.known frame inside r walk
        have before := earlier raised (by rintro ⟨⟩; exact Nat.lt_irrefl _ known)
        exact visits_mono _ (seen frame inside r walk n before l alive bound reached)
  | @removes r l prev stack control cleared =>
      obtain ⟨pre, post, inChain, -⟩ := top r prev l stack control
      refine seen.advance control rfl rfl nofun (live_remove prev l) ?_
      intro n raised l' alive bound reached
      have least : l' ≤ l := by
        refine listed.le_of_next (by simp [inChain]) (listed.live l' alive) ?_
        intro m next
        rw [next] at reached
        exact reached
      have ne : l' ≠ l := by
        rintro rfl
        rw [cleared] at alive
        cases alive
      have less : l' < l := Nat.lt_of_le_of_ne least ne
      have here : .iterate r prev (some l) ∈ s.stack := control ▸ List.mem_cons_self
      exact visits_mono _ (seen _ here r rfl n raised l' alive bound less)
  | @calls r l prev stack control live =>
      refine seen.advance control rfl rfl nofun rfl ?_
      intro n raised l' alive bound reached
      rcases Nat.lt_or_eq_of_le reached with less | rfl
      · have here : .iterate r prev (some l) ∈ s.stack := control ▸ List.mem_cons_self
        exact visits_mono _ (seen _ here r rfl n raised l' alive bound less)
      · rw [visits_snoc]
        refine List.mem_append_right _ ?_
        rw [visited, if_pos rfl]
        exact List.mem_singleton.mpr rfl
  | @returns r l prev stack control =>
      refine seen.advance control rfl rfl nofun rfl ?_
      intro n raised l' alive bound reached
      have here : .function r prev l ∈ s.stack := control ▸ List.mem_cons_self
      have least : l' ≤ l := by
        by_cases inside : l ∈ chain
        · refine listed.le_of_next inside (listed.live l' alive) ?_
          intro m next
          rw [next] at reached
          exact reached
        · -- the lease was removed, so the walk ends here; but nothing is left behind it
          have bound' := called.bound r l (called.frames r prev l here)
          obtain ⟨r', removed⟩ := (history.gone l).mpr ⟨bound', inside⟩
          by_contra further
          have dead := uncut r l r' rfl removed n raised l' (Nat.lt_of_not_le further) bound
          rw [dead] at alive
          cases alive
      exact visits_mono _ (seen _ here r rfl n raised l' alive bound least)
  | throws control e => exact seen.quiet nofun (below control) same
  | ends control => exact seen.quiet nofun (below control) same
  | runs control found returned ran =>
      exact seen.quiet nofun (List.forall_mem_cons.mpr ⟨.inr rfl, still⟩) same
  | starts control found next =>
      exact seen.quiet nofun (List.forall_mem_cons.mpr ⟨.inr rfl, below control⟩) same
  | leaves control =>
      exact seen.quiet nofun (List.forall_mem_cons.mpr ⟨.inr rfl, below control⟩) same
  | crashes control e =>
      exact seen.quiet nofun (List.forall_mem_cons.mpr ⟨.inr rfl, below control⟩) same
  | joins control found none => exact seen.quiet nofun (below control) same
  | completes control found started result => exact seen.quiet nofun still same

end Seen

end SidepoolFormal.S
