import SidepoolFormal.S.Memory
import SidepoolFormal.S.Registry

/-!
# The lists of registries and lessees

Both are linked at every moment, also while a destructor takes one apart.  A
registry that somebody holds is as `iterate` and `add_lease` rely on; one that
nobody holds is empty when its destructor is done, and so is a lessee.
-/

namespace SidepoolFormal.S.Memory

open Library

/-! ## Registries -/

/-- The list of a registry, which may be in its destructor. -/
structure Strung (registry : Registry) (chain : List Nat) : Prop where
  linked : Linked registry.next registry.first chain
  sorted : chain.Pairwise (· < ·)
  bound : ∀ l ∈ chain, l < registry.leases.length
  apart : ∀ l, l ∉ chain → registry.next l = none

theorem strung_of_listed {registry : Registry} {chain : List Nat}
    (listed : Registry.Listed registry chain) : Strung registry chain :=
  ⟨listed.linked, listed.sorted, listed.bound, listed.apart⟩

theorem listed_initial : Registry.Listed Registry.initial [] :=
  ⟨.nil, rfl, .nil, (fun _ absurd => nomatch absurd), (fun _ _ => rfl),
    (fun _ absurd => nomatch absurd)⟩

namespace Strung

variable {registry : Registry} {chain : List Nat}

theorem clear (strung : Strung registry chain) (l : Nat) : Strung (registry.clear l) chain := by
  refine ⟨?_, strung.sorted, ?_, ?_⟩
  · rw [Registry.next_clear]
    exact strung.linked
  · rw [Registry.length_clear]
    exact strung.bound
  · rw [Registry.next_clear]
    exact strung.apart

/-- A turn of the destructor. -/
theorem clearFirst {first : Nat} (strung : Strung registry (first :: chain)) :
    Strung (registry.clearFirst first) chain := by
  have inside : first < (registry.clear first).leases.length := by
    rw [Registry.length_clear]
    exact strung.bound first List.mem_cons_self
  have next := Registry.next_setNext (registry.clear first) first none inside
  obtain ⟨before, sorted⟩ := List.pairwise_cons.mp strung.sorted
  have fresh : first ∉ chain := fun member => Nat.lt_irrefl _ (before first member)
  refine ⟨?_, sorted, ?_, ?_⟩
  · have linked := strung.linked.unlink_first fresh
    rw [← Registry.next_clear registry first] at linked
    exact next ▸ linked
  · intro l member
    have bound := strung.bound l (List.mem_cons_of_mem first member)
    simpa [Registry.clearFirst] using bound
  · intro l outside
    refine (congrFun next l).trans ?_
    by_cases same : l = first
    · rw [same, Function.update_self]
    · rw [Function.update_of_ne same, Registry.next_clear]
      exact strung.apart l (by simp [same, outside])

theorem nil_of_first (strung : Strung registry chain) (none : registry.first = none) :
    chain = [] := by
  have linked := strung.linked
  rw [none] at linked
  exact linked.nil_of_none

theorem cons_of_first (strung : Strung registry chain) {first : Nat}
    (more : registry.first = some first) : ∃ rest, chain = first :: rest := by
  have linked := strung.linked
  rw [more] at linked
  obtain ⟨rest, same, -⟩ := linked.cons_of_some
  exact ⟨rest, same⟩

end Strung

/-- The lists of all registries: those that are `alive`, and those that are taken
apart by their destructors. -/
structure Registries (s : State) (chain : Nat → List Nat) (alive : Nat → Prop) : Prop where
  strung : ∀ r, Strung (s.registry r) (chain r)
  listed : ∀ r, alive r → Registry.Listed (s.registry r) (chain r)
  gone : ∀ r, ¬alive r → .registry r ∉ s.stack → chain r = []
  dying : ∀ r, .registry r ∈ s.stack → r < s.keys.length ∧ ¬alive r
  inside : ∀ r, alive r → r < s.keys.length
  made : ∀ r, s.keys.length ≤ r → s.registry r = Registry.initial

theorem held_iff {s : State} {r : Nat} : s.held r = true ↔
    s.owned r = true ∨ r ∈ s.ios ∨ ∃ frame ∈ s.stack, frame.held = some r := by
  simp [State.held, or_assoc]

theorem held_top {s : State} {r : Nat} {frame : Frame} {stack : List Frame}
    (control : s.stack = frame :: stack) (holds : frame.held = some r) : s.held r = true :=
  held_iff.mpr (.inr (.inr ⟨frame, control ▸ List.mem_cons_self, holds⟩))

namespace Registries

variable {s s' : State} {chain : Nat → List Nat} {alive alive' : Nat → Prop}

/-- Where no registry changes. -/
theorem congr (registries : Registries s chain alive) (registry : s'.registry = s.registry)
    (keys : s'.keys.length = s.keys.length) (same : ∀ r, alive' r ↔ alive r)
    (kept : ∀ r, .registry r ∈ s.stack → .registry r ∈ s'.stack ∨ chain r = [])
    (old : ∀ r, .registry r ∈ s'.stack → .registry r ∈ s.stack) :
    Registries s' chain alive' := by
  refine ⟨?_, ?_, ?_, ?_, ?_, ?_⟩
  · intro r
    rw [registry]
    exact registries.strung r
  · intro r here
    rw [registry]
    exact registries.listed r ((same r).mp here)
  · intro r notAlive outside
    by_cases inside : .registry r ∈ s.stack
    · exact (kept r inside).resolve_left outside
    · exact registries.gone r (fun here => notAlive ((same r).mpr here)) inside
  · intro r inside
    obtain ⟨small, dead⟩ := registries.dying r (old r inside)
    exact ⟨keys.symm ▸ small, fun here => dead ((same r).mp here)⟩
  · intro r here
    exact keys.symm ▸ registries.inside r ((same r).mp here)
  · intro r big
    rw [registry]
    exact registries.made r (keys ▸ big)

/-- Where one registry changes. -/
theorem update (registries : Registries s chain alive) {r : Nat} {registry : Registry}
    {nodes : List Nat} (registry_eq : s'.registry = Function.update s.registry r registry)
    (keys : s'.keys = s.keys) (made : s.keys.length ≤ r → registry = Registry.initial)
    (same : ∀ r, alive' r ↔ alive r)
    (stack : ∀ r, .registry r ∈ s'.stack ↔ .registry r ∈ s.stack)
    (strung : Strung registry nodes) (listed : alive r → Registry.Listed registry nodes)
    (gone : ¬alive r → .registry r ∉ s.stack → nodes = []) :
    Registries s' (Function.update chain r nodes) alive' := by
  have elsewhere {r' : Nat} (other : r' ≠ r) :
      s'.registry r' = s.registry r' ∧ Function.update chain r nodes r' = chain r' := by
    rw [registry_eq, Function.update_of_ne other, Function.update_of_ne other]
    exact ⟨rfl, rfl⟩
  have here : s'.registry r = registry ∧ Function.update chain r nodes r = nodes := by
    rw [registry_eq, Function.update_self, Function.update_self]
    exact ⟨rfl, rfl⟩
  refine ⟨?_, ?_, ?_, ?_, ?_, ?_⟩
  · intro r'
    by_cases other : r' = r
    · subst other
      rw [here.1, here.2]
      exact strung
    · rw [(elsewhere other).1, (elsewhere other).2]
      exact registries.strung r'
  · intro r' living
    by_cases other : r' = r
    · subst other
      rw [here.1, here.2]
      exact listed ((same r').mp living)
    · rw [(elsewhere other).1, (elsewhere other).2]
      exact registries.listed r' ((same r').mp living)
  · intro r' dead outside
    rw [same] at dead
    rw [stack] at outside
    by_cases other : r' = r
    · subst other
      rw [here.2]
      exact gone dead outside
    · rw [(elsewhere other).2]
      exact registries.gone r' dead outside
  · intro r' inside
    obtain ⟨small, dead⟩ := registries.dying r' ((stack r').mp inside)
    exact ⟨keys.symm ▸ small, fun living => dead ((same r').mp living)⟩
  · intro r' living
    exact keys.symm ▸ registries.inside r' ((same r').mp living)
  · intro r' big
    rw [keys] at big
    by_cases other : r' = r
    · subst other
      exact here.1.trans (made big)
    · rw [(elsewhere other).1]
      exact registries.made r' big

/-- The last `shared_ptr` to a registry may be gone. -/
theorem release {r : Nat}
    (registries : Registries s chain fun r' => s.held r' = true ∨ r' = r) :
    Registries (s.release r) chain fun r' => (s.release r).held r' = true := by
  rw [State.release]
  by_cases held : s.held r = true
  · rw [if_pos held]
    refine registries.congr rfl rfl ?_ (fun _ => .inl) fun _ => id
    intro r'
    exact ⟨.inl, fun living => living.elim id fun same => same ▸ held⟩
  · rw [if_neg held]
    have elsewhere {r' : Nat} (other : r' ≠ r) :
        Function.update s.registry r (s.registry r).unlast r' = s.registry r' :=
      Function.update_of_ne other _ _
    have notSelf {r' : Nat} (living : s.held r' = true) : r' ≠ r := fun same => held (same ▸ living)
    refine ⟨?_, ?_, ?_, ?_, ?_, ?_⟩
    · intro r'
      have strung := registries.strung r'
      by_cases other : r' = r
      · subst other
        dsimp only
        rw [Function.update_self]
        exact ⟨strung.linked, strung.sorted, strung.bound, strung.apart⟩
      · dsimp only
        rw [elsewhere other]
        exact strung
    · intro r' living
      dsimp only
      rw [elsewhere (notSelf living)]
      exact registries.listed r' (.inl living)
    · intro r' dead outside
      rw [List.mem_cons, not_or] at outside
      refine registries.gone r' ?_ outside.2
      rintro (living | rfl)
      · exact dead living
      · exact outside.1 rfl
    · intro r' inside
      rcases List.mem_cons.mp inside with same | deeper
      · cases same
        exact ⟨registries.inside r (.inr rfl), held⟩
      · obtain ⟨small, dead⟩ := registries.dying r' deeper
        exact ⟨small, fun living => dead (.inl living)⟩
    · intro r' living
      exact registries.inside r' (.inl living)
    · intro r' big
      have made := registries.made r' big
      by_cases other : r' = r
      · subst other
        dsimp only
        rw [Function.update_self, made]
        rfl
      · dsimp only
        rw [elsewhere other]
        exact made

end Registries

/-! ## Walks -/

/-- No walk is about to look at a lease, but for the one on top; and that one is
about to look at the lease right behind `prev`. -/
structure Walks (s : State) (chain : Nat → List Nat) : Prop where
  nested : ∀ r prev ptr, .iterate r prev ptr ∉ s.stack.tail
  looking : ∀ r prev l stack, s.stack = .iterate r prev (some l) :: stack →
    ∃ pre post, chain r = pre ++ l :: post ∧ prev = pre.getLast?

/-- No walk is about to look at a lease. -/
def Quiet (stack : List Frame) : Prop := ∀ r prev ptr, .iterate r prev ptr ∉ stack

theorem Quiet.cons {stack : List Frame} (quiet : Quiet stack) {frame : Frame}
    (other : ∀ r prev ptr, frame ≠ .iterate r prev ptr) : Quiet (frame :: stack) := by
  intro r prev ptr member
  rcases List.mem_cons.mp member with same | deeper
  · exact other r prev ptr same.symm
  · exact quiet r prev ptr deeper

theorem Quiet.release {s : State} (quiet : Quiet s.stack) (r : Nat) :
    Quiet (s.release r).stack := by
  rw [State.release]
  split
  · exact quiet
  · exact quiet.cons (by simp)

namespace Walks

variable {s s' : State} {chain chain' : Nat → List Nat} {frame : Frame} {stack : List Frame}

theorem pop (walks : Walks s chain) (control : s.stack = frame :: stack) : Quiet stack := by
  intro r prev ptr member
  exact walks.nested r prev ptr (control ▸ member)

theorem quiet (walks : Walks s chain) (control : free s.stack = true) : Quiet s.stack := by
  generalize same : s.stack = stack at control
  cases stack with
  | nil => exact fun r prev ptr absurd => nomatch absurd
  | cons frame stack =>
      cases frame with
      | function r prev ptr => exact (walks.pop same).cons (by simp)
      | _ => cases control

theorem of_quiet (quiet : Quiet s'.stack) : Walks s' chain' := by
  constructor
  · intro r prev ptr member
    exact quiet r prev ptr (List.mem_of_mem_tail member)
  · intro r prev l stack same
    exact absurd (same ▸ List.mem_cons_self) (quiet r prev (some l))

theorem of_top (quiet : Quiet stack) {r : Nat} {prev ptr : Option Nat}
    (control : s'.stack = .iterate r prev ptr :: stack)
    (looking : ∀ l, ptr = some l → ∃ pre post, chain' r = pre ++ l :: post ∧ prev = pre.getLast?) :
    Walks s' chain' := by
  constructor
  · intro r prev ptr member
    rw [control] at member
    exact quiet r prev ptr member
  · intro r' prev' l stack' same
    rw [control] at same
    cases same
    exact looking l rfl

end Walks

/-! ## Lessees -/

/-- The lists of all lessees. -/
structure Lessees (s : State) (leased : Nat → List Ref) : Prop where
  linked : ∀ k, Linked s.nextLessee (s.top k) (leased k)
  nodup : ∀ k, (leased k).Nodup
  apart : ∀ k k' ref, ref ∈ leased k → ref ∈ leased k' → k = k'
  unleased : ∀ ref, (∀ k, ref ∉ leased k) → s.nextLessee ref = none
  bound : ∀ k ref, ref ∈ leased k → ref.lease < (s.registry ref.registry).leases.length
  small : ∀ k ref, ref ∈ leased k → k < s.lessees.length
  idle : ∀ k, s.lessees[k]? ≠ some true → .lessee k ∉ s.stack → leased k = []

namespace Lessees

variable {s s' : State} {leased : Nat → List Ref} {k : Nat}

/-- Where no lessee changes. -/
theorem congr (lessees : Lessees s leased) (top : s'.top = s.top)
    (next : s'.nextLessee = s.nextLessee)
    (longer : ∀ r, (s.registry r).leases.length ≤ (s'.registry r).leases.length)
    (more : s.lessees.length ≤ s'.lessees.length)
    (idle : ∀ k, s'.lessees[k]? ≠ some true → .lessee k ∉ s'.stack →
      s.lessees[k]? ≠ some true ∧ .lessee k ∉ s.stack ∨ s.top k = none) : Lessees s' leased := by
  refine ⟨?_, lessees.nodup, lessees.apart, ?_, ?_, ?_, ?_⟩
  · rw [top, next]
    exact lessees.linked
  · rw [next]
    exact lessees.unleased
  · intro k ref member
    exact lt_of_lt_of_le (lessees.bound k ref member) (longer ref.registry)
  · intro k ref member
    exact lt_of_lt_of_le (lessees.small k ref member) more
  · intro k dead outside
    rcases idle k dead outside with ⟨before, notThere⟩ | none
    · exact lessees.idle k before notThere
    · have linked := lessees.linked k
      rw [none] at linked
      exact linked.nil_of_none

/-- Where nothing that lessees use changes. -/
theorem same (lessees : Lessees s leased) (registry : s'.registry = s.registry)
    (top : s'.top = s.top) (next : s'.nextLessee = s.nextLessee) (made : s'.lessees = s.lessees)
    (stack : ∀ k, .lessee k ∈ s.stack → .lessee k ∈ s'.stack) : Lessees s' leased := by
  refine lessees.congr top next (fun _ => by rw [registry]) (by rw [made]) ?_
  intro k dead outside
  exact .inl ⟨made ▸ dead, fun inside => outside (stack k inside)⟩

/-- A new lease is added. -/
theorem addLease (lessees : Lessees s leased) (r : Nat) (living : s.lessees[k]? = some true) :
    Lessees (s.addLease r k)
      (Function.update leased k (⟨r, (s.registry r).leases.length⟩ :: leased k)) := by
  let nlease : Ref := ⟨r, (s.registry r).leases.length⟩
  have fresh (k' : Nat) : nlease ∉ leased k' := fun member =>
    Nat.lt_irrefl _ (lessees.bound k' nlease member)
  have member_iff (k' : Nat) (ref : Ref) :
      ref ∈ Function.update leased k (nlease :: leased k) k' ↔
        ref = nlease ∧ k' = k ∨ ref ∈ leased k' := by
    by_cases same : k' = k
    · simp [same]
    · simp [same]
  have longer (r' : Nat) :
      (s.registry r').leases.length ≤ ((s.addLease r k).registry r').leases.length := by
    by_cases same : r' = r
    · simp [State.addLease, same, Registry.length_addLease]
    · simp [State.addLease, same]
  refine ⟨?_, ?_, ?_, ?_, ?_, ?_, ?_⟩
  · intro k'
    have rest : Linked (s.addLease r k).nextLessee (s.top k') (leased k') :=
      (lessees.linked k').congr fun ref member =>
        Function.update_of_ne (ne_of_mem_of_not_mem member (fresh k')) _ _
    by_cases same : k' = k
    · subst same
      simp only [State.addLease, Function.update_self]
      refine .cons ?_
      rw [Function.update_self]
      exact rest
    · simp only [State.addLease, Function.update_of_ne same]
      exact rest
  · intro k'
    by_cases same : k' = k
    · subst same
      rw [Function.update_self]
      exact List.nodup_cons.mpr ⟨fresh k', lessees.nodup k'⟩
    · rw [Function.update_of_ne same]
      exact lessees.nodup k'
  · intro k₁ k₂ ref first second
    rcases (member_iff k₁ ref).mp first with ⟨rfl, rfl⟩ | old
    · rcases (member_iff k₂ _).mp second with ⟨-, rfl⟩ | absurd
      · rfl
      · exact (fresh k₂ absurd).elim
    · rcases (member_iff k₂ _).mp second with ⟨rfl, -⟩ | old'
      · exact (fresh k₁ old).elim
      · exact lessees.apart k₁ k₂ ref old old'
  · intro ref outside
    have other : ref ≠ nlease := fun same => outside k ((member_iff k ref).mpr (.inl ⟨same, rfl⟩))
    refine (Function.update_of_ne other _ _).trans (lessees.unleased ref ?_)
    exact fun k' member => outside k' ((member_iff k' ref).mpr (.inr member))
  · intro k' ref member
    rcases (member_iff k' ref).mp member with ⟨rfl, -⟩ | old
    · simp [State.addLease, nlease, Registry.length_addLease]
    · exact lt_of_lt_of_le (lessees.bound k' ref old) (longer ref.registry)
  · intro k' ref member
    rcases (member_iff k' ref).mp member with ⟨-, rfl⟩ | old
    · exact (List.getElem?_eq_some_iff.mp living).1
    · exact lessees.small k' ref old
  · intro k' dead outside
    by_cases same : k' = k
    · exact absurd living (same ▸ dead)
    · rw [Function.update_of_ne same]
      exact lessees.idle k' dead outside

/-- A turn of the destructor. -/
theorem clearTop (lessees : Lessees s leased) {top : Ref} {rest : List Ref}
    (more : leased k = top :: rest) :
    Lessees (s.clearTop k top) (Function.update leased k rest) := by
  have here : top ∈ leased k := by simp [more]
  have sub (k' : Nat) : Function.update leased k rest k' ⊆ leased k' := by
    by_cases same : k' = k
    · subst same
      rw [Function.update_self, more]
      exact List.subset_cons_self top rest
    · rw [Function.update_of_ne same]
      exact List.Subset.refl _
  have nodup := lessees.nodup k
  rw [more] at nodup
  obtain ⟨fresh, distinct⟩ := List.nodup_cons.mp nodup
  refine ⟨?_, ?_, ?_, ?_, ?_, ?_, ?_⟩
  · intro k'
    by_cases same : k' = k
    · subst same
      simp only [State.clearTop, Function.update_self]
      exact Linked.unlink_first (more ▸ lessees.linked k') fresh
    · simp only [State.clearTop, Function.update_of_ne same]
      refine (lessees.linked k').congr fun ref member => Function.update_of_ne ?_ _ _
      rintro rfl
      exact same (lessees.apart k' k ref member here)
  · intro k'
    by_cases same : k' = k
    · subst same
      rw [Function.update_self]
      exact distinct
    · rw [Function.update_of_ne same]
      exact lessees.nodup k'
  · intro k₁ k₂ ref first second
    exact lessees.apart k₁ k₂ ref (sub k₁ first) (sub k₂ second)
  · intro ref outside
    by_cases same : ref = top
    · subst same
      exact Function.update_self _ _ _
    · refine (Function.update_of_ne same _ _).trans (lessees.unleased ref ?_)
      intro k' member
      refine outside k' ?_
      by_cases mine : k' = k
      · subst mine
        rw [more] at member
        rw [Function.update_self]
        exact (List.mem_cons.mp member).resolve_left same
      · rw [Function.update_of_ne mine]
        exact member
  · intro k' ref member
    have bound := lessees.bound k' ref (sub k' member)
    by_cases same : ref.registry = top.registry
    · simpa [State.clearTop, same] using bound
    · simpa [State.clearTop, same] using bound
  · intro k' ref member
    exact lessees.small k' ref (sub k' member)
  · intro k' dead outside
    exact List.eq_nil_of_subset_nil (lessees.idle k' dead outside ▸ sub k')

theorem release (lessees : Lessees s leased) (r : Nat) : Lessees (s.release r) leased := by
  rw [State.release]
  split
  · exact lessees
  · refine lessees.congr rfl rfl ?_ (le_refl _) ?_
    · intro r'
      by_cases same : r' = r
      · simp [same, Registry.unlast]
      · simp [same]
    · intro k dead outside
      exact .inl ⟨dead, by simpa using outside⟩

/-- Where only the stack changes. -/
theorem restack (lessees : Lessees s leased) {stack : List Frame}
    (kept : ∀ k, .lessee k ∈ s.stack → .lessee k ∈ stack ∨ s.top k = none) :
    Lessees { s with stack := stack } leased := by
  refine lessees.congr rfl rfl (fun _ => le_refl _) (le_refl _) ?_
  intro k dead outside
  by_cases inside : .lessee k ∈ s.stack
  · exact .inr ((kept k inside).resolve_left outside)
  · exact .inl ⟨dead, inside⟩

/-- Where only one registry changes, which keeps its leases. -/
theorem update (lessees : Lessees s leased) {r : Nat} {registry : Registry}
    (longer : (s.registry r).leases.length ≤ registry.leases.length) :
    Lessees { s with registry := Function.update s.registry r registry } leased := by
  refine lessees.congr rfl rfl ?_ (le_refl _) fun k dead outside => .inl ⟨dead, outside⟩
  intro r'
  by_cases same : r' = r
  · subst same
    simpa using longer
  · simp [same]

theorem makesLessee (lessees : Lessees s leased) :
    Lessees
      { s with
        lessees := s.lessees ++ [true]
        top := Function.update s.top s.lessees.length none } leased := by
  have nothing : leased s.lessees.length = [] := by
    refine List.eq_nil_iff_forall_not_mem.mpr fun ref member => ?_
    exact Nat.lt_irrefl _ (lessees.small _ ref member)
  have linked := lessees.linked s.lessees.length
  rw [nothing] at linked
  have none : s.top s.lessees.length = Option.none := linked.head.symm
  have same := Function.update_eq_self s.lessees.length s.top
  rw [none] at same
  refine lessees.congr same rfl (fun _ => le_refl _) (by simp) ?_
  intro k dead outside
  refine .inl ⟨?_, outside⟩
  intro living
  exact dead ((List.getElem?_append_left (List.getElem?_eq_some_iff.mp living).1).trans living)

theorem destroysLessee (lessees : Lessees s leased) (k : Nat) :
    Lessees { s with lessees := s.lessees.set k false, stack := .lessee k :: s.stack } leased := by
  refine lessees.congr rfl rfl (fun _ => le_refl _) (by simp) ?_
  intro k' dead outside
  rw [List.mem_cons, not_or] at outside
  have other : k ≠ k' := fun same => outside.1 (same ▸ rfl)
  rw [List.getElem?_set, if_neg other] at dead
  exact .inl ⟨dead, outside.2⟩

end Lessees

end SidepoolFormal.S.Memory
