import SidepoolFormal.S.Lists

/-!
# What a step leaves

The maps of the buses, the lists, and the leases that a walk is at, after each
thing that users, walks and destructors do.
-/

namespace SidepoolFormal.S.Memory

open Library

/-! ## Buses -/

/-- What the maps of the buses have. -/
structure Owned (s : State) : Prop where
  known : ∀ (r b t : Nat), s.keys[r]? = some (b, t) → b < s.buses.length
  owned : ∀ (r b t : Nat), s.keys[r]? = some (b, t) → s.buses[b]? = some true → s.owned r = true
  inside : ∀ r, s.owned r = true → r < s.keys.length
  closing : ∀ b : Nat, .bus b ∈ s.stack → s.buses[b]? = some false
  closed : ∀ (r b t : Nat), s.keys[r]? = some (b, t) → s.buses[b]? = some false → .bus b ∉ s.stack →
    s.owned r = false

namespace Owned

variable {s s' : State} {b t r : Nat}

/-- Where no bus changes. -/
theorem congr (owned : Owned s) (keys : s'.keys = s.keys) (buses : s'.buses = s.buses)
    (same : s'.owned = s.owned) (stack : ∀ b, .bus b ∈ s'.stack ↔ .bus b ∈ s.stack) : Owned s' := by
  refine ⟨?_, ?_, ?_, ?_, ?_⟩
  · rw [keys, buses]
    exact owned.known
  · rw [keys, buses, same]
    exact owned.owned
  · rw [keys, same]
    exact owned.inside
  · intro b
    rw [stack, buses]
    exact owned.closing b
  · intro r b
    rw [keys, buses, same, stack]
    exact owned.closed r b

theorem release (owned : Owned s) (r : Nat) : Owned (s.release r) := by
  rw [State.release]
  split
  · exact owned
  · exact owned.congr rfl rfl rfl (by simp)

theorem makesBus (owned : Owned s) : Owned { s with buses := s.buses ++ [true] } := by
  have before {b : Nat} (old : b < s.buses.length) : (s.buses ++ [true])[b]? = s.buses[b]? :=
    List.getElem?_append_left old
  refine ⟨?_, ?_, owned.inside, ?_, ?_⟩
  · intro r b t key
    exact lt_of_lt_of_le (owned.known r b t key) (by simp)
  · intro r b t key living
    rw [before (owned.known r b t key)] at living
    exact owned.owned r b t key living
  · intro b member
    have closing := owned.closing b member
    exact (before (List.getElem?_eq_some_iff.mp closing).1).trans closing
  · intro r b t key dead
    rw [before (owned.known r b t key)] at dead
    exact owned.closed r b t key dead

theorem makeIfAbsent (owned : Owned s) (t : Nat) (living : s.buses[b]? = some true) :
    Owned (s.makeIfAbsent b t).1 := by
  rw [State.makeIfAbsent]
  cases s.getRegistry b t with
  | some r => exact owned
  | none =>
      have key_cases {r b' t' : Nat} (key : (s.keys ++ [(b, t)])[r]? = some (b', t')) :
          (r ≠ s.keys.length ∧ s.keys[r]? = some (b', t')) ∨ (r = s.keys.length ∧ b' = b) := by
        rcases Nat.lt_trichotomy r s.keys.length with old | rfl | big
        · rw [List.getElem?_append_left old] at key
          exact .inl ⟨Nat.ne_of_lt old, key⟩
        · simp only [List.getElem?_concat_length, Option.some.injEq, Prod.mk.injEq] at key
          exact .inr ⟨rfl, key.1.symm⟩
        · rw [List.getElem?_eq_none (by simp; omega)] at key
          cases key
      refine ⟨?_, ?_, ?_, owned.closing, ?_⟩
      · intro r b' t' key
        rcases key_cases key with ⟨-, old⟩ | ⟨-, rfl⟩
        · exact owned.known r b' t' old
        · exact (List.getElem?_eq_some_iff.mp living).1
      · intro r b' t' key alive
        rcases key_cases key with ⟨other, old⟩ | ⟨rfl, -⟩
        · exact (Function.update_of_ne other _ _).trans (owned.owned r b' t' old alive)
        · exact Function.update_self _ _ _
      · intro r has
        by_cases same : r = s.keys.length
        · simp [same]
        · have old := (Function.update_of_ne same true s.owned).symm.trans has
          have inside := owned.inside r old
          simp only [List.length_append]
          omega
      · intro r b' t' key dead outside
        rcases key_cases key with ⟨other, old⟩ | ⟨-, rfl⟩
        · exact (Function.update_of_ne other _ _).trans (owned.closed r b' t' old dead outside)
        · rw [living] at dead
          cases dead

theorem destroysBus (owned : Owned s) (living : s.buses[b]? = some true) :
    Owned { s with buses := s.buses.set b false, stack := .bus b :: s.stack } := by
  have inside := (List.getElem?_eq_some_iff.mp living).1
  refine ⟨?_, ?_, owned.inside, ?_, ?_⟩
  · intro r b' t key
    rw [List.length_set]
    exact owned.known r b' t key
  · intro r b' t key alive
    rw [List.getElem?_set] at alive
    by_cases same : b = b'
    · simp [same] at alive
    · rw [if_neg same] at alive
      exact owned.owned r b' t key alive
  · intro b' member
    rw [List.getElem?_set]
    by_cases same : b = b'
    · simp [← same, inside]
    · rw [if_neg same]
      exact owned.closing b' (by simpa [Ne.symm same] using member)
  · intro r b' t key dead outside
    rw [List.mem_cons, not_or] at outside
    have other : b ≠ b' := fun same => outside.1 (same ▸ rfl)
    rw [List.getElem?_set, if_neg other] at dead
    exact owned.closed r b' t key dead outside.2

theorem disowns (owned : Owned s) (member : .bus b ∈ s.stack) (key : s.keys[r]? = some (b, t)) :
    Owned { s with owned := Function.update s.owned r false } := by
  refine ⟨owned.known, ?_, ?_, owned.closing, ?_⟩
  · intro r' b' t' key' living
    have other : r' ≠ r := by
      rintro rfl
      rw [key] at key'
      cases key'
      rw [owned.closing b member] at living
      cases living
    exact (Function.update_of_ne other _ _).trans (owned.owned r' b' t' key' living)
  · intro r' has
    by_cases same : r' = r
    · simp [same] at has
    · exact owned.inside r' ((Function.update_of_ne same false s.owned).symm.trans has)
  · intro r' b' t' key' dead outside
    by_cases same : r' = r
    · simp [same]
    · exact (Function.update_of_ne same _ _).trans (owned.closed r' b' t' key' dead outside)

theorem leavesBus (owned : Owned s) {stack : List Frame} (control : s.stack = .bus b :: stack)
    (done : ∀ r t : Nat, s.keys[r]? = some (b, t) → s.owned r = false) :
    Owned { s with stack := stack } := by
  refine ⟨owned.known, owned.owned, owned.inside, ?_, ?_⟩
  · intro b' member
    exact owned.closing b' (control ▸ List.mem_cons_of_mem _ member)
  · intro r b' t key dead outside
    by_cases same : b' = b
    · exact done r t (same ▸ key)
    · exact owned.closed r b' t key dead (by simpa [control, same] using outside)

theorem act (owned : Owned s) (act : Act s s') : Owned s' := by
  cases act with
  | makesBus control => exact owned.makesBus
  | subscribes t control bus lessee =>
      exact (owned.makeIfAbsent t bus).congr rfl rfl rfl fun _ => Iff.rfl
  | destroysBus control bus => exact owned.destroysBus bus
  | disowns control key has =>
      exact (owned.disowns (control ▸ List.mem_cons_self) key).release _
  | leavesBus control done => exact owned.leavesBus control done
  | makesLessee control => exact owned.congr rfl rfl rfl fun _ => Iff.rfl
  | destroysLessee control lessee => exact owned.congr rfl rfl rfl (by simp)
  | clearsTop control more => exact owned.congr rfl rfl rfl fun _ => Iff.rfl
  | leavesLessee control done => exact owned.congr rfl rfl rfl (by simp [control])
  | clearsFirst control more => exact owned.congr rfl rfl rfl fun _ => Iff.rfl
  | leavesRegistry control done => exact owned.congr rfl rfl rfl (by simp [control])
  | raises control bus found => exact owned.congr rfl rfl rfl (by simp)
  | removes control cleared => exact owned.congr rfl rfl rfl (by simp [control])
  | calls control live => exact owned.congr rfl rfl rfl (by simp [control])
  | returns control => exact owned.congr rfl rfl rfl (by simp [control])
  | @throws r l prev stack control =>
      have popped : Owned { s with stack := stack } := owned.congr rfl rfl rfl (by simp [control])
      exact popped.release r
  | ends control => exact owned.congr rfl rfl rfl (by simp [control])
  | copies control io => exact owned.congr rfl rfl rfl fun _ => Iff.rfl
  | @drops r control io =>
      have dropped : Owned { s with ios := s.ios.erase r } :=
        owned.congr rfl rfl rfl fun _ => Iff.rfl
      exact dropped.release r

end Owned

/-- The registry in the map is that of the bus and the type. -/
theorem key_of_getRegistry {s : State} {b t r : Nat} (found : s.getRegistry b t = some r) :
    s.keys[r]? = some (b, t) := by
  obtain ⟨inside, same, -⟩ := List.findIdx?_eq_some_iff_getElem.mp found
  rw [List.getElem?_eq_getElem inside, eq_of_beq same]

theorem makeIfAbsent_cases {s : State} {b : Nat} (owned : Owned s)
    (made : ∀ r, s.keys.length ≤ r → s.registry r = Registry.initial)
    (living : s.buses[b]? = some true) (t : Nat) :
    (∃ r, s.makeIfAbsent b t = (s, r) ∧ s.owned r = true) ∨
      s.makeIfAbsent b t =
        ({ s with
            keys := s.keys ++ [(b, t)]
            owned := Function.update s.owned s.keys.length true }, s.keys.length) := by
  rw [State.makeIfAbsent]
  cases found : s.getRegistry b t with
  | some r => exact .inl ⟨r, rfl, owned.owned r b t (key_of_getRegistry found) living⟩
  | none =>
      have same := Function.update_eq_self s.keys.length s.registry
      rw [made _ (le_refl _)] at same
      exact .inr (by rw [same])

/-- What a step leaves leased was leased before, or is new. -/
theorem Lessees.act {s s' : State} {leased : Nat → List Ref} (lessees : Lessees s leased)
    (owned : Owned s) (made : ∀ r, s.keys.length ≤ r → s.registry r = Registry.initial)
    (act : Act s s') :
    ∃ leased', Lessees s' leased' ∧
      ∀ k, ∀ ref ∈ leased' k, ref ∈ leased k ∨ ref ∈ s'.heap := by
  have old (k : Nat) (ref : Ref) (member : ref ∈ leased k) : ref ∈ leased k ∨ ref ∈ s'.heap :=
    .inl member
  cases act with
  | makesLessee control => exact ⟨leased, lessees.makesLessee, old⟩
  | @subscribes b k t control bus lessee =>
      have made' : Lessees (s.makeIfAbsent b t).1 leased := by
        rcases makeIfAbsent_cases owned made bus t with ⟨r, same, -⟩ | same
        · rw [same]
          exact lessees
        · rw [same]
          exact lessees.same rfl rfl rfl rfl fun _ => id
      have living : (s.makeIfAbsent b t).1.lessees[k]? = some true := by
        rcases makeIfAbsent_cases owned made bus t with ⟨r, same, -⟩ | same
        · rw [same]
          exact lessee
        · rw [same]
          exact lessee
      refine ⟨_, made'.addLease (s.makeIfAbsent b t).2 living, ?_⟩
      intro k' ref member
      by_cases mine : k' = k
      · subst mine
        rw [Function.update_self] at member
        rcases List.mem_cons.mp member with rfl | before
        · exact .inr List.mem_cons_self
        · exact .inl before
      · rw [Function.update_of_ne mine] at member
        exact .inl member
  | @destroysLessee k control lessee => exact ⟨leased, lessees.destroysLessee k, old⟩
  | @clearsTop k top stack control more =>
      have linked := lessees.linked k
      rw [more] at linked
      obtain ⟨rest, same, -⟩ := linked.cons_of_some
      refine ⟨_, lessees.clearTop same, ?_⟩
      intro k' ref member
      by_cases mine : k' = k
      · subst mine
        rw [Function.update_self] at member
        exact .inl (same ▸ List.mem_cons_of_mem top member)
      · rw [Function.update_of_ne mine] at member
        exact .inl member
  | @leavesLessee k stack control done =>
      refine ⟨leased, lessees.restack ?_, old⟩
      intro k' inside
      rw [control, List.mem_cons] at inside
      rcases inside with same | deeper
      · cases same
        exact .inr done
      · exact .inl deeper
  | makesBus control => exact ⟨leased, lessees.same rfl rfl rfl rfl fun _ => id, old⟩
  | destroysBus control bus =>
      exact ⟨leased, lessees.same rfl rfl rfl rfl fun _ => List.mem_cons_of_mem _, old⟩
  | @disowns b t r stack control key has =>
      have disowned : Lessees { s with owned := Function.update s.owned r false } leased :=
        lessees.same rfl rfl rfl rfl fun _ => id
      exact ⟨leased, disowned.release r, old⟩
  | leavesBus control done => exact ⟨leased, lessees.restack (by simp +contextual [control]), old⟩
  | clearsFirst control more =>
      exact ⟨leased, lessees.update (by simp [Registry.clearFirst]), old⟩
  | leavesRegistry control done =>
      exact ⟨leased, lessees.restack (by simp +contextual [control]), old⟩
  | raises control bus found =>
      exact ⟨leased, lessees.restack fun k inside => .inl (List.mem_cons_of_mem _ inside), old⟩
  | @removes r l prev stack control cleared =>
      have longer :
          (s.registry r).leases.length ≤ ((s.registry r).remove prev l).leases.length := by
        rw [Registry.length_remove]
      have removed := lessees.update longer
      exact ⟨leased, removed.restack (by simp +contextual [control]), old⟩
  | calls control live => exact ⟨leased, lessees.restack (by simp +contextual [control]), old⟩
  | returns control => exact ⟨leased, lessees.restack (by simp +contextual [control]), old⟩
  | @throws r l prev stack control =>
      have popped : Lessees { s with stack := stack } leased :=
        lessees.restack (by simp +contextual [control])
      exact ⟨leased, popped.release r, old⟩
  | @ends r prev stack control =>
      have popped : Lessees { s with stack := stack } leased :=
        lessees.restack (by simp +contextual [control])
      exact ⟨leased, popped.same rfl rfl rfl rfl fun _ => id, old⟩
  | copies control io => exact ⟨leased, lessees.same rfl rfl rfl rfl fun _ => id, old⟩
  | @drops r control io =>
      have dropped : Lessees { s with ios := s.ios.erase r } leased :=
        lessees.same rfl rfl rfl rfl fun _ => id
      exact ⟨leased, dropped.release r, old⟩

/-! ## What a step leaves in the lists -/

/-- A `shared_ptr` to the registry is gone. -/
theorem Registries.drop {s s' : State} {chain : Nat → List Nat}
    (registries : Registries s chain fun r => s.held r = true) {r : Nat} (held : s.held r = true)
    (registry : s'.registry = s.registry) (keys : s'.keys = s.keys)
    (stack : ∀ r, .registry r ∈ s'.stack ↔ .registry r ∈ s.stack)
    (elsewhere : ∀ r', r' ≠ r → (s'.held r' = true ↔ s.held r' = true)) :
    Registries (s'.release r) chain fun r' => (s'.release r).held r' = true := by
  refine Registries.release (registries.congr registry (congrArg List.length keys) ?_
    (fun r' inside => .inl ((stack r').mpr inside)) fun r' => (stack r').mp)
  intro r'
  by_cases same : r' = r
  · subst same
    simp [held]
  · simp [same, elsewhere r' same]

/-- Where only `first` tells that a destructor is done. -/
theorem Registries.restack {s s' : State} {chain : Nat → List Nat}
    (registries : Registries s chain fun r => s.held r = true)
    (registry : s'.registry = s.registry) (keys : s'.keys = s.keys)
    (held : ∀ r, s'.held r = true ↔ s.held r = true)
    (kept : ∀ r, .registry r ∈ s.stack → .registry r ∈ s'.stack ∨ (s.registry r).first = none)
    (old : ∀ r, .registry r ∈ s'.stack → .registry r ∈ s.stack) :
    Registries s' chain fun r => s'.held r = true := by
  refine registries.congr registry (congrArg List.length keys) held ?_ old
  intro r inside
  exact (kept r inside).imp_right (registries.strung r).nil_of_first

/-- A registry is made where there is none. -/
theorem Registries.makeIfAbsent {s : State} {chain : Nat → List Nat} {b : Nat}
    (registries : Registries s chain fun r => s.held r = true) (owned : Owned s)
    (living : s.buses[b]? = some true) (t : Nat) :
    Registries (s.makeIfAbsent b t).1 chain (fun r => (s.makeIfAbsent b t).1.held r = true) ∧
      (s.makeIfAbsent b t).1.held (s.makeIfAbsent b t).2 = true ∧
      (s.makeIfAbsent b t).1.stack = s.stack := by
  rcases makeIfAbsent_cases owned registries.made living t with ⟨r, same, has⟩ | same
  · rw [same]
    exact ⟨registries, held_iff.mpr (.inl has), rfl⟩
  · rw [same]
    have made := registries.made s.keys.length (le_refl _)
    have nothing : chain s.keys.length = [] :=
      (registries.strung s.keys.length).nil_of_first (by rw [made]; rfl)
    have held (r : Nat) :
        State.held
          { s with
            keys := s.keys ++ [(b, t)]
            owned := Function.update s.owned s.keys.length true } r = true ↔
          s.held r = true ∨ r = s.keys.length := by
      rw [held_iff, held_iff]
      by_cases new : r = s.keys.length
      · simp [new]
      · simp [new]
    refine ⟨⟨registries.strung, ?_, ?_, ?_, ?_, ?_⟩, (held _).mpr (.inr rfl), rfl⟩
    · intro r alive
      rcases (held r).mp alive with old | rfl
      · exact registries.listed r old
      · rw [nothing]
        exact made.symm ▸ listed_initial
    · intro r dead outside
      exact registries.gone r (fun old => dead ((held r).mpr (.inl old))) outside
    · intro r inside
      obtain ⟨small, dead⟩ := registries.dying r inside
      refine ⟨by simp only [List.length_append]; omega, fun alive => ?_⟩
      exact ((held r).mp alive).elim dead (Nat.ne_of_lt small)
    · intro r alive
      simp only [List.length_append, List.length_singleton]
      rcases (held r).mp alive with old | rfl
      · exact Nat.lt_succ_of_lt (registries.inside r old)
      · exact Nat.lt_succ_self _
    · intro r big
      exact registries.made r (by simp only [List.length_append] at big; omega)

/-- The list of a registry that is held is changed. -/
theorem Registries.relist {s s' : State} {chain : Nat → List Nat}
    (registries : Registries s chain fun r => s.held r = true) {r : Nat} {registry : Registry}
    {nodes : List Nat} (alive : s.held r = true)
    (registry_eq : s'.registry = Function.update s.registry r registry) (keys : s'.keys = s.keys)
    (held : ∀ r, s'.held r = true ↔ s.held r = true)
    (stack : ∀ r, .registry r ∈ s'.stack ↔ .registry r ∈ s.stack)
    (listed : Registry.Listed registry nodes) :
    Registries s' (Function.update chain r nodes) fun r => s'.held r = true :=
  registries.update registry_eq keys
    (fun big => absurd (registries.inside r alive) (Nat.not_lt.mpr big)) held stack
    (strung_of_listed listed) (fun _ => listed) fun dead => absurd alive dead

/-- What a step leaves in the lists of registries was there before, or is new. -/
theorem Registries.act {s s' : State} {chain : Nat → List Nat}
    (registries : Registries s chain fun r => s.held r = true) (walks : Walks s chain)
    (owned : Owned s) (act : Act s s') :
    ∃ chain', Registries s' chain' (fun r => s'.held r = true) ∧ Walks s' chain' ∧
      ∀ r, ∀ l ∈ chain' r, l ∈ chain r ∨ ⟨r, l⟩ ∈ s'.heap := by
  have old (r l : Nat) (member : l ∈ chain r) : l ∈ chain r ∨ ⟨r, l⟩ ∈ s'.heap := .inl member
  cases act with
  | makesBus control =>
      exact ⟨chain, registries.congr rfl rfl (fun _ => Iff.rfl) (fun _ => .inl) (fun _ => id),
        .of_quiet (walks.quiet control), old⟩
  | makesLessee control =>
      exact ⟨chain, registries.congr rfl rfl (fun _ => Iff.rfl) (fun _ => .inl) (fun _ => id),
        .of_quiet (walks.quiet control), old⟩
  | @subscribes b k t control bus lessee =>
      obtain ⟨made, alive, stack⟩ := registries.makeIfAbsent owned bus t
      have listed := (made.listed _ alive).addLease
      refine ⟨_, made.relist alive rfl rfl (fun _ => Iff.rfl) (fun _ => Iff.rfl) listed,
        .of_quiet ?_, ?_⟩
      · exact stack.symm ▸ walks.quiet control
      · intro r l member
        by_cases same : r = (s.makeIfAbsent b t).2
        · subst same
          rw [Function.update_self] at member
          rcases List.mem_append.mp member with before | new
          · exact .inl before
          · rw [List.mem_singleton.mp new]
            exact .inr List.mem_cons_self
        · rw [Function.update_of_ne same] at member
          exact .inl member
  | destroysLessee control lessee =>
      exact ⟨chain, registries.restack rfl rfl (by simp [held_iff, Frame.held])
        (fun _ inside => .inl (List.mem_cons_of_mem _ inside)) (by simp),
        .of_quiet ((walks.quiet control).cons (by simp)), old⟩
  | @clearsTop k top stack control more =>
      refine ⟨Function.update chain top.registry (chain top.registry), ?_, .of_quiet ?_, ?_⟩
      · refine registries.update rfl rfl ?_ (fun _ => Iff.rfl) (fun _ => Iff.rfl)
          ((registries.strung _).clear top.lease)
          (fun alive => (registries.listed _ alive).clear top.lease) (registries.gone _)
        intro big
        rw [registries.made _ big]
        simp [Registry.initial, Registry.clear]
      · exact control.symm ▸ (walks.pop control).cons (by simp)
      · rw [Function.update_eq_self]
        exact old
  | @leavesLessee k stack control done =>
      exact ⟨chain, registries.restack rfl rfl (by simp [held_iff, control, Frame.held])
        (by simp +contextual [control]) (by simp +contextual [control]),
        .of_quiet (walks.pop control), old⟩
  | destroysBus control bus =>
      exact ⟨chain, registries.restack rfl rfl (by simp [held_iff, Frame.held])
        (fun _ inside => .inl (List.mem_cons_of_mem _ inside)) (by simp),
        .of_quiet ((walks.quiet control).cons (by simp)), old⟩
  | @disowns b t r stack control key has =>
      refine ⟨chain, registries.drop (held_iff.mpr (.inl has)) rfl rfl (fun _ => Iff.rfl) ?_,
        .of_quiet (Quiet.release ?_ r), fun r l member => .inl member⟩
      · intro r' other
        simp [held_iff, other]
      · exact control.symm ▸ (walks.pop control).cons (by simp)
  | leavesBus control done =>
      exact ⟨chain, registries.restack rfl rfl (by simp [held_iff, control, Frame.held])
        (by simp +contextual [control]) (by simp +contextual [control]),
        .of_quiet (walks.pop control), old⟩
  | @clearsFirst r first stack control more =>
      obtain ⟨small, dead⟩ := registries.dying r (control ▸ List.mem_cons_self)
      obtain ⟨rest, same⟩ := (registries.strung r).cons_of_first more
      refine ⟨Function.update chain r rest, ?_, .of_quiet ?_, ?_⟩
      · exact registries.update rfl rfl (fun big => absurd small (Nat.not_lt.mpr big))
          (fun _ => Iff.rfl) (fun _ => Iff.rfl) (same ▸ registries.strung r).clearFirst
          (fun alive => absurd alive dead)
          fun _ outside => absurd (control ▸ List.mem_cons_self) outside
      · exact control.symm ▸ (walks.pop control).cons (by simp)
      · intro r' l member
        by_cases mine : r' = r
        · subst mine
          rw [Function.update_self] at member
          exact .inl (same ▸ List.mem_cons_of_mem first member)
        · rw [Function.update_of_ne mine] at member
          exact .inl member
  | @leavesRegistry r stack control done =>
      refine ⟨chain, registries.restack rfl rfl (by simp [held_iff, control, Frame.held]) ?_
        (by simp +contextual [control]), .of_quiet (walks.pop control), old⟩
      intro r' inside
      rw [control, List.mem_cons] at inside
      rcases inside with same | deeper
      · cases same
        exact .inr done
      · exact .inl deeper
  | @raises b t r control bus found =>
      have has := owned.owned r b t (key_of_getRegistry found) bus
      have listed := registries.listed r (held_iff.mpr (.inl has))
      refine ⟨chain, registries.restack rfl rfl ?_
        (fun _ inside => .inl (List.mem_cons_of_mem _ inside)) (by simp),
        .of_top (walks.quiet control) rfl ?_, old⟩
      · intro r'
        rw [held_iff, held_iff]
        by_cases same : r = r'
        · subst same
          simp [has]
        · simp [Frame.held, same]
      · intro l first
        obtain ⟨rest, same⟩ := (registries.strung r).cons_of_first first
        exact ⟨[], rest, same, rfl⟩
  | @removes r l prev stack control cleared =>
      have alive : s.held r = true := held_top control rfl
      obtain ⟨pre, post, same, rfl⟩ := walks.looking r prev l stack control
      have listed := registries.listed r alive
      rw [same] at listed
      refine ⟨_, registries.relist alive rfl rfl (by simp [held_iff, control, Frame.held])
        (by simp [control]) (listed.remove cleared), .of_top (walks.pop control) rfl ?_, ?_⟩
      · intro l' next
        rw [listed.next_eq] at next
        rw [Function.update_self]
        cases post with
        | nil => cases next
        | cons a post =>
            cases next
            exact ⟨pre, post, rfl, rfl⟩
      · intro r' l' member
        by_cases mine : r' = r
        · subst mine
          rw [Function.update_self] at member
          exact .inl (same ▸ by simpa using (List.mem_append.mp member).imp_right .inr)
        · rw [Function.update_of_ne mine] at member
          exact .inl member
  | calls control live =>
      exact ⟨chain, registries.restack rfl rfl (by simp [held_iff, control, Frame.held])
        (by simp +contextual [control]) (by simp +contextual [control]),
        .of_quiet ((walks.pop control).cons (by simp)), old⟩
  | @returns r l prev stack control =>
      have alive : s.held r = true := held_top control rfl
      refine ⟨chain, registries.restack rfl rfl (by simp [held_iff, control, Frame.held])
        (by simp +contextual [control]) (by simp +contextual [control]),
        .of_top (walks.pop control) rfl ?_, old⟩
      intro l' next
      obtain ⟨pre, post, same⟩ := (registries.listed r alive).next_cases next
      exact ⟨pre ++ [l], post, by simp [same], by simp⟩
  | @throws r l prev stack control =>
      have alive : s.held r = true := held_top control rfl
      refine ⟨chain, registries.drop alive rfl rfl (by simp [control]) ?_,
        .of_quiet (Quiet.release (walks.pop control) r), fun r l member => .inl member⟩
      intro r' other
      simp [held_iff, control, Frame.held, Ne.symm other]
  | @ends r prev stack control =>
      refine ⟨chain, registries.restack rfl rfl ?_ (by simp +contextual [control])
        (by simp +contextual [control]), .of_quiet (walks.pop control), old⟩
      intro r'
      by_cases same : r = r'
      · simp [held_iff, control, Frame.held, same]
      · simp [held_iff, control, Frame.held, same, Ne.symm same]
  | @copies r control io =>
      refine ⟨chain, registries.restack rfl rfl ?_ (fun _ => .inl) (fun _ => id),
        .of_quiet (walks.quiet control), old⟩
      intro r'
      by_cases same : r' = r
      · simp [held_iff, same, io]
      · simp [held_iff, same]
  | @drops r control io =>
      refine ⟨chain, registries.drop (held_iff.mpr (.inr (.inl io))) rfl rfl (fun _ => Iff.rfl) ?_,
        .of_quiet ?_, fun r l member => .inl member⟩
      · intro r' other
        simp [held_iff, List.mem_erase_of_ne other]
      · exact Quiet.release (s := { s with ios := s.ios.erase r }) (walks.quiet control) r

theorem mem_release {s : State} {r : Nat} {frame : Frame} (member : frame ∈ (s.release r).stack) :
    frame ∈ s.stack ∨ frame = .registry r := by
  rw [State.release] at member
  split at member
  · exact .inl member
  · exact (List.mem_cons.mp member).symm

/-- What a lease points to is in the list. -/
theorem Strung.next_mem {registry : Registry} {chain : List Nat} (strung : Strung registry chain)
    {l l' : Nat} (next : registry.next l = some l') : l' ∈ chain := by
  have inside : l ∈ chain := by
    by_contra outside
    rw [strung.apart l outside] at next
    cases next
  obtain ⟨pre, post, rfl⟩ := List.append_of_mem inside
  rw [strung.linked.next_eq] at next
  exact List.mem_append_right _ (List.mem_cons_of_mem _ (List.mem_of_mem_head? next))

/-- A walk is at leases that it was at before, or that are in the list. -/
theorem walked_act {s s' : State} {chain : Nat → List Nat}
    (strung : ∀ r, Strung (s.registry r) (chain r)) (act : Act s s') :
    ∀ frame ∈ s'.stack, ∀ ref ∈ frame.leases,
      (∃ frame ∈ s.stack, ref ∈ frame.leases) ∨ ref.lease ∈ chain ref.registry := by
  have old {frame : Frame} {ref : Ref} (member : frame ∈ s.stack) (here : ref ∈ frame.leases) :
      (∃ frame ∈ s.stack, ref ∈ frame.leases) ∨ ref.lease ∈ chain ref.registry :=
    .inl ⟨frame, member, here⟩
  intro frame member ref here
  cases act with
  | makesBus control => exact old member here
  | makesLessee control => exact old member here
  | @subscribes b k t control bus lessee =>
      refine old ?_ here
      rw [State.addLease, State.makeIfAbsent] at member
      cases found : s.getRegistry b t with
      | none => simpa [found] using member
      | some r => simpa [found] using member
  | destroysLessee control lessee =>
      rcases List.mem_cons.mp member with rfl | deeper
      · cases here
      · exact old deeper here
  | clearsTop control more => exact old member here
  | leavesLessee control done => exact old (control ▸ List.mem_cons_of_mem _ member) here
  | destroysBus control bus =>
      rcases List.mem_cons.mp member with rfl | deeper
      · cases here
      · exact old deeper here
  | disowns control key has =>
      rcases mem_release member with before | rfl
      · exact old before here
      · cases here
  | leavesBus control done => exact old (control ▸ List.mem_cons_of_mem _ member) here
  | clearsFirst control more => exact old member here
  | leavesRegistry control done => exact old (control ▸ List.mem_cons_of_mem _ member) here
  | @raises b t r control bus found =>
      rcases List.mem_cons.mp member with rfl | deeper
      · obtain ⟨l, first, rfl⟩ := List.mem_map.mp here
        have linked := (strung r).linked
        rw [show (s.registry r).first = some l by simpa using first] at linked
        obtain ⟨rest, same, -⟩ := linked.cons_of_some
        exact .inr (same ▸ List.mem_cons_self)
      · exact old deeper here
  | @removes r l prev stack control cleared =>
      rcases List.mem_cons.mp member with rfl | deeper
      · obtain ⟨l', held, rfl⟩ := List.mem_map.mp here
        rcases List.mem_append.mp held with before | next
        · have held := List.mem_append_left [l] before
          exact .inl ⟨_, control ▸ List.mem_cons_self, List.mem_map_of_mem held⟩
        · exact .inr ((strung r).next_mem (by simpa using next))
      · exact old (control ▸ List.mem_cons_of_mem _ deeper) here
  | @calls r l prev stack control live =>
      rcases List.mem_cons.mp member with rfl | deeper
      · exact .inl ⟨.iterate r prev (some l), control ▸ List.mem_cons_self, here⟩
      · exact old (control ▸ List.mem_cons_of_mem _ deeper) here
  | @returns r l prev stack control =>
      rcases List.mem_cons.mp member with rfl | deeper
      · obtain ⟨l', held, rfl⟩ := List.mem_map.mp here
        rcases List.mem_append.mp held with now | next
        · have held := List.mem_append_right prev.toList now
          exact .inl ⟨_, control ▸ List.mem_cons_self, List.mem_map_of_mem held⟩
        · exact .inr ((strung r).next_mem (by simpa using next))
      · exact old (control ▸ List.mem_cons_of_mem _ deeper) here
  | throws control =>
      rcases mem_release member with before | rfl
      · exact old (control ▸ List.mem_cons_of_mem _ before) here
      · cases here
  | ends control => exact old (control ▸ List.mem_cons_of_mem _ member) here
  | copies control io => exact old member here
  | drops control io =>
      rcases mem_release member with before | rfl
      · exact old before here
      · cases here

/-- Leases are freed only afterwards. -/
theorem heap_act {s s' : State} (act : Act s s') : ∀ ref ∈ s.heap, ref ∈ s'.heap := by
  have release (s : State) (r : Nat) : (s.release r).heap = s.heap := by
    rw [State.release]
    split
    · rfl
    · rfl
  intro ref member
  cases act with
  | @subscribes b k t control bus lessee =>
      refine List.mem_cons_of_mem _ ?_
      rw [State.makeIfAbsent]
      cases s.getRegistry b t with
      | none => exact member
      | some r => exact member
  | disowns control key has =>
      rw [release]
      exact member
  | throws control =>
      rw [release]
      exact member
  | drops control io =>
      rw [release]
      exact member
  | _ => exact member

end SidepoolFormal.S.Memory
