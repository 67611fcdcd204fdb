import SidepoolFormal.S.Steps

/-!
# No lease leaks

The lists of registries and lessees may hold each other's leases in a circle.
But a registry or a lessee that is destroyed takes its list apart, and `iterate`
takes a lease apart that it removes.  So in every run the leases in memory are
those in a list and those that a walk is at, and nothing is left when the
lessees and the buses are gone.
-/

namespace SidepoolFormal.S.Memory

open Library

/-! ## What is retained -/

/-- The leases in the lists, and those that a walk is at. -/
def Retained (s : State) (chain : Nat → List Nat) (leased : Nat → List Ref) (ref : Ref) : Prop :=
  ref.lease ∈ chain ref.registry ∨ (∃ k, ref ∈ leased k) ∨ ∃ frame ∈ s.stack, ref ∈ frame.leases

structure Shape (s : State) (chain : Nat → List Nat) (leased : Nat → List Ref) : Prop where
  registries : Registries s chain fun r => s.held r = true
  walks : Walks s chain
  lessees : Lessees s leased
  owned : Owned s

namespace Shape

variable {s s' : State} {chain : Nat → List Nat} {leased : Nat → List Ref}

theorem edge_iff {ref ref' : Ref} : s.refs.edge ref ref' = true ↔
    (ref.registry = ref'.registry ∧ (s.registry ref.registry).next ref.lease = some ref'.lease) ∨
      s.nextLessee ref = some ref' := by
  simp [State.refs]

theorem root_iff {ref : Ref} : s.refs.root ref = true ↔
    (s.registry ref.registry).first = some ref.lease ∨
      (∃ k < s.lessees.length, s.top k = some ref) ∨ ∃ frame ∈ s.stack, ref ∈ frame.leases := by
  simp [State.refs, or_assoc]

/-- Nothing that is not retained refers to a lease. -/
theorem closed (shape : Shape s chain leased) {ref ref' : Ref}
    (edge : s.refs.edge ref ref' = true) : Retained s chain leased ref' := by
  rcases edge_iff.mp edge with ⟨same, next⟩ | next
  · exact .inl (same ▸ (shape.registries.strung ref.registry).next_mem next)
  · have inside : ∃ k, ref ∈ leased k := by
      by_contra outside
      rw [shape.lessees.unleased ref (not_exists.mp outside)] at next
      cases next
    obtain ⟨k, inside⟩ := inside
    obtain ⟨pre, post, cut⟩ := List.append_of_mem inside
    have linked := shape.lessees.linked k
    rw [cut] at linked
    rw [linked.next_eq] at next
    refine .inr (.inl ⟨k, ?_⟩)
    rw [cut]
    exact List.mem_append_right _ (List.mem_cons_of_mem _ (List.mem_of_mem_head? next))

theorem rooted (shape : Shape s chain leased) {ref : Ref} (root : s.refs.root ref = true) :
    Retained s chain leased ref := by
  rcases root_iff.mp root with first | ⟨k, -, top⟩ | walked
  · obtain ⟨rest, same⟩ := (shape.registries.strung ref.registry).cons_of_first first
    exact .inl (same ▸ List.mem_cons_self)
  · have linked := shape.lessees.linked k
    rw [top] at linked
    obtain ⟨rest, same, -⟩ := linked.cons_of_some
    exact .inr (.inl ⟨k, same ▸ List.mem_cons_self⟩)
  · exact .inr (.inr walked)

/-- What is retained is referred to. -/
theorem supported (shape : Shape s chain leased) :
    Counting.Supported s.refs {ref | Retained s chain leased ref} := by
  rintro ref (listed | ⟨k, mine⟩ | walked)
  · obtain ⟨pre, post, cut⟩ := List.append_of_mem listed
    have linked := (shape.registries.strung ref.registry).linked
    rw [cut] at linked
    rcases List.eq_nil_or_concat' pre with rfl | ⟨init, l, rfl⟩
    · exact .inl (root_iff.mpr (.inl linked.head.symm))
    · refine .inr ⟨⟨ref.registry, l⟩, .inl (by simp [cut]), edge_iff.mpr (.inl ⟨rfl, ?_⟩)⟩
      rw [List.append_assoc] at linked
      exact linked.next_eq
  · obtain ⟨pre, post, cut⟩ := List.append_of_mem mine
    have linked := shape.lessees.linked k
    rw [cut] at linked
    rcases List.eq_nil_or_concat' pre with rfl | ⟨init, before, rfl⟩
    · have small := shape.lessees.small k ref mine
      exact .inl (root_iff.mpr (.inr (.inl ⟨k, small, linked.head.symm⟩)))
    · refine .inr ⟨before, .inr (.inl ⟨k, by simp [cut]⟩), edge_iff.mpr (.inr ?_)⟩
      rw [List.append_assoc] at linked
      exact linked.next_eq
  · exact .inl (root_iff.mpr (.inr (.inr walked)))

theorem collect (shape : Shape s chain leased) : Shape s.collect chain leased where
  registries := shape.registries.congr rfl rfl (fun _ => Iff.rfl) (fun _ => .inl) fun _ => id
  walks := ⟨shape.walks.nested, shape.walks.looking⟩
  lessees := shape.lessees.same rfl rfl rfl rfl fun _ => id
  owned := shape.owned.congr rfl rfl rfl fun _ => Iff.rfl

/-- Counting leaves what is retained. -/
theorem mem_collect (shape : Shape s chain leased)
    (there : ∀ ref, Retained s chain leased ref → ref ∈ s.heap) (ref : Ref) :
    ref ∈ s.collect.heap ↔ Retained s chain leased ref := by
  refine Counting.mem_collect_iff shape.supported there (fun _ => shape.rooted)
    (fun _ _ _ => shape.closed) ?_ ref
  refine ⟨fun ref => ⟨ref, fun ref' edge => ?_⟩⟩
  exact absurd (shape.closed edge.1) edge.2

end Shape

/-- The leases in memory are those that are retained. -/
structure Sound (s : State) (chain : Nat → List Nat) (leased : Nat → List Ref) : Prop where
  shape : Shape s chain leased
  heap : ∀ ref, ref ∈ s.heap ↔ Retained s chain leased ref

theorem Sound.step {s s' : State} {chain : Nat → List Nat} {leased : Nat → List Ref}
    (sound : Sound s chain leased) (step : Step s s') :
    ∃ chain' leased', Sound s' chain' leased' := by
  obtain ⟨acted, act, rfl⟩ := step
  obtain ⟨⟨registries, walks, lessees, owned⟩, heap⟩ := sound
  obtain ⟨chain', registries', walks', listed⟩ := registries.act walks owned act
  obtain ⟨leased', lessees', subscribed⟩ := lessees.act owned registries.made act
  have walked := walked_act registries.strung act
  have shape : Shape acted chain' leased' := ⟨registries', walks', lessees', owned.act act⟩
  have grows := heap_act act
  refine ⟨chain', leased', shape.collect, shape.mem_collect ?_⟩
  rintro ref (inside | ⟨k, mine⟩ | ⟨frame, member, here⟩)
  · rcases listed ref.registry ref.lease inside with before | new
    · exact grows ref ((heap ref).mpr (.inl before))
    · exact new
  · rcases subscribed k ref mine with before | new
    · exact grows ref ((heap ref).mpr (.inr (.inl ⟨k, before⟩)))
    · exact new
  · rcases walked frame member ref here with before | inside
    · exact grows ref ((heap ref).mpr (.inr (.inr before)))
    · exact grows ref ((heap ref).mpr (.inl inside))

theorem sound_initial : Sound initial (fun _ => []) fun _ => [] where
  shape :=
    { registries :=
        { strung := fun _ => strung_of_listed listed_initial
          listed := fun _ _ => listed_initial
          gone := fun _ _ _ => rfl
          dying := by simp [initial]
          inside := by simp [initial, State.held]
          made := fun _ _ => rfl }
      walks := .of_quiet (by simp [Quiet, initial])
      lessees :=
        { linked := fun _ => .nil
          nodup := fun _ => .nil
          apart := by simp
          unleased := fun _ _ => rfl
          bound := by simp
          small := by simp
          idle := fun _ _ _ => rfl }
      owned :=
        { known := by simp [initial]
          owned := by simp [initial]
          inside := by simp [initial]
          closing := by simp [initial]
          closed := by simp [initial] } }
  heap := by simp [Retained, initial]

theorem sound_of_reachable {s : State} (reachable : Reachable s) :
    ∃ chain leased, Sound s chain leased := by
  induction reachable with
  | refl => exact ⟨_, _, sound_initial⟩
  | tail _ step ih =>
      obtain ⟨chain, leased, sound⟩ := ih
      exact sound.step step

/-! ## Runs -/

namespace State

/-- The lease is in the list of its registry. -/
def Listed (s : State) (ref : Ref) : Prop :=
  ∃ nodes, Linked (s.registry ref.registry).next (s.registry ref.registry).first nodes ∧
    ref.lease ∈ nodes

/-- The lease is in the list of the lessee. -/
def Leased (s : State) (k : Nat) (ref : Ref) : Prop :=
  ∃ nodes, Linked s.nextLessee (s.top k) nodes ∧ ref ∈ nodes

end State

/-- What is in memory, and why. -/
structure Accounted (s : State) : Prop where
  retained : ∀ ref, ref ∈ s.heap ↔
    s.Listed ref ∨ (∃ k, s.Leased k ref) ∨ ∃ frame ∈ s.stack, ref ∈ frame.leases
  last : ∀ r l, s.held r = true → (s.registry r).last = some l → ⟨r, l⟩ ∈ s.heap
  idle : s.stack = [] → ∀ ref ∈ s.heap, s.held ref.registry = true ∧ s.Listed ref ∨
    ∃ k, s.lessees[k]? = some true ∧ s.Leased k ref

/-- A lease is in memory as long as it is in a list or a walk is at it, `last`
points to one that is, and the lists are those of registries that somebody holds
and of lessees that are not destroyed. -/
theorem accounted {s : State} (reachable : Reachable s) : Accounted s := by
  obtain ⟨chain, leased, ⟨registries, -, lessees, -⟩, heap⟩ := sound_of_reachable reachable
  have listed_iff (ref : Ref) : s.Listed ref ↔ ref.lease ∈ chain ref.registry := by
    have linked := (registries.strung ref.registry).linked
    exact ⟨fun ⟨nodes, other, member⟩ => linked.unique other ▸ member,
      fun member => ⟨_, linked, member⟩⟩
  have leased_iff (k : Nat) (ref : Ref) : s.Leased k ref ↔ ref ∈ leased k := by
    have linked := lessees.linked k
    exact ⟨fun ⟨nodes, other, member⟩ => linked.unique other ▸ member,
      fun member => ⟨_, linked, member⟩⟩
  refine ⟨?_, ?_, ?_⟩
  · intro ref
    rw [heap, Retained, listed_iff, exists_congr fun k => leased_iff k ref]
  · intro r l alive last
    rw [heap]
    refine .inl ?_
    rw [(registries.listed r alive).last] at last
    exact List.mem_of_getLast? last
  · intro none ref member
    rcases (heap ref).mp member with inside | ⟨k, mine⟩ | ⟨frame, absurd, -⟩
    · refine .inl ⟨?_, (listed_iff ref).mpr inside⟩
      by_contra dead
      rw [registries.gone _ dead (by simp [none])] at inside
      cases inside
    · refine .inr ⟨k, ?_, (leased_iff k ref).mpr mine⟩
      by_contra dead
      rw [lessees.idle k dead (by simp [none])] at mine
      cases mine
    · rw [none] at absurd
      cases absurd

/-- The lessee is destroyed while a function of its own runs; the leases stay, and
the walk goes on. -/
theorem accounted_walked :
    ∃ s : State, s.lessees = [false] ∧ s.heap = [⟨0, 1⟩, ⟨0, 0⟩] ∧ Accounted s := by
  have run : Reachable _ := .refl
  have run := run.tail ⟨_, .makesBus rfl, rfl⟩
  have run := run.tail ⟨_, .makesLessee rfl, rfl⟩
  have run := run.tail ⟨_, .subscribes (b := 0) (k := 0) 7 rfl rfl rfl, rfl⟩
  have run := run.tail ⟨_, .subscribes (b := 0) (k := 0) 7 rfl rfl rfl, rfl⟩
  have run := run.tail ⟨_, .raises (b := 0) (t := 7) (r := 0) rfl rfl rfl, rfl⟩
  have run := run.tail ⟨_, .calls (r := 0) (l := 0) rfl rfl, rfl⟩
  have run := run.tail ⟨_, .destroysLessee (k := 0) rfl rfl, rfl⟩
  have run := run.tail ⟨_, .clearsTop (k := 0) rfl rfl, rfl⟩
  have run := run.tail ⟨_, .clearsTop (k := 0) rfl rfl, rfl⟩
  have run := run.tail ⟨_, .leavesLessee (k := 0) rfl rfl, rfl⟩
  have run := run.tail ⟨_, .returns (r := 0) (l := 0) rfl, rfl⟩
  exact ⟨_, rfl, rfl, accounted run⟩

/-- Nothing is left when lessees, buses and what `raise` has returned are gone. -/
theorem no_leak {s : State} (reachable : Reachable s) (quiet : s.stack = [])
    (lessees : ∀ k : Nat, s.lessees[k]? ≠ some true) (buses : ∀ b : Nat, s.buses[b]? ≠ some true)
    (ios : s.ios = []) : s.heap = [] := by
  obtain ⟨chain, leased, ⟨-, -, -, owned⟩, -⟩ := sound_of_reachable reachable
  refine List.eq_nil_iff_forall_not_mem.mpr fun ref member => ?_
  rcases (accounted reachable).idle quiet ref member with ⟨held, -⟩ | ⟨k, living, -⟩
  · simp only [held_iff, ios, quiet, List.not_mem_nil, false_and, exists_false, or_false] at held
    have inside := owned.inside _ held
    have key := List.getElem?_eq_getElem inside
    generalize s.keys[ref.registry] = bt at key
    obtain ⟨b, t⟩ := bt
    have known := owned.known _ b t key
    have closed : s.buses[b]? = some false := by
      have living := buses b
      rw [List.getElem?_eq_getElem known] at living ⊢
      cases alive : s.buses[b] with
      | true => exact absurd (congrArg some alive) living
      | false => rfl
    rw [owned.closed _ b t key closed (by simp [quiet])] at held
    cases held
  · exact lessees k living

/-- A lessee subscribes twice.  The first function throws, and then lessee and
bus are destroyed; in between the leases hold each other in a circle. -/
theorem no_leak_circle :
    ∃ s : State, s.lessees = [false] ∧ s.buses = [false] ∧ s.ios = [] ∧ s.heap = [] := by
  have dead : ∀ k : Nat, [false][k]? ≠ some true := by
    intro k
    cases k <;> simp
  have disowned (r : Nat) :
      Function.update (Function.update (fun _ => false) 0 true) 0 false r = false := by
    cases r <;> simp
  have run : Reachable _ := .refl
  have run := run.tail ⟨_, .makesBus rfl, rfl⟩
  have run := run.tail ⟨_, .makesLessee rfl, rfl⟩
  have run := run.tail ⟨_, .subscribes (b := 0) (k := 0) 7 rfl rfl rfl, rfl⟩
  have run := run.tail ⟨_, .subscribes (b := 0) (k := 0) 7 rfl rfl rfl, rfl⟩
  have run := run.tail ⟨_, .raises (b := 0) (t := 7) (r := 0) rfl rfl rfl, rfl⟩
  have run := run.tail ⟨_, .calls (r := 0) (l := 0) rfl rfl, rfl⟩
  have run := run.tail ⟨_, .throws (r := 0) (l := 0) rfl, rfl⟩
  have run := run.tail ⟨_, .destroysLessee (k := 0) rfl rfl, rfl⟩
  have run := run.tail ⟨_, .clearsTop (k := 0) rfl rfl, rfl⟩
  have run := run.tail ⟨_, .clearsTop (k := 0) rfl rfl, rfl⟩
  have run := run.tail ⟨_, .leavesLessee (k := 0) rfl rfl, rfl⟩
  have run := run.tail ⟨_, .destroysBus (b := 0) rfl rfl, rfl⟩
  have run := run.tail ⟨_, .disowns (b := 0) (t := 7) (r := 0) rfl rfl rfl, rfl⟩
  have run := run.tail ⟨_, .clearsFirst (r := 0) rfl rfl, rfl⟩
  have run := run.tail ⟨_, .clearsFirst (r := 0) rfl rfl, rfl⟩
  have run := run.tail ⟨_, .leavesRegistry (r := 0) rfl rfl, rfl⟩
  have run := run.tail ⟨_, .leavesBus (b := 0) rfl fun r _ _ => disowned r, rfl⟩
  exact ⟨_, rfl, rfl, rfl, no_leak run rfl dead dead rfl⟩

end SidepoolFormal.S.Memory
