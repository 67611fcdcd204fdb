import Mathlib.Data.List.Nodup
import Mathlib.Logic.Function.Basic
import Mathlib.Order.Defs.Unbundled

/-!
# Objects with one owner

Cells own objects.  An object moves from cell to cell, and when its cell lets go
of it, its destructor is called, if it has one.  A relation on holdings says that
objects are neither lost nor duplicated: each stays in one cell until it has been
destroyed once.
-/

namespace SidepoolFormal.Library

/-- What the cells own, and the objects whose destructor was called. -/
structure Holdings (C O : Type) where
  held : C → Option O
  freed : List O

namespace Holdings

variable {C O : Type}

/-- Each object that has a destructor is in one cell at most, or was destroyed
once. -/
structure Sound (frees : O → Bool) (h : Holdings C O) : Prop where
  single : ∀ {c d o}, frees o = true → h.held c = some o → h.held d = some o → c = d
  live : ∀ {c o}, frees o = true → h.held c = some o → o ∉ h.freed
  once : h.freed.Nodup

/-- An object is in a cell or was destroyed. -/
def Accounted (h : Holdings C O) (o : O) : Prop := (∃ c, h.held c = some o) ∨ o ∈ h.freed

/-- No object is lost or duplicated, and these cells are not filled. -/
structure Passes (frees : O → Bool) (cells : Set C) (h h' : Holdings C O) : Prop where
  sound : h.Sound frees → h'.Sound frees
  accounted : ∀ {o}, frees o = true → (h'.Accounted o ↔ h.Accounted o)
  freed : ∀ {o}, o ∈ h'.freed → o ∈ h.freed ∨ frees o = true
  empty : ∀ c ∈ cells, h.held c = none → h'.held c = none

section

variable {frees : O → Bool} {cells cells' : Set C}

instance : IsPreorder (Holdings C O) (Passes frees cells) where
  refl _ := ⟨id, fun _ => Iff.rfl, .inl, fun _ _ none => none⟩
  trans _ _ _ first second :=
    ⟨second.sound ∘ first.sound,
      fun frees => (second.accounted frees).trans (first.accounted frees),
      fun gone => (second.freed gone).elim first.freed .inr,
      fun c inside none => second.empty c inside (first.empty c inside none)⟩

theorem Passes.mono {h h' : Holdings C O} (passes : Passes frees cells' h h')
    (inside : cells ⊆ cells') : Passes frees cells h h' where
  sound := passes.sound
  accounted := passes.accounted
  freed := passes.freed
  empty c member := passes.empty c (inside member)

/-- Once all cells are empty, what they held at first was destroyed. -/
theorem Passes.mem_freed {h h' : Holdings C O} (passes : Passes frees cells h h')
    (empty : ∀ c, h'.held c = none) {o : O} (has : frees o = true) :
    o ∈ h'.freed ↔ h.Accounted o := by
  rw [← passes.accounted has]
  unfold Accounted
  constructor
  · exact .inr
  · rintro (⟨c, held⟩ | gone)
    · rw [empty] at held
      cases held
    · exact gone

/-- What is destroyed until all cells are empty is what was in them. -/
theorem Passes.freed_perm {h h' : Holdings C O} (passes : Passes frees cells h h')
    (sound : h.Sound frees) (none : h.freed = []) (empty : ∀ c, h'.held c = Option.none)
    {list : List O} (distinct : list.Nodup)
    (all : ∀ o, o ∈ list ↔ frees o = true ∧ ∃ c, h.held c = some o) : h'.freed.Perm list := by
  refine (List.perm_ext_iff_of_nodup (passes.sound sound).once distinct).mpr ?_
  intro o
  rw [all]
  constructor
  · intro gone
    have has : frees o = true := (passes.freed gone).resolve_left (by simp [none])
    refine ⟨has, ((passes.mem_freed empty has).mp gone).resolve_right (by simp [none])⟩
  · rintro ⟨has, held⟩
    exact (passes.mem_freed empty has).mpr (.inl held)

/-- The order in which objects were destroyed does not matter. -/
theorem Passes.perm {h h' h'' : Holdings C O} (passes : Passes frees cells h h')
    (held : h''.held = h'.held) (perm : h''.freed.Perm h'.freed) : Passes frees cells h h'' where
  sound sound := by
    obtain ⟨single, live, once⟩ := passes.sound sound
    refine ⟨?_, ?_, perm.nodup_iff.mpr once⟩
    · rw [held]
      exact single
    · rw [held]
      exact fun has inside gone => live has inside (perm.mem_iff.mp gone)
  accounted has := by
    rw [← passes.accounted has, Accounted, Accounted, held, perm.mem_iff]
  freed gone := passes.freed (perm.mem_iff.mp gone)
  empty := held ▸ passes.empty

end

/-! ## Letting go and moving -/

section

variable [DecidableEq C] (frees : O → Bool)

/-- A cell is overwritten. -/
def write (c : C) (o : Option O) (h : Holdings C O) : Holdings C O :=
  { h with held := Function.update h.held c o }

/-- A cell lets go of its object. -/
def dispose (c : C) (h : Holdings C O) : Holdings C O where
  held := Function.update h.held c none
  freed := h.freed ++ ((h.held c).filter frees).toList

def disposeAll (cells : List C) (h : Holdings C O) : Holdings C O :=
  cells.foldl (fun h c => h.dispose frees c) h

/-- A cell is assigned; it lets go of what it had. -/
def put (c : C) (o : Option O) (h : Holdings C O) : Holdings C O := (h.dispose frees c).write c o

/-- The object of `c` goes to `d`, which lets go of what it had. -/
def move (c d : C) (h : Holdings C O) : Holdings C O :=
  let h := h.dispose frees d
  (h.write d (h.held c)).write c none

end

variable [DecidableEq C] {frees : O → Bool} {cells : Set C}

theorem held_dispose {h : Holdings C O} {c d : C} {o : O} :
    (h.dispose frees c).held d = some o ↔ d ≠ c ∧ h.held d = some o := by
  unfold dispose
  by_cases same : d = c
  · simp [same]
  · simp [same]

theorem mem_freed_dispose {h : Holdings C O} {c : C} {o : O} :
    o ∈ (h.dispose frees c).freed ↔ o ∈ h.freed ∨ h.held c = some o ∧ frees o = true := by
  simp [dispose, Option.mem_toList, Option.filter_eq_some_iff]

theorem disposeAll_cons (c : C) (list : List C) (h : Holdings C O) :
    h.disposeAll frees (c :: list) = (h.dispose frees c).disposeAll frees list := rfl

theorem held_disposeAll (list : List C) (h : Holdings C O) (d : C) :
    (h.disposeAll frees list).held d = if d ∈ list then none else h.held d := by
  induction list generalizing h with
  | nil => simp [disposeAll]
  | cons c list ih =>
      rw [disposeAll_cons, ih]
      by_cases same : d = c
      · simp [same, dispose]
      · simp [same, dispose]

/-- What different cells hold is let go in their order. -/
theorem freed_disposeAll {list : List C} (distinct : list.Nodup) (h : Holdings C O) :
    (h.disposeAll frees list).freed =
      h.freed ++ list.filterMap fun c => (h.held c).filter frees := by
  induction list generalizing h with
  | nil => simp [disposeAll]
  | cons c list ih =>
      obtain ⟨fresh, rest⟩ := List.nodup_cons.mp distinct
      have others : (list.filterMap fun d => ((h.dispose frees c).held d).filter frees) =
          list.filterMap fun d => (h.held d).filter frees := by
        refine List.filterMap_congr ?_
        intro d inside
        have other : d ≠ c := fun same => fresh (same ▸ inside)
        exact congrArg (Option.filter frees) (Function.update_of_ne other _ _)
      rw [disposeAll_cons, ih rest, others]
      cases held : (h.held c).filter frees with
      | none => simp [dispose, held]
      | some o => simp [dispose, held]

theorem Sound.dispose {h : Holdings C O} (sound : h.Sound frees) (c : C) :
    (h.dispose frees c).Sound frees where
  single has first second :=
    sound.single has (held_dispose.mp first).2 (held_dispose.mp second).2
  live has inside gone := by
    obtain ⟨other, held⟩ := held_dispose.mp inside
    rcases mem_freed_dispose.mp gone with before | ⟨now, -⟩
    · exact sound.live has held before
    · exact other (sound.single has held now)
  once := by
    refine List.nodup_append'.mpr ⟨sound.once, ?_, ?_⟩
    · cases (h.held c).filter frees <;> simp
    · intro o gone now
      obtain ⟨held, has⟩ := Option.filter_eq_some_iff.mp (Option.mem_toList.mp now)
      exact sound.live has held gone

theorem dispose_passes (c : C) (h : Holdings C O) :
    Passes frees cells h (h.dispose frees c) where
  sound sound := sound.dispose c
  accounted {o} has := by
    unfold Accounted
    rw [mem_freed_dispose]
    constructor
    · rintro (⟨d, held⟩ | gone | ⟨held, -⟩)
      · exact .inl ⟨d, (held_dispose.mp held).2⟩
      · exact .inr gone
      · exact .inl ⟨c, held⟩
    · rintro (⟨d, held⟩ | gone)
      · by_cases same : d = c
        · exact .inr (.inr ⟨same ▸ held, has⟩)
        · exact .inl ⟨d, held_dispose.mpr ⟨same, held⟩⟩
      · exact .inr (.inl gone)
  freed gone := (mem_freed_dispose.mp gone).imp_right And.right
  empty d _ none := by
    by_cases same : d = c
    · simp [Holdings.dispose, same]
    · simp [Holdings.dispose, same, none]

theorem disposeAll_passes (list : List C) (h : Holdings C O) :
    Passes frees cells h (h.disposeAll frees list) := by
  induction list generalizing h with
  | nil => exact refl h
  | cons c list ih => exact IsTrans.trans _ _ _ (dispose_passes c h) (ih _)

/-- Cells that have let go are empty. -/
theorem Passes.disposeAll {h h' : Holdings C O} (passes : Passes frees cells h h')
    (list : List C) : Passes frees (cells ∪ {c | c ∈ list}) h (h'.disposeAll frees list) := by
  have disposed : Passes frees cells h (h'.disposeAll frees list) :=
    IsTrans.trans _ _ _ passes (disposeAll_passes list h')
  refine ⟨disposed.sound, disposed.accounted, disposed.freed, ?_⟩
  intro c inside none
  rw [held_disposeAll]
  split
  next => rfl
  next outside =>
    rcases inside with inside | inside
    · exact passes.empty c inside none
    · exact absurd inside outside

theorem held_move (h : Holdings C O) (c d e : C) :
    (h.move frees c d).held e =
      if e = c then none else if e = d then h.held c else h.held e := by
  unfold move dispose write
  by_cases source : e = c
  · simp [source]
  · by_cases target : e = d
    · subst target
      simp [source, Function.update_of_ne (Ne.symm source)]
    · simp [source, target]

theorem move_none {h : Holdings C O} {c d : C} (source : h.held c = none)
    (target : h.held d = none) : h.move frees c d = h := by
  unfold move dispose write
  have same (e : C) : Function.update h.held e none = h.held ↔ h.held e = none := by
    rw [Function.update_eq_self_iff, eq_comm]
  simp [source, target, (same _).mpr]

theorem freed_move (h : Holdings C O) (c d : C) :
    (h.move frees c d).freed = h.freed ++ ((h.held d).filter frees).toList := rfl

theorem held_move_some {h : Holdings C O} {c d e : C} {o : O} :
    (h.move frees c d).held e = some o ↔
      e ≠ c ∧ if e = d then h.held c = some o else h.held e = some o := by
  rw [held_move]
  by_cases source : e = c
  · simp [source]
  · by_cases target : e = d
    · simp [target]
    · simp [source, target]

theorem Sound.move {h : Holdings C O} (sound : h.Sound frees) (c d : C) :
    (h.move frees c d).Sound frees where
  single has first second := by
    obtain ⟨source, first⟩ := held_move_some.mp first
    obtain ⟨source', second⟩ := held_move_some.mp second
    split at first <;> split at second
    next target target' => rw [target, target']
    next => exact absurd (sound.single has second first) source'
    next => exact absurd (sound.single has first second) source
    next => exact sound.single has first second
  live has moved gone := by
    obtain ⟨source, held⟩ := held_move_some.mp moved
    split at held
    next target =>
      have other := fun same => source (target.trans (Eq.symm same))
      exact (sound.dispose d).live has (held_dispose.mpr ⟨other, held⟩) gone
    next target => exact (sound.dispose d).live has (held_dispose.mpr ⟨target, held⟩) gone
  once := (sound.dispose d).once

theorem move_passes {c d : C} (outside : d ∉ cells) (h : Holdings C O) :
    Passes frees cells h (h.move frees c d) where
  sound sound := sound.move c d
  accounted has := by
    refine Iff.trans ?_ ((dispose_passes d h : Passes frees cells _ _).accounted has)
    refine or_congr ?_ Iff.rfl
    constructor
    · rintro ⟨e, moved⟩
      obtain ⟨source, held⟩ := held_move_some.mp moved
      split at held
      next target =>
        have other := fun same => source (target.trans (Eq.symm same))
        exact ⟨c, held_dispose.mpr ⟨other, held⟩⟩
      next target => exact ⟨e, held_dispose.mpr ⟨target, held⟩⟩
    · rintro ⟨e, held⟩
      obtain ⟨target, held⟩ := held_dispose.mp held
      by_cases source : e = c
      · subst source
        exact ⟨d, held_move_some.mpr ⟨Ne.symm target, by rwa [if_pos rfl]⟩⟩
      · exact ⟨e, held_move_some.mpr ⟨source, by rwa [if_neg target]⟩⟩
  freed gone := (mem_freed_dispose.mp gone).imp_right And.right
  empty e inside none := by
    refine Option.eq_none_iff_forall_ne_some.mpr ?_
    intro o moved
    have target : e ≠ d := fun same => outside (same ▸ inside)
    obtain ⟨-, held⟩ := held_move_some.mp moved
    rw [if_neg target, none] at held
    cases held

/-! ## New objects -/

theorem write_held {h : Holdings C O} {c : C} {o : Option O} (same : h.held c = o) :
    h.write c o = h := by
  subst same
  unfold write
  rw [Function.update_eq_self]

/-- An object that is taken out of a cell and put into another one has moved. -/
theorem put_write {h : Holdings C O} {c d : C} (other : c ≠ d) :
    (h.write c none).put frees d (h.held c) = h.move frees c d := by
  unfold put move dispose write
  congr 1
  · funext e
    by_cases source : e = c
    · simp [source, other]
    · by_cases target : e = d
      · simp [target, Ne.symm other, other]
      · simp [source, target]
  · simp [Ne.symm other]

theorem held_put {h : Holdings C O} {c d : C} {new : Option O} {o : O} :
    (h.put frees c new).held d = some o ↔
      if d = c then new = some o else h.held d = some o := by
  unfold put dispose write
  by_cases same : d = c
  · simp [same]
  · simp [same]

theorem mem_freed_put {h : Holdings C O} {c : C} {new : Option O} {o : O} :
    o ∈ (h.put frees c new).freed ↔ o ∈ h.freed ∨ h.held c = some o ∧ frees o = true :=
  mem_freed_dispose

theorem accounted_put {h : Holdings C O} {c : C} {new : Option O} {o : O}
    (has : frees o = true) :
    (h.put frees c new).Accounted o ↔ h.Accounted o ∨ new = some o := by
  have disposed : (h.dispose frees c).Accounted o ↔ h.Accounted o :=
    (dispose_passes c h : Passes frees ∅ _ _).accounted has
  rw [← disposed]
  unfold Accounted
  constructor
  · rintro (⟨d, held⟩ | gone)
    · replace held := held_put.mp held
      split at held
      next => exact .inr held
      next other => exact .inl (.inl ⟨d, held_dispose.mpr ⟨other, held⟩⟩)
    · exact .inl (.inr gone)
  · rintro ((⟨d, held⟩ | gone) | same)
    · obtain ⟨other, held⟩ := held_dispose.mp held
      exact .inl ⟨d, held_put.mpr (by rwa [if_neg other])⟩
    · exact .inr gone
    · exact .inl ⟨c, held_put.mpr (by rwa [if_pos rfl])⟩

theorem Sound.put {h : Holdings C O} (sound : h.Sound frees) {c : C} {new : Option O}
    (fresh : ∀ {o}, frees o = true → new = some o → ¬h.Accounted o) :
    (h.put frees c new).Sound frees where
  single {d d' o} has first second := by
    replace first := held_put.mp first
    replace second := held_put.mp second
    split at first <;> split at second
    next same same' => rw [same, same']
    next => exact absurd (.inl ⟨d', second⟩) (fresh has first)
    next => exact absurd (.inl ⟨d, first⟩) (fresh has second)
    next => exact sound.single has first second
  live {d o} has held gone := by
    replace held := held_put.mp held
    split at held
    next =>
      rcases mem_freed_put.mp gone with before | ⟨now, -⟩
      · exact fresh has held (.inr before)
      · exact fresh has held (.inl ⟨c, now⟩)
    next other => exact (sound.dispose c).live has (held_dispose.mpr ⟨other, held⟩) gone
  once := (sound.dispose c).once

end Holdings

end SidepoolFormal.Library
