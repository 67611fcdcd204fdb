import SidepoolFormal.SerDe.RoundTrip
import SidepoolFormal.Library.Decoder
import Mathlib.Tactic.Ring

/-!
# Decoding hostile bytes

The routines again, now with a note of every `resize`: the number of elements it
asked for, and the bytes that were left to read.  The format is said apart from
the routines, and so are the length fields that a reader comes to.  Reading is
held up by nothing but a length field that declares more than there is left.
-/

namespace SidepoolFormal.SerDe

open Library

/-! ## Code -/

/-- A `resize`. -/
structure Resize where
  requested : Nat
  left : Nat
  deriving DecidableEq, Repr

def left : Archive → Nat
  | .reading rest => rest.length
  | .writing _ => 0

abbrev NotingTrait (α : Type) := Noting Resize Exn UInt8 α

section

variable {P : Platform} {α : Type}

def raising {γ : Type} (x : Except Exn γ) : Effect (List Resize) Exn γ := fun notes => (x, notes)

def Vec.resizeNoting (a : Archive) (fresh : α) (v : Vec P α) (n : Nat) :
    Effect (List Resize) Exn (Vec P α) := do
  modify (· ++ [⟨n, left a⟩])
  raising (v.resize fresh n)

def Vec.refilled (v : Vec P α) (l : { l : List α // l.length = v.1.length }) : Vec P α :=
  ⟨l.1, by rw [l.2]; exact v.2⟩

def Vec.forEachNoting (trait : NotingTrait α) (a : Archive) (v : Vec P α) :
    Effect (List Resize) Exn (Archive × Vec P α) := do
  let out ← trait.each a v.1
  pure (out.1, v.refilled out.2)

/-- `Trait<std::string>` and `Trait<std::vector<T>>`. -/
def serializeVecNoting (fresh : α) (trait : NotingTrait α) : NotingTrait (Vec P α) :=
  fun a v => do
    let out ← Routine.noting serializeU64 a (UInt64.ofNat v.1.length)
    let v ← if out.2.toNat ≠ v.1.length then v.resizeNoting out.1 fresh out.2.toNat else pure v
    v.forEachNoting trait out.1

/-- `Trait<std::unique_ptr<T>>`. -/
def serializePtrNoting (fresh : α) (trait : NotingTrait α) : NotingTrait (Option α) :=
  fun a p => do
    let out ← Routine.noting serializeBool a p.isSome
    if out.2 then do
      let owned ← trait out.1 (p.getD fresh)
      pure (owned.1, some owned.2)
    else pure (out.1, none)

end

def serializeNoting (P : Platform) : (t : Ty) → NotingTrait (Value P t)
  | .bool => Routine.noting serializeBool
  | .char => Routine.noting serializeChar
  | .u8 => Routine.noting serializeU8
  | .u16 => Routine.noting serializeU16
  | .u32 => Routine.noting serializeU32
  | .u64 => Routine.noting serializeU64
  | .i8 => Routine.noting serializeI8
  | .i16 => Routine.noting serializeI16
  | .i32 => Routine.noting serializeI32
  | .i64 => Routine.noting serializeI64
  | .string => serializeVecNoting (0 : UInt8) (Routine.noting serializeChar)
  | .vector t => serializeVecNoting (fresh P t) (serializeNoting P t)
  | .uniquePtr t => serializePtrNoting (fresh P t) (serializeNoting P t)

/-! ## The notes change nothing -/

section

variable {P : Platform} {α : Type}

theorem noting_erases (trait : Trait α) :
    Noting.Erases (Routine.noting trait : NotingTrait α) trait := fun _ _ _ => rfl

theorem Vec.forEachNoting_erases {trait : NotingTrait α} {plain : Trait α}
    (erases : trait.Erases plain) (a : Archive) (v : Vec P α) (notes : List Resize) :
    (v.forEachNoting trait a notes).1 = v.forEach plain a := by
  have each := Noting.each_erases erases a v.1 notes
  rw [Vec.forEachNoting, Effect.bind_apply]
  generalize trait.each a v.1 notes = result at each ⊢
  rcases result with ⟨e | ⟨a', l⟩, notes'⟩
  · exact (Vec.forEach_error each.symm).symm
  · exact (Vec.forEach_ok each.symm).symm

theorem Vec.resizeNoting_apply (a : Archive) (fresh : α) (v : Vec P α) (n : Nat)
    (notes : List Resize) :
    v.resizeNoting a fresh n notes = (v.resize fresh n, notes ++ [⟨n, left a⟩]) := rfl

theorem serializeVecNoting_erases (fresh : α) {trait : NotingTrait α} {plain : Trait α}
    (erases : trait.Erases plain) :
    (serializeVecNoting (P := P) fresh trait).Erases (serializeVec fresh plain) := by
  intro a v notes
  rw [serializeVecNoting, serializeVec_eq, Effect.bind_apply, Routine.noting]
  rcases serializeU64 a (UInt64.ofNat v.1.length) with e | ⟨a', len⟩
  · rfl
  · dsimp only [Except.bind]
    by_cases same : len.toNat = v.1.length
    · simp only [same, ne_eq, not_true_eq_false, if_false, pure_bind]
      exact Vec.forEachNoting_erases erases a' v notes
    · simp only [same, ne_eq, not_false_eq_true, if_true, Effect.bind_apply,
        Vec.resizeNoting_apply]
      rcases v.resize fresh len.toNat with e | resized
      · rfl
      · exact Vec.forEachNoting_erases erases a' resized _

theorem serializePtrNoting_erases (fresh : α) {trait : NotingTrait α} {plain : Trait α}
    (erases : trait.Erases plain) :
    (serializePtrNoting fresh trait).Erases (serializePtr fresh plain) := by
  intro a p notes
  rw [serializePtrNoting, serializePtr_eq, Effect.bind_apply, Routine.noting]
  rcases serializeBool a p.isSome with e | ⟨a', exist⟩
  · rfl
  · cases exist with
    | false => rfl
    | true =>
        have same := erases a' (p.getD fresh) notes
        dsimp only [Except.bind]
        rw [if_pos rfl, if_pos rfl, Effect.bind_apply, ← same]
        rcases trait a' (p.getD fresh) notes with ⟨e | ⟨a'', x⟩, notes'⟩
        · rfl
        · rfl

end

theorem serializeNoting_erases (P : Platform) (t : Ty) :
    (serializeNoting P t).Erases (serialize P t) := by
  induction t with
  | string => exact serializeVecNoting_erases _ (noting_erases _)
  | vector t ih => exact serializeVecNoting_erases _ ih
  | uniquePtr t ih => exact serializePtrNoting_erases _ ih
  | _ => exact noting_erases _

/-! ## The format -/

/-- What bytes stand for, the most significant one first. -/
def number (w : List UInt8) : Nat := w.foldl (fun n b => 2 ^ 8 * n + b.toNat) 0

/-- A length field and so many words. -/
def Sized (Word : List UInt8 → Prop) : List UInt8 → Prop :=
  Then (Fixed 8) fun size => Times Word (number size)

/-- A flag, and a word unless it is zero. -/
def Owned (Word : List UInt8 → Prop) : List UInt8 → Prop :=
  Then (Fixed 1) fun flag => if flag = [0] then Fixed 0 else Word

/-- The words of a type. -/
def IsWord : Ty → List UInt8 → Prop
  | .bool => Fixed 1
  | .char => Fixed 1
  | .u8 => Fixed 1
  | .u16 => Fixed 2
  | .u32 => Fixed 4
  | .u64 => Fixed 8
  | .i8 => Fixed 1
  | .i16 => Fixed 2
  | .i32 => Fixed 4
  | .i64 => Fixed 8
  | .string => Sized (Fixed 1)
  | .vector t => Sized (IsWord t)
  | .uniquePtr t => Owned (IsWord t)

section

variable {α : Type}

/-- The elements of a container of another size. -/
def resized (fresh : α) (l : List α) (n : Nat) : List α :=
  l.take n ++ List.replicate (n - l.length) fresh

/-- A length field that differs from the size of the container, and the fields
that its elements come to. -/
def SizedDeclares (fresh : α) (Word : List UInt8 → Prop)
    (Declares : α → List UInt8 → Resize → Prop) (l : List α) : List UInt8 → Resize → Prop :=
  After (Fixed 8) fun size rest field =>
    (number size ≠ l.length ∧ field = ⟨number size, rest.length⟩) ∨
      EachNotes Word Declares (resized fresh l (number size)) rest field

def OwnedDeclares (Declares : List UInt8 → Resize → Prop) : List UInt8 → Resize → Prop :=
  After (Fixed 1) fun flag rest field => flag ≠ [0] ∧ Declares rest field

end

/-- Over the object, the bytes come to a length field that differs from the size
of its container: it declares `requested` elements, and `left` bytes follow. -/
def Declares (P : Platform) : (t : Ty) → Value P t → List UInt8 → Resize → Prop
  | .string => fun s => SizedDeclares (0 : UInt8) (Fixed 1) (fun _ _ _ => False) s.1
  | .vector t => fun v => SizedDeclares (fresh P t) (IsWord t) (Declares P t) v.1
  | .uniquePtr t => fun p => OwnedDeclares (Declares P t (p.getD (fresh P t)))
  | _ => fun _ _ _ => False

theorem isWord_unambiguous (t : Ty) : Unambiguous (IsWord t) := by
  induction t with
  | string => exact (Unambiguous.fixed 8).then fun size _ => (Unambiguous.fixed 1).times _
  | vector t ih => exact (Unambiguous.fixed 8).then fun size _ => ih.times _
  | uniquePtr t ih =>
      refine (Unambiguous.fixed 1).then fun flag _ => ?_
      by_cases null : flag = [0]
      · rw [if_pos null]
        exact .fixed 0
      · rw [if_neg null]
        exact ih
  | _ => exact .fixed _

/-! ## Scalars -/

theorem number_append (v u : List UInt8) :
    number (v ++ u) = number v * 2 ^ (8 * u.length) + number u := by
  induction u using List.reverseRecOn with
  | nil => simp [number]
  | append_singleton u b ih =>
      have last (w : List UInt8) : number (w ++ [b]) = 2 ^ 8 * number w + b.toNat := by
        simp [number]
      rw [← List.append_assoc, last, ih, last, List.length_append, List.length_singleton]
      rw [Nat.mul_add 8, Nat.pow_add]
      ring

/-- A trait of a fixed number of bytes, with what it makes of them. -/
structure Scalar {α : Type} (k : Nat) (trait : Trait α) (Means : List UInt8 → α → Prop) : Prop where
  reads : ∀ w rest x, w.length = k →
    ∃ y, trait (.reading (w ++ rest)) x = .ok (.reading rest, y) ∧ Means w y
  starves : ∀ bs x, bs.length < k → trait (.reading bs) x = .error .eof

theorem serByte_scalar : Scalar 1 serByte fun w b => w = [b] where
  reads w rest x one := by
    obtain ⟨b, rfl⟩ := List.length_eq_one_iff.mp one
    exact ⟨b, rfl, rfl⟩
  starves bs x short := by
    obtain rfl := List.length_eq_zero_iff.mp (Nat.lt_one_iff.mp short)
    rfl

theorem Scalar.mono {α : Type} {trait : Trait α} {k : Nat} {Means Means' : List UInt8 → α → Prop}
    (scalar : Scalar k trait Means) (means : ∀ w y, Means w y → Means' w y) :
    Scalar k trait Means' where
  reads w rest x long := by
    obtain ⟨y, reads, meant⟩ := scalar.reads w rest x long
    exact ⟨y, reads, means w y meant⟩
  starves := scalar.starves

/-- A type that is read as its image in another one. -/
theorem Scalar.wrapped {α γ : Type} {outer : Trait α} {inner : Trait γ} {k : Nat}
    {Means : List UInt8 → γ → Prop} {Means' : List UInt8 → α → Prop}
    (scalar : Scalar k inner Means) (pack : α → γ) (unpack : γ → α)
    (same : ∀ a x, outer a x = (inner a (pack x)).bind fun o => .ok (o.1, unpack o.2))
    (means : ∀ w y, Means w y → Means' w (unpack y)) : Scalar k outer Means' where
  reads w rest x long := by
    obtain ⟨y, reads, meant⟩ := scalar.reads w rest (pack x) long
    exact ⟨unpack y, by rw [same, reads, Except.bind], means w y meant⟩
  starves bs x short := by rw [same, scalar.starves bs (pack x) short, Except.bind]

/-- A wide integer is its two halves, the high one first. -/
theorem Scalar.halves {α γ : Type} {wide : Trait α} {half : Trait γ} {k : Nat}
    {Means : List UInt8 → γ → Prop} {Means' : List UInt8 → α → Prop} (scalar : Scalar k half Means)
    (high low : α → γ) (join : γ → γ → α)
    (same : ∀ a w, wide a w = (half a (high w)).bind fun o =>
      (half o.1 (low w)).bind fun o' => .ok (o'.1, join o.2 o'.2))
    (means : ∀ v u x y, u.length = k → Means v x → Means u y → Means' (v ++ u) (join x y)) :
    Scalar (k + k) wide Means' where
  reads w rest x long := by
    have split := List.take_append_drop k w
    have first : (w.take k).length = k := by simp; omega
    have second : (w.drop k).length = k := by simp; omega
    obtain ⟨y, reads, meant⟩ := scalar.reads (w.take k) (w.drop k ++ rest) (high x) first
    obtain ⟨z, reads', meant'⟩ := scalar.reads (w.drop k) rest (low x) second
    refine ⟨join y z, ?_, split ▸ means _ _ y z second meant meant'⟩
    rw [← List.append_assoc, split] at reads
    rw [same, reads]
    simp only [Except.bind, reads']
  starves bs x short := by
    rw [same]
    by_cases first : bs.length < k
    · rw [scalar.starves bs _ first, Except.bind]
    · have long : (bs.take k).length = k := by simp; omega
      have rest : (bs.drop k).length < k := by simp; omega
      obtain ⟨y, reads, -⟩ := scalar.reads (bs.take k) (bs.drop k) (high x) long
      rw [List.take_append_drop] at reads
      rw [reads]
      simp only [Except.bind, scalar.starves _ (low x) rest]

/-- Two halves side by side. -/
theorem or_eq_add (high : Nat) {low k : Nat} (small : low < 2 ^ k) :
    high * 2 ^ k ||| low = high * 2 ^ k + low := by
  rw [← Nat.shiftLeft_eq, Nat.shiftLeft_add_eq_or_of_lt small]

theorem joined16 (b0 b1 : UInt8) :
    (b0.toUInt16 <<< 8 ||| b1.toUInt16 <<< 0).toNat = b0.toNat * 2 ^ 8 + b1.toNat := by
  have small := b0.toNat_lt
  have fits : b0.toNat * 256 < 65536 := by omega
  have sum := or_eq_add b0.toNat b1.toNat_lt
  simpa [Nat.shiftLeft_eq, Nat.mod_eq_of_lt fits] using sum

theorem joined32 (b0 b1 : UInt16) :
    (b0.toUInt32 <<< 16 ||| b1.toUInt32 <<< 0).toNat = b0.toNat * 2 ^ 16 + b1.toNat := by
  have small := b0.toNat_lt
  have fits : b0.toNat * 65536 < 4294967296 := by omega
  have sum := or_eq_add b0.toNat b1.toNat_lt
  simpa [Nat.shiftLeft_eq, Nat.mod_eq_of_lt fits] using sum

theorem joined64 (b0 b1 : UInt32) :
    (b0.toUInt64 <<< 32 ||| b1.toUInt64 <<< 0).toNat = b0.toNat * 2 ^ 32 + b1.toNat := by
  have small := b0.toNat_lt
  have fits : b0.toNat * 4294967296 < 18446744073709551616 := by omega
  have sum := or_eq_add b0.toNat b1.toNat_lt
  simpa [Nat.shiftLeft_eq, Nat.mod_eq_of_lt fits] using sum

theorem serializeU8_number : Scalar 1 serializeU8 fun w b => b.toNat = number w := by
  refine serByte_scalar.mono ?_
  rintro w b rfl
  simp [number]

theorem serializeU16_number : Scalar 2 serializeU16 fun w n => n.toNat = number w := by
  refine serializeU8_number.halves (fun w : UInt16 => ((w >>> 8) &&& 0xFF).toUInt8)
    (fun w => ((w >>> 0) &&& 0xFF).toUInt8)
    (fun b0 b1 => b0.toUInt16 <<< 8 ||| b1.toUInt16 <<< 0) (fun _ _ => rfl) ?_
  intro v u b0 b1 one high low
  rw [number_append, one, ← high, ← low, joined16]

theorem serializeU32_number : Scalar 4 serializeU32 fun w n => n.toNat = number w := by
  refine serializeU16_number.halves (fun w : UInt32 => ((w >>> 16) &&& 0xFFFF).toUInt16)
    (fun w => ((w >>> 0) &&& 0xFFFF).toUInt16)
    (fun b0 b1 => b0.toUInt32 <<< 16 ||| b1.toUInt32 <<< 0) (fun _ _ => rfl) ?_
  intro v u b0 b1 two high low
  rw [number_append, two, ← high, ← low, joined32]

theorem serializeU64_number : Scalar 8 serializeU64 fun w n => n.toNat = number w := by
  refine serializeU32_number.halves (fun w : UInt64 => ((w >>> 32) &&& 0xFFFFFFFF).toUInt32)
    (fun w => ((w >>> 0) &&& 0xFFFFFFFF).toUInt32)
    (fun b0 b1 => b0.toUInt64 <<< 32 ||| b1.toUInt64 <<< 0) (fun _ _ => rfl) ?_
  intro v u b0 b1 four high low
  rw [number_append, four, ← high, ← low, joined64]

theorem serializeBool_flag : Scalar 1 serializeBool fun w b => b = decide (w ≠ [0]) := by
  refine serByte_scalar.wrapped (fun b => if b then 1 else 0) (· != 0) (fun _ _ => rfl) ?_
  rintro w b rfl
  by_cases zero : b = 0
  · simp [zero]
  · simp [zero]

/-! ## What the routines read and note -/

/-- The container cannot hold what is asked for. -/
def Overruns (P : Platform) (resize : Resize) : Prop := P.maxSize < resize.requested

/-- Over any object and any input. -/
def Follows (P : Platform) {α : Type} (trait : NotingTrait α) (Word : List UInt8 → Prop)
    (Declares : α → List UInt8 → Resize → Prop) : Prop :=
  ∀ x bs, Reads Exn.eof Exn.lengthError (Overruns P) (trait (.reading bs) x) (fun _ _ => True) Word
    (Declares x) bs

section

variable {P : Platform} {α : Type}

theorem Scalar.reads_noting {k : Nat} {trait : Trait α} {Means : List UInt8 → α → Prop}
    (scalar : Scalar k trait Means) (x : α) (bs : List UInt8) :
    Reads Exn.eof Exn.lengthError (Overruns P) (Routine.noting trait (.reading bs) x) Means
      (Fixed k) (fun _ _ => False) bs := by
  by_cases short : bs.length < k
  · refine .noting_eof (scalar.starves bs x short) ?_
    rintro w rest rfl long
    rw [List.length_append, long] at short
    omega
  · have long : (bs.take k).length = k := by simp; omega
    obtain ⟨y, reads, meant⟩ := scalar.reads (bs.take k) (bs.drop k) x long
    rw [← List.take_append_drop k bs]
    exact .noting_ok reads long meant

theorem Scalar.follows {k : Nat} {trait : Trait α} {Means : List UInt8 → α → Prop}
    (scalar : Scalar k trait Means) :
    Follows P (Routine.noting trait) (Fixed k) fun _ _ _ => False := by
  intro x bs
  exact (scalar.mono fun _ _ _ => trivial).reads_noting x bs

theorem Follows.forEach {trait : NotingTrait α} {Word : List UInt8 → Prop}
    {Declares : α → List UInt8 → Resize → Prop} (follows : Follows P trait Word Declares)
    (plain : Unambiguous Word) (v : Vec P α) (bs : List UInt8) :
    Reads Exn.eof Exn.lengthError (Overruns P) (v.forEachNoting trait (.reading bs))
      (fun _ _ => True) (Times Word v.1.length) (EachNotes Word Declares v.1) bs :=
  (Reads.each follows plain v.1 bs).map (g := v.refilled) fun _ _ _ _ => trivial

theorem length_resized (fresh : α) (l : List α) (n : Nat) : (resized fresh l n).length = n := by
  simp only [resized, List.length_append, List.length_take, List.length_replicate]
  omega

theorem Vec.resize_fits (fresh : α) (v : Vec P α) {n : Nat} (fits : n ≤ P.maxSize) :
    ∃ z : Vec P α, v.resize fresh n = .ok z ∧ z.1 = resized fresh v.1 n :=
  ⟨_, dif_pos fits, rfl⟩

theorem Vec.resize_overruns (fresh : α) (v : Vec P α) {n : Nat} (beyond : P.maxSize < n) :
    v.resize fresh n = .error .lengthError := dif_neg (Nat.not_le.mpr beyond)

theorem raising_ok {γ δ : Type} (x : γ) (f : γ → Effect (List Resize) Exn δ) :
    raising (.ok x) >>= f = f x := rfl

theorem raising_error {γ δ : Type} (e : Exn) (f : γ → Effect (List Resize) Exn δ) :
    raising (.error e) >>= f = throw e := rfl

theorem Follows.resize (fresh : α) {trait : NotingTrait α} {Word : List UInt8 → Prop}
    {Declares : α → List UInt8 → Resize → Prop} (follows : Follows P trait Word Declares)
    (plain : Unambiguous Word) (v : Vec P α) (n : Nat) (rest : List UInt8) :
    Reads Exn.eof Exn.lengthError (Overruns P)
      (v.resizeNoting (.reading rest) fresh n >>= fun v => v.forEachNoting trait (.reading rest))
      (fun _ _ => True) (Times Word n)
      (fun rest field => field = ⟨n, rest.length⟩ ∨
        EachNotes Word Declares (resized fresh v.1 n) rest field) rest := by
  rw [Vec.resizeNoting, bind_assoc]
  by_cases fits : n ≤ P.maxSize
  · obtain ⟨z, resize, elements⟩ := v.resize_fits fresh fits
    have reads := follows.forEach plain z rest
    rw [elements, length_resized] at reads
    simp only [resize, raising_ok]
    exact reads.note.congr (fun _ => .rfl) fun _ => .rfl
  · have beyond : P.maxSize < n := Nat.not_le.mp fits
    rw [v.resize_overruns fresh beyond]
    simp only [raising_error]
    have overruns : Overruns P ⟨n, left (.reading rest)⟩ := beyond
    exact (Reads.giveUp overruns).congr (fun _ => .rfl) fun _ => .rfl

theorem Follows.vec (fresh : α) {trait : NotingTrait α} {Word : List UInt8 → Prop}
    {Declares : α → List UInt8 → Resize → Prop} (follows : Follows P trait Word Declares)
    (plain : Unambiguous Word) :
    Follows P (serializeVecNoting fresh trait) (Sized Word) fun v : Vec P α =>
      SizedDeclares fresh Word Declares v.1 := by
  intro v bs
  have length := serializeU64_number.reads_noting (P := P) (UInt64.ofNat v.1.length) bs
  refine (length.bind (.fixed 8) ?_).congr (fun _ => .rfl) fun _ => iff_of_eq (false_or _)
  intro size rest len same long meant
  dsimp only
  rw [meant]
  by_cases kept : number size = v.1.length
  · have elements := follows.forEach plain v rest
    simp only [kept, ne_eq, not_true_eq_false, if_false, pure_bind]
    refine elements.congr (fun _ => .rfl) fun n => ?_
    simp [resized]
  · simp only [kept, ne_eq, not_false_eq_true, if_true]
    refine (follows.resize fresh plain v (number size) rest).congr (fun _ => .rfl) fun n => ?_
    simp

theorem Follows.ptr (fresh : α) {trait : NotingTrait α} {Word : List UInt8 → Prop}
    {Declares : α → List UInt8 → Resize → Prop} (follows : Follows P trait Word Declares) :
    Follows P (serializePtrNoting fresh trait) (Owned Word) fun p =>
      OwnedDeclares (Declares (p.getD fresh)) := by
  intro p bs
  have flag := serializeBool_flag.reads_noting (P := P) p.isSome bs
  refine (flag.bind (.fixed 1) ?_).congr (fun _ => .rfl) fun _ => iff_of_eq (false_or _)
  intro w rest exist same one meant
  dsimp only
  rw [meant]
  by_cases null : w = [0]
  · simp only [null, ne_eq, not_true_eq_false, decide_false, Bool.false_eq_true, if_false]
    refine Reads.congr (.pure trivial) (fun _ => .rfl) fun n => ?_
    simp
  · simp only [null, ne_eq, not_false_eq_true, decide_true, if_true, if_false, true_and]
    exact (follows (p.getD fresh) rest).map fun _ _ _ _ => trivial

end

/-- A type that has the bytes of another one. -/
theorem Scalar.alike {α γ : Type} {outer : Trait α} {inner : Trait γ} {k : Nat}
    {Means : List UInt8 → γ → Prop} (scalar : Scalar k inner Means) (pack : α → γ)
    (unpack : γ → α)
    (same : ∀ a x, outer a x = (inner a (pack x)).bind fun o => .ok (o.1, unpack o.2)) :
    Scalar k outer fun _ _ => True :=
  scalar.wrapped pack unpack same fun _ _ _ => trivial

theorem serializeChar_byte : Scalar 1 serializeChar fun _ _ => True :=
  serByte_scalar.alike id id fun _ _ => rfl

/-- Every type is read by its format. -/
theorem serializeNoting_follows (P : Platform) (t : Ty) :
    Follows P (serializeNoting P t) (IsWord t) (Declares P t) := by
  induction t with
  | bool => exact serializeBool_flag.follows
  | char => exact serializeChar_byte.follows
  | u8 => exact serializeU8_number.follows
  | u16 => exact serializeU16_number.follows
  | u32 => exact serializeU32_number.follows
  | u64 => exact serializeU64_number.follows
  | i8 => exact (serializeU8_number.alike Int8.toUInt8 UInt8.toInt8 fun _ _ => rfl).follows
  | i16 => exact (serializeU16_number.alike Int16.toUInt16 UInt16.toInt16 fun _ _ => rfl).follows
  | i32 => exact (serializeU32_number.alike Int32.toUInt32 UInt32.toInt32 fun _ _ => rfl).follows
  | i64 => exact (serializeU64_number.alike Int64.toUInt64 UInt64.toInt64 fun _ _ => rfl).follows
  | string => exact Follows.vec (0 : UInt8) serializeChar_byte.follows (.fixed 1)
  | vector t ih => exact Follows.vec (fresh P t) ih (isWord_unambiguous t)
  | uniquePtr t ih => exact Follows.ptr (fresh P t) ih

/-! ## When hostile bytes do no harm -/

/-- Every length field that the bytes come to, and that resizes its container, is
followed by as many bytes at least. -/
def Honest (P : Platform) (t : Ty) (x : Value P t) (bs : List UInt8) : Prop :=
  ∀ field, Declares P t x bs field → field.requested ≤ field.left

/-- The resizes of a reading. -/
def resizes (P : Platform) (t : Ty) (x : Value P t) (bs : List UInt8) : List Resize :=
  (serializeNoting P t (.reading bs) x []).2

/-- Reading ends in `Eof`, or with a front of the bytes consumed, and no container
was resized to more elements than there were bytes left. -/
def ReadsSafely (P : Platform) (t : Ty) (x : Value P t) (bs : List UInt8) : Prop :=
  (serialize P t (.reading bs) x = .error .eof ∨
    ∃ w rest y, bs = w ++ rest ∧ serialize P t (.reading bs) x = .ok (.reading rest, y)) ∧
  ∀ resize ∈ resizes P t x bs, resize.requested ≤ resize.left

theorem EachNotes.left_le {α : Type} {Word : List UInt8 → Prop}
    {Declares : α → List UInt8 → Resize → Prop}
    (bounded : ∀ x bs field, Declares x bs field → field.left ≤ bs.length) {xs : List α}
    {bs : List UInt8} {field : Resize} (declares : EachNotes Word Declares xs bs field) :
    field.left ≤ bs.length := by
  induction xs generalizing bs with
  | nil => exact declares.elim
  | cons x xs ih =>
      rcases declares with here | ⟨w, rest, rfl, -, later⟩
      · exact bounded x bs field here
      · have inside := ih later
        rw [List.length_append]
        omega

theorem SizedDeclares.left_le {α : Type} {fresh : α} {Word : List UInt8 → Prop}
    {Declares : α → List UInt8 → Resize → Prop}
    (bounded : ∀ x bs field, Declares x bs field → field.left ≤ bs.length) {l : List α}
    {bs : List UInt8} {field : Resize} (declares : SizedDeclares fresh Word Declares l bs field) :
    field.left ≤ bs.length := by
  obtain ⟨size, rest, rfl, -, ⟨-, rfl⟩ | elements⟩ := declares
  · simp
  · have inside := EachNotes.left_le bounded elements
    rw [List.length_append]
    omega

theorem Declares.left_le {P : Platform} {t : Ty} {x : Value P t} {bs : List UInt8}
    {field : Resize} (declares : Declares P t x bs field) : field.left ≤ bs.length := by
  induction t generalizing bs field with
  | string => exact SizedDeclares.left_le (fun _ _ _ absurd => absurd.elim) declares
  | vector t ih => exact SizedDeclares.left_le (fun _ _ _ => ih) declares
  | uniquePtr t ih =>
      obtain ⟨flag, rest, rfl, -, -, owned⟩ := declares
      have inside := ih owned
      rw [List.length_append]
      omega
  | _ => exact declares.elim

/-- For every type, object and input: reading is safe exactly when the input is
honest. -/
theorem readsSafely_iff (P : Platform) (t : Ty) (x : Value P t) (bs : Vec P UInt8) :
    ReadsSafely P t x bs.1 ↔ Honest P t x bs.1 := by
  have ended := serializeNoting_follows P t x bs.1 []
  rw [ReadsSafely, resizes, ← serializeNoting_erases P t (.reading bs.1) x []]
  generalize serializeNoting P t (.reading bs.1) x [] = out at ended
  cases ended with
  | @done w rest y added same word value exact =>
      constructor
      · rintro ⟨-, small⟩ field declares
        exact small field ((exact field).mpr declares)
      · intro honest
        refine ⟨.inr ⟨w, rest, y, same, rfl⟩, fun resize member => ?_⟩
        exact honest resize ((exact resize).mp member)
  | @starved added none exact =>
      constructor
      · rintro ⟨-, small⟩ field declares
        exact small field ((exact field).mpr declares)
      · intro honest
        refine ⟨.inl rfl, fun resize member => ?_⟩
        exact honest resize ((exact resize).mp member)
  | @aborted added resize noted beyond sound =>
      have declares := sound resize noted
      have inside := declares.left_le
      have long : ¬resize.requested ≤ resize.left := by
        have allowed : bs.1.length ≤ P.maxSize := bs.2
        have overruns : P.maxSize < resize.requested := beyond
        omega
      constructor
      · rintro ⟨-, small⟩
        exact absurd (small resize noted) long
      · intro honest
        exact absurd (honest resize declares) long

/-! ## Two hostile inputs -/

/-- A platform whose containers hold what a signed 64-bit offset can reach. -/
def signed64 : Platform := ⟨2 ^ 63 - 1, by decide⟩

/-- A length of all ones makes `resize` throw; a length of five, with nothing
after it, makes room for five characters first. -/
theorem not_readsSafely :
    (serialize signed64 .string (.reading (List.replicate 8 0xFF)) Vec.empty =
        .error .lengthError ∧
      ¬ReadsSafely signed64 .string Vec.empty (List.replicate 8 0xFF)) ∧
    resizes signed64 .string Vec.empty [0, 0, 0, 0, 0, 0, 0, 5] = [⟨5, 0⟩] ∧
      ¬ReadsSafely signed64 .string Vec.empty [0, 0, 0, 0, 0, 0, 0, 5] := by
  have long : serialize signed64 .string (.reading (List.replicate 8 0xFF)) Vec.empty =
      .error .lengthError := rfl
  have five : resizes signed64 .string Vec.empty [0, 0, 0, 0, 0, 0, 0, 5] = [⟨5, 0⟩] := rfl
  refine ⟨⟨long, ?_⟩, five, ?_⟩
  · rintro ⟨eof | ⟨w, rest, y, -, ok⟩, -⟩
    · rw [long] at eof
      cases eof
    · rw [long] at ok
      cases ok
  · rintro ⟨-, small⟩
    rw [five] at small
    exact absurd (small ⟨5, 0⟩ List.mem_cons_self) (by decide)

end SidepoolFormal.SerDe
