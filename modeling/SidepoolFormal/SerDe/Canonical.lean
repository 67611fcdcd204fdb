import SidepoolFormal.SerDe.Hostile

/-!
# What is read is written again

A value that was read is written as the bytes that it was read from, but for one
thing: a flag, of a `bool` or of a `unique_ptr`, is set by any byte but zero, and
is written as one.  Where the flags of a word stand is said apart from the routines.
-/

namespace SidepoolFormal.SerDe

open Library

/-! ## The flags of a word -/

/-- The marks of so many words, one after the other. -/
def markedTimes (marks : List UInt8 → List Bool) : Nat → List UInt8 → List Bool
  | 0, _ => []
  | n + 1, bs => marks bs ++ markedTimes marks n (bs.drop (marks bs).length)

/-- A length field has no flags. -/
def markedSized (marks : List UInt8 → List Bool) (bs : List UInt8) : List Bool :=
  List.replicate 8 false ++ markedTimes marks (number (bs.take 8)) (bs.drop 8)

/-- One mark for each byte of the word that stands in front: the byte is a flag. -/
def Ty.marks : Ty → List UInt8 → List Bool
  | .bool, _ => [true]
  | .char, _ => List.replicate 1 false
  | .u8, _ => List.replicate 1 false
  | .u16, _ => List.replicate 2 false
  | .u32, _ => List.replicate 4 false
  | .u64, _ => List.replicate 8 false
  | .i8, _ => List.replicate 1 false
  | .i16, _ => List.replicate 2 false
  | .i32, _ => List.replicate 4 false
  | .i64, _ => List.replicate 8 false
  | .string, bs => markedSized (fun _ => List.replicate 1 false) bs
  | .vector t, bs => markedSized t.marks bs
  | .uniquePtr t, bs => true :: if bs.take 1 = [0] then [] else t.marks (bs.drop 1)

/-- A flag above one becomes one; nothing else is changed. -/
def normal (flag : Bool) (b : UInt8) : UInt8 := if flag = true ∧ 1 < b then 1 else b

/-- Every byte of a word is marked, and the other word is its normal form. -/
structure Normal (marks : List Bool) (w u : List UInt8) : Prop where
  covers : marks.length = w.length
  same : u = List.zipWith normal marks w

theorem Normal.nil : Normal [] [] [] := ⟨rfl, rfl⟩

theorem Normal.append {ms ms' : List Bool} {w w' u u' : List UInt8} (first : Normal ms w u)
    (second : Normal ms' w' u') : Normal (ms ++ ms') (w ++ w') (u ++ u') where
  covers := by rw [List.length_append, List.length_append, first.covers, second.covers]
  same := by rw [List.zipWith_append first.covers, ← first.same, ← second.same]

/-- Without flags a word is its own normal form. -/
theorem Normal.plain {n : Nat} {w u : List UInt8}
    (word : Normal (List.replicate n false) w u) : u = w := by
  have covers := word.covers
  rw [word.same]
  clear word
  induction w generalizing n with
  | nil => simp
  | cons b w ih =>
      cases n with
      | zero => simp at covers
      | succ n =>
          have rest := ih (n := n) (by simpa using covers)
          rw [List.replicate_succ, List.zipWith_cons_cons, rest]
          simp [normal]

/-- What was read as `x` is written again, as the normal form of what it was read from. -/
def Rewrites {α : Type} (marks : List UInt8 → List Bool) (trait : Trait α) : Prop :=
  ∀ bs y a x, trait (.reading bs) y = .ok (a, x) →
    ∃ w u rest, bs = w ++ rest ∧ a = .reading rest ∧ Normal (marks bs) w u ∧
      ∀ done, trait (.writing done) x = .ok (.writing (done ++ u), x)

theorem bind_ok {α γ : Type} {r : Except Exn α} {f : α → Except Exn γ} {y : γ}
    (ok : r.bind f = .ok y) : ∃ x, r = .ok x ∧ f x = .ok y := by
  cases r with
  | error e => cases ok
  | ok x => exact ⟨x, rfl, ok⟩

section

variable {α γ : Type} {marks : List UInt8 → List Bool}

/-! ## Scalars -/

/-- Bytes that are no flags. -/
def plain (n : Nat) : List UInt8 → List Bool := fun _ => List.replicate n false

theorem serializeU8_rewrites : Rewrites (plain 1) serializeU8 := by
  intro bs y a x read
  cases bs with
  | nil => cases read
  | cons b rest =>
      cases read
      exact ⟨[x], [x], rest, rfl, rfl, ⟨rfl, by simp [plain, normal]⟩, fun _ => rfl⟩

/-- A type that is carried as its image in another one. -/
theorem Rewrites.wrapped {outer : Trait α} {inner : Trait γ} (pack : α → γ) (unpack : γ → α)
    (same : ∀ a x, outer a x = (inner a (pack x)).bind fun o => .ok (o.1, unpack o.2))
    (rewrites : Rewrites marks inner) (back : ∀ z, pack (unpack z) = z) : Rewrites marks outer := by
  intro bs y a x read
  rw [same] at read
  obtain ⟨⟨a', z⟩, inside, done⟩ := bind_ok read
  cases done
  obtain ⟨w, u, rest, cut, left, bytes, writes⟩ := rewrites bs _ _ _ inside
  refine ⟨w, u, rest, cut, left, bytes, fun done => ?_⟩
  rw [same, back, writes]
  rfl

/-- A wide integer is its two halves. -/
theorem Rewrites.halves {n : Nat} {wide : Trait α} {half : Trait γ} (high low : α → γ)
    (join : γ → γ → α)
    (same : ∀ a w, wide a w = (half a (high w)).bind fun o =>
      (half o.1 (low w)).bind fun o' => .ok (o'.1, join o.2 o'.2))
    (rewrites : Rewrites (plain n) half)
    (back : ∀ h l, high (join h l) = h ∧ low (join h l) = l) :
    Rewrites (plain (n + n)) wide := by
  intro bs y a x read
  rw [same] at read
  obtain ⟨⟨a', h⟩, first, read⟩ := bind_ok read
  obtain ⟨⟨a'', l⟩, second, done⟩ := bind_ok read
  cases done
  obtain ⟨w, u, rest, rfl, rfl, bytes, writes⟩ := rewrites bs _ _ _ first
  obtain ⟨w', u', rest', rfl, left, bytes', writes'⟩ := rewrites rest _ _ _ second
  refine ⟨w ++ w', u ++ u', rest', (List.append_assoc _ _ _).symm, left, ?_, fun done => ?_⟩
  · rw [plain, List.replicate_add]
    exact bytes.append bytes'
  · rw [same, (back h l).1, (back h l).2, writes]
    simp only [Except.bind]
    rw [writes', List.append_assoc]

theorem cut16 (h l : UInt8) :
    (((h.toUInt16 <<< 8 ||| l.toUInt16 <<< 0) >>> 8) &&& 0xFF).toUInt8 = h ∧
      (((h.toUInt16 <<< 8 ||| l.toUInt16 <<< 0) >>> 0) &&& 0xFF).toUInt8 = l := by
  have joined := joined16 h l
  have high := h.toNat_lt
  have low := l.toNat_lt
  have mask (n : Nat) : n &&& 255 = n % 256 := Nat.and_two_pow_sub_one_eq_mod n 8
  constructor
  · apply UInt8.toNat_inj.mp
    simp only [UInt16.toNat_toUInt8, UInt16.toNat_and, UInt16.toNat_shiftRight, joined]
    simp [Nat.shiftRight_eq_div_pow, mask]
    omega
  · apply UInt8.toNat_inj.mp
    simp only [UInt16.toNat_toUInt8, UInt16.toNat_and, UInt16.toNat_shiftRight, joined]
    simp [mask]

theorem cut32 (h l : UInt16) :
    (((h.toUInt32 <<< 16 ||| l.toUInt32 <<< 0) >>> 16) &&& 0xFFFF).toUInt16 = h ∧
      (((h.toUInt32 <<< 16 ||| l.toUInt32 <<< 0) >>> 0) &&& 0xFFFF).toUInt16 = l := by
  have joined := joined32 h l
  have high := h.toNat_lt
  have low := l.toNat_lt
  have mask (n : Nat) : n &&& 65535 = n % 65536 := Nat.and_two_pow_sub_one_eq_mod n 16
  constructor
  · apply UInt16.toNat_inj.mp
    simp only [UInt32.toNat_toUInt16, UInt32.toNat_and, UInt32.toNat_shiftRight, joined]
    simp [Nat.shiftRight_eq_div_pow, mask]
    omega
  · apply UInt16.toNat_inj.mp
    simp only [UInt32.toNat_toUInt16, UInt32.toNat_and, UInt32.toNat_shiftRight, joined]
    simp [mask]

theorem cut64 (h l : UInt32) :
    (((h.toUInt64 <<< 32 ||| l.toUInt64 <<< 0) >>> 32) &&& 0xFFFFFFFF).toUInt32 = h ∧
      (((h.toUInt64 <<< 32 ||| l.toUInt64 <<< 0) >>> 0) &&& 0xFFFFFFFF).toUInt32 = l := by
  have joined := joined64 h l
  have high := h.toNat_lt
  have low := l.toNat_lt
  have mask (n : Nat) : n &&& 4294967295 = n % 4294967296 := Nat.and_two_pow_sub_one_eq_mod n 32
  constructor
  · apply UInt32.toNat_inj.mp
    simp only [UInt64.toNat_toUInt32, UInt64.toNat_and, UInt64.toNat_shiftRight, joined]
    simp [Nat.shiftRight_eq_div_pow, mask]
    omega
  · apply UInt32.toNat_inj.mp
    simp only [UInt64.toNat_toUInt32, UInt64.toNat_and, UInt64.toNat_shiftRight, joined]
    simp [mask]

theorem serializeU16_rewrites : Rewrites (plain 2) serializeU16 :=
  serializeU8_rewrites.halves (fun w : UInt16 => ((w >>> 8) &&& 0xFF).toUInt8)
    (fun w => ((w >>> 0) &&& 0xFF).toUInt8)
    (fun b0 b1 => b0.toUInt16 <<< 8 ||| b1.toUInt16 <<< 0) (fun _ _ => rfl) cut16

theorem serializeU32_rewrites : Rewrites (plain 4) serializeU32 :=
  serializeU16_rewrites.halves (fun w : UInt32 => ((w >>> 16) &&& 0xFFFF).toUInt16)
    (fun w => ((w >>> 0) &&& 0xFFFF).toUInt16)
    (fun b0 b1 => b0.toUInt32 <<< 16 ||| b1.toUInt32 <<< 0) (fun _ _ => rfl) cut32

theorem serializeU64_rewrites : Rewrites (plain 8) serializeU64 :=
  serializeU32_rewrites.halves (fun w : UInt64 => ((w >>> 32) &&& 0xFFFFFFFF).toUInt32)
    (fun w => ((w >>> 0) &&& 0xFFFFFFFF).toUInt32)
    (fun b0 b1 => b0.toUInt64 <<< 32 ||| b1.toUInt64 <<< 0) (fun _ _ => rfl) cut64

/-- A flag is set by any byte but zero. -/
theorem normal_flag (b : UInt8) : normal true b = if b != 0 then 1 else 0 := by
  by_cases zero : b = 0
  · simp [zero, normal]
  · have notZero : b.toNat ≠ 0 := fun same => zero (UInt8.toNat_inj.mp same)
    by_cases one : b = 1
    · simp [one, normal]
    · have notOne : b.toNat ≠ 1 := fun same => one (UInt8.toNat_inj.mp same)
      have above : 1 < b := UInt8.lt_iff_toNat_lt.mpr (by simp; omega)
      simp [normal, zero, above]

/-- What was read as a flag is written as its normal form. -/
theorem serializeBool_rewrites {bs : List UInt8} {y x : Bool} {a : Archive}
    (read : serializeBool (.reading bs) y = .ok (a, x)) :
    ∃ b rest, bs = b :: rest ∧ a = .reading rest ∧ x = (b != 0) ∧
      ∀ done, serializeBool (.writing done) x = .ok (.writing (done ++ [normal true b]), x) := by
  cases bs with
  | nil => cases read
  | cons b rest =>
      cases read
      refine ⟨b, rest, rfl, rfl, rfl, fun done => ?_⟩
      rw [normal_flag]
      cases b != 0 <;> rfl

/-! ## Containers -/

theorem each_rewrites {trait : Trait α} (rewrites : Rewrites marks trait) (ys : List α) :
    ∀ bs a xs, trait.each (.reading bs) ys = .ok (a, xs) →
      ∃ w u rest, bs = w ++ rest ∧ a = .reading rest ∧
        Normal (markedTimes marks ys.length bs) w u ∧
        ∀ done, trait.each (.writing done) xs = .ok (.writing (done ++ u), xs) := by
  intro bs a xs read
  induction ys generalizing bs a xs with
  | nil =>
      cases read
      exact ⟨[], [], bs, rfl, rfl, .nil, fun done => by simp [Routine.each]⟩
  | cons y ys ih =>
      obtain ⟨⟨a', x⟩, first, read⟩ := bind_ok read
      obtain ⟨⟨a'', xs'⟩, second, done⟩ := bind_ok read
      cases done
      obtain ⟨w, u, rest, rfl, rfl, bytes, writes⟩ := rewrites bs _ _ _ first
      obtain ⟨w', u', rest', rfl, left, bytes', writes'⟩ := ih rest _ _ second
      refine ⟨w ++ w', u ++ u', rest', (List.append_assoc _ _ _).symm, left, ?_, fun done => ?_⟩
      · have front := bytes.covers
        rw [List.length_cons, markedTimes, front, List.drop_left]
        exact bytes.append bytes'
      · simp only [Routine.each, bind, writes, Except.bind]
        rw [writes', List.append_assoc]

section

variable {P : Platform} (fresh : α)

/-- The vector has the length that was read before the elements are. -/
theorem Vec.resized_length {v v' : Vec P α} {n : Nat}
    (resized : (if n ≠ v.1.length then v.resize fresh n else .ok v) = .ok v') :
    v'.1.length = n := by
  by_cases same : n = v.1.length
  · rw [if_neg (not_not.mpr same)] at resized
    cases resized
    exact same.symm
  · rw [if_pos same, Vec.resize] at resized
    split at resized
    · cases resized
      simp only [List.length_append, List.length_take, List.length_replicate]
      omega
    · cases resized

theorem Vec.each_of_forEach {trait : Trait α} {a a' : Archive} {v x : Vec P α}
    (elements : v.forEach trait a = .ok (a', x)) : trait.each a v.1 = .ok (a', x.1) := by
  unfold Vec.forEach at elements
  split at elements
  · cases elements
  · rename_i b l each
    cases elements
    exact each

theorem serializeVec_rewrites {trait : Trait α} (rewrites : Rewrites marks trait) :
    Rewrites (markedSized marks) (serializeVec fresh trait : Trait (Vec P α)) := by
  intro bs v a x read
  rw [serializeVec_eq] at read
  obtain ⟨⟨a', len⟩, first, read⟩ := bind_ok read
  obtain ⟨v', resized, elements⟩ := bind_ok read
  have room := Vec.resized_length fresh resized
  obtain ⟨w, u, rest, rfl, rfl, bytes, writes⟩ := serializeU64_rewrites bs _ _ _ first
  have each : trait.each (.reading rest) v'.1 = .ok (a, x.1) := Vec.each_of_forEach elements
  obtain ⟨w', u', rest', rfl, left, bytes', writes'⟩ := each_rewrites rewrites v'.1 rest _ _ each
  have length : x.1.length = len.toNat := (Routine.each_length each).trans room
  have size : w.length = 8 := bytes.covers.symm.trans List.length_replicate
  have means : len.toNat = number w := by
    obtain ⟨len', reads, meant⟩ := serializeU64_number.reads w (w' ++ rest')
      (UInt64.ofNat v.1.length) size
    cases first.symm.trans reads
    exact meant
  refine ⟨w ++ w', u ++ u', rest', (List.append_assoc _ _ _).symm, left, ?_, fun done => ?_⟩
  · rw [markedSized, List.take_left' size, List.drop_left' size, ← means, ← room]
    exact bytes.append bytes'
  · rw [serializeVec_eq, length, UInt64.ofNat_toNat, writes]
    simp only [Except.bind, ne_eq, not_true_eq_false, if_false]
    rw [Vec.forEach_ok (x := x) (writes' _), List.append_assoc]

theorem serializePtr_rewrites {trait : Trait α} (rewrites : Rewrites marks trait) :
    Rewrites (fun bs => true :: if bs.take 1 = [0] then [] else marks (bs.drop 1))
      (serializePtr fresh trait) := by
  intro bs p a x read
  rw [serializePtr_eq] at read
  obtain ⟨⟨a', exist⟩, first, read⟩ := bind_ok read
  obtain ⟨b, rest, rfl, rfl, exist', writes⟩ := serializeBool_rewrites first
  cases exist with
  | false =>
      have null : b = 0 := by simpa using exist'.symm
      cases read
      refine ⟨[b], [normal true b], rest, rfl, rfl, ?_, fun done => ?_⟩
      · constructor <;> simp [null]
      · simp [serializePtr_eq, writes, Except.bind]
  | true =>
      have set : b ≠ 0 := by simpa using exist'.symm
      obtain ⟨⟨a'', z⟩, second, done⟩ := bind_ok read
      cases done
      obtain ⟨w', u', rest', rfl, left, bytes', writes'⟩ := rewrites rest _ _ _ second
      refine ⟨b :: w', normal true b :: u', rest', rfl, left, ⟨?_, ?_⟩, fun done => ?_⟩
      · simp [set, bytes'.covers]
      · simp [set, bytes'.same]
      · simp [serializePtr_eq, writes, writes', Except.bind]

end

end

/-! ## The whole grammar -/

theorem serialize_rewrites (P : Platform) (t : Ty) : Rewrites t.marks (serialize P t) := by
  induction t with
  | bool =>
      intro bs y a x read
      obtain ⟨b, rest, cut, left, -, writes⟩ := serializeBool_rewrites read
      exact ⟨[b], [normal true b], rest, cut, left, ⟨rfl, rfl⟩, writes⟩
  | char => exact .wrapped id id (fun _ _ => rfl) serializeU8_rewrites fun _ => rfl
  | u8 => exact serializeU8_rewrites
  | u16 => exact serializeU16_rewrites
  | u32 => exact serializeU32_rewrites
  | u64 => exact serializeU64_rewrites
  | i8 =>
      exact .wrapped Int8.toUInt8 UInt8.toInt8 (fun _ _ => rfl) serializeU8_rewrites fun _ => rfl
  | i16 =>
      exact .wrapped Int16.toUInt16 UInt16.toInt16 (fun _ _ => rfl) serializeU16_rewrites
        fun _ => rfl
  | i32 =>
      exact .wrapped Int32.toUInt32 UInt32.toInt32 (fun _ _ => rfl) serializeU32_rewrites
        fun _ => rfl
  | i64 =>
      exact .wrapped Int64.toUInt64 UInt64.toInt64 (fun _ _ => rfl) serializeU64_rewrites
        fun _ => rfl
  | string =>
      exact serializeVec_rewrites _
        (.wrapped id id (fun _ _ => rfl) serializeU8_rewrites fun _ => rfl)
  | vector t ih => exact serializeVec_rewrites _ ih
  | uniquePtr t ih => exact serializePtr_rewrites _ ih

/-- The type has flags. -/
def Ty.flagged : Ty → Bool
  | .bool => true
  | .uniquePtr _ => true
  | .vector t => t.flagged
  | _ => false

theorem markedTimes_plain {marks : List UInt8 → List Bool}
    (plain : ∀ bs, ∃ n, marks bs = List.replicate n false) (k : Nat) (bs : List UInt8) :
    ∃ n, markedTimes marks k bs = List.replicate n false := by
  induction k generalizing bs with
  | zero => exact ⟨0, rfl⟩
  | succ k ih =>
      obtain ⟨n, first⟩ := plain bs
      obtain ⟨m, rest⟩ := ih (bs.drop (marks bs).length)
      exact ⟨n + m, by rw [markedTimes, rest, first, List.replicate_append_replicate]⟩

theorem markedSized_plain {marks : List UInt8 → List Bool}
    (plain : ∀ bs, ∃ n, marks bs = List.replicate n false) (bs : List UInt8) :
    ∃ n, markedSized marks bs = List.replicate n false := by
  obtain ⟨n, elements⟩ := markedTimes_plain plain (number (bs.take 8)) (bs.drop 8)
  exact ⟨8 + n, by rw [markedSized, elements, List.replicate_append_replicate]⟩

/-- A type without flags has none in its words. -/
theorem Ty.marks_plain (t : Ty) (unflagged : t.flagged = false) (bs : List UInt8) :
    ∃ n, t.marks bs = List.replicate n false := by
  induction t generalizing bs with
  | bool => cases unflagged
  | uniquePtr t => cases unflagged
  | string => exact markedSized_plain (fun _ => ⟨1, rfl⟩) bs
  | vector t ih => exact markedSized_plain (ih unflagged) bs
  | _ => exact ⟨_, rfl⟩

/-- A value that was read is written as the bytes that it was read from, with one in
place of each flag above one and every other byte unchanged. -/
theorem rewritten (P : Platform) (t : Ty) (bs : List UInt8) (y : Value P t) (a : Archive)
    (x : Value P t) (read : serialize P t (.reading bs) y = .ok (a, x)) :
    ∃ w rest, bs = w ++ rest ∧ a = .reading rest ∧ (t.marks bs).length = w.length ∧
      (∀ done, serialize P t (.writing done) x =
        .ok (.writing (done ++ List.zipWith normal (t.marks bs) w), x)) ∧
      (t.flagged = false → List.zipWith normal (t.marks bs) w = w) := by
  obtain ⟨w, u, rest, cut, left, word, writes⟩ := serialize_rewrites P t bs y a x read
  refine ⟨w, rest, cut, left, word.covers, ?_, ?_⟩
  · rw [← word.same]
    exact writes
  · intro unflagged
    obtain ⟨n, plain⟩ := t.marks_plain unflagged bs
    rw [plain] at word ⊢
    rw [← word.same, word.plain]

/-- A pointer that was read with the flag seven is written with the flag one. -/
theorem rewritten_flag :
    ∃ w rest, ([7, 65, 66] : List UInt8) = w ++ rest ∧
      (Tape.reading [66] : Archive) = .reading rest ∧
      (Ty.marks (.uniquePtr .u8) [7, 65, 66]).length = w.length ∧
      (∀ done, serialize ⟨100, by decide⟩ (.uniquePtr .u8) (.writing done) (some (65 : UInt8)) =
        .ok (.writing (done ++ List.zipWith normal (Ty.marks (.uniquePtr .u8) [7, 65, 66]) w),
          some (65 : UInt8))) ∧
      (Ty.flagged (.uniquePtr .u8) = false →
        List.zipWith normal (Ty.marks (.uniquePtr .u8) [7, 65, 66]) w = w) :=
  rewritten ⟨100, by decide⟩ (.uniquePtr .u8) [7, 65, 66] (none : Option UInt8) (.reading [66])
    (some (65 : UInt8)) rfl

/-- The flag of the pointer is made one, and that of the value that it owns. -/
example : List.zipWith normal (Ty.marks (.uniquePtr .bool) [7, 255, 66]) [7, 255] = [1, 1] := by
  decide

end SidepoolFormal.SerDe
