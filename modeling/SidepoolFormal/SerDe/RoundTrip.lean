import SidepoolFormal.SerDe.Code

/-!
# Serialization round trip

Every type of the grammar carries every one of its values: what was written is
read back over any destination, nothing more is consumed, and a truncated word
ends in `Eof`.  The induction is on the grammar; the word of a container is the
word of its length followed by the words of its elements.
-/

namespace SidepoolFormal.SerDe

open Library

/-- The trait carries the value `x` as some word, whatever the destination held. -/
def Lossless {α : Type} (trait : Trait α) (x : α) : Prop :=
  ∃ w, ∀ y, Carries Exn.eof trait x w y

theorem Lossless.through {α γ : Type} {trait : Trait γ} {pack : α → γ} {unpack : γ → α} {x : α}
    (h : Lossless trait (pack x)) (back : unpack (pack x) = x) :
    Lossless (trait.through pack unpack) x := by
  obtain ⟨w, carries⟩ := h
  exact ⟨w, fun y => (carries (pack y)).through back⟩

theorem Lossless.both {α γ : Type} {r : Trait α} {s : Trait γ} {x : α} {z : γ}
    (first : Lossless r x) (second : Lossless s z) : Lossless (r.both s) (x, z) := by
  obtain ⟨v, left⟩ := first
  obtain ⟨w, right⟩ := second
  exact ⟨v ++ w, fun y => (left y.1).both (right y.2)⟩

/-! ## Splitting and joining words -/

theorem high_or_low (k n : Nat) : (n >>> k) <<< k ||| n % 2 ^ k = n := by
  rw [← Nat.shiftLeft_add_eq_or_of_lt (Nat.mod_lt _ (Nat.two_pow_pos k)), Nat.shiftLeft_eq,
    Nat.shiftRight_eq_div_pow, Nat.div_add_mod']

theorem join16 (w : UInt16) :
    ((w >>> 8) &&& 0xFF).toUInt8.toUInt16 <<< 8 |||
      ((w >>> 0) &&& 0xFF).toUInt8.toUInt16 <<< 0 = w := by
  have small := w.toNat_lt
  have key := high_or_low 8 w.toNat
  have mask (n : Nat) : n &&& 255 = n % 256 := Nat.and_two_pow_sub_one_eq_mod n 8
  apply UInt16.toNat_inj.mp
  simp [Nat.shiftRight_eq_div_pow, Nat.shiftLeft_eq, mask] at key ⊢
  rwa [show w.toNat / 256 % 256 * 256 % 65536 = w.toNat / 256 * 256 by omega]

theorem join32 (w : UInt32) :
    ((w >>> 16) &&& 0xFFFF).toUInt16.toUInt32 <<< 16 |||
      ((w >>> 0) &&& 0xFFFF).toUInt16.toUInt32 <<< 0 = w := by
  have small := w.toNat_lt
  have key := high_or_low 16 w.toNat
  have mask (n : Nat) : n &&& 65535 = n % 65536 := Nat.and_two_pow_sub_one_eq_mod n 16
  apply UInt32.toNat_inj.mp
  simp [Nat.shiftRight_eq_div_pow, Nat.shiftLeft_eq, mask] at key ⊢
  rwa [show w.toNat / 65536 % 65536 * 65536 % 4294967296 = w.toNat / 65536 * 65536 by omega]

theorem join64 (w : UInt64) :
    ((w >>> 32) &&& 0xFFFFFFFF).toUInt32.toUInt64 <<< 32 |||
      ((w >>> 0) &&& 0xFFFFFFFF).toUInt32.toUInt64 <<< 0 = w := by
  have small := w.toNat_lt
  have key := high_or_low 32 w.toNat
  have mask (n : Nat) : n &&& 4294967295 = n % 4294967296 := Nat.and_two_pow_sub_one_eq_mod n 32
  apply UInt64.toNat_inj.mp
  simp [Nat.shiftRight_eq_div_pow, Nat.shiftLeft_eq, mask] at key ⊢
  rwa [show w.toNat / 4294967296 % 4294967296 * 4294967296 % 18446744073709551616 =
    w.toNat / 4294967296 * 4294967296 by omega]

/-! ## Scalars -/

theorem serializeU8_lossless (b : UInt8) : Lossless serializeU8 b :=
  ⟨[b], fun y => Carries.token Exn.eof b y⟩

/-- A type that is carried as its image in another one. -/
theorem wrapped {α γ : Type} {outer : Trait α} {inner : Trait γ} (pack : α → γ) (unpack : γ → α)
    (same : ∀ a x, outer a x = (inner a (pack x)).bind fun o => .ok (o.1, unpack o.2))
    (lossless : ∀ z, Lossless inner z) {x : α} (back : unpack (pack x) = x) :
    Lossless outer x := by
  have through : outer = inner.through pack unpack := by
    funext a x
    rw [same, Routine.through]
    cases inner a (pack x) <;> rfl
  rw [through]
  exact (lossless (pack x)).through back

theorem serializeChar_lossless (c : UInt8) : Lossless serializeChar c :=
  wrapped id id (fun _ _ => rfl) serializeU8_lossless rfl

theorem serializeBool_lossless (b : Bool) : Lossless serializeBool b := by
  apply wrapped (fun b => if b then 1 else 0) (· != 0) (fun _ _ => rfl) serializeU8_lossless
  cases b <;> rfl

theorem serializeI8_lossless (i : Int8) : Lossless serializeI8 i :=
  wrapped Int8.toUInt8 UInt8.toInt8 (fun _ _ => rfl) serializeU8_lossless (Int8.toInt8_toUInt8 i)

/-- A wide integer is its two halves, the high one first. -/
theorem halves {α γ : Type} {wide : Trait α} {half : Trait γ} (high low : α → γ)
    (join : γ → γ → α) (back : ∀ w, join (high w) (low w) = w)
    (same : ∀ a w, wide a w = (half a (high w)).bind fun o =>
      (half o.1 (low w)).bind fun o' => .ok (o'.1, join o.2 o'.2))
    (lossless : ∀ h, Lossless half h) (w : α) : Lossless wide w := by
  have two : wide = (half.both half).through (fun w => (high w, low w)) fun h => join h.1 h.2 := by
    funext a w
    rw [same]
    simp only [Routine.through, Routine.both, bind]
    cases half a (high w) with
    | error e => rfl
    | ok out => cases h : half out.1 (low w) <;> simp [h, Except.bind, Except.map]
  have pair : Lossless (half.both half) (high w, low w) := (lossless _).both (lossless _)
  rw [two]
  refine Lossless.through pair ?_
  exact back w

theorem serializeU16_lossless (w : UInt16) : Lossless serializeU16 w :=
  halves (fun w : UInt16 => ((w >>> 8) &&& 0xFF).toUInt8) (fun w => ((w >>> 0) &&& 0xFF).toUInt8)
    (fun b0 b1 => b0.toUInt16 <<< 8 ||| b1.toUInt16 <<< 0) join16 (fun _ _ => rfl)
    serializeU8_lossless w

theorem serializeU32_lossless (w : UInt32) : Lossless serializeU32 w :=
  halves (fun w : UInt32 => ((w >>> 16) &&& 0xFFFF).toUInt16)
    (fun w => ((w >>> 0) &&& 0xFFFF).toUInt16)
    (fun b0 b1 => b0.toUInt32 <<< 16 ||| b1.toUInt32 <<< 0) join32 (fun _ _ => rfl)
    serializeU16_lossless w

theorem serializeU64_lossless (w : UInt64) : Lossless serializeU64 w :=
  halves (fun w : UInt64 => ((w >>> 32) &&& 0xFFFFFFFF).toUInt32)
    (fun w => ((w >>> 0) &&& 0xFFFFFFFF).toUInt32)
    (fun b0 b1 => b0.toUInt64 <<< 32 ||| b1.toUInt64 <<< 0) join64 (fun _ _ => rfl)
    serializeU32_lossless w

theorem serializeI16_lossless (i : Int16) : Lossless serializeI16 i :=
  wrapped Int16.toUInt16 UInt16.toInt16 (fun _ _ => rfl) serializeU16_lossless
    (Int16.toInt16_toUInt16 i)

theorem serializeI32_lossless (i : Int32) : Lossless serializeI32 i :=
  wrapped Int32.toUInt32 UInt32.toInt32 (fun _ _ => rfl) serializeU32_lossless
    (Int32.toInt32_toUInt32 i)

theorem serializeI64_lossless (i : Int64) : Lossless serializeI64 i :=
  wrapped Int64.toUInt64 UInt64.toInt64 (fun _ _ => rfl) serializeU64_lossless
    (Int64.toInt64_toUInt64 i)

/-! ## Containers -/

section

variable {P : Platform} {α : Type}

theorem Vec.forEach_ok {trait : Trait α} {a a' : Archive} {v x : Vec P α}
    (h : trait.each a v.1 = .ok (a', x.1)) : v.forEach trait a = .ok (a', x) := by
  unfold Vec.forEach
  split
  · rename_i e he
    exact absurd (he.symm.trans h) (by simp)
  · rename_i b l hl
    obtain ⟨rfl, same⟩ := Prod.mk.inj (Except.ok.inj (hl.symm.trans h))
    simp [same]

theorem Vec.forEach_error {trait : Trait α} {a : Archive} {v : Vec P α} {e : Exn}
    (h : trait.each a v.1 = .error e) : v.forEach trait a = .error e := by
  unfold Vec.forEach
  split
  · rename_i e' he
    rw [Except.error.inj (he.symm.trans h)]
  · rename_i b l hl
    exact absurd (hl.symm.trans h) (by simp)

theorem Vec.length_roundTrip (v : Vec P α) : (UInt64.ofNat v.1.length).toNat = v.1.length :=
  UInt64.toNat_ofNat_of_lt' (Nat.lt_of_le_of_lt v.2 P.maxSize_lt)

/-- Reading the length of an existing vector never overruns the platform. -/
theorem Vec.resize_ok (fresh : α) (y x : Vec P α) :
    ∃ z : Vec P α, (if x.1.length ≠ y.1.length then y.resize fresh x.1.length else .ok y) =
      (.ok z : Except Exn _) ∧ z.1.length = x.1.length := by
  by_cases same : x.1.length = y.1.length
  · exact ⟨y, by simp [same], same.symm⟩
  · have fits : y.1.length + (x.1.length - y.1.length) = max x.1.length y.1.length := by omega
    refine ⟨_, by rw [if_pos same, Vec.resize, dif_pos x.2], ?_⟩
    simp only [List.length_append, List.length_take, List.length_replicate]
    omega

theorem exists_words {trait : Trait α} {xs : List α} (h : ∀ x ∈ xs, Lossless trait x) :
    ∃ ws, List.Forall₂ (fun x w => ∀ y, Carries Exn.eof trait x w y) xs ws := by
  induction xs with
  | nil => exact ⟨[], .nil⟩
  | cons x rest ih =>
      obtain ⟨w, head⟩ := h x List.mem_cons_self
      obtain ⟨ws, tail⟩ := ih fun x inside => h x (List.mem_cons_of_mem _ inside)
      exact ⟨w :: ws, .cons head tail⟩

theorem serializeVec_eq (fresh : α) (trait : Trait α) (a : Archive) (v : Vec P α) :
    serializeVec fresh trait a v = (serializeU64 a (UInt64.ofNat v.1.length)).bind fun out =>
      (if out.2.toNat ≠ v.1.length then v.resize fresh out.2.toNat else .ok v).bind fun v =>
        v.forEach trait out.1 := by
  simp only [serializeVec, bind, Except.bind]
  cases serializeU64 a (UInt64.ofNat v.1.length) with
  | error e => rfl
  | ok out => by_cases same : out.2.toNat = v.1.length <;> simp [same]

theorem serializeVec_lossless (fresh : α) {trait : Trait α} (h : ∀ x, Lossless trait x)
    (v : Vec P α) : Lossless (serializeVec fresh trait) v := by
  obtain ⟨lw, length⟩ := serializeU64_lossless (UInt64.ofNat v.1.length)
  obtain ⟨ws, words⟩ := exists_words fun x (_ : x ∈ v.1) => h x
  have elements {ys : List α} (room : ys.length = v.1.length) := Carries.each room words
  refine ⟨lw ++ ws.flatten, fun y => ⟨?_, ?_, ?_⟩⟩
  · intro done
    have body := Vec.forEach_ok (x := v) ((elements rfl).writes (done ++ lw))
    rw [List.append_assoc] at body
    simpa [serializeVec_eq, (length (UInt64.ofNat v.1.length)).writes, Except.bind,
      v.length_roundTrip] using body
  · intro rest
    obtain ⟨z, resized, room⟩ := Vec.resize_ok fresh y v
    rw [serializeVec_eq, List.append_assoc, (length (UInt64.ofNat y.1.length)).reads]
    simp only [Except.bind, v.length_roundTrip, resized]
    exact Vec.forEach_ok ((elements room).reads rest)
  · intro p inside strict
    rcases strict_prefix_append inside strict with ⟨short, ne⟩ | ⟨q, rfl, short, ne⟩
    · simp [serializeVec_eq, (length (UInt64.ofNat y.1.length)).starves p short ne, Except.bind]
    · obtain ⟨z, resized, room⟩ := Vec.resize_ok fresh y v
      rw [serializeVec_eq, (length (UInt64.ofNat y.1.length)).reads]
      simp only [Except.bind, v.length_roundTrip, resized]
      exact Vec.forEach_error ((elements room).starves q short ne)

theorem serializePtr_eq (fresh : α) (trait : Trait α) (a : Archive) (p : Option α) :
    serializePtr fresh trait a p = (serializeBool a p.isSome).bind fun out =>
      if out.2 then (trait out.1 (p.getD fresh)).bind fun o => .ok (o.1, some o.2)
      else .ok (out.1, none) := rfl

theorem serializePtr_lossless (fresh : α) {trait : Trait α} (h : ∀ x, Lossless trait x)
    (p : Option α) : Lossless (serializePtr fresh trait) p := by
  cases p with
  | none =>
      obtain ⟨bw, exist⟩ := serializeBool_lossless false
      refine ⟨bw, fun y => ⟨?_, ?_, ?_⟩⟩
      · intro done
        simp [serializePtr_eq, (exist false).writes, Except.bind]
      · intro rest
        simp [serializePtr_eq, (exist y.isSome).reads, Except.bind]
      · intro q inside strict
        simp [serializePtr_eq, (exist y.isSome).starves q inside strict, Except.bind]
  | some x =>
      obtain ⟨bw, exist⟩ := serializeBool_lossless true
      obtain ⟨w, owned⟩ := h x
      refine ⟨bw ++ w, fun y => ⟨?_, ?_, ?_⟩⟩
      · intro done
        simp [serializePtr_eq, (exist true).writes, (owned x).writes, Except.bind]
      · intro rest
        simp [serializePtr_eq, (exist y.isSome).reads, (owned (y.getD fresh)).reads, Except.bind]
      · intro q inside strict
        rcases strict_prefix_append inside strict with ⟨short, ne⟩ | ⟨q', rfl, short, ne⟩
        · simp [serializePtr_eq, (exist y.isSome).starves q short ne, Except.bind]
        · simp [serializePtr_eq, (exist y.isSome).reads, Except.bind,
            (owned (y.getD fresh)).starves q' short ne]

end

/-! ## The whole grammar -/

/-- Writing `x` appends a word and leaves `x` as it is; reading that word turns
any destination into `x` and consumes just it; reading less throws `Eof`. -/
theorem serialize_lossless (P : Platform) (t : Ty) (x : Value P t) :
    Lossless (serialize P t) x := by
  induction t with
  | bool => exact serializeBool_lossless x
  | char => exact serializeChar_lossless x
  | u8 => exact serializeU8_lossless x
  | u16 => exact serializeU16_lossless x
  | u32 => exact serializeU32_lossless x
  | u64 => exact serializeU64_lossless x
  | i8 => exact serializeI8_lossless x
  | i16 => exact serializeI16_lossless x
  | i32 => exact serializeI32_lossless x
  | i64 => exact serializeI64_lossless x
  | string => exact serializeVec_lossless _ serializeChar_lossless x
  | vector t ih => exact serializeVec_lossless _ ih x
  | uniquePtr t ih => exact serializePtr_lossless _ ih x

end SidepoolFormal.SerDe
