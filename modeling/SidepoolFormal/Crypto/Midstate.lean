import SidepoolFormal.Crypto.Transform

/-!
# Hashes of messages in parts

A hasher is fed a message in parts of any length, may be copied on the way,
and is finalized in the end.  What it keeps is the chain over the blocks of
the message so far, and the rest in its buffer.
-/

namespace SidepoolFormal.Crypto.SHA256

open Library

/-- The chain over the blocks of a message. -/
def blocks (state : Words8) (message : List UInt8) : Words8 × List UInt8 :=
  chain Sha256.compress 64 state message

theorem blocks_of_lt (state : Words8) {message : List UInt8} (short : message.length < 64) :
    blocks state message = (state, message) := chain_of_lt state short

theorem blocks_of_le (state : Words8) {message : List UInt8} (filled : 64 ≤ message.length) :
    blocks state message = blocks (Sha256.compress state (message.take 64)) (message.drop 64) :=
  chain_of_le state (by decide) filled

theorem blocks_of_eq (state : Words8) {message : List UInt8} (filled : message.length = 64) :
    blocks state message = (Sha256.compress state message, []) :=
  chain_of_eq state (by decide) filled

theorem length_blocks (state : Words8) (message : List UInt8) :
    (blocks state message).2.length = message.length % 64 :=
  length_chain state (by decide) message

theorem blocks_append (state : Words8) (message input : List UInt8) :
    blocks state (message ++ input) =
      blocks (blocks state message).1 ((blocks state message).2 ++ input) :=
  chain_append state (by decide) message input

/-- The bytes in the buffer. -/
def State.rest (st : State) : List UInt8 := st.buf.toList.take st.buffered

theorem State.buffered_lt (st : State) : st.buffered < 64 := by
  have masked : st.buffered ≤ 63 := by
    rw [State.buffered, UInt64.toNat_and]
    exact Nat.and_le_right
  omega

theorem State.length_rest (st : State) : st.rest.length = st.buffered := by
  have less := st.buffered_lt
  rw [State.rest, List.length_take, Vector.length_toList]
  omega

theorem buffered_eq {st : State} {n : Nat} (count : st.count = UInt64.ofNat (8 * n)) :
    st.buffered = n % 64 := by
  rw [State.buffered, count, UInt64.toNat_and, UInt64.toNat_shiftRight, UInt64.toNat_ofNat']
  have mask : (63 : UInt64).toNat = 2 ^ 6 - 1 := rfl
  have shift : (3 : UInt64).toNat % 64 = 3 := rfl
  rw [mask, shift, Nat.and_two_pow_sub_one_eq_mod, Nat.shiftRight_eq_div_pow]
  omega

/-! ## `crypto_hash_sha256_update` -/

theorem whileBlocks_eq (state : Words8) (tmp : Tmp32) (input : List UInt8) :
    whileBlocks state tmp input = blocks state input := by
  induction state, tmp, input using whileBlocks.induct with
  | case1 state tmp input filled state' tmp' transformed ih =>
      have first : state' = Sha256.compress state (input.take 64) := by
        rw [← transform_eq state (input.take 64) tmp, transformed]
      rw [whileBlocks, if_pos filled, transformed, blocks_of_le state filled, ← first]
      exact ih
  | case2 state tmp input short =>
      rw [whileBlocks, if_neg short, blocks_of_lt state (Nat.lt_of_not_le short)]

/-- What stands in the buffer from index `r` on is copied there. -/
theorem take_copyIn (buf : Vector UInt8 64) {r : Nat} {l : List UInt8}
    (room : r + l.length ≤ 64) :
    (Cells.copyIn buf r l).toList.take (r + l.length) = buf.toList.take r ++ l := by
  have length : (buf.toList.take r ++ l).length = r + l.length := by
    rw [List.length_append, List.length_take, Vector.length_toList]
    omega
  rw [Cells.toList_copyIn buf room, ← length, List.take_left]

/-- A buffer that is filled up. -/
theorem toList_copyIn_full (buf : Vector UInt8 64) {r : Nat} {l : List UInt8}
    (full : r + l.length = 64) :
    (Cells.copyIn buf r l).toList = buf.toList.take r ++ l := by
  have all := take_copyIn buf full.le
  rwa [full, List.take_of_length_le (by rw [Vector.length_toList])] at all

/-- An input that fills the buffer. -/
theorem update_full (st : State) {input : List UInt8} (tmp : Tmp32)
    (full : 64 ≤ st.buffered + input.length) :
    (update st input tmp).state = (blocks st.state (st.rest ++ input)).1 ∧
      ∃ buf, (update st input tmp).buf =
        Cells.copyIn buf 0 (blocks st.state (st.rest ++ input)).2 := by
  have less := st.buffered_lt
  have filled : 64 ≤ (st.rest ++ input).length := by
    rwa [List.length_append, st.length_rest]
  have behind : st.rest.length ≤ 64 := st.length_rest.trans_le less.le
  have taken : st.buffered + (input.take (64 - st.buffered)).length = 64 := by
    rw [List.length_take]
    omega
  have block : (Cells.copyIn st.buf st.buffered (input.take (64 - st.buffered))).toList =
      (st.rest ++ input).take 64 := by
    rw [toList_copyIn_full st.buf taken, List.take_append, List.take_of_length_le behind,
      st.length_rest]
    rfl
  have left : (st.rest ++ input).drop 64 = input.drop (64 - st.buffered) := by
    rw [List.drop_append, List.drop_of_length_le behind, st.length_rest, List.nil_append]
  have nonempty : input.length ≠ 0 := by omega
  have notShort : ¬input.length < 64 - st.buffered := by omega
  rcases transformed : transform st.state ((st.rest ++ input).take 64) tmp with ⟨state', tmp'⟩
  have first : state' = Sha256.compress st.state ((st.rest ++ input).take 64) := by
    rw [← transform_eq st.state _ tmp, transformed]
  have next : blocks st.state (st.rest ++ input) =
      blocks state' (input.drop (64 - st.buffered)) := by
    rw [blocks_of_le st.state filled, ← first, left]
  simp only [update, if_neg nonempty, if_neg notShort, block, transformed, whileBlocks_eq]
  rw [next]
  exact ⟨rfl, _, rfl⟩

/-- What the state and the buffer are after an input. -/
theorem update_eq (st : State) (input : List UInt8) (tmp : Tmp32) :
    (update st input tmp).state = (blocks st.state (st.rest ++ input)).1 ∧
      (update st input tmp).buf.toList.take ((st.buffered + input.length) % 64) =
        (blocks st.state (st.rest ++ input)).2 := by
  have length : (st.rest ++ input).length = st.buffered + input.length := by
    rw [List.length_append, st.length_rest]
  by_cases full : 64 ≤ st.buffered + input.length
  · obtain ⟨state, buf, eq⟩ := update_full st tmp full
    refine ⟨state, ?_⟩
    have rest := length_blocks st.state (st.rest ++ input)
    have fits : 0 + (blocks st.state (st.rest ++ input)).2.length ≤ 64 := by omega
    have taken := take_copyIn buf fits
    rw [Nat.zero_add, List.take_zero, List.nil_append] at taken
    rw [eq, ← length, ← rest]
    exact taken
  · have short : (st.rest ++ input).length < 64 := by omega
    rw [blocks_of_lt st.state short, Nat.mod_eq_of_lt (by omega)]
    by_cases empty : input.length = 0
    · have nothing : input = [] := List.eq_nil_of_length_eq_zero empty
      subst nothing
      rw [update, if_pos empty, List.append_nil]
      exact ⟨rfl, rfl⟩
    · rw [update, if_neg empty, if_pos (by omega)]
      exact ⟨rfl, take_copyIn st.buf (by omega)⟩

/-! ## `crypto_hash_sha256_final` -/

theorem be32encVect_eq (src : Words8) :
    be32encVect src 32 = src.toList.flatMap Sha256.beBytes := by
  have words : (List.range 8).map (Cells.read src) = src.toList := by
    refine List.ext_getElem (by simp) ?_
    intro i inside _
    simp [Cells.read_of_lt src (by simpa using inside)]
  have bytes : store32BE = Sha256.beBytes := funext store32BE_eq
  rw [be32encVect, ← words, List.flatMap_map, bytes]

theorem take_pad {n : Nat} (fits : n < 64) :
    pad.take (n + 1) = 0x80 :: List.replicate n 0 := by
  rw [pad, List.take_succ_cons, List.take_replicate, Nat.min_eq_left (by omega)]

theorem store64BE_length (bits : UInt64) : (store64BE bits).length = 8 := rfl

section Pad

variable (st : State) (tmp : Tmp32)

/-- The padding fits in the block. -/
theorem sha256Pad_short (early : st.buffered < 56) :
    (sha256Pad st tmp).1.state =
      Sha256.compress st.state
        (st.rest ++ (0x80 :: List.replicate (55 - st.buffered) 0) ++ store64BE st.count) := by
  have piece : pad.take (56 - st.buffered) = 0x80 :: List.replicate (55 - st.buffered) 0 := by
    rw [← take_pad (by omega)]
    congr 1
    omega
  have ends : st.buffered + (pad.take (56 - st.buffered)).length = 56 := by
    rw [piece, List.length_cons, List.length_replicate]
    omega
  have front := take_copyIn st.buf (l := pad.take (56 - st.buffered)) (r := st.buffered)
    (by omega)
  rw [ends] at front
  have back := toList_copyIn_full (Cells.copyIn st.buf st.buffered (pad.take (56 - st.buffered)))
    (r := 56) (l := store64BE st.count) rfl
  rw [front, piece] at back
  rw [← transform_eq st.state _ tmp, State.rest, ← back, sha256Pad]
  simp only [if_pos early, piece]

/-- The padding goes on in a second block. -/
theorem sha256Pad_long (late : 56 ≤ st.buffered) :
    (sha256Pad st tmp).1.state =
      Sha256.compress
        (Sha256.compress st.state (st.rest ++ (0x80 :: List.replicate (63 - st.buffered) 0)))
        (List.replicate 56 0 ++ store64BE st.count) := by
  have less := st.buffered_lt
  have piece : pad.take (64 - st.buffered) = 0x80 :: List.replicate (63 - st.buffered) 0 := by
    rw [← take_pad (by omega)]
    congr 1
    omega
  have first := toList_copyIn_full st.buf (r := st.buffered)
    (l := 0x80 :: List.replicate (63 - st.buffered) 0)
    (by rw [List.length_cons, List.length_replicate]; omega)
  have zeros (buf : Vector UInt8 64) :
      (Cells.copyIn buf 0 (List.replicate 56 0)).toList.take 56 = List.replicate 56 0 := by
    have front := take_copyIn buf (r := 0) (l := List.replicate 56 0)
      (by rw [List.length_replicate]; decide)
    rwa [List.length_replicate, List.take_zero, List.nil_append] at front
  have back (buf : Vector UInt8 64) :=
    toList_copyIn_full buf (r := 56) (l := store64BE st.count) rfl
  have notEarly : ¬st.buffered < 56 := Nat.not_lt_of_le late
  rw [← transform_eq st.state _ tmp, State.rest, ← first, sha256Pad]
  simp only [if_neg notEarly, piece, transform_eq, back, zeros]

end Pad

/-- What the padding of the code is for the specification. -/
theorem sha256Pad_state (st : State) (tmp : Tmp32) {n : Nat}
    (count : st.count = UInt64.ofNat (8 * n)) :
    (sha256Pad st tmp).1.state = (blocks st.state (st.rest ++ Sha256.padding n)).1 := by
  have less := st.buffered_lt
  have length := st.length_rest
  have rest : n % 64 = st.buffered := (buffered_eq count).symm
  have bytes : Sha256.lengthBytes (UInt64.ofNat (8 * n)) = store64BE st.count := by
    rw [count, store64BE_eq]
  rw [Sha256.padding, rest, bytes]
  by_cases early : st.buffered < 56
  · have zeros : (119 - st.buffered) % 64 = 55 - st.buffered := by omega
    have filled : (st.rest ++
        (0x80 :: List.replicate (55 - st.buffered) 0 ++ store64BE st.count)).length = 64 := by
      simp only [List.length_append, List.length_cons, List.length_replicate, store64BE_length,
        length]
      omega
    rw [sha256Pad_short st tmp early, zeros, blocks_of_eq st.state filled, List.append_assoc]
  · have zeros : (119 - st.buffered) % 64 = (63 - st.buffered) + 56 := by omega
    have cut : st.rest ++
        (0x80 :: List.replicate ((63 - st.buffered) + 56) 0 ++ store64BE st.count) =
        (st.rest ++ (0x80 :: List.replicate (63 - st.buffered) 0)) ++
          (List.replicate 56 0 ++ store64BE st.count) := by
      simp only [List.replicate_add, List.cons_append, List.append_assoc]
    have first : (st.rest ++ (0x80 :: List.replicate (63 - st.buffered) 0)).length = 64 := by
      rw [List.length_append, List.length_cons, List.length_replicate, length]
      omega
    have second : (List.replicate 56 0 ++ store64BE st.count).length = 64 := rfl
    rw [sha256Pad_long st tmp (Nat.le_of_not_lt early), zeros, cut, blocks_append,
      blocks_of_eq st.state first, List.nil_append, blocks_of_eq _ second]

/-! ## Midstates -/

/-- The state of a hasher that has been fed a message. -/
structure Midstate (st : State) (message : List UInt8) : Prop where
  state : st.state = (blocks Sha256.initial message).1
  rest : st.rest = (blocks Sha256.initial message).2
  count : st.count = UInt64.ofNat (8 * message.length)

/-- The table is the one of the specification. -/
theorem state_init (buf : Vector UInt8 64) : (init buf).state = Sha256.initial := by
  have table : (init (Vector.replicate 64 0)).state = Sha256.initial := by decide +kernel
  exact table

theorem midstate_init (buf : Vector UInt8 64) : Midstate (init buf) [] := by
  have empty : blocks Sha256.initial [] = (Sha256.initial, []) := blocks_of_lt _ (by decide)
  have count : (init buf).count = UInt64.ofNat (8 * 0) := rfl
  refine ⟨?_, ?_, count⟩
  · rw [empty]
    exact state_init buf
  · rw [empty, State.rest, buffered_eq count]
    rfl

theorem count_update (st : State) (input : List UInt8) (tmp : Tmp32) :
    (update st input tmp).count = st.count + (UInt64.ofNat input.length <<< 3) := by
  rw [update]
  by_cases empty : input.length = 0
  · rw [if_pos empty, empty]
    simp
  · rw [if_neg empty]
    dsimp only
    split <;> rfl

/-- A message grows by what the hasher is fed. -/
theorem Midstate.update {st : State} {message : List UInt8} (mid : Midstate st message)
    (input : List UInt8) (tmp : Tmp32) : Midstate (update st input tmp) (message ++ input) := by
  have whole : blocks Sha256.initial (message ++ input) = blocks st.state (st.rest ++ input) := by
    rw [mid.state, mid.rest, ← blocks_append]
  have count : (SHA256.update st input tmp).count =
      UInt64.ofNat (8 * (message ++ input).length) := by
    have bits : UInt64.ofNat input.length <<< 3 = UInt64.ofNat (8 * input.length) := by
      apply UInt64.toNat_inj.mp
      rw [UInt64.toNat_shiftLeft, UInt64.toNat_ofNat', UInt64.toNat_ofNat',
        show (3 : UInt64).toNat % 64 = 3 from rfl, Nat.shiftLeft_eq]
      omega
    rw [count_update, mid.count, bits, List.length_append, Nat.mul_add, UInt64.ofNat_add]
  have updated := update_eq st input tmp
  rw [← whole] at updated
  refine ⟨updated.1, ?_, count⟩
  rw [State.rest, buffered_eq count, ← updated.2, buffered_eq mid.count, List.length_append,
    Nat.mod_add_mod]

/-- What is returned is the hash of the message. -/
theorem Midstate.final {st : State} {message : List UInt8} (mid : Midstate st message)
    (tmp : Tmp32) : (final st tmp).1 = Sha256.sha256 message := by
  have padded : (sha256Pad st tmp).1.state =
      (blocks Sha256.initial (message ++ Sha256.padding message.length)).1 := by
    rw [sha256Pad_state st tmp mid.count, mid.state, mid.rest, ← blocks_append]
  have returned : (SHA256.final st tmp).1 = be32encVect (sha256Pad st tmp).1.state 32 := rfl
  rw [returned, padded, be32encVect_eq]
  rfl

/-! ## Objects -/

/-- Hashers by what they were fed. -/
abbrev Messages := Nat → Option (List UInt8)

/-- What an operation is for: messages are begun, copied, moved, added to,
hashed and dropped. -/
def Op.means (s : Messages) : Op → Option (Messages × Option (List UInt8))
  | .construct x _ => some (Function.update s x (some []), none)
  | .copy x o => (s o).map fun message => (Function.update s x (some message), none)
  | .move x o => some (Function.update (Function.update s o none) x (s o), none)
  | .feed x dat _ => (s x).map fun message => (Function.update s x (some (message ++ dat)), none)
  | .finalize x _ =>
      (s x).map fun message => (Function.update s x none, some (Sha256.sha256 message))
  | .destroy x => some (Function.update s x none, none)

/-- The hashes that a sequence of operations is to return. -/
def hashes (s : Messages) : List Op → Option (List (List UInt8))
  | [] => some []
  | op :: ops => (op.means s).bind fun after => (hashes after.1 ops).map (after.2.toList ++ ·)

/-- An object keeps the midstate of its message. -/
def Keeps (s : Store) (messages : Messages) : Prop :=
  ∀ x, Option.Rel Midstate (s x) (messages x)

theorem Keeps.update {s : Store} {messages : Messages} (keeps : Keeps s messages) (x : Nat)
    {st : Object} {message : Option (List UInt8)} (mid : Option.Rel Midstate st message) :
    Keeps (Function.update s x st) (Function.update messages x message) := by
  intro y
  by_cases same : y = x
  · subst same
    simpa using mid
  · simpa [same] using keeps y

/-- What is done to an object that is there. -/
theorem Keeps.map {s : Store} {messages : Messages} (keeps : Keeps s messages) (x : Nat)
    {α β : Type} {R : α → β → Prop} {f : State → α} {g : List UInt8 → β}
    (both : ∀ st message, Midstate st message → R (f st) (g message)) :
    Option.Rel R ((s x).map f) ((messages x).map g) := by
  have mid := keeps x
  revert mid
  generalize s x = object, messages x = message
  rintro (⟨mid⟩ | _)
  · exact .some (both _ _ mid)
  · exact .none

/-- An operation fails in both, or returns the same hash and keeps the midstates. -/
theorem exec_means {s : Store} {messages : Messages} (keeps : Keeps s messages) (op : Op) :
    Option.Rel (fun after means => Keeps after.1 means.1 ∧ after.2 = means.2) (exec s op)
      (op.means messages) := by
  cases op with
  | construct x buf => exact .some ⟨keeps.update x (.some (midstate_init buf)), rfl⟩
  | copy x o =>
      refine keeps.map o ?_
      intro st message mid
      exact ⟨keeps.update x (.some mid), rfl⟩
  | move x o => exact .some ⟨(keeps.update o .none).update x (keeps o), rfl⟩
  | feed x dat tmp32 =>
      refine keeps.map x ?_
      intro st message mid
      exact ⟨keeps.update x (.some (mid.update dat tmp32)), rfl⟩
  | finalize x tmp32 =>
      refine keeps.map x ?_
      intro st message mid
      exact ⟨keeps.update x .none, congrArg some (mid.final tmp32)⟩
  | destroy x => exact .some ⟨keeps.update x .none, rfl⟩

theorem run_means {s : Store} {messages : Messages} (keeps : Keeps s messages) (ops : List Op) :
    run s ops = hashes messages ops := by
  induction ops generalizing s messages with
  | nil => rfl
  | cons op ops ih =>
      have step := exec_means keeps op
      rw [run, hashes]
      revert step
      generalize exec s op = after, op.means messages = means
      rintro (⟨keeps', same⟩ | _)
      · rw [Option.bind_some, Option.bind_some, ih keeps', same]
      · rfl

/-- Every sequence of operations on hashers returns the hashes of the messages
that they were fed, through whatever copies, moves and parts. -/
theorem run_eq_hashes (ops : List Op) : run (fun _ => none) ops = hashes (fun _ => none) ops :=
  run_means (fun _ => .none) ops

end SidepoolFormal.Crypto.SHA256
