import SidepoolFormal.Crypto.ChaCha20

/-!
# The keystream of the stream function

The stream function computes the ChaCha20 keystream of its own key and nonce
arguments and loads nothing else.  The wrapper hands it the key for a nonce
and the nonce for a key, so it loads 32 bytes where only 12 belong to it.
-/

namespace SidepoolFormal.Crypto

open Library

/-! ## Rounds -/

/-- Later stores hide earlier ones to the same four words. -/
theorem put_eight (x : Words) {a b c d : Fin 16} (bc : b ≠ c) (bd : b ≠ d) (cd : c ≠ d)
    (a₁ b₁ c₁ d₁ a₂ b₂ c₂ d₂ : UInt32) :
    (((((((x.put a a₁).put d d₁).put c c₁).put b b₁).put a a₂).put d d₂).put c c₂).put b b₂ =
      (((x.put a a₂).put b b₂).put c c₂).put d d₂ := by
  apply ChaCha.State.ext
  intro i
  simp only [ChaCha.State.get_put]
  by_cases atD : d = i
  · simp [atD, show b ≠ i from atD ▸ bd, show c ≠ i from atD ▸ cd]
  by_cases atC : c = i
  · simp [atC, atD, show b ≠ i from atC ▸ bc]
  by_cases atB : b = i
  · simp [atB, atC, atD]
  by_cases atA : a = i
  · simp [atA, atB, atC, atD]
  · simp [atA, atB, atC, atD]

theorem quarterRound_eq (x : Words) {a b c d : Fin 16} (distinct : [a, b, c, d].Nodup) :
    quarterRound x a b c d = ChaCha.quarterRound x a b c d := by
  simp only [List.nodup_cons, List.mem_cons, List.not_mem_nil, or_false, not_or,
    List.nodup_nil, not_false_eq_true, and_true] at distinct
  obtain ⟨⟨ab, ac, ad⟩, ⟨bc, bd⟩, cd⟩ := distinct
  simp only [quarterRound, ChaCha.State.get_put_self, ChaCha.State.get_put_ne, ne_eq,
    ab, ac, ad, bc, bd, cd, Ne.symm ab, Ne.symm ac, Ne.symm ad, Ne.symm bc, Ne.symm bd, Ne.symm cd,
    not_false_eq_true]
  exact put_eight x bc bd cd _ _ _ _ _ _ _ _

theorem doubleRound_eq (x : Words) : doubleRound x = ChaCha.innerBlock x := by
  simp only [doubleRound, ChaCha.innerBlock]
  repeat rw [quarterRound_eq _ (by decide)]

theorem doubleRounds_eq (n : Nat) (x : Words) : doubleRounds (2 * n) x = ChaCha.rounds n x := by
  induction n generalizing x with
  | zero => rfl
  | succ n ih =>
      rw [Nat.mul_succ, doubleRounds, ih, doubleRound_eq, ChaCha.rounds]

/-! ## Blocks -/

theorem getD_zeros (n i : Nat) : (List.replicate n (0 : UInt8)).getD i 0 = 0 := by
  rw [List.getD_eq_getElem?_getD, List.getElem?_replicate]
  split <;> rfl

theorem messageAt_zeros (n offset : Nat) : messageAt (List.replicate n 0) offset = 0 := by
  simp only [messageAt, getD_zeros]
  rfl

theorem store32LE_eq (w : UInt32) : store32LE w = ChaCha.leBytes w := by
  simp [store32LE, ChaCha.leBytes]

theorem encryptBlock_zeros (j : Words) (n : Nat) :
    encryptBlock j (List.replicate n 0) = ChaCha.serialize (ChaCha.mix j) := by
  have words : (Vector.ofFn fun i =>
      ChaCha.State.get (Vector.ofFn fun i => (doubleRounds 20 j).get i + j.get i) i ^^^
        messageAt (List.replicate n 0) (4 * i)) = ChaCha.mix j := by
    apply Vector.ext
    intro i h
    simp [messageAt_zeros, ChaCha.mix, ChaCha.State.get, ← doubleRounds_eq 10]
  have bytes : store32LE = ChaCha.leBytes := funext store32LE_eq
  rw [encryptBlock, words, bytes, ChaCha.serialize]

/-- The context with its block counter set. -/
def atCounter (j : Words) (i : Nat) : Words := j.put 12 (UInt32.ofNat i)

theorem advance_atCounter (j : Words) {i : Nat} (small : i + 1 < UInt32.size) :
    advance (atCounter j i) = atCounter j (i + 1) := by
  have next : UInt32.ofNat i + 1 = UInt32.ofNat (i + 1) := by simp
  have positive : UInt32.ofNat (i + 1) ≠ 0 := by
    intro zero
    have value := congrArg UInt32.toNat zero
    rw [UInt32.toNat_ofNat_of_lt' small] at value
    exact absurd value (Nat.succ_ne_zero i)
  simp only [advance, atCounter, ChaCha.State.get_put_self, ChaCha.State.put_put, next,
    if_neg positive]

theorem flatMap_range_succ {α : Type} (f : Nat → List α) (n : Nat) :
    (List.range (n + 1)).flatMap f = f 0 ++ (List.range n).flatMap fun i => f (i + 1) := by
  rw [List.range_succ_eq_map, List.flatMap_cons, List.flatMap_map]

/-- The loop gives the blocks for consecutive counters as long as the counter
does not wrap. -/
theorem encryptLoop_zeros (j : Words) (i n : Nat) (some : 0 < n)
    (small : i + (n + 63) / 64 ≤ UInt32.size) :
    encryptLoop (atCounter j i) (List.replicate n 0) =
      ((List.range ((n + 63) / 64)).flatMap fun k =>
        ChaCha.serialize (ChaCha.mix (atCounter j (i + k)))).take n := by
  induction n using Nat.strongRecOn generalizing i with
  | ind n ih =>
      have first := ChaCha.length_serialize (ChaCha.mix (atCounter j i))
      unfold encryptLoop
      simp only [List.length_replicate, List.replicate_append_replicate, encryptBlock_zeros]
      split
      · have one : (n + 63) / 64 = 1 := by omega
        simp [one]
      · split
        · have one : (n + 63) / 64 = 1 := by omega
          rw [one, List.take_of_length_le]
          · simp
          · simp [first]
            omega
        · have count : (n + 63) / 64 = (n - 64 + 63) / 64 + 1 := by omega
          have full : List.take 64 (List.replicate n (0 : UInt8)) = List.replicate 64 0 := by
            rw [List.take_replicate, Nat.min_eq_left (by omega)]
          have shift : (fun k => ChaCha.serialize (ChaCha.mix (atCounter j (i + (k + 1))))) =
              fun k => ChaCha.serialize (ChaCha.mix (atCounter j (i + 1 + k))) :=
            funext fun k => by rw [Nat.add_right_comm, Nat.add_assoc]
          rw [full, encryptBlock_zeros, List.drop_replicate, advance_atCounter j (by omega),
            ih (n - 64) (by omega) (i + 1) (by omega) (by omega), count, flatMap_range_succ,
            List.take_append, shift]
          simp only [Nat.add_zero]
          rw [first, List.take_of_length_le (l := ChaCha.serialize _) (by omega)]

/-! ## The stream function -/

/-- The addresses of the first `n` bytes of an argument. -/
def addresses (a : Argument) (n : Nat) : List Address := (List.range n).map fun i => (a, i)

/-- The first `n` bytes of an argument. -/
def bytesOf (mem : Memory) (a : Argument) (n : Nat) : Vector UInt8 n :=
  Vector.ofFn fun i => mem a i

theorem load32LE_eq (b0 b1 b2 b3 : UInt8) : load32LE b0 b1 b2 b3 = ChaCha.leWord b0 b1 b2 b3 := by
  simp [load32LE, ChaCha.leWord]

theorem wordAt_bytesOf (mem : Memory) (a : Argument) {n i : Nat} (h : i + 3 < n) :
    ChaCha.wordAt (bytesOf mem a n) i h =
      load32LE (mem a i) (mem a (i + 1)) (mem a (i + 2)) (mem a (i + 3)) := by
  simp [ChaCha.wordAt, bytesOf, load32LE_eq]

theorem Load.bind_run {α β : Type} (x : Load α) (f : α → Load β) (log : List Address) :
    (x >>= f).run log = (f (x.run log).1).run (x.run log).2 := rfl

theorem Load.pure_run {α : Type} (a : α) (log : List Address) :
    (pure a : Load α).run log = (a, log) := rfl

theorem byte_run (mem : Memory) (a : Argument) (offset : Nat) (log : List Address) :
    (byte mem a offset).run log = (mem a offset, log ++ [(a, offset)]) := rfl

theorem loadAt_run (mem : Memory) (a : Argument) (offset : Nat) (log : List Address) :
    (loadAt mem a offset).run log =
      (load32LE (mem a offset) (mem a (offset + 1)) (mem a (offset + 2)) (mem a (offset + 3)),
        log ++ [(a, offset), (a, offset + 1), (a, offset + 2), (a, offset + 3)]) := by
  simp only [loadAt, Load.bind_run, byte_run, Load.pure_run, List.append_assoc, List.cons_append,
    List.nil_append]

/-- Setting up the context loads 32 bytes of the key argument and 12 of the
nonce argument and starts at counter 0. -/
theorem setup_run (mem : Memory) (ctx : Words) (iv k : Argument) (log : List Address) :
    (do
      let ctx ← chachaKeysetup mem ctx k
      chachaIetfIvsetup mem ctx iv none : Load Words).run log =
      (ChaCha.initial (bytesOf mem k 32) 0 (bytesOf mem iv 12),
        log ++ addresses k 32 ++ addresses iv 12) := by
  simp only [chachaKeysetup, chachaIetfIvsetup, Load.bind_run, Load.pure_run, loadAt_run,
    ChaCha.initial, wordAt_bytesOf, Nat.zero_add, List.append_assoc]
  rfl

theorem atCounter_initial (key : Vector UInt8 32) (nonce : Vector UInt8 12) (i : Nat) :
    atCounter (ChaCha.initial key 0 nonce) i = ChaCha.initial key (UInt32.ofNat i) nonce := rfl

theorem chacha20EncryptBytes_zeros (key : Vector UInt8 32) (nonce : Vector UInt8 12) (n : Nat)
    (small : n ≤ 64 * UInt32.size) :
    chacha20EncryptBytes (ChaCha.initial key 0 nonce) (List.replicate n 0) =
      ChaCha.keystream key nonce n := by
  unfold chacha20EncryptBytes ChaCha.keystream
  rw [List.length_replicate]
  by_cases none : n = 0
  · simp [none]
  · rw [if_neg none]
    have loop := encryptLoop_zeros (ChaCha.initial key 0 nonce) 0 n (by omega) (by omega)
    simp only [atCounter_initial, Nat.zero_add] at loop
    exact loop

/-- The stream function computes the keystream of its own arguments. -/
theorem streamIetfExtRef_run (mem : Memory) (ctx : Words) (clen : Nat) (n k : Argument)
    (some : clen ≠ 0) (small : clen ≤ 64 * UInt32.size) (log : List Address) :
    (streamIetfExtRef mem ctx clen n k).run log =
      (ChaCha.keystream (bytesOf mem k 32) (bytesOf mem n 12) clen,
        log ++ addresses k 32 ++ addresses n 12) := by
  have setup := setup_run mem ctx n k log
  rw [← chacha20EncryptBytes_zeros _ _ clen small]
  rw [Load.bind_run] at setup
  simp only [streamIetfExtRef, if_neg some, Load.bind_run, Load.pure_run, setup]

/-! ## The wrapper -/

/-- The loaded bytes belong to the 32-byte key and the 12-byte nonce. -/
def inBounds : Address → Prop
  | (.key, i) => i < 32
  | (.nonce, i) => i < 12

/-- A computation of `n` bytes is keyed by the two arguments when it loads
only their bytes and gives their keystream. -/
structure Keyed (mem : Memory) (n : Nat) (call : Load (List UInt8)) : Prop where
  reads : ∀ a ∈ (call.run []).2, inBounds a
  writes : (call.run []).1 = ChaCha.keystream (bytesOf mem .key 32) (bytesOf mem .nonce 12) n

/-- What the wrapper writes: the keystream of the 32 bytes at the nonce and
the 12 bytes at the key. -/
theorem chacha20Ietf_run (mem : Memory) (ctx : Words) {outLen : Nat} (some : outLen ≠ 0)
    (small : outLen ≤ 64 * UInt32.size) :
    (chacha20Ietf mem ctx outLen).run [] =
      (ChaCha.keystream (bytesOf mem .nonce 32) (bytesOf mem .key 12) outLen,
        addresses .nonce 32 ++ addresses .key 12) := by
  rw [chacha20Ietf, streamIetfExtRef_run mem ctx outLen .key .nonce some small, List.nil_append]

/-- With the two arguments the other way around the call is keyed. -/
theorem streamIetfExtRef_keyed (mem : Memory) (ctx : Words) {n : Nat} (some : n ≠ 0)
    (small : n ≤ 64 * UInt32.size) : Keyed mem n (streamIetfExtRef mem ctx n .nonce .key) := by
  have run := streamIetfExtRef_run mem ctx n .nonce .key some small []
  constructor
  · intro a member
    rw [run] at member
    simp only [addresses, List.nil_append, List.mem_append, List.mem_map, List.mem_range] at member
    obtain ⟨i, bound, rfl⟩ | ⟨i, bound, rfl⟩ := member
    · exact bound
    · exact bound
  · rw [run]

/-- Whatever the length, the wrapper loads past the nonce. -/
theorem chacha20Ietf_reads (mem : Memory) (ctx : Words) {outLen : Nat} (some : outLen ≠ 0) :
    (Argument.nonce, 31) ∈ ((chacha20Ietf mem ctx outLen).run []).2 := by
  have setup := setup_run mem ctx .key .nonce []
  rw [Load.bind_run] at setup
  simp only [chacha20Ietf, streamIetfExtRef, if_neg some, Load.bind_run, Load.pure_run, setup]
  decide

/-- The wrapper is keyed by its arguments only when there is nothing to write. -/
theorem chacha20Ietf_keyed_iff (mem : Memory) (ctx : Words) (outLen : Nat) :
    Keyed mem outLen (chacha20Ietf mem ctx outLen) ↔ outLen = 0 := by
  constructor
  · intro keyed
    by_contra some
    exact absurd (keyed.reads _ (chacha20Ietf_reads mem ctx some)) (by simp [inBounds])
  · rintro rfl
    constructor
    · intro a member
      exact (List.not_mem_nil member).elim
    · rfl

end SidepoolFormal.Crypto
