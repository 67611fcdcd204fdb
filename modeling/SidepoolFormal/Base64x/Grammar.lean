import SidepoolFormal.Base64x.RoundTrip

/-!
# What the decoder accepts

The decoder checks the characters in front of the first `=`, and that some
whole byte stands there; of what follows it only asks that it is `=`.  Whether
the padding fills the last group of four is never looked at.
-/

namespace SidepoolFormal.Base64x

/-! ## Groups and bits -/

/-- The alphabet, in the order of its groups. -/
def alphabet : List UInt8 :=
  "ABCDEFGHIJKLMNOPQRSTUVWXYZabcdefghijklmnopqrstuvwxyz0123456789+%".toList.map ch

/-- The six-bit group that a character stands for. -/
def group (c : UInt8) : UInt8 := UInt8.ofNat (alphabet.idxOf c)

/-- One line of the decoder's table. -/
def DecodeLine (c : UInt8) : Prop :=
  if InAlphabet c then decodeB64 c = .ok (group c) ∧ group c < 64 ∧ c ≠ ch '='
  else decodeB64 c = .error .decodeError

instance (c : UInt8) : Decidable (DecodeLine c) :=
  inferInstanceAs (Decidable (if InAlphabet c then _ else _))

theorem decodeLine (c : UInt8) : DecodeLine c := Library.forall_byte (by decide +kernel) c

theorem group_spec {c : UInt8} (inside : InAlphabet c) :
    decodeB64 c = .ok (group c) ∧ group c < 64 ∧ c ≠ ch '=' := by
  have line := decodeLine c
  rwa [DecodeLine, if_pos inside] at line

theorem inAlphabet_of_decodes {c k : UInt8} (decodes : decodeB64 c = .ok k) :
    InAlphabet c ∧ k = group c := by
  have line := decodeLine c
  by_cases inside : InAlphabet c
  · rw [DecodeLine, if_pos inside, decodes] at line
    exact ⟨inside, Except.ok.inj line.1⟩
  · rw [DecodeLine, if_neg inside, decodes] at line
    cases line

/-- The lowest bits of a byte, the most significant one first. -/
def bits (width : Nat) (k : UInt8) : List Bool :=
  (List.range width).reverse.map k.toBitVec.getLsbD

theorem length_bits (width : Nat) (k : UInt8) : (bits width k).length = width := by
  simp [bits]

/-! ## Bytes of groups -/

theorem length_unsextets (K : List UInt8) : (unsextets K).length = 3 * K.length / 4 := by
  induction K using unsextets.induct with
  | case1 k₀ k₁ k₂ k₃ rest ih =>
      simp only [unsextets, List.length_cons, ih]
      omega
  | case2 k₀ k₁ k₂ => simp [unsextets]
  | case3 k₀ k₁ => simp [unsextets]
  | case4 K long three two =>
      rcases K with - | ⟨k₀, - | ⟨k₁, - | ⟨k₂, - | ⟨k₃, rest⟩⟩⟩⟩
      · rfl
      · simp [unsextets]
      · exact absurd rfl (two k₀ k₁)
      · exact absurd rfl (three k₀ k₁ k₂)
      · exact absurd rfl (long k₀ k₁ k₂ k₃ rest)

theorem bits_four (k₀ : UInt8) {k₁ k₂ k₃ : UInt8} (h₁ : k₁ < 64) (h₂ : k₂ < 64) (h₃ : k₃ < 64) :
    bits 8 (k₀ <<< 2 ||| k₁ >>> 4) ++ (bits 8 ((k₁ &&& 0xF) <<< 4 ||| k₂ >>> 2) ++
      bits 8 ((k₂ &&& 0x3) <<< 6 ||| k₃)) =
    bits 6 k₀ ++ (bits 6 k₁ ++ (bits 6 k₂ ++ bits 6 k₃)) := by
  have first := high_bits_of_lt h₁
  have second := high_bits_of_lt h₂
  have third := high_bits_of_lt h₃
  simp [bits, List.range_succ, first, second, third]

theorem bits_three (k₀ : UInt8) {k₁ k₂ : UInt8} (h₁ : k₁ < 64) (h₂ : k₂ < 64) :
    bits 8 (k₀ <<< 2 ||| k₁ >>> 4) ++ bits 8 ((k₁ &&& 0xF) <<< 4 ||| k₂ >>> 2) =
      (bits 6 k₀ ++ (bits 6 k₁ ++ bits 6 k₂)).take 16 := by
  have first := high_bits_of_lt h₁
  have second := high_bits_of_lt h₂
  simp [bits, List.range_succ, first, second]

theorem bits_two (k₀ : UInt8) {k₁ : UInt8} (h₁ : k₁ < 64) :
    bits 8 (k₀ <<< 2 ||| k₁ >>> 4) = (bits 6 k₀ ++ bits 6 k₁).take 8 := by
  have first := high_bits_of_lt h₁
  simp [bits, List.range_succ, first]

/-- The bytes that groups spell have the bits of the groups, as many as fill
whole bytes. -/
theorem bits_unsextets {K : List UInt8} (small : ∀ k ∈ K, k < 64) :
    (unsextets K).flatMap (bits 8) = (K.flatMap (bits 6)).take (8 * (unsextets K).length) := by
  induction K using unsextets.induct with
  | case1 k₀ k₁ k₂ k₃ rest ih =>
      simp only [List.forall_mem_cons] at small
      obtain ⟨-, h₁, h₂, h₃, others⟩ := small
      have block := bits_four k₀ h₁ h₂ h₃
      have long : (bits 6 k₀ ++ (bits 6 k₁ ++ (bits 6 k₂ ++ bits 6 k₃))).length = 24 := by
        simp [length_bits]
      have more : 8 * ((unsextets rest).length + 1 + 1 + 1) =
          24 + 8 * (unsextets rest).length := by omega
      calc (unsextets (k₀ :: k₁ :: k₂ :: k₃ :: rest)).flatMap (bits 8)
          = (bits 6 k₀ ++ (bits 6 k₁ ++ (bits 6 k₂ ++ bits 6 k₃))) ++
              (unsextets rest).flatMap (bits 8) := by simp [unsextets, ← block]
        _ = ((bits 6 k₀ ++ (bits 6 k₁ ++ (bits 6 k₂ ++ bits 6 k₃))) ++
              rest.flatMap (bits 6)).take (24 + 8 * (unsextets rest).length) := by
            rw [← long, List.take_length_add_append, ih others]
        _ = _ := by simp [unsextets, more]
  | case2 k₀ k₁ k₂ =>
      simp only [List.forall_mem_cons] at small
      simpa [unsextets] using bits_three k₀ small.2.1 small.2.2.1
  | case3 k₀ k₁ =>
      simp only [List.forall_mem_cons] at small
      simpa [unsextets] using bits_two k₀ small.2.1
  | case4 K long three two =>
      have none : unsextets K = [] := unsextets.eq_4 K long three two
      rw [none]
      rfl

/-! ## What the decoder makes of a string -/

/-- The strings that the decoder accepts, and their groups. -/
inductive Accepted : List UInt8 → List UInt8 → Prop
  | nil : Accepted [] []
  | two {a b : UInt8} (first : InAlphabet a) (second : InAlphabet b) (n : Nat) :
      Accepted (a :: b :: List.replicate (n + 1) (ch '=')) [group a, group b]
  | three {a b c : UInt8} (first : InAlphabet a) (second : InAlphabet b) (third : InAlphabet c)
      (n : Nat) :
      Accepted (a :: b :: c :: List.replicate (n + 1) (ch '=')) [group a, group b, group c]
  | four {a b c d : UInt8} {rest K : List UInt8} (first : InAlphabet a) (second : InAlphabet b)
      (third : InAlphabet c) (fourth : InAlphabet d) (after : Accepted rest K) :
      Accepted (a :: b :: c :: d :: rest) (group a :: group b :: group c :: group d :: K)

namespace Decoder

/-- Feed a string and finish. -/
def runFrom (d : Decoder) (s : List UInt8) : Except DecodeError (List UInt8) :=
  s.foldlM feed d >>= finish

theorem runFrom_cons (d : Decoder) (c : UInt8) (s : List UInt8) :
    runFrom d (c :: s) = feed d c >>= fun d' => runFrom d' s := by
  rw [runFrom, List.foldlM_cons, bind_assoc]
  rfl

theorem runFrom_step {d d' : Decoder} {c : UInt8} (fed : feed d c = .ok d') (s : List UInt8) :
    runFrom d (c :: s) = runFrom d' s := by
  rw [runFrom_cons, fed]
  rfl

theorem runFrom_padding (ov : List UInt8) (k : UInt8) (n : Nat) :
    runFrom ⟨ov, -1, k⟩ (List.replicate n (ch '=')) = .ok ov := by
  induction n with
  | zero => rfl
  | succ n ih =>
      rw [List.replicate_succ, runFrom_cons]
      exact ih

/-- After the first `=` only more of them are accepted. -/
theorem padding_of_runFrom {ov v s : List UInt8} {k : UInt8}
    (ends : runFrom ⟨ov, -1, k⟩ s = .ok v) : ∃ n, s = List.replicate n (ch '=') := by
  induction s with
  | nil => exact ⟨0, rfl⟩
  | cons c rest ih =>
      rw [runFrom_cons] at ends
      by_cases pad : c = ch '='
      · rw [show feed ⟨ov, -1, k⟩ c = .ok ⟨ov, -1, k⟩ by simp [feed, pad]] at ends
        obtain ⟨n, same⟩ := ih ends
        exact ⟨n + 1, by rw [pad, same, List.replicate_succ]⟩
      · rw [show feed ⟨ov, -1, k⟩ c = .error .decodeError by simp [feed, pad]] at ends
        cases ends

/-! The four places of a character in its group of four. -/

theorem feed_first (ov : List UInt8) (k : UInt8) {c : UInt8} (inside : InAlphabet c) :
    feed ⟨ov, 0, k⟩ c = .ok ⟨ov, 1, group c⟩ := by
  simp [feed, (group_spec inside).1, bind, Except.bind]

theorem feed_second (ov : List UInt8) (k : UInt8) {c : UInt8} (inside : InAlphabet c) :
    feed ⟨ov, 1, k⟩ c = .ok ⟨ov ++ [k <<< 2 ||| group c >>> 4], 2, group c &&& 0xF⟩ := by
  simp [feed, (group_spec inside).1, bind, Except.bind]

theorem feed_third (ov : List UInt8) (k : UInt8) {c : UInt8} (inside : InAlphabet c) :
    feed ⟨ov, 2, k⟩ c = .ok ⟨ov ++ [k <<< 4 ||| group c >>> 2], 3, group c &&& 0x3⟩ := by
  simp [feed, group_spec inside, bind, Except.bind]

theorem feed_fourth (ov : List UInt8) (k : UInt8) {c : UInt8} (inside : InAlphabet c) :
    feed ⟨ov, 3, k⟩ c = .ok ⟨ov ++ [k <<< 6 ||| group c], 0, 0⟩ := by
  simp [feed, group_spec inside, bind, Except.bind]

theorem feed_padding (ov : List UInt8) (k : UInt8) {step : Int} (late : step = 2 ∨ step = 3) :
    feed ⟨ov, step, k⟩ (ch '=') = .ok ⟨ov, -1, k⟩ := by
  rcases late with rfl | rfl
  · rfl
  · rfl

/-- What does not start the padding is of the alphabet. -/
theorem inAlphabet_of_feed {ov : List UInt8} {k c : UInt8} {step : Int} {d : Decoder}
    (before : 0 ≤ step) (fed : feed ⟨ov, step, k⟩ c = .ok d) :
    InAlphabet c ∨ (c = ch '=' ∧ step ≠ 0 ∧ step ≠ 1) := by
  by_cases pad : c = ch '=' ∧ step ≠ 0 ∧ step ≠ 1
  · exact .inr pad
  · left
    cases decoded : decodeB64 c with
    | ok k' => exact (inAlphabet_of_decodes decoded).1
    | error e =>
        have started : ¬step < 0 := by omega
        by_cases zero : step = 0
        · simp [feed, zero, decoded, bind, Except.bind] at fed
        · by_cases one : step = 1
          · simp [feed, one, decoded, bind, Except.bind] at fed
          · have other : c ≠ ch '=' := fun same => pad ⟨same, zero, one⟩
            simp [feed, started, zero, one, other, decoded, bind, Except.bind] at fed

/-- The first two characters of a group are of the alphabet. -/
theorem inAlphabet_of_early {ov : List UInt8} {k c : UInt8} {step : Int} {d : Decoder}
    (early : step = 0 ∨ step = 1) (fed : feed ⟨ov, step, k⟩ c = .ok d) : InAlphabet c := by
  rcases inAlphabet_of_feed (by omega) fed with inside | ⟨-, zero, one⟩
  · exact inside
  · exact absurd early (not_or.mpr ⟨zero, one⟩)

/-- The decoder goes through an accepted string. -/
theorem runFrom_accepted {s K : List UInt8} (accepted : Accepted s K) (ov : List UInt8)
    (k : UInt8) : runFrom ⟨ov, 0, k⟩ s = .ok (ov ++ unsextets K) := by
  induction accepted generalizing ov k with
  | nil => simp [runFrom, finish, unsextets, pure, Except.pure, bind, Except.bind]
  | two first second n =>
      rw [runFrom_step (feed_first ov k first), runFrom_step (feed_second ov _ second),
        List.replicate_succ, runFrom_step (feed_padding _ _ (.inl rfl)), runFrom_padding]
      rfl
  | three first second third n =>
      rw [runFrom_step (feed_first ov k first), runFrom_step (feed_second ov _ second),
        runFrom_step (feed_third _ _ third), List.replicate_succ,
        runFrom_step (feed_padding _ _ (.inr rfl)), runFrom_padding, List.append_assoc]
      rfl
  | four first second third fourth after ih =>
      rw [runFrom_step (feed_first ov k first), runFrom_step (feed_second ov _ second),
        runFrom_step (feed_third _ _ third), runFrom_step (feed_fourth _ _ fourth), ih]
      simp [unsextets]

/-- A character that is fed leaves a decoder to be fed with the rest. -/
theorem exists_feed {d : Decoder} {c : UInt8} {s v : List UInt8}
    (ends : runFrom d (c :: s) = .ok v) : ∃ d', feed d c = .ok d' ∧ runFrom d' s = .ok v := by
  rw [runFrom_cons] at ends
  cases fed : feed d c with
  | error e =>
      rw [fed] at ends
      cases ends
  | ok d' =>
      rw [fed] at ends
      exact ⟨d', rfl, ends⟩

/-- With a whole byte read, the string goes on with the padding or with a
character of the alphabet. -/
theorem late_cases {ov v s : List UInt8} {k c : UInt8} {step : Int} (late : step = 2 ∨ step = 3)
    (ends : runFrom ⟨ov, step, k⟩ (c :: s) = .ok v) :
    (∃ n, c :: s = List.replicate (n + 1) (ch '=')) ∨ InAlphabet c := by
  obtain ⟨d, fed, rest⟩ := exists_feed ends
  rcases inAlphabet_of_feed (by omega) fed with inside | ⟨rfl, -, -⟩
  · exact .inr inside
  · rw [feed_padding ov k late] at fed
    cases fed
    obtain ⟨n, rfl⟩ := padding_of_runFrom rest
    exact .inl ⟨n, rfl⟩

/-- The first two characters. -/
theorem early_cases {ov v s : List UInt8} {k a b : UInt8}
    (ends : runFrom ⟨ov, 0, k⟩ (a :: b :: s) = .ok v) :
    InAlphabet a ∧ InAlphabet b ∧ ∃ ov' k', runFrom ⟨ov', 2, k'⟩ s = .ok v := by
  obtain ⟨d, fed, rest⟩ := exists_feed ends
  have first := inAlphabet_of_early (.inl rfl) fed
  rw [feed_first ov k first] at fed
  cases fed
  obtain ⟨d, fed, rest⟩ := exists_feed rest
  have second := inAlphabet_of_early (.inr rfl) fed
  rw [feed_second ov _ second] at fed
  cases fed
  exact ⟨first, second, _, _, rest⟩

/-- The decoder goes through no other string. -/
theorem accepted_of_runFrom {ov v s : List UInt8} {k : UInt8}
    (ends : runFrom ⟨ov, 0, k⟩ s = .ok v) : ∃ K, Accepted s K := by
  induction s using unsextets.induct generalizing ov k with
  | case1 a b c d rest ih =>
      obtain ⟨first, second, ov, k, ends⟩ := early_cases ends
      rcases late_cases (.inl rfl) ends with ⟨n, padding⟩ | third
      · rw [padding]
        exact ⟨_, .two first second n⟩
      · rw [runFrom_step (feed_third ov k third)] at ends
        rcases late_cases (.inr rfl) ends with ⟨n, padding⟩ | fourth
        · rw [padding]
          exact ⟨_, .three first second third n⟩
        · rw [runFrom_step (feed_fourth _ _ fourth)] at ends
          obtain ⟨K, after⟩ := ih ends
          exact ⟨_, .four first second third fourth after⟩
  | case2 a b c =>
      obtain ⟨first, second, ov, k, ends⟩ := early_cases ends
      rcases late_cases (.inl rfl) ends with ⟨n, padding⟩ | third
      · rw [padding]
        exact ⟨_, .two first second n⟩
      · rw [runFrom_step (feed_third ov k third)] at ends
        cases ends
  | case3 a b =>
      obtain ⟨-, -, ov, k, ends⟩ := early_cases ends
      cases ends
  | case4 s long three two =>
      rcases s with - | ⟨a, - | ⟨b, - | ⟨c, - | ⟨d, rest⟩⟩⟩⟩
      · exact ⟨[], .nil⟩
      · obtain ⟨d, fed, rest⟩ := exists_feed ends
        have first := inAlphabet_of_early (.inl rfl) fed
        rw [feed_first ov k first] at fed
        cases fed
        cases rest
      · exact absurd rfl (two a b)
      · exact absurd rfl (three a b c)
      · exact absurd rfl (long a b c d rest)

end Decoder

/-! ## The padding -/

/-- Characters of the alphabet and the padding behind them. -/
structure Split (s body : List UInt8) (n : Nat) : Prop where
  same : s = body ++ List.replicate n (ch '=')
  inside : ∀ c ∈ body, InAlphabet c

theorem Split.body_eq {s body : List UInt8} {n : Nat} (split : Split s body n) :
    s.filter (· ≠ ch '=') = body := by
  have kept : body.filter (· ≠ ch '=') = body := by
    rw [List.filter_eq_self]
    intro c member
    simpa using (group_spec (split.inside c member)).2.2
  rw [split.same, List.filter_append, kept, List.filter_replicate]
  simp

theorem Split.count_eq {s body : List UInt8} {n : Nat} (split : Split s body n) :
    s.count (ch '=') = n := by
  have none : body.count (ch '=') = 0 := by
    rw [List.count_eq_zero]
    intro member
    exact (group_spec (split.inside _ member)).2.2 rfl
  rw [split.same, List.count_append, none, List.count_replicate_self, Nat.zero_add]

theorem Split.length_eq {s body : List UInt8} {n : Nat} (split : Split s body n) :
    s.length = body.length + n := by
  rw [split.same, List.length_append, List.length_replicate]

/-- No group is left over, or the last one is, with a byte's worth of characters
and some padding. -/
def Stops (body : List UInt8) (n : Nat) : Prop :=
  (n = 0 ∧ body.length % 4 = 0) ∨ (n ≠ 0 ∧ 2 ≤ body.length % 4)

theorem Split.four {rest body : List UInt8} {n : Nat} {a b c d : UInt8}
    (split : Split rest body n) (inside : ∀ x ∈ [a, b, c, d], InAlphabet x) :
    Split (a :: b :: c :: d :: rest) (a :: b :: c :: d :: body) n where
  same := by rw [split.same]; rfl
  inside x member := by
    rcases List.mem_append.mp (show x ∈ [a, b, c, d] ++ body from member) with first | later
    · exact inside x first
    · exact split.inside x later

theorem stops_four (a b c d : UInt8) (body : List UInt8) (n : Nat) :
    Stops (a :: b :: c :: d :: body) n ↔ Stops body n := by
  have same : (a :: b :: c :: d :: body).length % 4 = body.length % 4 :=
    Nat.add_mod_right body.length 4
  rw [Stops, Stops, same]

theorem Accepted.split {s K : List UInt8} (accepted : Accepted s K) :
    ∃ body n, Split s body n ∧ Stops body n ∧ K = body.map group := by
  induction accepted with
  | nil => exact ⟨[], 0, ⟨rfl, by simp⟩, .inl ⟨rfl, rfl⟩, rfl⟩
  | @two a b first second n =>
      exact ⟨[a, b], n + 1, ⟨rfl, by simp [first, second]⟩, .inr ⟨by simp, by simp⟩, rfl⟩
  | @three a b c first second third n =>
      exact ⟨[a, b, c], n + 1, ⟨rfl, by simp [first, second, third]⟩, .inr ⟨by simp, by simp⟩, rfl⟩
  | @four a b c d rest K first second third fourth after ih =>
      obtain ⟨body, n, split, stops, rfl⟩ := ih
      have inside : ∀ x ∈ [a, b, c, d], InAlphabet x := by simp [first, second, third, fourth]
      exact ⟨_, n, split.four inside, (stops_four a b c d body n).mpr stops, rfl⟩

theorem Split.accepted {s body : List UInt8} {n : Nat} (split : Split s body n)
    (stops : Stops body n) : Accepted s (body.map group) := by
  obtain ⟨rfl, inside⟩ := split
  induction body using unsextets.induct with
  | case1 a b c d rest ih =>
      simp only [List.forall_mem_cons] at inside
      obtain ⟨first, second, third, fourth, others⟩ := inside
      exact .four first second third fourth (ih ((stops_four a b c d rest n).mp stops) others)
  | case2 a b c =>
      simp only [List.forall_mem_cons] at inside
      rcases stops with ⟨-, odd⟩ | ⟨some, -⟩
      · exact absurd odd (by simp)
      · obtain ⟨m, rfl⟩ := Nat.exists_eq_succ_of_ne_zero some
        exact .three inside.1 inside.2.1 inside.2.2.1 m
  | case3 a b =>
      simp only [List.forall_mem_cons] at inside
      rcases stops with ⟨-, odd⟩ | ⟨some, -⟩
      · exact absurd odd (by simp)
      · obtain ⟨m, rfl⟩ := Nat.exists_eq_succ_of_ne_zero some
        exact .two inside.1 inside.2.1 m
  | case4 body long three two =>
      rcases body with - | ⟨a, - | ⟨b, - | ⟨c, - | ⟨d, rest⟩⟩⟩⟩
      · rcases stops with ⟨rfl, -⟩ | ⟨-, some⟩
        · exact .nil
        · exact absurd some (by simp)
      · rcases stops with ⟨-, odd⟩ | ⟨-, some⟩
        · exact absurd odd (by simp)
        · exact absurd some (by simp)
      · exact absurd rfl (two a b)
      · exact absurd rfl (three a b c)
      · exact absurd rfl (long a b c d rest)

/-! ## The documented rule -/

theorem decode_accepted {s K : List UInt8} (accepted : Accepted s K) :
    decode s = .ok (unsextets K) := Decoder.runFrom_accepted accepted [] 0

theorem exists_decode_iff (s : List UInt8) :
    (∃ v, decode s = .ok v) ↔ ∃ body n, Split s body n ∧ Stops body n := by
  constructor
  · rintro ⟨v, decoded⟩
    obtain ⟨K, accepted⟩ := Decoder.accepted_of_runFrom decoded
    obtain ⟨body, n, split, stops, -⟩ := accepted.split
    exact ⟨body, n, split, stops⟩
  · rintro ⟨body, n, split, stops⟩
    exact ⟨_, decode_accepted (split.accepted stops)⟩

theorem Split.decoded {s body v : List UInt8} {n : Nat} (split : Split s body n)
    (stops : Stops body n) (decoded : decode s = .ok v) : v = unsextets (body.map group) :=
  Except.ok.inj (decoded.symm.trans (decode_accepted (split.accepted stops)))

/-- A multiple of four characters: of the alphabet, then at most two `=`. -/
def Padded (s : List UInt8) : Prop := s.length % 4 = 0 ∧ ∃ body n, Split s body n ∧ n ≤ 2

/-- Some `=` where a byte has been spelt, but not as many as fill the last group
of four. -/
def Mispadded (s : List UInt8) : Prop :=
  ∃ body n, Split s body n ∧ n ≠ 0 ∧ 2 ≤ body.length % 4 ∧ body.length % 4 + n ≠ 4

/-- `decode` takes the padded strings and no others, and gives the bytes that
their groups spell. -/
structure Decodes (s : List UInt8) : Prop where
  accepts : (∃ v, decode s = .ok v) ↔ Padded s
  rejects : ¬Padded s → decode s = .error .decodeError
  length : ∀ v, decode s = .ok v → v.length = 3 * s.length / 4 - s.count (ch '=')
  bits : ∀ v, decode s = .ok v → v.flatMap (bits 8) =
    ((s.filter (· ≠ ch '=')).flatMap fun c => Base64x.bits 6 (group c)).take (8 * v.length)

theorem Padded.stops {s : List UInt8} (padded : Padded s) :
    ∃ body n, Split s body n ∧ Stops body n := by
  obtain ⟨whole, body, n, split, few⟩ := padded
  rw [split.length_eq] at whole
  refine ⟨body, n, split, ?_⟩
  unfold Stops
  omega

/-- Where the padding is right, it fills the last group. -/
theorem Split.fills {s body : List UInt8} {n : Nat} (split : Split s body n)
    (fine : ¬Mispadded s) (stops : Stops body n) :
    (n = 0 ∧ body.length % 4 = 0) ∨ (2 ≤ body.length % 4 ∧ body.length % 4 + n = 4) := by
  rcases stops with none | ⟨some, long⟩
  · exact .inl none
  · by_contra unfilled
    have other : body.length % 4 + n ≠ 4 := fun same => unfilled (.inr ⟨long, same⟩)
    exact fine ⟨body, n, split, some, long, other⟩

theorem Mispadded.not_padded {s : List UInt8} (mis : Mispadded s) : ¬Padded s := by
  rintro ⟨whole, body', n', split', few⟩
  obtain ⟨body, n, split, some, long, unfilled⟩ := mis
  obtain rfl : body' = body := split'.body_eq.symm.trans split.body_eq
  obtain rfl : n' = n := split'.count_eq.symm.trans split.count_eq
  rw [split.length_eq] at whole
  omega

/-- The decoder keeps to its rule exactly on the strings whose padding, behind
characters that spell a byte, fills the last group. -/
theorem decodes_iff (s : List UInt8) : Decodes s ↔ ¬Mispadded s := by
  constructor
  · intro decodes mis
    have refused := mt decodes.accepts.mp mis.not_padded
    obtain ⟨body, n, split, some, long, -⟩ := mis
    exact refused ((exists_decode_iff s).mpr ⟨body, n, split, .inr ⟨some, long⟩⟩)
  · intro fine
    have accepts : (∃ v, decode s = .ok v) ↔ Padded s := by
      rw [exists_decode_iff]
      constructor
      · rintro ⟨body, n, split, stops⟩
        have fills := split.fills fine stops
        have len := split.length_eq
        exact ⟨by omega, body, n, split, by omega⟩
      · exact Padded.stops
    refine ⟨accepts, ?_, ?_, ?_⟩
    · intro other
      cases decoded : decode s with
      | ok v => exact absurd (accepts.mp ⟨v, decoded⟩) other
      | error e => rfl
    · intro v decoded
      obtain ⟨body, n, split, stops⟩ := (exists_decode_iff s).mp ⟨v, decoded⟩
      have fills := split.fills fine stops
      rw [split.decoded stops decoded, length_unsextets, List.length_map, split.count_eq,
        split.length_eq]
      omega
    · intro v decoded
      obtain ⟨body, n, split, stops⟩ := (exists_decode_iff s).mp ⟨v, decoded⟩
      have small : ∀ k ∈ body.map group, k < 64 := by
        intro k member
        obtain ⟨c, inside, rfl⟩ := List.mem_map.mp member
        exact (group_spec (split.inside c inside)).2.1
      rw [split.decoded stops decoded, bits_unsextets small, split.body_eq, List.flatMap_map]

/-- `QQ=` is taken for the byte `A`. -/
theorem not_decodes : ¬Decodes [ch 'Q', ch 'Q', ch '='] := by
  intro decodes
  have taken : decode [ch 'Q', ch 'Q', ch '='] = .ok [ch 'A'] := by decide
  obtain ⟨whole, -⟩ := decodes.accepts.mp ⟨_, taken⟩
  exact absurd whole (by decide)

end SidepoolFormal.Base64x
