import SidepoolFormal.Library.Machine
import SidepoolFormal.String.Code

/-!
# Growing the buffer

Both loops go round while the number returned says that the text did not fit.
`vsnprintf` returns the length of a text that did not fit, `std::strftime`
returns zero: the second loop never goes round.
-/

namespace SidepoolFormal.String

open Library StateTransition

/-! ## The two functions of C -/

/-- `vsnprintf`, with the arguments that expand to `text`. -/
structure Vsnprintf (text : List UInt8) (format : Format) : Prop where
  returns : ∀ buf, (format buf).2 = text.length
  writes : ∀ buf, text.length < buf.length → ∃ rest, (format buf).1 = text ++ 0 :: rest

/-- `std::strftime`, with the arguments that expand to `text`.  Of a buffer that
is too small only the size is known. -/
structure Strftime (text : List UInt8) (format : Format) : Prop where
  fits : ∀ buf, text.length < buf.length → ∃ rest, format buf = (text ++ 0 :: rest, text.length)
  overflows : ∀ buf, buf.length ≤ text.length → (format buf).2 = 0
  size : ∀ buf, (format buf).1.length = buf.length

/-! ## Buffers -/

@[simp]
theorem length_makeBuffer (size : Nat) : (makeBuffer size).length = size :=
  List.length_replicate

theorem ofBuffer_text {text : List UInt8} (nul : 0 ∉ text) (rest : List UInt8) :
    ofBuffer (text ++ 0 :: rest) = some text := by
  have kept : (text ++ 0 :: rest).takeWhile (· ≠ 0) = text := by
    rw [List.takeWhile_append_of_pos]
    · simp
    · intro c member
      have other : c ≠ 0 := ne_of_mem_of_not_mem member nul
      simpa using other
  rw [ofBuffer, if_pos (by simp), kept]

/-- A string in a buffer leaves room for its NUL. -/
theorem length_lt_of_ofBuffer {buf text : List UInt8} (read : ofBuffer buf = some text) :
    text.length < buf.length := by
  unfold ofBuffer at read
  split at read
  · rename_i member
    obtain rfl := Option.some.inj read
    induction buf with
    | nil => cases member
    | cons c rest ih =>
        by_cases zero : c = 0
        · simp [zero]
        · have later : 0 ∈ rest := (List.mem_cons.mp member).resolve_left (Ne.symm zero)
          have shorter := ih later
          simpa [zero] using shorter
  · cases read

/-! ## Once round -/

namespace Formatting

theorem init_body (format : Format) :
    init.body format = ⟨(format (makeBuffer 64)).2, 64, (format (makeBuffer 64)).1⟩ := rfl

theorem step_ends {format : Format} {l : Formatting} (fits : l.written < l.size) :
    step format l = none := if_neg (Nat.not_le.mpr fits)

theorem step_grows {format : Format} {l : Formatting} (full : l.size ≤ l.written) :
    step format l = some
      ⟨(format (makeBuffer (l.written + 1))).2, l.written + 1,
        (format (makeBuffer (l.written + 1))).1⟩ := by
  rw [step, if_pos full, body, if_pos full]

/-- The loop ends the first time round when what is returned says that the text
fitted. -/
theorem mem_loop_of_fits {format : Format} (fits : (format (makeBuffer 64)).2 < 64) :
    init.body format ∈ loop format :=
  mem_eval_stop (step_ends fits)

end Formatting

theorem vfmt_text {text : List UInt8} {vsnprintf : Format} (nul : 0 ∉ text)
    (spec : Vsnprintf text vsnprintf) : some text ∈ vfmt vsnprintf := by
  have first : (vsnprintf (makeBuffer 64)).2 = text.length := spec.returns _
  by_cases short : text.length < 64
  · obtain ⟨rest, filled⟩ := spec.writes (makeBuffer 64) (by simpa using short)
    have ends := Formatting.mem_loop_of_fits (first.trans_lt short)
    refine Part.mem_map_iff _ |>.mpr ⟨_, ends, ?_⟩
    rw [Formatting.init_body, filled]
    exact ofBuffer_text nul rest
  · -- The second buffer has just the size that the first call asked for.
    have room : text.length < (makeBuffer (text.length + 1)).length := by simp
    obtain ⟨rest, filled⟩ := spec.writes (makeBuffer (text.length + 1)) room
    have again : Formatting.step vsnprintf (Formatting.init.body vsnprintf) =
        some ⟨text.length, text.length + 1, text ++ 0 :: rest⟩ := by
      rw [Formatting.init_body, first, Formatting.step_grows (Nat.not_lt.mp short),
        spec.returns, filled]
    have ends : (⟨text.length, text.length + 1, text ++ 0 :: rest⟩ : Formatting) ∈
        Formatting.loop vsnprintf := by
      rw [Formatting.loop, eval_step again]
      exact mem_eval_stop (Formatting.step_ends (Nat.lt_succ_self _))
    exact (Part.mem_map_iff _).mpr ⟨_, ends, ofBuffer_text nul rest⟩

/-- The other loop goes round once, whatever the text. -/
theorem mem_strftime_iff {text : List UInt8} {stdStrftime : Format}
    (spec : Strftime text stdStrftime) (r : Option (List UInt8)) :
    r ∈ strftime stdStrftime ↔ r = ofBuffer (stdStrftime (makeBuffer 64)).1 := by
  have small : (stdStrftime (makeBuffer 64)).2 < 64 := by
    by_cases short : text.length < 64
    · obtain ⟨rest, same⟩ := spec.fits (makeBuffer 64) (by simpa using short)
      rw [same]
      exact short
    · rw [spec.overflows (makeBuffer 64) (by simpa using short)]
      decide
  have ends := Formatting.mem_loop_of_fits small
  constructor
  · intro member
    obtain ⟨l, final, rfl⟩ := (Part.mem_map_iff _).mp member
    rw [Part.mem_unique final ends]
    rfl
  · rintro rfl
    exact (Part.mem_map_iff _).mpr ⟨_, ends, rfl⟩

theorem strftime_text_iff {text : List UInt8} {stdStrftime : Format} (nul : 0 ∉ text)
    (spec : Strftime text stdStrftime) : some text ∈ strftime stdStrftime ↔ text.length < 64 := by
  rw [mem_strftime_iff spec]
  constructor
  · intro read
    have room := length_lt_of_ofBuffer read.symm
    rwa [spec.size, length_makeBuffer] at room
  · intro short
    obtain ⟨rest, same⟩ := spec.fits (makeBuffer 64) (by simpa using short)
    rw [same, ofBuffer_text nul]

/-- The loop over `vsnprintf` always ends with the expansion; that over
`std::strftime` does so exactly when the expansion fits into the first buffer. -/
theorem formats_iff {text : List UInt8} {vsnprintf stdStrftime : Format} (nul : 0 ∉ text)
    (v : Vsnprintf text vsnprintf) (s : Strftime text stdStrftime) :
    some text ∈ vfmt vsnprintf ∧
      (some text ∈ vfmt vsnprintf ∧ some text ∈ strftime stdStrftime ↔ text.length < 64) := by
  have formatted := vfmt_text nul v
  exact ⟨formatted, (and_iff_right formatted).trans (strftime_text_iff nul s)⟩

/-! ## Two such functions -/

def vsnprintfOf (text : List UInt8) : Format := fun buf =>
  let kept := text.take (buf.length - 1)
  (if buf = [] then [] else kept ++ 0 :: buf.drop (kept.length + 1), text.length)

/-- One that leaves too small a buffer as it is. -/
def strftimeOf (text : List UInt8) : Format := fun buf =>
  if text.length < buf.length then (text ++ 0 :: buf.drop (text.length + 1), text.length)
  else (buf, 0)

theorem vsnprintfOf_spec (text : List UInt8) : Vsnprintf text (vsnprintfOf text) where
  returns _ := rfl
  writes buf room := by
    have some : buf ≠ [] := List.ne_nil_of_length_pos (Nat.zero_lt_of_lt room)
    have whole : text.take (buf.length - 1) = text := List.take_of_length_le (by omega)
    exact ⟨_, by rw [vsnprintfOf, if_neg some, whole]⟩

theorem strftimeOf_spec (text : List UInt8) : Strftime text (strftimeOf text) where
  fits buf room := ⟨_, if_pos room⟩
  overflows buf full := by rw [strftimeOf, if_neg (Nat.not_lt.mpr full)]
  size buf := by
    unfold strftimeOf
    split
    · simp
      omega
    · rfl

/-- `"AAAAA"` fits. -/
theorem formats_short :
    some (List.replicate 5 0x41) ∈ vfmt (vsnprintfOf (List.replicate 5 0x41)) ∧
      some (List.replicate 5 0x41) ∈ strftime (strftimeOf (List.replicate 5 0x41)) := by
  have nul : (0 : UInt8) ∉ List.replicate 5 0x41 := by decide
  exact (formats_iff nul (vsnprintfOf_spec _) (strftimeOf_spec _)).2.mpr (by decide)

/-- A template of 64 times `A` is its own expansion, and does not come back from
`strftime`. -/
theorem not_formats_long :
    ¬(some (List.replicate 64 0x41) ∈ vfmt (vsnprintfOf (List.replicate 64 0x41)) ∧
      some (List.replicate 64 0x41) ∈ strftime (strftimeOf (List.replicate 64 0x41))) := by
  rintro ⟨-, returned⟩
  have short := (strftime_text_iff (by decide) (strftimeOf_spec _)).mp returned
  rw [List.length_replicate] at short
  exact absurd short (by decide)

end SidepoolFormal.String
