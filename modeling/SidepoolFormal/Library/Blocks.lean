import Mathlib.Data.List.Basic
import Mathlib.Data.Nat.Basic
import Mathlib.Order.Basic

/-!
# Taking input block by block

An iterated function takes its input in blocks of `n` symbols and keeps what
does not fill a block for later.  So the input may come in parts of any length.
-/

namespace SidepoolFormal.Library

variable {S β : Type} (f : S → List β → S) (n : Nat)

/-- The first `k` blocks, and what is left behind them. -/
def chainBlocks : Nat → S → List β → S × List β
  | 0, s, l => (s, l)
  | k + 1, s, l => chainBlocks k (f s (l.take n)) (l.drop n)

/-- All blocks that the input fills, and the rest. -/
def chain (s : S) (l : List β) : S × List β := chainBlocks f n (l.length / n) s l

variable {f n} {l m : List β}

theorem chain_of_lt (s : S) (short : l.length < n) : chain f n s l = (s, l) := by
  rw [chain, Nat.div_eq_of_lt short, chainBlocks]

theorem chain_of_le (s : S) (pos : 0 < n) (filled : n ≤ l.length) :
    chain f n s l = chain f n (f s (l.take n)) (l.drop n) := by
  have blocks : l.length / n = (l.length - n) / n + 1 := Nat.div_eq_sub_div pos filled
  rw [chain, chain, blocks, chainBlocks, List.length_drop]

/-- One block exactly. -/
theorem chain_of_eq (s : S) (pos : 0 < n) (filled : l.length = n) :
    chain f n s l = (f s l, []) := by
  rw [chain_of_le s pos filled.ge, List.take_of_length_le filled.le,
    List.drop_of_length_le filled.le, chain_of_lt _ pos]

theorem length_drop_lt (pos : 0 < n) (filled : n ≤ l.length) : (l.drop n).length < l.length := by
  rw [List.length_drop]
  omega

theorem length_chain (s : S) (pos : 0 < n) (l : List β) :
    (chain f n s l).2.length = l.length % n := by
  induction h : l.length using Nat.strong_induction_on generalizing s l with
  | _ length ih =>
      subst h
      by_cases short : l.length < n
      · rw [chain_of_lt s short, Nat.mod_eq_of_lt short]
      · have filled : n ≤ l.length := Nat.le_of_not_lt short
        rw [chain_of_le s pos filled, ih _ (length_drop_lt pos filled) _ _ rfl, List.length_drop,
          ← Nat.mod_eq_sub_mod filled]

/-- The next part is appended to the rest. -/
theorem chain_append (s : S) (pos : 0 < n) (l m : List β) :
    chain f n s (l ++ m) = chain f n (chain f n s l).1 ((chain f n s l).2 ++ m) := by
  induction h : l.length using Nat.strong_induction_on generalizing s l with
  | _ length ih =>
      subst h
      by_cases short : l.length < n
      · rw [chain_of_lt s short]
      · have filled : n ≤ l.length := Nat.le_of_not_lt short
        have whole : n ≤ (l ++ m).length := by
          rw [List.length_append]
          omega
        rw [chain_of_le s pos whole, chain_of_le s pos filled, List.take_append_of_le_length filled,
          List.drop_append_of_le_length filled, ih _ (length_drop_lt pos filled) _ _ rfl]

end SidepoolFormal.Library
