import Mathlib.Algebra.Order.Floor.Div
import Mathlib.Tactic.Common

/-!
# Cutting a list into chunks

A program that cuts a list into pieces of a most length often goes round twice: it counts
the pieces that the length asks for, and then makes that many pieces of nearly one length.
Both are divisions that round up, and `a ⌈/⌉ b ≤ c` and `a ⌈/⌉ c ≤ b` say the same, so the
pieces that come out are as many as were counted (`ceilDiv_ceilDiv_ceilDiv`).
-/

namespace EvansComputer

variable {α : Type*} {a b n : ℕ} {l : List α}

theorem ceilDiv_pos (ha : 0 < a) (hb : 0 < b) : 0 < a ⌈/⌉ b := by
  rw [Nat.pos_iff_ne_zero]
  intro hz
  have h : a ≤ b * 0 := (ceilDiv_le_iff_le_mul hb).mp hz.le
  omega

theorem le_mul_ceilDiv (hb : 0 < b) : a ≤ b * (a ⌈/⌉ b) := (ceilDiv_le_iff_le_mul hb).mp le_rfl

/-- **Counting, sharing out and counting again** gives the first count. -/
theorem ceilDiv_ceilDiv_ceilDiv (ha : 0 < a) (hb : 0 < b) : a ⌈/⌉ (a ⌈/⌉ (a ⌈/⌉ b)) = a ⌈/⌉ b := by
  have hc := ceilDiv_pos ha hb
  have hper : a ⌈/⌉ (a ⌈/⌉ b) ≤ b := by
    rw [ceilDiv_le_iff_le_mul hc, Nat.mul_comm]
    exact le_mul_ceilDiv hb
  have hpos := ceilDiv_pos ha hc
  apply le_antisymm
  · rw [ceilDiv_le_iff_le_mul hpos, Nat.mul_comm]
    exact le_mul_ceilDiv hc
  · rw [ceilDiv_le_iff_le_mul hb]
    exact (le_mul_ceilDiv hpos).trans (Nat.mul_le_mul_right _ hper)

/-- `chunks(n)`: pieces of length `n`, the last one perhaps shorter. -/
def chunks (n : ℕ) (l : List α) : List (List α) :=
  (List.range (l.length ⌈/⌉ n)).map fun i => (l.drop (i * n)).take n

@[simp] theorem length_chunks : (chunks n l).length = l.length ⌈/⌉ n := by
  rw [chunks, List.length_map, List.length_range]

/-- The first `k` chunks are the first `k * n` entries. -/
theorem flatten_take_chunks (k : ℕ) :
    ((List.range k).map fun i => (l.drop (i * n)).take n).flatten = l.take (k * n) := by
  induction k with
  | zero => simp
  | succ k ih =>
    rw [List.range_succ, List.map_append, List.flatten_append, ih, Nat.succ_mul, List.take_add]
    simp

/-- **The chunks make up the list.** -/
theorem flatten_chunks (hn : 0 < n) : (chunks n l).flatten = l := by
  rw [chunks, flatten_take_chunks, List.take_of_length_le]
  rw [Nat.mul_comm]
  exact le_mul_ceilDiv hn

/-- The first chunk, where the list begins with a whole one. -/
theorem chunks_append {c : List α} (hn : 0 < n) (hc : c.length = n) (l : List α) :
    chunks n (c ++ l) = c :: chunks n l := by
  have hcount : (c ++ l).length ⌈/⌉ n = l.length ⌈/⌉ n + 1 := by
    rw [List.length_append, hc, Nat.ceilDiv_eq_add_pred_div, Nat.ceilDiv_eq_add_pred_div,
      Nat.add_assoc, Nat.add_sub_assoc (by omega), Nat.add_div_left _ hn]
  rw [chunks, chunks, hcount, List.range_succ_eq_map, List.map_cons, List.map_map, Nat.zero_mul,
    List.drop_zero,
    List.take_left' hc]
  congr 1
  refine List.map_congr_left fun i _ => ?_
  rw [Function.comp_apply, Nat.succ_mul, Nat.add_comm, ← List.drop_drop, List.drop_left' hc]

/-- Pieces of one length are the chunks of what they make up. -/
theorem chunks_flatten {L : List (List α)} (hn : 0 < n) (h : ∀ c ∈ L, c.length = n) :
    chunks n L.flatten = L := by
  induction L with
  | nil => simp [chunks]
  | cons c L ih =>
    rw [List.flatten_cons, chunks_append hn (h c List.mem_cons_self),
      ih fun d hd => h d (List.mem_cons_of_mem _ hd)]

end EvansComputer
