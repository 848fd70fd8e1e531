import EvansComputer.Library.Buffer
import Mathlib.Data.ZMod.Basic

/-!
# Sums with an end-around carry

A checksum in one's complement adds words and brings every carry out of the top
back in at the bottom.  Bringing a carry back in changes the sum by a multiple of
`b - 1`, where `b` is the number of words, so such a sum is a residue modulo
`b - 1` together with the fact whether it is zero as a number: the residue zero
has two words, `0` and `b - 1`.

The words are read from a buffer of digits, the high digit of a word first.
`weight` is their sum before any carry.  It is additive over concatenation once
it knows which half of a word a buffer starts with, so a copy into the buffer
changes it by the difference of what was there and what is written, wherever the
copy starts.
-/

namespace EvansComputer

/-! ## Carries -/

/-- Bringing the carry back in keeps the residue. -/
theorem cast_carry {b : ℕ} (hb : 0 < b) (s : ℕ) :
    ((s % b + s / b : ℕ) : ZMod (b - 1)) = s := by
  have hone : ((b : ℕ) : ZMod (b - 1)) = 1 := by
    have hsum : ((b - 1 + 1 : ℕ) : ZMod (b - 1)) = 1 := by
      rw [Nat.cast_add, ZMod.natCast_self, zero_add, Nat.cast_one]
    rwa [Nat.sub_add_cancel hb] at hsum
  calc ((s % b + s / b : ℕ) : ZMod (b - 1))
      = ((b : ℕ) : ZMod (b - 1)) * ((s / b : ℕ) : ZMod (b - 1)) + ((s % b : ℕ) : ZMod (b - 1)) := by
        rw [hone, one_mul, Nat.cast_add, add_comm]
    _ = ((b * (s / b) + s % b : ℕ) : ZMod (b - 1)) := by rw [Nat.cast_add, Nat.cast_mul]
    _ = s := by rw [Nat.div_add_mod]

/-- Bringing the carry back in never makes a sum zero. -/
theorem carry_eq_zero_iff {b s : ℕ} : s % b + s / b = 0 ↔ s = 0 := by
  constructor
  · intro h
    have hdiv := Nat.div_add_mod s b
    rw [Nat.add_eq_zero_iff] at h
    rw [h.1, h.2, Nat.mul_zero] at hdiv
    exact hdiv.symm
  · rintro rfl
    simp

/-- Among the words other than zero, a residue has one. -/
theorem eq_of_cast_eq_of_pos {m x y : ℕ} (hx : 0 < x) (hxm : x ≤ m) (hy : 0 < y) (hym : y ≤ m)
    (h : (x : ZMod m) = y) : x = y := by
  have hmod : x ≡ y [MOD m] := (ZMod.natCast_eq_natCast_iff x y m).mp h
  rcases Nat.lt_or_eq_of_le hxm with hlt | rfl
  · rcases Nat.lt_or_eq_of_le hym with hlt' | rfl
    · exact Nat.ModEq.eq_of_lt_of_lt hmod hlt hlt'
    · unfold Nat.ModEq at hmod
      rw [Nat.mod_self, Nat.mod_eq_of_lt hlt] at hmod
      omega
  · rcases Nat.lt_or_eq_of_le hym with hlt' | rfl
    · unfold Nat.ModEq at hmod
      rw [Nat.mod_self, Nat.mod_eq_of_lt hlt'] at hmod
      omega
    · rfl

/-- Among the words other than the largest, a residue has one. -/
theorem eq_of_cast_eq_of_lt {m x y : ℕ} (hx : x < m) (hy : y < m) (h : (x : ZMod m) = y) :
    x = y :=
  Nat.ModEq.eq_of_lt_of_lt ((ZMod.natCast_eq_natCast_iff x y m).mp h) hx hy

/-! ## The weight of a buffer -/

section Weight

variable {α : Type*} (val : α → ℕ) (b : ℕ)

/-- The sum of the words of a buffer whose first digit is the high (`true`) or
the low (`false`) one of its word. -/
def weightFrom : Bool → List α → ℕ
  | _, [] => 0
  | true, x :: l => val x * b + weightFrom false l
  | false, x :: l => val x + weightFrom true l

@[simp] theorem weightFrom_nil (hi : Bool) : weightFrom val b hi [] = 0 := by
  cases hi <;> rfl

/-- Which half of a word stands `n` digits further on. -/
def halfAfter (hi : Bool) (n : ℕ) : Bool := if n % 2 = 0 then hi else !hi

@[simp] theorem halfAfter_even {hi : Bool} {n : ℕ} (h : n % 2 = 0) : halfAfter hi n = hi := if_pos h

theorem halfAfter_succ (hi : Bool) (n : ℕ) : halfAfter (!hi) n = halfAfter hi (n + 1) := by
  unfold halfAfter
  rcases Nat.mod_two_eq_zero_or_one n with h | h
  · rw [if_pos h, if_neg (by omega)]
  · rw [if_neg (by omega), if_pos (by omega), Bool.not_not]

/-- **Weights add.** -/
theorem weightFrom_append (hi : Bool) (l l' : List α) :
    weightFrom val b hi (l ++ l') =
      weightFrom val b hi l + weightFrom val b (halfAfter hi l.length) l' := by
  induction l generalizing hi with
  | nil => simp [halfAfter]
  | cons x l ih =>
    cases hi
    · rw [List.cons_append, weightFrom, weightFrom, ih, List.length_cons, ← halfAfter_succ,
        Bool.not_false]
      omega
    · rw [List.cons_append, weightFrom, weightFrom, ih, List.length_cons, ← halfAfter_succ,
        Bool.not_true]
      omega

/-- A copy changes the weight by what it replaces. -/
theorem weightFrom_overwrite (hi : Bool) {l d : List α} {i : ℕ} (h : i + d.length ≤ l.length) :
    weightFrom val b hi (overwrite l i d) +
        weightFrom val b (halfAfter hi i) ((l.drop i).take d.length) =
      weightFrom val b hi l + weightFrom val b (halfAfter hi i) d := by
  have hcut : l = l.take i ++ ((l.drop i).take d.length ++ l.drop (i + d.length)) := by
    rw [← List.drop_drop, List.take_append_drop, List.take_append_drop]
  have hlen : (l.take i).length = i := by rw [List.length_take]; omega
  have hmid : ((l.drop i).take d.length).length = d.length := by
    rw [List.length_take, List.length_drop]; omega
  have hold : weightFrom val b hi l = weightFrom val b hi (l.take i) +
      (weightFrom val b (halfAfter hi i) ((l.drop i).take d.length) +
        weightFrom val b (halfAfter (halfAfter hi i) d.length) (l.drop (i + d.length))) := by
    conv_lhs => rw [hcut]
    rw [weightFrom_append, weightFrom_append, hlen, hmid]
  rw [hold, overwrite, List.append_assoc, weightFrom_append, weightFrom_append, hlen]
  omega

end Weight

end EvansComputer
