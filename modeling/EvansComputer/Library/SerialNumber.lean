import Mathlib.Data.BitVec
import Mathlib.Tactic.Ring
import Mathlib.Tactic.Linarith

/-!
# Serial numbers on a ring of bit vectors

A serial number is a `w`-bit word read modulo `2 ^ w`; two of them are compared
by the sign of their wrapped difference.  The comparison is not an order, and
the only way to reason about it is to name a base and count from it: inside a
window of `2 ^ (w - 1)` positions around the base, the wrapped difference is the
difference of the counts.

`advance b n` is the word `n` places after the base `b`.  Everything a protocol
does with a serial number is then a statement about counts:

* `toNat_advance_sub` --- the unsigned distance is the difference of the counts;
* `toInt_advance_sub` --- the signed distance is too, in the half-open window
  where the sign bit is honest;
* `advance_inj` --- two counts closer than the modulus with the same word are
  the same count.

Every word is `advance b n` for the `n` of `exists_eq_advance`, so nothing is
lost by passing to counts.
-/

namespace EvansComputer.SerialNumber

variable {w : ℕ}

/-- The word `n` places after the base `b`. -/
def advance (b : BitVec w) (n : ℕ) : BitVec w := b + BitVec.ofNat w n

@[simp] theorem advance_zero (b : BitVec w) : advance b 0 = b := by
  simp [advance]

theorem advance_advance (b : BitVec w) (m n : ℕ) :
    advance (advance b m) n = advance b (m + n) := by
  simp [advance, BitVec.ofNat_add, add_assoc]

theorem add_ofNat_eq_advance (b : BitVec w) (n : ℕ) :
    b + BitVec.ofNat w n = advance b n := rfl

/-- Every word is some number of places after the base, and the wrapped
difference is that number. -/
theorem exists_eq_advance (b a : BitVec w) : advance b (a - b).toNat = a := by
  rw [advance, BitVec.ofNat_toNat, BitVec.setWidth_eq, add_comm, BitVec.sub_add_cancel]

/-- **The unsigned distance between two counts**, the later one first, as long
as they are closer than the modulus. -/
theorem toNat_advance_sub {b : BitVec w} {m n : ℕ} (hnm : n ≤ m) (hlt : m - n < 2 ^ w) :
    (advance b m - advance b n).toNat = m - n := by
  have h : advance b m = advance (advance b n) (m - n) := by
    rw [advance_advance, Nat.add_sub_cancel' hnm]
  rw [h, advance, add_comm, BitVec.add_sub_cancel, BitVec.toNat_ofNat, Nat.mod_eq_of_lt hlt]

theorem toNat_advance_sub_self {b : BitVec w} {m : ℕ} (hlt : m < 2 ^ w) :
    (advance b m - b).toNat = m := by
  simpa using toNat_advance_sub (b := b) (Nat.zero_le m) hlt

/-- **The signed distance between two counts**: in the half-open window where
the sign bit is honest, it is the difference of the counts as integers. -/
theorem toInt_advance_sub {b : BitVec w} {m n : ℕ} (hw : 0 < w)
    (hlo : n ≤ m + 2 ^ (w - 1)) (hhi : m < n + 2 ^ (w - 1)) :
    (advance b m - advance b n).toInt = (m : ℤ) - n := by
  have hpow : 2 ^ w = 2 * 2 ^ (w - 1) := by
    rw [← pow_succ', Nat.sub_add_cancel hw]
  rw [BitVec.toInt_eq_toNat_cond]
  rcases Nat.lt_or_ge m n with hmn | hmn
  · -- the earlier minus the later: the word is `2 ^ w` short of the distance
    have hsub : advance b m - advance b n = -(advance b n - advance b m) :=
      (neg_sub _ _).symm
    have hd : (advance b n - advance b m).toNat = n - m :=
      toNat_advance_sub (Nat.le_of_lt hmn) (by omega)
    have hval : (advance b m - advance b n).toNat = 2 ^ w - (n - m) := by
      rw [hsub, BitVec.toNat_neg, hd, Nat.mod_eq_of_lt (by omega)]
    rw [hval, if_neg (by omega)]
    have hle : n - m ≤ 2 ^ w := by omega
    rw [Nat.cast_sub hle]
    push_cast [Nat.le_of_lt hmn]
    ring
  · have hd : (advance b m - advance b n).toNat = m - n :=
      toNat_advance_sub hmn (by omega)
    rw [hd, if_pos (by omega)]
    omega

/-- Two counts closer than the modulus with the same word are the same count. -/
theorem advance_inj {b : BitVec w} {m n : ℕ} (hm : m < n + 2 ^ w) (hn : n < m + 2 ^ w) :
    advance b m = advance b n ↔ m = n := by
  constructor
  · intro h
    rcases Nat.le_total n m with hle | hle
    · have hd := toNat_advance_sub (b := b) hle (by omega)
      rw [h] at hd
      simp at hd
      omega
    · have hd := toNat_advance_sub (b := b) hle (by omega)
      rw [h] at hd
      simp at hd
      omega
  · rintro rfl
    rfl

end EvansComputer.SerialNumber
