import EvansComputer.Net.Types
import Mathlib.Data.Nat.Bitwise
import Mathlib.Tactic.IntervalCases

/-!
# Network masks as arithmetic

The network of an address is computed with a 32-bit mask.  On the big-endian
word of the address it is a division: the low `32 - len` bits are dropped.
Every later fact about networks and prefixes is arithmetic on `word`.
-/

namespace EvansComputer.Ipv4Addr

/-- The big-endian word of an address, as a number. -/
def word (ip : Ipv4Addr) : ℕ := ip.toU32.toNat

theorem word_lt (ip : Ipv4Addr) : ip.word < 2 ^ 32 := ip.toU32.toNat_lt

theorem word_eq (ip : Ipv4Addr) :
    ip.word = ((ip.a.toNat * 256 + ip.b.toNat) * 256 + ip.c.toNat) * 256 + ip.d.toNat := by
  have ha := ip.a.toNat_lt; have hb := ip.b.toNat_lt
  have hc := ip.c.toNat_lt; have hd := ip.d.toNat_lt
  simp only [word, toU32, u32FromBe, UInt32.toNat_ofNat']
  omega

theorem word_injective : Function.Injective word :=
  fun _ _ h => toU32_injective (UInt32.toNat_inj.mp h)

/-- The word of an address read from a word. -/
theorem word_fromU32 (v : UInt32) : (fromU32 v).word = v.toNat := by
  have h := u32FromBe_u32ToBe v
  simp only [word, toU32, fromU32, fromBytes, u32ToBe, List.getD_cons_zero, List.getD_cons_succ]
  rw [h]

/-- The mask of a prefix of at most 32 bits. -/
theorem word_maskFromPrefix {len : UInt8} (h : len.toNat ≤ 32) :
    (maskFromPrefix len).word = 2 ^ 32 - 2 ^ (32 - len.toNat) := by
  obtain ⟨k, hk, rfl⟩ : ∃ k ≤ 32, len = UInt8.ofNat k := ⟨len.toNat, h, UInt8.ofNat_toNat.symm⟩
  interval_cases k <;> rfl

/-- A mask with its low `k` bits zero drops the low `k` bits. -/
theorem and_mask {x k : ℕ} (hx : x < 2 ^ 32) (hk : k ≤ 32) :
    x &&& (2 ^ 32 - 2 ^ k) = x / 2 ^ k * 2 ^ k := by
  have hmask : 2 ^ 32 - 2 ^ k = (2 ^ (32 - k) - 1) * 2 ^ k := by
    rw [Nat.sub_mul, ← Nat.pow_add, Nat.sub_add_cancel hk, Nat.one_mul]
  apply Nat.eq_of_testBit_eq
  intro i
  rw [hmask, Nat.testBit_and, Nat.testBit_mul_two_pow, Nat.testBit_mul_two_pow,
    Nat.testBit_two_pow_sub_one, Nat.testBit_div_two_pow]
  by_cases hki : k ≤ i
  · rw [Nat.sub_add_cancel hki]
    by_cases hi : i < 32
    · simp only [hki, decide_true, Bool.true_and, decide_eq_true (by omega : i - k < 32 - k),
        Bool.and_true]
    · rw [Nat.testBit_lt_two_pow (Nat.lt_of_lt_of_le hx (Nat.pow_le_pow_right (by omega)
        (by omega)))]
      simp only [Bool.false_and, Bool.and_false]
  · simp only [hki, decide_false, Bool.false_and, Bool.and_false]

/-- **The network of an address**: its low bits dropped. -/
theorem word_networkAddr (ip : Ipv4Addr) {len : UInt8} (h : len.toNat ≤ 32) :
    (ip.networkAddr len).word = ip.word / 2 ^ (32 - len.toNat) * 2 ^ (32 - len.toNat) := by
  have hmask : (maskFromPrefix len).toU32.toNat = _ := word_maskFromPrefix h
  rw [networkAddr, word_fromU32, UInt32.toNat_and, hmask]
  exact and_mask ip.word_lt (by omega)

/-- The network of a network of at least as many bits. -/
theorem div_mul_div_mul {x j k : ℕ} (hjk : j ≤ k) :
    x / 2 ^ j * 2 ^ j / 2 ^ k * 2 ^ k = x / 2 ^ k * 2 ^ k := by
  obtain ⟨d, rfl⟩ := Nat.exists_eq_add_of_le hjk
  rw [Nat.pow_add, ← Nat.div_div_eq_div_mul, Nat.mul_div_cancel _ (Nat.two_pow_pos j),
    Nat.div_div_eq_div_mul]

end EvansComputer.Ipv4Addr
