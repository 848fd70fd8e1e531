import Mathlib.RingTheory.AdjoinRoot
import Mathlib.Algebra.Field.ZMod

/-!
# Division by a shift register

A cyclic check is the remainder of a message modulo a polynomial over the field with two
elements.  Bits are read with the first one as the highest coefficient.  A register of `w`
bits is the remainder so far: one step multiplies it by `X`, and takes the divisor off
whenever a bit leaves at the top.

Whether the top of a register is its low or its high end is a matter of wiring, and nothing
else here depends on it.  What is said of registers is an equation in the quotient ring,
where a step is a multiplication by `X`.
-/

namespace EvansComputer

open Polynomial

/-! ## Bits as polynomials -/

/-- Bits as coefficients, the highest one first. -/
noncomputable def ofBits : List Bool → (ZMod 2)[X]
  | [] => 0
  | b :: l => C (b.toNat : ZMod 2) * X ^ l.length + ofBits l

theorem ofBits_append (k l : List Bool) : ofBits (k ++ l) = ofBits k * X ^ l.length + ofBits l := by
  induction k with
  | nil => simp [ofBits]
  | cons b k ih =>
    rw [List.cons_append, ofBits, ofBits, ih, List.length_append]
    ring

theorem ofBits_replicate_false (n : ℕ) : ofBits (List.replicate n false) = 0 := by
  induction n with
  | zero => rfl
  | succ n ih => simp [List.replicate_succ, ofBits, ih]

theorem ofBits_map_xor {α : Type*} (f g : α → Bool) (l : List α) :
    ofBits (l.map fun i => f i ^^ g i) = ofBits (l.map f) + ofBits (l.map g) := by
  induction l with
  | nil => simp [ofBits]
  | cons a l ih =>
    have hbit :
      (((f a ^^ g a).toNat : ℕ) : ZMod 2) = ((f a).toNat : ZMod 2) + ((g a).toNat : ZMod 2) := by
      cases f a <;> cases g a <;> decide
    rw [List.map_cons, List.map_cons, List.map_cons, ofBits, ofBits, ofBits, ih, hbit, C_add]
    simp only [List.length_map]
    ring

theorem degree_ofBits_lt (l : List Bool) : (ofBits l).degree < l.length := by
  induction l with
  | nil => simp [ofBits]
  | cons b l ih =>
    rw [ofBits, List.length_cons]
    refine (degree_add_le _ _).trans_lt (max_lt ?_ (ih.trans ?_))
    · exact (degree_C_mul_X_pow_le _ _).trans_lt (by exact_mod_cast Nat.lt_succ_self l.length)
    · exact_mod_cast Nat.lt_succ_self l.length

theorem ofBits_injective {k l : List Bool} (hlen : k.length = l.length) (h : ofBits k = ofBits l) :
    k = l := by
  induction k generalizing l with
  | nil => exact (List.length_eq_zero_iff.mp hlen.symm).symm
  | cons b k ih =>
    obtain _ | ⟨c, l⟩ := l
    · simp at hlen
    have hlen' : k.length = l.length := Nat.succ.inj hlen
    have htop := congrArg (coeff · l.length) h
    have hlow : ∀ m : List Bool, m.length = l.length → (ofBits m).coeff l.length = 0 := fun m hm =>
      coeff_eq_zero_of_degree_lt (hm ▸ degree_ofBits_lt m)
    simp only [ofBits, hlen', coeff_add, coeff_C_mul_X_pow, if_true, hlow k hlen', hlow l rfl,
      add_zero] at htop
    have hbc : b = c := by
      revert htop
      cases b <;> cases c <;> decide
    subst hbc
    simp only [ofBits, hlen', add_right_inj] at h
    rw [ih hlen' h]

/-! ## Wirings -/

/-- Which end of a register is its top: its bits from there on, and what a shift is. -/
structure Wiring (w : ℕ) where
  bit : BitVec w → ℕ → Bool
  shift : BitVec w → ℕ → BitVec w
  bit_shift : ∀ c k i, bit (shift c k) i = bit c (k + i)
  bit_xor : ∀ c d i, bit (c ^^^ d) i = (bit c i ^^ bit d i)
  bit_of_le : ∀ c i, w ≤ i → bit c i = false
  ext : ∀ c d, (∀ i < w, bit c i = bit d i) → c = d

/-- The low end is the top. -/
def lowFirst (w : ℕ) : Wiring w where
  bit c i := c.getLsbD i
  shift c k := c >>> k
  bit_shift := BitVec.getLsbD_ushiftRight
  bit_xor _ _ _ := BitVec.getLsbD_xor
  bit_of_le := BitVec.getLsbD_of_ge
  ext _ _ := BitVec.eq_of_getLsbD_eq

/-- The high end is the top. -/
def highFirst (w : ℕ) : Wiring w where
  bit c i := c.getMsbD i
  shift c k := c <<< k
  bit_shift c k i := by rw [BitVec.getMsbD_shiftLeft, Nat.add_comm]
  bit_xor _ _ _ := BitVec.getMsbD_xor
  bit_of_le := BitVec.getMsbD_of_ge
  ext _ _ := BitVec.eq_of_getMsbD_eq

namespace Wiring

variable {w : ℕ} (W : Wiring w)

/-- The bits of a register, from its top on. -/
def bits (c : BitVec w) : List Bool := (List.range w).map (W.bit c)

/-- The register as a polynomial. -/
noncomputable def read (c : BitVec w) : (ZMod 2)[X] := ofBits (W.bits c)

/-- What a register with these feedback bits divides by. -/
noncomputable def divisor (p : BitVec w) : (ZMod 2)[X] := X ^ w + W.read p

/-- One step of the division. -/
def step (p c : BitVec w) : BitVec w := if W.bit c 0 then W.shift c 1 ^^^ p else W.shift c 1

theorem length_bits (c : BitVec w) :
    (W.bits c).length = w := by rw [bits, List.length_map, List.length_range]

theorem degree_read_lt (c : BitVec w) : (W.read c).degree < w := by
  have h := degree_ofBits_lt (W.bits c)
  rwa [length_bits] at h

theorem bits_injective {c d : BitVec w} (h : W.bits c = W.bits d) : c = d := by
  refine W.ext c d fun i hi => ?_
  exact List.map_inj_left.mp h i (List.mem_range.mpr hi)

theorem read_injective {c d : BitVec w} (h : W.read c = W.read d) : c = d :=
  W.bits_injective (ofBits_injective (by rw [length_bits, length_bits]) h)

theorem read_xor (c d : BitVec w) : W.read (c ^^^ d) = W.read c + W.read d := by
  rw [read, read, read, bits, bits, bits, ← ofBits_map_xor]
  exact congrArg ofBits (List.map_congr_left fun i _ => W.bit_xor c d i)

theorem monic_divisor (p : BitVec w) : (W.divisor p).Monic :=
  monic_X_pow_add (W.degree_read_lt p)

theorem degree_divisor (p : BitVec w) : (W.divisor p).degree = w := by
  rw [divisor, degree_add_eq_left_of_degree_lt]
  · exact degree_X_pow w
  · rw [degree_X_pow]
    exact W.degree_read_lt p

/-- What a shift takes out of the register, and what it leaves there. -/
theorem shift_out {k : ℕ} (hk : k ≤ w) (c : BitVec w) :
    X ^ k * W.read c = ofBits ((List.range k).map (W.bit c)) * X ^ w + W.read (W.shift c k) := by
  obtain ⟨v, rfl⟩ := Nat.exists_eq_add_of_le hk
  have hc : W.bits c = (List.range k).map (W.bit c) ++ (List.range v).map fun i =>
    W.bit c (k + i) := by
    rw [bits, List.range_add, List.map_append, List.map_map]
    rfl
  have hs : W.bits (W.shift c k) = ((List.range v).map fun i => W.bit c (k + i)) ++
    List.replicate k false := by
    have hrange : List.range (k + v) = List.range v ++ (List.range k).map (v + ·) := by
      rw [Nat.add_comm, List.range_add]
    rw [bits, hrange, List.map_append, List.map_map]
    congr 1
    · exact List.map_congr_left fun i _ => W.bit_shift c k i
    · refine List.eq_replicate_iff.mpr ⟨by simp, fun b hb => ?_⟩
      obtain ⟨i, -, rfl⟩ := List.mem_map.mp hb
      rw [Function.comp_apply, W.bit_shift]
      exact W.bit_of_le c _ (by omega)
  rw [read, read, hc, hs, ofBits_append, ofBits_append, ofBits_replicate_false, List.length_map,
    List.length_range,
    List.length_replicate]
  ring

/-! ## The register in the quotient -/

/-- Registers that agree in the quotient are remainders. -/
theorem read_eq_modByMonic {p c : BitVec w} {q : (ZMod 2)[X]}
    (h : AdjoinRoot.mk (W.divisor p) (W.read c) = AdjoinRoot.mk (W.divisor p) q) :
    W.read c = q %ₘ W.divisor p := by
  rw [← modByMonic_eq_of_dvd_sub (W.monic_divisor p) (AdjoinRoot.mk_eq_mk.mp h), eq_comm,
    modByMonic_eq_self_iff (W.monic_divisor p), degree_divisor]
  exact W.degree_read_lt c

variable (p : BitVec w)

/-- A step multiplies by `X`. -/
theorem mk_read_step (hw : 0 < w) (c : BitVec w) :
    AdjoinRoot.mk (W.divisor p) (W.read (W.step p c)) = AdjoinRoot.mk (W.divisor p)
      (X * W.read c) := by
  have hout := W.shift_out hw c
  rw [pow_one] at hout
  rw [hout, AdjoinRoot.mk_eq_mk, step]
  cases hb : W.bit c 0 with
  | false => simp [ofBits, hb]
  | true =>
    have htop : ofBits ((List.range 1).map (W.bit c)) = 1 := by simp [ofBits, hb]
    refine ⟨1, ?_⟩
    calc W.read (W.shift c 1 ^^^ p) - (ofBits ((List.range 1).map (W.bit c)) * X ^ w + W.read (W.shift c 1))
        = W.divisor p + (W.read (W.shift c 1) + W.read (W.shift c 1)) := by
          rw [htop, read_xor, CharTwo.sub_eq_add, divisor]
          ring
      _ = W.divisor p * 1 := by rw [CharTwo.add_self_eq_zero, add_zero, mul_one]

theorem mk_read_steps (hw : 0 < w) (k : ℕ) (c : BitVec w) :
    AdjoinRoot.mk (W.divisor p) (W.read ((W.step p)^[k] c)) = AdjoinRoot.mk (W.divisor p)
      (X ^ k * W.read c) := by
  induction k with
  | zero => rw [Function.iterate_zero_apply, pow_zero, one_mul]
  | succ k ih =>
    rw [Function.iterate_succ_apply', mk_read_step W p hw, map_mul, ih, ← map_mul,
      pow_succ', mul_assoc]

/-- A chunk of bits taken in at once: the steps are taken over its sum with the top of the
register alone, and the rest of the register is shifted. -/
theorem mk_read_chunk {k : ℕ} (hk : 0 < k) (hkw : k ≤ w) {c e : BitVec w} {b : ℕ → Bool}
    (he : ∀ i < w, W.bit e i = (decide (i < k) && (W.bit c i ^^ b i))) :
    AdjoinRoot.mk (W.divisor p) (W.read (W.shift c k ^^^ (W.step p)^[k] e)) =
      AdjoinRoot.mk (W.divisor p) (X ^ k * W.read c + X ^ w * ofBits ((List.range k).map b)) := by
  have hshift : W.read (W.shift e k) = 0 := by
    refine (congrArg ofBits (List.eq_replicate_iff.mpr ⟨W.length_bits _, fun d hd => ?_⟩)).trans
      (ofBits_replicate_false w)
    obtain ⟨i, hi, rfl⟩ := List.mem_map.mp hd
    rw [W.bit_shift]
    by_cases hw : k + i < w
    · rw [he _ hw, decide_eq_false (by omega), Bool.false_and]
    · exact W.bit_of_le e _ (by omega)
  have htop : (List.range k).map (W.bit e) = (List.range k).map fun i => W.bit c i ^^ b i := by
    refine List.map_congr_left fun i hi => ?_
    have hik := List.mem_range.mp hi
    rw [he i (hik.trans_le hkw), decide_eq_true hik, Bool.true_and]
  have hsum : W.read (W.shift c k) + X ^ k * W.read e =
      X ^ k * W.read c + X ^ w * ofBits ((List.range k).map b) := by
    rw [W.shift_out hkw e, W.shift_out hkw c, hshift, htop, ofBits_map_xor]
    ring
  rw [read_xor, map_add, mk_read_steps W p (hk.trans_le hkw), ← map_add, hsum]

/-! ## Messages -/

/-- A whole message, where every piece is taken in as a chunk. -/
theorem read_foldl {α ρ : Type*} (r : ρ → BitVec w) {bits : α → List Bool} {f : ρ → α → ρ}
    (hf : ∀ c b, AdjoinRoot.mk (W.divisor p) (W.read (r (f c b))) =
      AdjoinRoot.mk (W.divisor p) (X ^ (bits b).length * W.read (r c) + X ^ w * ofBits (bits b)))
    (l : List α) (c : ρ) : W.read (r (l.foldl f c)) =
      (X ^ (l.flatMap bits).length * W.read (r c) + X ^ w * ofBits (l.flatMap bits)) %ₘ
        W.divisor p := by
  apply W.read_eq_modByMonic
  induction l generalizing c with
  | nil => simp [ofBits]
  | cons b l ih =>
    rw [List.foldl_cons, ih, map_add, map_mul, hf, ← map_mul, ← map_add, List.flatMap_cons,
      ofBits_append,
      List.length_append]
    exact congrArg _ (by ring)

variable {p} (hp : W.bit p (w - 1) = true) (hw : 0 < w)
include hp hw

/-- With its last bit set the divisor does not have `X` as a factor. -/
theorem isCoprime_X_divisor : IsCoprime X (W.divisor p) := by
  obtain ⟨v, rfl⟩ := Nat.exists_eq_succ_of_ne_zero hw.ne'
  have hbits : W.bits p = (List.range v).map (W.bit p) ++ [true] := by
    have hrange : List.range v.succ = List.range v ++ [v] := List.range_succ
    rw [bits, hrange, List.map_append, List.map_singleton]
    exact congrArg (_ ++ [·]) hp
  rw [irreducible_X.coprime_iff_not_dvd, X_dvd_iff, divisor, read, hbits, ofBits_append]
  simp [ofBits, coeff_X_pow]

/-- So powers of `X` cancel, and a remainder they take to zero is zero. -/
theorem eq_zero_of_dvd_pow_mul {n : ℕ} {q : (ZMod 2)[X]} (hq : q.degree < w)
    (h : W.divisor p ∣ X ^ n * q) : q = 0 := by
  refine eq_zero_of_dvd_of_degree_lt
    ((W.isCoprime_X_divisor hp hw).symm.pow_right.dvd_of_dvd_mul_left h) ?_
  rwa [degree_divisor]

/-- A burst that is no longer than the register changes the remainder. -/
theorem burst {a u v b : List Bool} {r : (ZMod 2)[X]} (hlen : u.length = v.length)
    (hu : u.length ≤ w) (h : (r + X ^ w * ofBits (a ++ u ++ b)) %ₘ W.divisor p =
      (r + X ^ w * ofBits (a ++ v ++ b)) %ₘ W.divisor p) :
    u = v := by
  have hsub : W.divisor p ∣ X ^ (w + b.length) * (ofBits u - ofBits v) := by
    have hdvd := (modByMonic_eq_zero_iff_dvd (W.monic_divisor p)).mp
      ((sub_modByMonic _ _ _).trans (sub_eq_zero.mpr h))
    rw [ofBits_append, ofBits_append, ofBits_append, ofBits_append, hlen] at hdvd
    convert hdvd using 1
    ring
  have hdeg : (ofBits u - ofBits v).degree < w :=
    (degree_sub_le _ _).trans_lt (max_lt ((degree_ofBits_lt u).trans_le (by exact_mod_cast hu))
      ((degree_ofBits_lt v).trans_le (by exact_mod_cast hlen ▸ hu)))
  exact ofBits_injective hlen (sub_eq_zero.mp (W.eq_zero_of_dvd_pow_mul hp hw hdeg hsub))

end Wiring

end EvansComputer
