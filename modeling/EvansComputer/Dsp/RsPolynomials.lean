import EvansComputer.Dsp.ReedSolomon
import Mathlib.Algebra.Polynomial.Derivative
import Mathlib.Algebra.Polynomial.Eval.Degree
import Mathlib.Algebra.BigOperators.NatAntidiagonal
import Mathlib.Algebra.BigOperators.Intervals
import Mathlib.Data.List.GetD
import Mathlib.Tactic.Ring
import Mathlib.Tactic.LinearCombination

/-!
# Lists of bytes as polynomials

`poly` reads a list as a polynomial over the field, lowest degree first.  What the
codec computes with lists is arithmetic of these: adding into a list at an offset adds
a multiple of a power of `X`, and `evalAt` evaluates.

A block is read the other way round, by `horner`, and only its value at a point matters.
The value of an encoded block is zero at every root of the generator: division with
feedback keeps it so byte by byte (`value_parity`).
-/

namespace EvansComputer.Dsp

open Polynomial GF256

/-! ## Adding into a list -/

@[simp] theorem length_xorInto (d : List Byte) (n : ℕ) (s : List Byte) :
    (xorInto d n s).length = d.length := by
  induction d generalizing n s with
  | nil => rfl
  | cons x d ih =>
    cases n with
    | zero => cases s <;> simp [xorInto, ih]
    | succ n => simp [xorInto, ih]

theorem of_getD_xorInto (d : List Byte) (n : ℕ) (s : List Byte) (k : ℕ) :
    of ((xorInto d n s).getD k 0)
      = of (d.getD k 0) + if k < d.length ∧ n ≤ k then of (s.getD (k - n) 0) else 0 := by
  induction d generalizing n s k with
  | nil => simp [xorInto]
  | cons x d ih =>
    cases n with
    | zero =>
      cases s with
      | nil => simp [xorInto]
      | cons y s =>
        cases k with
        | zero => simp [xorInto]
        | succ k => simpa [xorInto] using ih 0 s k
    | succ n =>
      cases k with
      | zero => simp [xorInto]
      | succ k => simpa [xorInto] using ih n s k

/-! ## Polynomials -/

/-- A list of coefficients, lowest degree first, as a polynomial. -/
noncomputable def poly : List Byte → GF256[X]
  | [] => 0
  | a :: l => C (of a) + X * poly l

theorem coeff_poly (l : List Byte) (k : ℕ) : (poly l).coeff k = of (l.getD k 0) := by
  induction l generalizing k with
  | nil => simp [poly]
  | cons a l ih =>
    cases k with
    | zero => simp [poly]
    | succ k => simp [poly, ih]

theorem coeff_poly_of_length_le {l : List Byte} {k : ℕ} (h : l.length ≤ k) :
    (poly l).coeff k = 0 := by
  rw [coeff_poly, List.getD_eq_default _ _ h, of_zero]

theorem poly_map_gfMul (a : Byte) (l : List Byte) : poly (l.map (gfMul a)) = C (of a) * poly l := by
  induction l with
  | nil => simp [poly]
  | cons b l ih =>
    rw [List.map_cons, poly, poly, ih, of_gfMul, C_mul]
    ring

/-- Adding into a list adds a shifted polynomial, where nothing falls off the end. -/
theorem poly_xorInto {d s : List Byte} {n : ℕ}
    (h : ∀ k, d.length ≤ k → (X ^ n * poly s).coeff k = 0) :
    poly (xorInto d n s) = poly d + X ^ n * poly s := by
  ext k
  rw [coeff_add, coeff_poly, of_getD_xorInto, coeff_poly]
  congr 1
  rcases Nat.lt_or_ge k d.length with hk | hk
  · rw [coeff_X_pow_mul']
    by_cases hn : n ≤ k
    · rw [if_pos ⟨hk, hn⟩, if_pos hn, coeff_poly]
    · rw [if_neg fun hh => hn hh.2, if_neg hn]
  · rw [h k hk, if_neg fun hh => absurd hh.1 (Nat.not_lt_of_le hk)]

theorem of_evalAt (l : List Byte) (x : Byte) :
    of (ReedSolomon.evalAt l x) = (poly l).eval (of x) := by
  have hfold : ∀ p : Byte × Byte,
      of (l.foldl (fun p coef => (p.1 ^^^ gfMul coef p.2, gfMul p.2 x)) p).1
        = of p.1 + of p.2 * (poly l).eval (of x) := by
    induction l with
    | nil => simp [poly]
    | cons a l ih =>
      intro p
      rw [List.foldl_cons, ih]
      simp only [of_xor, of_gfMul, poly, eval_add, eval_C, eval_mul, eval_X]
      ring
  rw [ReedSolomon.evalAt, hfold]
  simp

/-- The discrepancy is a coefficient of the product with the syndromes. -/
theorem of_discrepancy {s c : List Byte} {l i : ℕ} (hc : of (c.getD 0 0) = 1)
    (hdeg : (poly c).natDegree ≤ l) (hl : l ≤ i) :
    of (ReedSolomon.discrepancy s c l i) = (poly c * poly s).coeff i := by
  have hfold : ∀ (n : ℕ) (d : Byte),
      of ((List.range n).foldl
        (fun d k => d ^^^ gfMul (c.getD (k + 1) 0) (s.getD (i - (k + 1)) 0)) d)
        = of d + ∑ k ∈ Finset.range n, of (c.getD (k + 1) 0) * of (s.getD (i - (k + 1)) 0) := by
    intro n d
    induction n with
    | zero => simp
    | succ n ih =>
      rw [List.range_succ, List.foldl_append, List.foldl_cons, List.foldl_nil, of_xor, of_gfMul, ih,
        Finset.sum_range_succ, add_assoc]
  rw [ReedSolomon.discrepancy, hfold, coeff_mul, Finset.Nat.sum_antidiagonal_eq_sum_range_succ_mk]
  have hrest : ∑ k ∈ Finset.range (i + 1), (poly c).coeff k * (poly s).coeff (i - k)
      = ∑ k ∈ Finset.range (l + 1), (poly c).coeff k * (poly s).coeff (i - k) := by
    symm
    refine Finset.sum_subset (Finset.range_subset_range.mpr (by omega)) fun k _ hk => ?_
    rw [Finset.mem_range, Nat.not_lt] at hk
    rw [coeff_eq_zero_of_natDegree_lt (by omega), zero_mul]
  dsimp only
  rw [hrest, Finset.sum_range_succ', coeff_poly, hc, one_mul, Nat.sub_zero, coeff_poly, add_comm]
  congr 1
  exact Finset.sum_congr rfl fun k _ => by rw [coeff_poly, coeff_poly]

/-- The derivative keeps the odd powers, as twice anything is zero. -/
theorem poly_deriv (l : List Byte) : poly (ReedSolomon.deriv l) = derivative (poly l) := by
  have hcast : ∀ k : ℕ, ((k : GF256)) = if k % 2 = 1 then 1 else 0 := by
    intro k
    induction k with
    | zero => rfl
    | succ k ih =>
      rw [Nat.cast_succ, ih]
      rcases Nat.mod_two_eq_zero_or_one k with hk | hk
      · rw [if_neg (by omega), if_pos (by omega), zero_add]
      · rw [if_pos hk, if_neg (by omega), add_self]
  ext k
  rw [coeff_derivative, coeff_poly, coeff_poly]
  have hsucc : ((k : GF256) + 1) = if (k + 1) % 2 = 1 then 1 else 0 := by
    rw [← hcast (k + 1), Nat.cast_succ]
  rw [hsucc, ReedSolomon.deriv, List.getD_eq_getElem?_getD, List.getElem?_map]
  rcases Nat.lt_or_ge k (l.length - 1) with hk | hk
  · rw [List.getElem?_range hk]
    dsimp only [Option.map_some, Option.getD_some]
    split_ifs <;> simp
  · rw [List.getElem?_eq_none (by rw [List.length_range]; exact hk),
      List.getD_eq_default l 0 (by omega)]
    simp

/-- The coefficients of `Omega`, as far as it goes. -/
theorem of_getD_omega (nroots : ℕ) (s lambda : List Byte) {j : ℕ} (hj : j < nroots)
    (hs : s.length = nroots) :
    of ((ReedSolomon.omega nroots s lambda).getD j 0) = (poly lambda * poly s).coeff j := by
  have hfold : ∀ n, ((List.range n).foldl
        (fun om i => xorInto om i (lambda.map (gfMul (s.getD i 0))))
          (List.replicate nroots 0)).length
        = nroots ∧
      of (((List.range n).foldl
        (fun om i => xorInto om i (lambda.map (gfMul (s.getD i 0))))
          (List.replicate nroots 0)).getD j 0)
        = ∑ i ∈ Finset.range n, if i ≤ j then of (s.getD i 0) * of (lambda.getD (j - i) 0)
          else 0 := by
    intro n
    induction n with
    | zero => simp [hj]
    | succ n ih =>
      rw [List.range_succ, List.foldl_append, List.foldl_cons, List.foldl_nil]
      refine ⟨(length_xorInto _ _ _).trans ih.1, ?_⟩
      rw [of_getD_xorInto, ih.1, ih.2, Finset.sum_range_succ]
      congr 1
      by_cases hn : n ≤ j
      · rw [if_pos ⟨hj, hn⟩, if_pos hn, ← coeff_poly, poly_map_gfMul, coeff_C_mul, coeff_poly]
      · rw [if_neg fun h => hn h.2, if_neg hn]
  rw [ReedSolomon.omega, hs, (hfold nroots).2, mul_comm, coeff_mul,
    Finset.Nat.sum_antidiagonal_eq_sum_range_succ_mk]
  dsimp only
  symm
  refine Finset.sum_subset_zero_on_sdiff (Finset.range_subset_range.mpr (by omega)) ?_ ?_
  · intro i hi
    rw [Finset.mem_sdiff, Finset.mem_range, Finset.mem_range] at hi
    exact if_neg (by omega)
  · intro i hi
    rw [Finset.mem_range] at hi
    rw [if_pos (by omega), coeff_poly, coeff_poly]

theorem length_omega (nroots : ℕ) (s lambda : List Byte) :
    (ReedSolomon.omega nroots s lambda).length = nroots := by
  unfold ReedSolomon.omega
  generalize hom : List.replicate nroots (0 : Byte) = om
  have hlen : om.length = nroots := by
    rw [← hom, List.length_replicate]
  clear hom
  induction List.range s.length generalizing om with
  | nil => exact hlen
  | cons i is ih => exact ih _ ((length_xorInto _ _ _).trans hlen)

/-! ## Blocks -/

/-- The value of a block at a point. -/
def value (r : Byte) (block : List Byte) : GF256 := of (ReedSolomon.horner r block)

theorem of_foldl_horner (r acc : Byte) (l : List Byte) :
    of (l.foldl (fun acc c => gfMul acc r ^^^ c) acc) = of acc * of r ^ l.length + value r l := by
  induction l generalizing acc with
  | nil => simp [value, ReedSolomon.horner]
  | cons a l ih =>
    have hvalue : value r (a :: l) = of (gfMul 0 r ^^^ a) * of r ^ l.length + value r l := ih _
    rw [List.foldl_cons, ih, hvalue, List.length_cons]
    simp only [of_xor, of_gfMul, of_zero, zero_mul, zero_add]
    ring

theorem value_nil (r : Byte) : value r [] = 0 := rfl

theorem value_cons (r a : Byte) (l : List Byte) :
    value r (a :: l) = of a * of r ^ l.length + value r l := by
  have h := of_foldl_horner r (gfMul 0 r ^^^ a) l
  rw [of_xor, of_gfMul, of_zero, zero_mul, zero_add] at h
  exact h

theorem value_append (r : Byte) (l l' : List Byte) :
    value r (l ++ l') = value r l * of r ^ l'.length + value r l' := by
  rw [value, ReedSolomon.horner, List.foldl_append, of_foldl_horner]
  rfl

theorem value_map_gfMul (r a : Byte) (l : List Byte) :
    value r (l.map (gfMul a)) = of a * value r l := by
  induction l with
  | nil => simp [value_nil]
  | cons b l ih =>
    rw [List.map_cons, value_cons, value_cons, ih, List.length_map, of_gfMul]
    ring

theorem value_replicate (r : Byte) (n : ℕ) : value r (List.replicate n 0) = 0 := by
  induction n with
  | zero => rfl
  | succ n ih => rw [List.replicate_succ, value_cons, ih, of_zero, zero_mul, zero_add]

theorem value_xorInto {d s : List Byte} {n : ℕ} (r : Byte) (h : n + s.length ≤ d.length) :
    value r (xorInto d n s) = value r d + value r s * of r ^ (d.length - n - s.length) := by
  induction d generalizing n s with
  | nil =>
    have hs : s = [] := List.eq_nil_of_length_eq_zero (by rw [List.length_nil] at h; omega)
    subst hs
    simp [xorInto, value_nil]
  | cons x d ih =>
    rw [List.length_cons] at h
    cases n with
    | zero =>
      cases s with
      | nil => simp [xorInto, value_nil]
      | cons y s =>
        rw [List.length_cons] at h
        rw [xorInto, value_cons, ih (by omega), length_xorInto, value_cons, value_cons, of_xor]
        have hpow : of r ^ d.length = of r ^ s.length * of r ^ (d.length - s.length) := by
          rw [← pow_add]
          congr 1
          omega
        simp only [List.length_cons, Nat.sub_zero, Nat.add_sub_add_right]
        rw [add_mul, add_mul, hpow]
        ring
    | succ n =>
      rw [xorInto, value_cons, ih (by omega), length_xorInto, value_cons]
      have hlen : (x :: d).length - (n + 1) - s.length = d.length - n - s.length := by
        rw [List.length_cons]
        omega
      rw [hlen, add_assoc]

/-- A block's value, position by position. -/
theorem value_eq_sum (r : Byte) (l : List Byte) :
    value r l = ∑ i ∈ Finset.range l.length, of (l.getD i 0) * of r ^ (l.length - 1 - i) := by
  induction l with
  | nil => rfl
  | cons a l ih =>
    rw [value_cons, ih, List.length_cons, Finset.sum_range_succ', add_comm]
    simp only [List.getD_cons_succ, List.getD_cons_zero, Nat.add_sub_cancel, Nat.sub_zero]
    congr 1
    refine Finset.sum_congr rfl fun i hi => ?_
    rw [Finset.mem_range] at hi
    congr 2
    omega

/-! ## The generator and the parity -/

namespace ReedSolomon

theorem gen_succ (n : ℕ) : (new (n + 1)).gen
    = xorInto ((new n).gen ++ [0]) 1 ((new n).gen.map (gfMul · (gexp n))) := by
  change (List.range (n + 1)).foldl _ _ = _
  rw [List.range_succ, List.foldl_append]
  rfl

theorem length_gen (nroots : ℕ) : (new nroots).gen.length = nroots + 1 := by
  induction nroots with
  | zero => rfl
  | succ n ih =>
    rw [gen_succ, length_xorInto, List.length_append, ih]
    rfl

/-- The generator is monic. -/
theorem head_gen (nroots : ℕ) : (new nroots).gen.headD 0 = 1 := by
  induction nroots with
  | zero => rfl
  | succ n ih =>
    rw [gen_succ]
    cases hg : (new n).gen with
    | nil =>
      have hlen := length_gen n
      rw [hg] at hlen
      exact absurd hlen (by simp)
    | cons a g =>
      rw [hg] at ih
      exact ih

/-- The generator vanishes at its roots. -/
theorem value_gen {nroots j : ℕ} (hj : j < nroots) : value (gexp j) (new nroots).gen = 0 := by
  induction nroots with
  | zero => exact absurd hj (Nat.not_lt_zero j)
  | succ n ih =>
    have hmap : (new n).gen.map (gfMul · (gexp n)) = (new n).gen.map (gfMul (gexp n)) :=
      List.map_congr_left fun a _ => gfMul_comm a _
    have hlen : ((new n).gen ++ [0]).length = n + 2 := by
      rw [List.length_append, length_gen]
      rfl
    rw [gen_succ, hmap, value_xorInto _ (by rw [hlen, List.length_map, length_gen]; omega),
      value_map_gfMul, value_append, hlen, List.length_map, length_gen]
    have hexp : n + 2 - 1 - (n + 1) = 0 := by omega
    rw [hexp, pow_zero, value_cons, value_nil]
    rcases Nat.lt_succ_iff_lt_or_eq.mp hj with hlt | rfl
    · rw [ih hlt]
      simp
    · simp only [List.length_singleton, pow_one, List.length_nil, pow_zero, of_zero, mul_one,
        add_zero, mul_comm (value _ _), add_self]

theorem length_parityStep {rs : ReedSolomon} {par : List Byte} (hpar : par ≠ []) (d : Byte) :
    (rs.parityStep par d).length = par.length := by
  have hrot : (par.tail ++ [0]).length = par.length := by
    rw [List.length_append, List.length_tail, List.length_singleton]
    have := List.length_pos_iff.mpr hpar
    omega
  unfold parityStep
  dsimp only
  split_ifs
  · rw [length_xorInto, hrot]
  · exact hrot

/-- One byte through the register: its value at a root moves up by one power and takes in
the byte. -/
theorem value_parityStep {nroots j : ℕ} (hj : j < nroots) {par : List Byte}
    (hpar : par.length = nroots) (d : Byte) :
    value (gexp j) ((new nroots).parityStep par d)
      = of (gexp j) * value (gexp j) par + of d * of (gexp j) ^ nroots := by
  obtain ⟨p, rest, rfl⟩ : ∃ p rest, par = p :: rest := by
    cases par with
    | nil => exact absurd hpar (by simp; omega)
    | cons p rest => exact ⟨p, rest, rfl⟩
  rw [List.length_cons] at hpar
  have hgen : (new nroots).gen = 1 :: (new nroots).gen.tail := by
    have hhead := head_gen nroots
    have hlen := length_gen nroots
    cases hg : (new nroots).gen with
    | nil =>
      rw [hg] at hlen
      exact absurd hlen (by simp)
    | cons a g =>
      rw [hg] at hhead
      exact congrArg (· :: g) hhead
  have htail : (new nroots).gen.tail.length = nroots := by
    rw [List.length_tail, length_gen]
    rfl
  -- the generator vanishes, so its tail is the power that its head stands for
  have hroot : value (gexp j) (new nroots).gen.tail = of (gexp j) ^ nroots := by
    have hzero := value_gen hj
    rw [hgen, value_cons, htail, of_one, one_mul] at hzero
    exact (eq_neg_of_add_eq_zero_right hzero).trans (neg_eq _)
  have hrot : value (gexp j) (rest ++ [0]) = of (gexp j) * value (gexp j) rest := by
    rw [value_append, value_cons, value_nil]
    simp [mul_comm]
  have hall : ∀ fb : Byte, value (gexp j) (if fb ≠ 0 then
      xorInto (rest ++ [0]) 0 ((new nroots).gen.tail.map (gfMul fb)) else rest ++ [0])
      = of (gexp j) * value (gexp j) rest + of fb * of (gexp j) ^ nroots := by
    intro fb
    have hlen : (rest ++ [(0 : Byte)]).length = nroots := by
      rw [List.length_append]
      exact hpar
    split_ifs with hfb
    · rw [value_xorInto _ (by rw [List.length_map, htail, hlen]; omega), hrot, value_map_gfMul,
        hroot, List.length_map, htail, hlen, Nat.sub_zero, Nat.sub_self, pow_zero, mul_one]
    · rw [hrot, not_not.mp hfb, of_zero, zero_mul, add_zero]
  rw [show (new nroots).parityStep (p :: rest) d = if d ^^^ p ≠ 0 then
      xorInto (rest ++ [0]) 0 ((new nroots).gen.tail.map (gfMul (d ^^^ p))) else rest ++ [0]
    from rfl, hall, of_xor, value_cons, ← hpar, pow_succ]
  ring

/-- Data and parity together vanish at the roots of the generator. -/
theorem value_parity {nroots j : ℕ} (hj : j < nroots) (data : List Byte) :
    ((new nroots).parity data).length = nroots ∧
      value (gexp j) data * of (gexp j) ^ nroots + value (gexp j)
        ((new nroots).parity data) = 0 := by
  induction data using List.reverseRecOn with
  | nil =>
    refine ⟨List.length_replicate, ?_⟩
    rw [value_nil, zero_mul, zero_add]
    exact value_replicate _ _
  | append_singleton data d ih =>
    obtain ⟨hlen, hzero⟩ := ih
    have hstep : (new nroots).parity (data ++ [d])
        = (new nroots).parityStep ((new nroots).parity data) d := by
      rw [parity, List.foldl_append]
      rfl
    have hne : (new nroots).parity data ≠ [] := by
      intro h
      rw [h] at hlen
      simp at hlen
      omega
    refine ⟨by rw [hstep, length_parityStep hne, hlen], ?_⟩
    rw [hstep, value_parityStep hj hlen, value_append, value_cons, value_nil]
    have hdouble := add_self (of d * of (gexp j) ^ nroots)
    simp only [List.length_singleton, List.length_nil, pow_one, pow_zero, mul_one, add_zero]
    linear_combination of (gexp j) * hzero + hdouble

/-- An encoded block has no syndrome. -/
theorem value_encode {nroots j : ℕ} (hj : j < nroots) (data : List Byte) :
    value (gexp j) ((new nroots).encode data) = 0 := by
  obtain ⟨hlen, hzero⟩ := value_parity hj data
  rw [encode, value_append, hlen]
  exact hzero

end EvansComputer.Dsp.ReedSolomon
