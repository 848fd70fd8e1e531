import EvansComputer.Library.Recurrence
import Mathlib.Algebra.Polynomial.Derivative
import Mathlib.Algebra.Polynomial.Roots
import Mathlib.Algebra.Ring.GeomSum
import Mathlib.LinearAlgebra.Vandermonde

/-!
# Sums of powers and their shortest recurrence

The first terms of a sum of geometric sequences, one for each of finitely many
locators.  A generator of it that is as short as any has the inverses of the locators
for its roots, as long as there are twice as many terms as locators
(`Locates.eval_eq_zero_iff`), and the weight of each sequence can be read off the
generator and its product with the sequence (`Locates.weight`).

Both rest on one division: a polynomial is its value at the inverse of a locator and a
multiple of `1 - a X`, which is what the geometric series of that locator inverts.
-/

namespace EvansComputer

open Polynomial

variable {F ι : Type*} [Field F]

/-- The first `n` powers of `a`. -/
noncomputable def geometric (a : F) (n : ℕ) : F[X] := ∑ j ∈ Finset.range n, (C a * X) ^ j

theorem one_sub_mul_geometric (a : F) (n : ℕ) :
    (1 - C a * X) * geometric a n = 1 - C (a ^ n) * X ^ n := by
  rw [geometric, mul_neg_geom_sum, mul_pow, C_pow]

theorem coeff_geometric {a : F} {n j : ℕ} (h : j < n) : (geometric a n).coeff j = a ^ j := by
  rw [geometric, finsetSum_coeff, Finset.sum_eq_single j]
  · rw [mul_pow, ← C_pow, coeff_C_mul, coeff_X_pow_self, mul_one]
  · intro k _ hk
    rw [mul_pow, ← C_pow, coeff_C_mul, coeff_X_pow, if_neg (Ne.symm hk), mul_zero]
  · intro hj
    exact absurd (Finset.mem_range.mpr h) hj

theorem coeff_geometric_of_le {a : F} {n j : ℕ} (h : n ≤ j) : (geometric a n).coeff j = 0 := by
  rw [geometric, finsetSum_coeff]
  refine Finset.sum_eq_zero fun k hk => ?_
  rw [Finset.mem_range] at hk
  rw [mul_pow, ← C_pow, coeff_C_mul, coeff_X_pow, if_neg (by omega), mul_zero]

/-- A polynomial divided by `1 - a X`. -/
theorem exists_quotient (p : F[X]) {a : F} (ha : a ≠ 0) :
    ∃ q : F[X], p = C (p.eval a⁻¹) + (1 - C a * X) * q ∧ ∀ j, p.natDegree ≤ j → q.coeff j = 0 := by
  have hdiv : p %ₘ (X - C a⁻¹) + (X - C a⁻¹) * (p /ₘ (X - C a⁻¹)) = p :=
    modByMonic_add_div p (X - C a⁻¹)
  rw [modByMonic_X_sub_C_eq_C_eval] at hdiv
  have hfactor : X - C a⁻¹ = (1 - C a * X) * C (-a⁻¹) := by
    have hinv : C a * C a⁻¹ = (1 : F[X]) := by
      rw [← C_mul, mul_inv_cancel₀ ha, C_1]
    rw [C_neg]
    linear_combination (-X) * hinv
  refine ⟨C (-a⁻¹) * (p /ₘ (X - C a⁻¹)), ?_, fun j hj => ?_⟩
  · rw [← mul_assoc, ← hfactor, hdiv]
  · rw [coeff_C_mul]
    rcases Nat.eq_zero_or_pos p.natDegree with h0 | hpos
    · have hzero : p /ₘ (X - C a⁻¹) = 0 := by
        rw [divByMonic_eq_zero_iff (monic_X_sub_C _), degree_X_sub_C]
        exact lt_of_le_of_lt (natDegree_eq_zero_iff_degree_le_zero.mp h0) zero_lt_one
      rw [hzero, coeff_zero, mul_zero]
    · have hdeg : (p /ₘ (X - C a⁻¹)).natDegree < j := by
        rw [natDegree_divByMonic p (monic_X_sub_C _), natDegree_X_sub_C]
        omega
      rw [coeff_eq_zero_of_natDegree_lt hdeg, mul_zero]

/-- The product with a geometric series, as far as it goes. -/
theorem coeff_mul_geometric {p q : F[X]} {a : F} {n j : ℕ}
    (hq : p = C (p.eval a⁻¹) + (1 - C a * X) * q) (hj : j < n) :
    (p * geometric a n).coeff j = p.eval a⁻¹ * a ^ j + q.coeff j := by
  have hprod : p * geometric a n
      = C (p.eval a⁻¹) * geometric a n + (q - C (a ^ n) * (X ^ n * q)) := by
    have hgeo := one_sub_mul_geometric a n
    calc p * geometric a n
        = C (p.eval a⁻¹) * geometric a n + (1 - C a * X) * geometric a n * q := by
          conv_lhs => rw [hq]
          ring
      _ = _ := by
          rw [hgeo]
          ring
  rw [hprod, coeff_add, coeff_C_mul, coeff_geometric hj, coeff_sub, coeff_C_mul,
    coeff_X_pow_mul', if_neg (Nat.not_le_of_lt hj), mul_zero, sub_zero]

/-- A sum of geometric sequences with those locators and weights. -/
noncomputable def powerSum (E : Finset ι) (loc weight : ι → F) (n : ℕ) : F[X] :=
  ∑ e ∈ E, C (weight e) * geometric (loc e) n

variable {E : Finset ι} {loc weight : ι → F} {n l j : ℕ} {p : F[X]}

theorem coeff_powerSum (hj : j < n) :
    (powerSum E loc weight n).coeff j = ∑ e ∈ E, weight e * loc e ^ j := by
  rw [powerSum, finsetSum_coeff]
  refine Finset.sum_congr rfl fun e _ => ?_
  rw [coeff_C_mul, coeff_geometric hj]

theorem coeff_powerSum_of_le (hj : n ≤ j) : (powerSum E loc weight n).coeff j = 0 := by
  rw [powerSum, finsetSum_coeff]
  refine Finset.sum_eq_zero fun e _ => ?_
  rw [coeff_C_mul, coeff_geometric_of_le hj, mul_zero]

/-- The product of a polynomial with a sum of geometric sequences, term by term. -/
theorem coeff_mul_powerSum {q : ι → F[X]}
    (hq : ∀ e ∈ E, p = C (p.eval (loc e)⁻¹) + (1 - C (loc e) * X) * q e) (hj : j < n) :
    (p * powerSum E loc weight n).coeff j
      = ∑ e ∈ E, weight e * (p.eval (loc e)⁻¹ * loc e ^ j + (q e).coeff j) := by
  rw [powerSum, Finset.mul_sum, finsetSum_coeff]
  refine Finset.sum_congr rfl fun e he => ?_
  rw [mul_left_comm, coeff_C_mul, coeff_mul_geometric (hq e he) hj]

/-- Beyond its degree, what a polynomial makes of the sequence is again a sum of
geometric sequences, weighted with its values. -/
theorem coeff_mul_powerSum_of_degree (hloc : ∀ e ∈ E, loc e ≠ 0) (hdeg : p.natDegree ≤ j)
    (hj : j < n) : (p * powerSum E loc weight n).coeff j
      = ∑ e ∈ E, weight e * p.eval (loc e)⁻¹ * loc e ^ j := by
  classical
  have hquot : ∀ e : ι, ∃ q : F[X], e ∈ E →
      p = C (p.eval (loc e)⁻¹) + (1 - C (loc e) * X) * q ∧ q.coeff j = 0 := by
    intro e
    by_cases he : e ∈ E
    · obtain ⟨q, hq, hvanish⟩ := exists_quotient p (hloc e he)
      exact ⟨q, fun _ => ⟨hq, hvanish j hdeg⟩⟩
    · exact ⟨0, fun h => absurd h he⟩
  choose q hq using hquot
  rw [coeff_mul_powerSum (fun e he => (hq e he).1) hj]
  refine Finset.sum_congr rfl fun e he => ?_
  rw [(hq e he).2, add_zero, mul_assoc]

/-- Geometric sequences with distinct locators are independent. -/
theorem weight_eq_zero (hinj : Set.InjOn loc E)
    (h : ∀ j < E.card, ∑ e ∈ E, weight e * loc e ^ j = 0) : ∀ e ∈ E, weight e = 0 := by
  have hzero := Matrix.eq_zero_of_forall_pow_sum_mul_pow_eq_zero
    (f := fun i => loc (E.equivFin.symm i).1) (v := fun i => weight (E.equivFin.symm i).1)
    (fun i i' hii' => E.equivFin.symm.injective
      (Subtype.ext (hinj (E.equivFin.symm i).2 (E.equivFin.symm i').2 hii')))
    (fun i => by
      rw [← h i i.isLt, ← Finset.sum_coe_sort E]
      exact Equiv.sum_comp E.equivFin.symm fun e : E => weight e.1 * loc e.1 ^ (i : ℕ))
  intro e he
  have := congrFun hzero (E.equivFin ⟨e, he⟩)
  simpa using this

/-- Weights for any first terms, as many as there are locators. -/
theorem exists_weight (hinj : Set.InjOn loc E) (s : ℕ → F) :
    ∃ weight : ι → F, ∀ j < E.card, ∑ e ∈ E, weight e * loc e ^ j = s j := by
  classical
  have hdistinct : Function.Injective fun i => loc (E.equivFin.symm i).1 := fun i i' hii' =>
    E.equivFin.symm.injective (Subtype.ext (hinj (E.equivFin.symm i).2 (E.equivFin.symm i').2 hii'))
  have hunit : IsUnit (Matrix.vandermonde fun i => loc (E.equivFin.symm i).1).transpose := by
    rw [Matrix.isUnit_transpose, Matrix.isUnit_iff_isUnit_det, isUnit_iff_ne_zero]
    exact Matrix.det_vandermonde_ne_zero_iff.mpr hdistinct
  obtain ⟨v, hv⟩ := Matrix.mulVec_surjective_iff_isUnit.mpr hunit fun j : Fin E.card => s j
  refine ⟨fun e => if he : e ∈ E then v (E.equivFin ⟨e, he⟩) else 0, fun j hj => ?_⟩
  have hrow := congrFun hv ⟨j, hj⟩
  rw [← hrow, ← Finset.sum_coe_sort E, Matrix.mulVec, dotProduct,
    ← Equiv.sum_comp E.equivFin.symm fun e : E =>
      (if he : e.1 ∈ E then v (E.equivFin ⟨e.1, he⟩) else 0) * loc e.1 ^ j]
  refine Finset.sum_congr rfl fun i _ => ?_
  rw [dif_pos (E.equivFin.symm i).2, Matrix.transpose_apply, Matrix.vandermonde_apply, mul_comm]
  simp

/-- Two sequences with one generator and the same first terms are the same. -/
theorem coeff_eq_of_generates {S T : F[X]} (hS : Generates S p l n) (hT : Generates T p l n)
    (hfirst : ∀ j < l, S.coeff j = T.coeff j) : ∀ j < n, S.coeff j = T.coeff j := by
  intro j
  induction j using Nat.strong_induction_on with
  | _ j ih =>
    intro hj
    rcases Nat.lt_or_ge j l with hlt | hge
    · exact hfirst j hlt
    · have hbefore : ∀ k, j - l ≤ k → k < j → (S - T).coeff k = 0 := fun k _ hk => by
        rw [coeff_sub, ih k hk (hk.trans hj), sub_self]
      have hdiff := coeff_mul_of_vanish hS.degree hge hbefore
      rw [hS.constant, one_mul, mul_sub, coeff_sub, hS.vanish j hge hj,
        hT.vanish j hge hj, sub_self,
        coeff_sub] at hdiff
      exact sub_eq_zero.mp hdiff.symm

/-- **A generator with all its roots** has only sums of geometric sequences to generate. -/
theorem exists_powerSum {S : F[X]} (hloc : ∀ e ∈ E, loc e ≠ 0) (hinj : Set.InjOn loc E)
    (hgen : Generates S p E.card n) (hroots : ∀ e ∈ E, p.eval (loc e)⁻¹ = 0) (hlen : E.card ≤ n)
    (hend : ∀ j, n ≤ j → S.coeff j = 0) : ∃ weight, S = powerSum E loc weight n := by
  obtain ⟨weight, hweight⟩ := exists_weight hinj fun j => S.coeff j
  have hsum : Generates (powerSum E loc weight n) p E.card n := by
    refine ⟨hgen.constant, hgen.degree, fun j hj hjn => ?_⟩
    rw [coeff_mul_powerSum_of_degree hloc (hgen.degree.trans hj) hjn]
    exact Finset.sum_eq_zero fun e he => by rw [hroots e he, mul_zero, zero_mul]
  refine ⟨weight, Polynomial.ext fun j => ?_⟩
  rcases Nat.lt_or_ge j n with hj | hj
  · refine coeff_eq_of_generates hgen hsum (fun k hk => ?_) j hj
    rw [coeff_powerSum (hk.trans_le hlen), hweight k hk]
  · rw [hend j hj, coeff_powerSum_of_le hj]

/-! ## The shortest generator -/

/-- The product of `1 - a X` over the locators. -/
noncomputable def locator (E : Finset ι) (loc : ι → F) : F[X] := ∏ e ∈ E, (1 - C (loc e) * X)

theorem generates_locator (hloc : ∀ e ∈ E, loc e ≠ 0) :
    Generates (powerSum E loc weight n) (locator E loc) E.card n := by
  have hdeg : (locator E loc).natDegree ≤ E.card := by
    refine (natDegree_prod_le E _).trans ?_
    rw [Finset.card_eq_sum_ones]
    refine Finset.sum_le_sum fun e _ => ?_
    compute_degree
  refine ⟨?_, hdeg, fun j hj hjn => ?_⟩
  · rw [coeff_zero_eq_eval_zero, locator, eval_prod]
    exact Finset.prod_eq_one fun e _ => by simp
  · rw [coeff_mul_powerSum_of_degree hloc (hdeg.trans hj) hjn]
    refine Finset.sum_eq_zero fun e he => ?_
    have hroot : (locator E loc).eval (loc e)⁻¹ = 0 := by
      rw [locator, eval_prod]
      refine Finset.prod_eq_zero he ?_
      simp [mul_inv_cancel₀ (hloc e he)]
    rw [hroot, mul_zero, zero_mul]

/-- A shortest generator of a sum of geometric sequences with at least twice as many
terms as locators. -/
structure Locates (E : Finset ι) (loc weight : ι → F) (n l : ℕ) (p : F[X]) : Prop where
  loc_ne_zero : ∀ e ∈ E, loc e ≠ 0
  weight_ne_zero : ∀ e ∈ E, weight e ≠ 0
  injective : Set.InjOn loc E
  enough : 2 * E.card ≤ n
  generates : Generates (powerSum E loc weight n) p l n
  shortest : ∀ p' l', Generates (powerSum E loc weight n) p' l' n → l ≤ l'

/-- **A shortest generator with all its roots locates something**: no weight is zero, as the
rest of the locators would be enough. -/
theorem exists_locates {S : F[X]} (hloc : ∀ e ∈ E, loc e ≠ 0) (hinj : Set.InjOn loc E)
    (hgen : Generates S p E.card n) (hshort : ∀ p' l', Generates S p' l' n → E.card ≤ l')
    (hroots : ∀ e ∈ E, p.eval (loc e)⁻¹ = 0) (henough : 2 * E.card ≤ n)
    (hend : ∀ j, n ≤ j → S.coeff j = 0) :
    ∃ weight, S = powerSum E loc weight n ∧ Locates E loc weight n E.card p := by
  classical
  obtain ⟨weight, rfl⟩ := exists_powerSum hloc hinj hgen hroots (by omega) hend
  refine ⟨weight, rfl, hloc, fun e he hzero => ?_, hinj, henough, hgen, hshort⟩
  have hrest : powerSum E loc weight n = powerSum (E.erase e) loc weight n := by
    rw [powerSum, powerSum]
    refine (Finset.sum_erase E ?_).symm
    rw [hzero, C_0, zero_mul]
  have hfewer :
    Generates (powerSum (E.erase e) loc weight n) (locator (E.erase e) loc) (E.erase e).card n :=
    generates_locator fun f hf => hloc f (Finset.mem_of_mem_erase hf)
  rw [← hrest] at hfewer
  have hle := hshort _ _ hfewer
  have hlt := Finset.card_erase_lt_of_mem he
  omega

namespace Locates

variable (h : Locates E loc weight n l p)
include h

theorem length_le : l ≤ E.card := h.shortest _ _ (generates_locator h.loc_ne_zero)

theorem eval_inv {e : ι} (he : e ∈ E) : p.eval (loc e)⁻¹ = 0 := by
  have hlen := h.length_le
  have henough := h.enough
  have hsum : ∀ j < E.card,
      ∑ e ∈ E, (weight e * p.eval (loc e)⁻¹ * loc e ^ l) * loc e ^ j = 0 := by
    intro j hj
    have hvanish := h.generates.vanish (l + j) (Nat.le_add_right l j) (by omega)
    rw [coeff_mul_powerSum_of_degree h.loc_ne_zero
      (h.generates.degree.trans (Nat.le_add_right l j)) (by omega)] at hvanish
    rw [← hvanish]
    exact Finset.sum_congr rfl fun e _ => by rw [pow_add]; ring
  have hweight := weight_eq_zero h.injective hsum e he
  rcases mul_eq_zero.mp hweight with hw | hw
  · exact (mul_eq_zero.mp hw).resolve_left (h.weight_ne_zero e he)
  · exact absurd hw (pow_ne_zero l (h.loc_ne_zero e he))

theorem ne_zero : p ≠ 0 := by
  intro hp
  have hconst := h.generates.constant
  rw [hp, coeff_zero] at hconst
  exact zero_ne_one hconst

/-- The inverses of the locators. -/
theorem card_roots_image [DecidableEq F] : (E.image fun e => (loc e)⁻¹).card = E.card :=
  Finset.card_image_of_injOn fun _ he _ he' hee' => h.injective he he' (inv_inj.mp hee')

/-- A polynomial of smaller degree does not have all of them for roots. -/
theorem eq_zero_of_eval {q : F[X]} (hq : q.natDegree < E.card)
    (hroots : ∀ e ∈ E, q.eval (loc e)⁻¹ = 0) : q = 0 := by
  classical
  refine eq_zero_of_natDegree_lt_card_of_eval_eq_zero' q (E.image fun e => (loc e)⁻¹) ?_ ?_
  · intro x hx
    obtain ⟨e, he, rfl⟩ := Finset.mem_image.mp hx
    exact hroots e he
  · rw [h.card_roots_image]
    exact hq

theorem natDegree_eq : p.natDegree = E.card := by
  refine Nat.le_antisymm (h.generates.degree.trans h.length_le) ?_
  by_contra hlt
  exact h.ne_zero (h.eq_zero_of_eval (Nat.lt_of_not_le hlt) fun e he => h.eval_inv he)

theorem length_eq : l = E.card :=
  Nat.le_antisymm h.length_le (h.natDegree_eq ▸ h.generates.degree)

/-- **The roots are the inverses of the locators.** -/
theorem eval_eq_zero_iff {x : F} : p.eval x⁻¹ = 0 ↔ ∃ e ∈ E, loc e = x := by
  classical
  constructor
  · intro hx
    by_contra hno
    refine h.ne_zero (eq_zero_of_natDegree_lt_card_of_eval_eq_zero' p
      (insert x⁻¹ (E.image fun e => (loc e)⁻¹)) ?_ ?_)
    · intro y hy
      rcases Finset.mem_insert.mp hy with rfl | hy
      · exact hx
      · obtain ⟨e, he, rfl⟩ := Finset.mem_image.mp hy
        exact h.eval_inv he
    · rw [Finset.card_insert_of_notMem, h.card_roots_image, h.natDegree_eq]
      · exact Nat.lt_succ_self _
      · intro hmem
        obtain ⟨e, he, heq⟩ := Finset.mem_image.mp hmem
        exact hno ⟨e, he, inv_inj.mp heq⟩
  · rintro ⟨e, he, rfl⟩
    exact h.eval_inv he

/-- **The weight of a sequence**, from the values of the generator's derivative and of
its product with the terms at the inverse of the locator. -/
theorem weight_eq {e : ι} (he : e ∈ E) :
    p.derivative.eval (loc e)⁻¹ ≠ 0 ∧
      loc e * ((∑ j ∈ Finset.range n, (p * powerSum E loc weight n).coeff j * (loc e)⁻¹ ^ j) /
        p.derivative.eval (loc e)⁻¹) = -weight e := by
  classical
  have hquot : ∀ f : ι, ∃ q : F[X], f ∈ E →
      p = (1 - C (loc f) * X) * q ∧ ∀ j, p.natDegree ≤ j → q.coeff j = 0 := by
    intro f
    by_cases hf : f ∈ E
    · obtain ⟨q, hq, hvanish⟩ := exists_quotient p (h.loc_ne_zero f hf)
      rw [h.eval_inv hf, C_0, zero_add] at hq
      exact ⟨q, fun _ => ⟨hq, hvanish⟩⟩
    · exact ⟨0, fun h => absurd h hf⟩
  choose q hq using hquot
  have hne := h.loc_ne_zero e he
  have hlen := h.length_eq
  have henough := h.enough
  have hdegree := h.natDegree_eq
  have hcard : 0 < E.card := Finset.card_pos.mpr ⟨e, he⟩
  have heval : ∀ {f : ι}, f ∈ E → ∀ x, p.eval x = (1 - loc f * x) * (q f).eval x := by
    intro f hf x
    have hx := congrArg (Polynomial.eval x) (hq f hf).1
    rwa [eval_mul, eval_sub, eval_one, eval_mul, eval_C, eval_X] at hx
  have hdegq : ∀ {f : ι}, f ∈ E → (q f).natDegree < E.card := by
    intro f hf
    have hle : (q f).natDegree ≤ E.card - 1 :=
      natDegree_le_iff_coeff_eq_zero.mpr fun j hj => (hq f hf).2 j (by omega)
    omega
  -- the quotient for one locator vanishes at the others
  have hother : ∀ {f g : ι}, f ∈ E → g ∈ E → f ≠ g → (q f).eval (loc g)⁻¹ = 0 := by
    intro f g hf hg hfg
    have hroot := h.eval_inv hg
    rw [heval hf] at hroot
    refine (mul_eq_zero.mp hroot).resolve_left fun hone => hfg (h.injective hf hg ?_)
    have hmul := sub_eq_zero.mp hone
    exact (eq_inv_of_mul_eq_one_left hmul.symm).trans (inv_inv _)
  have hself : (q e).eval (loc e)⁻¹ ≠ 0 := by
    intro hzero
    have hq0 : q e = 0 := by
      refine h.eq_zero_of_eval (hdegq he) fun f hf => ?_
      by_cases hef : e = f
      · exact hef ▸ hzero
      · exact hother he hf hef
    have hp := (hq e he).1
    rw [hq0, mul_zero] at hp
    exact h.ne_zero hp
  have hderiv : p.derivative.eval (loc e)⁻¹ = -(loc e * (q e).eval (loc e)⁻¹) := by
    have hd := congrArg (fun r => (derivative r).eval (loc e)⁻¹) (hq e he).1
    simp only [derivative_mul, derivative_sub, derivative_one, derivative_C, derivative_X,
      eval_add, eval_mul, eval_sub, eval_one, eval_C, eval_X, eval_zero, mul_inv_cancel₀ hne] at hd
    rw [hd]
    ring
  have hsum : (∑ j ∈ Finset.range n, (p * powerSum E loc weight n).coeff j * (loc e)⁻¹ ^ j)
      = weight e * (q e).eval (loc e)⁻¹ := by
    have hcoeff : ∀ j ∈ Finset.range n, (p * powerSum E loc weight n).coeff j * (loc e)⁻¹ ^ j
        = ∑ f ∈ E, weight f * ((q f).coeff j * (loc e)⁻¹ ^ j) := by
      intro j hj
      have hf : ∀ f ∈ E, p = C (p.eval (loc f)⁻¹) + (1 - C (loc f) * X) * q f := by
        intro f hf
        rw [h.eval_inv hf, C_0, zero_add]
        exact (hq f hf).1
      rw [coeff_mul_powerSum hf (Finset.mem_range.mp hj), Finset.sum_mul]
      refine Finset.sum_congr rfl fun f hf => ?_
      rw [h.eval_inv hf, zero_mul, zero_add, mul_assoc]
    rw [Finset.sum_congr rfl hcoeff, Finset.sum_comm]
    have hone : ∀ f ∈ E, ∑ j ∈ Finset.range n, weight f * ((q f).coeff j * (loc e)⁻¹ ^ j)
        = weight f * (q f).eval (loc e)⁻¹ := by
      intro f hf
      have hlt := hdegq hf
      rw [← Finset.mul_sum, eval_eq_sum_range' (by omega : (q f).natDegree < n)]
    rw [Finset.sum_congr rfl hone, Finset.sum_eq_single_of_mem e he]
    intro f hf hfe
    rw [hother hf he hfe, mul_zero]
  refine ⟨?_, ?_⟩
  · rw [hderiv]
    exact neg_ne_zero.mpr (mul_ne_zero hne hself)
  · rw [hsum, hderiv]
    generalize (q e).eval (loc e)⁻¹ = v at hself
    field_simp

end EvansComputer.Locates
