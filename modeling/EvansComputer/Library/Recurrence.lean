import Mathlib.Algebra.Polynomial.Eval.Degree
import Mathlib.Algebra.Polynomial.Degree.Lemmas
import Mathlib.Tactic.Ring
import Mathlib.Tactic.LinearCombination

/-!
# Shortest linear recurrences

A polynomial `C` with constant term `1` generates the first terms of a sequence `S`
with length `l` when every term from the `l`-th on is the recurrence that `C` gives
of the `l` terms before it.  `Generates` says so of the coefficients of `C * S`, up to a
bound on the index.

`Search` is what an algorithm in the manner of Berlekamp and Massey carries from
index to index: a generator that is as short as any, and a second polynomial whose
product with `S` first fails to vanish at the current index.  The three steps of the
algorithm are lemmas about it (`Search.skip`, `Search.adjust`, `Search.lengthen`), and a
program that carries the two polynomials in whatever form has only to be matched
with one of them at each index.
-/

namespace EvansComputer

open Polynomial

variable {F : Type*} [Field F]

/-- `C` gives the terms of `S` from the `l`-th up to the `i`-th. -/
structure Generates (S C : F[X]) (l i : ℕ) : Prop where
  constant : C.coeff 0 = 1
  degree : C.natDegree ≤ l
  vanish : ∀ j, l ≤ j → j < i → (C * S).coeff j = 0

variable {S C C' P : F[X]} {l l' i n : ℕ} {b : F}

/-- A coefficient of a product, where one factor vanishes below it as far as the
degree of the other reaches. -/
theorem coeff_mul_of_vanish {A D : F[X]} {a : ℕ} (hA : A.natDegree ≤ a) (ha : a ≤ n)
    (hD : ∀ j, n - a ≤ j → j < n → D.coeff j = 0) :
    (A * D).coeff n = A.coeff 0 * D.coeff n := by
  rw [coeff_mul]
  refine Finset.sum_eq_single (0, n) ?_ ?_
  · rintro ⟨x, y⟩ hxy hne
    have hsum : x + y = n := Finset.HasAntidiagonal.mem_antidiagonal.mp hxy
    rcases Nat.lt_or_ge a x with hx | hx
    · rw [coeff_eq_zero_of_natDegree_lt (Nat.lt_of_le_of_lt hA hx), zero_mul]
    · have hy : y < n := by
        rcases Nat.eq_zero_or_pos x with rfl | hpos
        · exact absurd (by rw [← hsum, Nat.zero_add]) hne
        · omega
      rw [hD y (by omega) hy, mul_zero]
  · intro hmem
    exact absurd (Finset.HasAntidiagonal.mem_antidiagonal.mpr (Nat.zero_add n)) hmem

/-- **A generator that fails makes the next one long.** -/
theorem Generates.length_add (h : Generates S C l i) (hfail : (C * S).coeff i ≠ 0)
    (h' : Generates S C' l' (i + 1)) : i + 1 ≤ l + l' := by
  by_contra hshort
  have hleft : (C' * (C * S)).coeff i = (C * S).coeff i := by
    rw [coeff_mul_of_vanish h'.degree (by omega) fun j hj hji => h.vanish j (by omega) hji,
      h'.constant, one_mul]
  have hright : (C * (C' * S)).coeff i = 0 := by
    rw [coeff_mul_of_vanish h.degree (by omega) fun j hj hji => h'.vanish j (by omega) (by omega),
      h'.vanish i (by omega) (Nat.lt_succ_self i), mul_zero]
  rw [mul_left_comm, hright] at hleft
  exact hfail hleft.symm

theorem Generates.mono (h : Generates S C l n) (hle : i ≤ n) : Generates S C l i :=
  ⟨h.constant, h.degree, fun j hj hji => h.vanish j hj (Nat.lt_of_lt_of_le hji hle)⟩

/-- The state of a search for a shortest generator before the `i`-th term. -/
structure Search (S : F[X]) (i l : ℕ) (C P : F[X]) (b : F) : Prop where
  generates : Generates S C l i
  shortest : ∀ C' l', Generates S C' l' i → l ≤ l'
  length : l ≤ i
  spare_ne_zero : b ≠ 0
  spare_constant : P.coeff 0 = 0
  spare_degree : P.natDegree ≤ i + 1 - l
  spare_vanish : ∀ j, i + 1 - l ≤ j → j < i → (P * S).coeff j = 0
  spare_coeff : 0 < l → (P * S).coeff i = b

/-- Before the first term. -/
theorem search_start (S : F[X]) : Search S 0 0 1 X 1 where
  generates := ⟨coeff_one_zero, natDegree_one.le, fun _ _ hj => absurd hj (Nat.not_lt_zero _)⟩
  shortest _ _ _ := Nat.zero_le _
  length := Nat.le_refl 0
  spare_ne_zero := one_ne_zero
  spare_constant := coeff_X_zero
  spare_degree := natDegree_X_le
  spare_vanish _ _ hj := absurd hj (Nat.not_lt_zero _)
  spare_coeff h := absurd h (Nat.lt_irrefl 0)

/-- The spare polynomial one index later. -/
theorem Search.spare_next (h : Search S i l C P b) :
    (X * P).coeff 0 = 0 ∧ (X * P).natDegree ≤ i + 1 + 1 - l ∧
      (∀ j, i + 1 + 1 - l ≤ j → j < i + 1 → (X * P * S).coeff j = 0) ∧
      (0 < l → (X * P * S).coeff (i + 1) = b) := by
  have hlen := h.length
  refine ⟨coeff_X_mul_zero P, ?_, fun j hj hji => ?_, fun hl => ?_⟩
  · have hdeg := h.spare_degree
    have hle : (X * P).natDegree ≤ 1 + P.natDegree :=
      natDegree_mul_le.trans (Nat.add_le_add_right natDegree_X_le _)
    omega
  · rw [mul_assoc]
    cases j with
    | zero => exact coeff_X_mul_zero _
    | succ j =>
      rw [coeff_X_mul]
      exact h.spare_vanish j (by omega) (by omega)
  · rw [mul_assoc, coeff_X_mul, h.spare_coeff hl]

/-- The generator gives the next term too. -/
theorem Search.skip (h : Search S i l C P b) (hzero : (C * S).coeff i = 0) :
    Search S (i + 1) l C (X * P) b := by
  obtain ⟨hconst, hdeg, hvanish, hcoeff⟩ := h.spare_next
  refine ⟨⟨h.generates.constant, h.generates.degree, fun j hj hji => ?_⟩, fun C' l' h' => ?_,
    Nat.le_succ_of_le h.length, h.spare_ne_zero, hconst, hdeg, hvanish, hcoeff⟩
  · rcases Nat.lt_succ_iff_lt_or_eq.mp hji with hlt | rfl
    · exact h.generates.vanish j hj hlt
    · exact hzero
  · exact h.shortest C' l' (h'.mono (Nat.le_succ i))

/-- The corrected generator gives the next term, with the length that it takes. -/
theorem Search.corrected (h : Search S i l C P b) {d : F} (hd : (C * S).coeff i = d) {k : ℕ}
    (hk : l ≤ k) (hspare : i + 1 - l ≤ k) :
    Generates S (C - Polynomial.C (d / b) * P) k (i + 1) := by
  refine ⟨?_, ?_, fun j hj hji => ?_⟩
  · rw [coeff_sub, coeff_C_mul, h.spare_constant, mul_zero, sub_zero, h.generates.constant]
  · refine (natDegree_sub_le _ _).trans (Nat.max_le.mpr ⟨h.generates.degree.trans hk, ?_⟩)
    exact (natDegree_C_mul_le _ _).trans (h.spare_degree.trans hspare)
  · rw [sub_mul, coeff_sub, mul_assoc, coeff_C_mul]
    rcases Nat.lt_succ_iff_lt_or_eq.mp hji with hlt | rfl
    · rw [h.generates.vanish j (hk.trans hj) hlt, h.spare_vanish j (hspare.trans hj) hlt, mul_zero,
        sub_zero]
    · have hpos : 0 < l := by omega
      rw [hd, h.spare_coeff hpos, div_mul_cancel₀ d h.spare_ne_zero, sub_self]

/-- A generator that fails at the `i`-th term is corrected; it is long enough already. -/
theorem Search.adjust (h : Search S i l C P b) {d : F} (hd : (C * S).coeff i = d)
    (hlong : i < 2 * l) : Search S (i + 1) l (C - Polynomial.C (d / b) * P) (X * P) b := by
  obtain ⟨hconst, hdeg, hvanish, hcoeff⟩ := h.spare_next
  refine ⟨h.corrected hd (Nat.le_refl l) (by omega), fun C' l' h' => ?_,
    Nat.le_succ_of_le h.length, h.spare_ne_zero, hconst, hdeg, hvanish, hcoeff⟩
  exact h.shortest C' l' (h'.mono (Nat.le_succ i))

/-- A generator that fails at the `i`-th term is corrected and takes the least length
it can; the old one is the spare polynomial from now on. -/
theorem Search.lengthen (h : Search S i l C P b) {d : F} (hd : (C * S).coeff i = d) (hd0 : d ≠ 0)
    (hshort : 2 * l ≤ i) :
    Search S (i + 1) (i + 1 - l) (C - Polynomial.C (d / b) * P) (X * C) d := by
  refine ⟨h.corrected hd (by omega) (Nat.le_refl _), fun C' l' h' => ?_, by omega, hd0,
    coeff_X_mul_zero C, ?_, fun j hj hji => ?_, fun _ => ?_⟩
  · have hsum := h.generates.length_add (hd ▸ hd0) h'
    omega
  · have hle : (X * C).natDegree ≤ 1 + C.natDegree :=
      natDegree_mul_le.trans (Nat.add_le_add_right natDegree_X_le _)
    have hdeg := h.generates.degree
    omega
  · rw [mul_assoc]
    cases j with
    | zero => exact coeff_X_mul_zero _
    | succ j =>
      rw [coeff_X_mul]
      exact h.generates.vanish j (by omega) (by omega)
  · rw [mul_assoc, coeff_X_mul, hd]

end EvansComputer
