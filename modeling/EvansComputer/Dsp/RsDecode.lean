import EvansComputer.Dsp.RsPolynomials
import EvansComputer.Library.ErrorLocator

/-!
# The decoder corrects up to half the parity

The syndromes of a damaged block are a sum of geometric sequences, one for each
changed byte: its locator is the power of the generator that belongs to its place, its
weight the change.  The decoder's search is a search for a shortest recurrence of them
(`BmInv`), so what it finds has the changed places for roots, and Forney's formula
gives the changes.
-/

namespace EvansComputer.Dsp

open Polynomial GF256

theorem sub_eq_add_poly (p q : GF256[X]) : p - q = p + q := by
  ext k
  rw [coeff_sub, coeff_add]
  rfl

namespace ReedSolomon

/-! ## The search for the locator -/

/-- The decoder's search before the `i`-th syndrome. -/
structure BmInv (nroots : ℕ) (s : List Byte) (i : ℕ) (st : Bm) : Prop where
  search : Search (poly s) i st.l (poly st.c) (X ^ st.m * poly st.b) (of st.bb)
  length_c : st.c.length = nroots + 1

variable {nroots i : ℕ} {s : List Byte} {st : Bm}

theorem poly_one_replicate (n : ℕ) : poly (1 :: List.replicate n 0) = 1 := by
  have hzero : ∀ n, poly (List.replicate n 0) = 0 := by
    intro n
    induction n with
    | zero => rfl
    | succ n ih => rw [List.replicate_succ, poly, ih, of_zero, C_0, mul_zero, add_zero]
  rw [poly, hzero, of_one, C_1, mul_zero, add_zero]

theorem bmInv_start (nroots : ℕ) (s : List Byte) : BmInv nroots s 0
    { c := 1 :: List.replicate nroots 0
      b := 1 :: List.replicate nroots 0
      l := 0
      m := 1
      bb := 1 } where
  search := by
    have h := search_start (poly s)
    dsimp only
    rw [poly_one_replicate, pow_one, mul_one, of_one]
    exact h
  length_c := by
    dsimp only
    rw [List.length_cons, List.length_replicate]

/-- **One turn of the search.**  It does what a search for a shortest recurrence does. -/
theorem BmInv.step (h : BmInv nroots s i st) (hi : i < nroots) :
    BmInv nroots s (i + 1) (bmStep s st i) := by
  have hsearch := h.search
  have hgen := hsearch.generates
  have hd : of (discrepancy s st.c st.l i) = (poly st.c * poly s).coeff i := by
    refine of_discrepancy ?_ hgen.degree hsearch.length
    rw [← coeff_poly]
    exact hgen.constant
  have hnext : X * (X ^ st.m * poly st.b) = X ^ (st.m + 1) * poly st.b := by
    rw [← mul_assoc, ← pow_succ']
  unfold bmStep
  dsimp only
  generalize discrepancy s st.c st.l i = d at hd
  by_cases hzero : d = 0
  · rw [if_pos hzero]
    refine ⟨?_, h.length_c⟩
    dsimp only
    rw [← hnext]
    refine hsearch.skip ?_
    rw [← hd, hzero, of_zero]
  · rw [if_neg hzero]
    have hbb : st.bb ≠ 0 := hsearch.spare_ne_zero
    have hnew : poly (xorInto st.c st.m (st.b.map (gfMul (gfDiv d st.bb))))
        = poly st.c - C (of d / of st.bb) * (X ^ st.m * poly st.b) := by
      have hmap : X ^ st.m * poly (st.b.map (gfMul (gfDiv d st.bb)))
          = C (of d / of st.bb) * (X ^ st.m * poly st.b) := by
        rw [poly_map_gfMul, of_gfDiv d hbb, mul_left_comm]
      rw [poly_xorInto, hmap, sub_eq_add_poly]
      -- nothing falls off the end: the spare polynomial is short enough
      intro k hk
      rw [hmap, coeff_C_mul, coeff_eq_zero_of_natDegree_lt, mul_zero]
      have hdeg := hsearch.spare_degree
      rw [h.length_c] at hk
      omega
    by_cases hshort : 2 * st.l ≤ i
    · rw [if_pos hshort]
      refine ⟨?_, (length_xorInto _ _ _).trans h.length_c⟩
      dsimp only
      rw [hnew, pow_one]
      exact hsearch.lengthen hd.symm hzero hshort
    · rw [if_neg hshort]
      refine ⟨?_, (length_xorInto _ _ _).trans h.length_c⟩
      dsimp only
      rw [hnew, ← hnext]
      exact hsearch.adjust hd.symm (Nat.lt_of_not_le hshort)

/-- The search over all syndromes. -/
theorem bmInv_berlekampMassey (nroots : ℕ) (s : List Byte) :
    BmInv nroots s nroots (berlekampMassey nroots s) := by
  have hrun : ∀ n ≤ nroots, BmInv nroots s n ((List.range n).foldl (bmStep s)
      { c := 1 :: List.replicate nroots 0
        b := 1 :: List.replicate nroots 0
        l := 0
        m := 1
        bb := 1 }) := by
    intro n hn
    induction n with
    | zero => exact bmInv_start nroots s
    | succ n ih =>
      rw [List.range_succ, List.foldl_append]
      exact (ih (by omega)).step (by omega)
  exact hrun nroots (Nat.le_refl nroots)

/-- The polynomial handed on is the whole one. -/
theorem BmInv.poly_take (h : BmInv nroots s i st) : poly (st.c.take (st.l + 1)) = poly st.c := by
  ext k
  rw [coeff_poly, coeff_poly, List.getD_eq_getElem?_getD, List.getElem?_take,
    List.getD_eq_getElem?_getD]
  split_ifs with hk
  · rfl
  · have hzero : (poly st.c).coeff k = 0 :=
      coeff_eq_zero_of_natDegree_lt (Nat.lt_of_le_of_lt h.search.generates.degree (by omega))
    rw [coeff_poly, List.getD_eq_getElem?_getD] at hzero
    exact hzero.symm

/-! ## A damaged block -/

/-- The places where two blocks differ. -/
def changed (block block' : List Byte) : List ℕ :=
  (List.range block.length).filter fun i => block.getD i 0 ≠ block'.getD i 0

theorem mem_changed {block block' : List Byte} {i : ℕ} :
    i ∈ changed block block' ↔ i < block.length ∧ block.getD i 0 ≠ block'.getD i 0 := by
  rw [changed, List.mem_filter, List.mem_range, decide_eq_true_eq]

theorem nodup_changed (block block' : List Byte) : (changed block block').Nodup :=
  List.nodup_range.filter _

theorem card_changed (block block' : List Byte) :
    (changed block block').toFinset.card = (changed block block').length :=
  List.toFinset_card_of_nodup (nodup_changed block block')

/-- The locator of a place in a block of `n` bytes. -/
def loc (n i : ℕ) : GF256 := of (gexp (n - 1 - i))

theorem loc_inj {n i j : ℕ} (hn : n ≤ 255) (hi : i < n) (hj : j < n) (h : loc n i = loc n j) :
    i = j := by
  have hpow := gexp_inj (by omega) (by omega) (of_inj.mp h)
  omega

/-- What a byte was changed by. -/
def change (block block' : List Byte) (i : ℕ) : GF256 :=
  of (block.getD i 0 ^^^ block'.getD i 0)

theorem change_eq_zero {block block' : List Byte} {i : ℕ} :
    change block block' i = 0 ↔ block.getD i 0 = block'.getD i 0 := by
  rw [change, of_eq_zero]
  exact UInt8.xor_eq_zero_iff

/-- The syndromes of a damaged block are those of its changes. -/
theorem poly_syndromes {block block' : List Byte} (hlen : block.length = block'.length)
    (hzero : ∀ j < nroots, value (gexp j) block' = 0) :
    poly ((new nroots).syndromes block)
      = powerSum (changed block block').toFinset (loc block.length)
        (change block block') nroots := by
  have hlist : ((new nroots).syndromes block).length = nroots := by
    rw [syndromes, List.length_map, List.length_range]
    rfl
  ext j
  rcases Nat.lt_or_ge j nroots with hj | hj
  · have hsyn : of (((new nroots).syndromes block).getD j 0) = value (gexp j) block := by
      have hget : (List.range (new nroots).nroots)[j]? = some j := List.getElem?_range hj
      rw [syndromes, List.getD_eq_getElem?_getD, List.getElem?_map, hget]
      rfl
    have hpow : ∀ i, of (gexp j) ^ i = of (gexp i) ^ j := by
      intro i
      rw [of_gexp, of_gexp, ← pow_mul, ← pow_mul, Nat.mul_comm]
    have hsum : value (gexp j) block = value (gexp j) block + value (gexp j) block' := by
      rw [hzero j hj, add_zero]
    rw [coeff_poly, hsyn, coeff_powerSum hj, hsum, value_eq_sum, value_eq_sum, ← hlen,
      ← Finset.sum_add_distrib]
    symm
    refine Finset.sum_subset_zero_on_sdiff ?_ ?_ ?_
    · intro i hi
      rw [Finset.mem_range]
      exact (mem_changed.mp (List.mem_toFinset.mp hi)).1
    · intro i hi
      rw [Finset.mem_sdiff, Finset.mem_range, List.mem_toFinset, mem_changed, not_and,
        not_not] at hi
      rw [hi.2 hi.1, add_self]
    · intro i _
      rw [change, of_xor, loc, ← hpow, add_mul]
  · rw [coeff_poly_of_length_le (by rw [hlist]; exact hj), coeff_powerSum_of_le hj]

/-! ## Correcting the changes -/

theorem getD_xorInto_single {block : List Byte} {i : ℕ} (hi : i < block.length) (e : Byte) (k : ℕ) :
    (xorInto block i [e]).getD k 0 = if k = i then block.getD i 0 ^^^ e else block.getD k 0 := by
  apply of_inj.mp
  rw [of_getD_xorInto]
  by_cases hk : k = i
  · subst hk
    rw [if_pos ⟨hi, Nat.le_refl k⟩, if_pos rfl, Nat.sub_self, of_xor]
    rfl
  · rw [if_neg hk]
    by_cases hlt : k < block.length ∧ i ≤ k
    · rw [if_pos hlt, List.getD_eq_default [e] 0 (by rw [List.length_singleton]; omega), of_zero,
        add_zero]
    · rw [if_neg hlt, add_zero]

/-- Forney's correction of places where the formula gives `w`. -/
theorem correct_eq {n : ℕ} {om dl : List Byte} {w : ℕ → Byte} {places : List ℕ}
    (hnodup : places.Nodup)
    (hforney : ∀ i ∈ places, evalAt dl (gfInv (gexp (n - 1 - i))) ≠ 0 ∧
      gfMul (gexp (n - 1 - i)) (gfDiv (evalAt om (gfInv (gexp (n - 1 - i))))
        (evalAt dl (gfInv (gexp (n - 1 - i))))) = w i)
    (block : List Byte) (hplaces : ∀ i ∈ places, i < block.length) :
    ∃ block', correct n om dl places block = (.ok (), block') ∧ block'.length = block.length ∧
      ∀ k, block'.getD k 0 = if k ∈ places then block.getD k 0 ^^^ w k else block.getD k 0 := by
  induction places generalizing block with
  | nil => exact ⟨block, rfl, rfl, fun k => rfl⟩
  | cons i rest ih =>
    obtain ⟨hfresh, hrest⟩ := List.nodup_cons.mp hnodup
    obtain ⟨hdl, hw⟩ := hforney i List.mem_cons_self
    have hi := hplaces i List.mem_cons_self
    obtain ⟨block', heq, hlen, hget⟩ := ih hrest
      (fun k hk => hforney k (List.mem_cons_of_mem _ hk)) (xorInto block i [w i])
      (fun k hk => (length_xorInto block i [w i]).symm ▸ hplaces k (List.mem_cons_of_mem _ hk))
    refine ⟨block', ?_, hlen.trans (length_xorInto _ _ _), fun k => ?_⟩
    · rw [correct, if_neg hdl, hw, heq]
    · rw [hget, getD_xorInto_single hi]
      by_cases hk : k = i
      · subst hk
        rw [if_neg hfresh, if_pos rfl, if_pos List.mem_cons_self]
      · rw [if_neg hk]
        have hmem : k ∈ i :: rest ↔ k ∈ rest := by
          rw [List.mem_cons, or_iff_right hk]
        simp only [hmem]

theorem ext_getD {l l' : List Byte} (hlen : l.length = l'.length)
    (h : ∀ k, l.getD k 0 = l'.getD k 0) : l = l' := by
  refine List.ext_getElem hlen fun k hk hk' => ?_
  have hget := h k
  rwa [List.getD_eq_getElem _ 0 hk, List.getD_eq_getElem _ 0 hk'] at hget

/-! ## The theorem -/

/-- A damaged block of the code, with at least one and no more than half as many
changes as parity bytes. -/
structure Damaged (nroots : ℕ) (block block' : List Byte) : Prop where
  nroots_lt : nroots < block.length
  length_le : block.length ≤ 255
  length_eq : block.length = block'.length
  code : ∀ j < nroots, value (gexp j) block' = 0
  some_changed : changed block block' ≠ []
  few_changed : 2 * (changed block block').length ≤ nroots

namespace Damaged

variable {block block' : List Byte} (h : Damaged nroots block block')
include h

/-- The search has found a shortest recurrence of the changes. -/
theorem locates : Locates (changed block block').toFinset (loc block.length) (change block block')
    nroots (berlekampMassey nroots ((new nroots).syndromes block)).l
    (poly (berlekampMassey nroots ((new nroots).syndromes block)).c) := by
  have hbm := (bmInv_berlekampMassey nroots ((new nroots).syndromes block)).search
  rw [poly_syndromes h.length_eq h.code] at hbm
  have hlt : ∀ e ∈ (changed block block').toFinset, e < block.length :=
    fun e he => (mem_changed.mp (List.mem_toFinset.mp he)).1
  exact
    { loc_ne_zero := fun e _ => gexp_ne_zero _
      weight_ne_zero := fun e he hzero =>
        (mem_changed.mp (List.mem_toFinset.mp he)).2 (change_eq_zero.mp hzero)
      injective := fun e he f hf heq => loc_inj h.length_le (hlt e he) (hlt f hf) heq
      enough := by
        rw [card_changed]
        exact h.few_changed
      generates := hbm.generates
      shortest := hbm.shortest }

theorem length_search :
    (berlekampMassey nroots ((new nroots).syndromes block)).l = (changed block block').length :=
  h.locates.length_eq.trans (card_changed block block')

/-- Some syndrome is not zero. -/
theorem syndromes_ne_zero : ¬ ((new nroots).syndromes block).all (· = 0) = true := by
  intro hall
  have hpoly : poly ((new nroots).syndromes block) = 0 := by
    ext k
    rw [coeff_poly, coeff_zero, of_eq_zero]
    rcases Nat.lt_or_ge k ((new nroots).syndromes block).length with hk | hk
    · rw [List.getD_eq_getElem _ 0 hk]
      exact of_decide_eq_true (List.all_eq_true.mp hall _ (List.getElem_mem hk))
    · exact List.getD_eq_default _ 0 hk
  rw [poly_syndromes h.length_eq h.code] at hpoly
  have hsum : ∀ j < (changed block block').toFinset.card,
      ∑ e ∈ (changed block block').toFinset, change block block' e *
        loc block.length e ^ j = 0 := by
    intro j hj
    have hfew := h.few_changed
    rw [card_changed] at hj
    rw [← coeff_powerSum (n := nroots) (by omega), hpoly, coeff_zero]
  have hweight := weight_eq_zero h.locates.injective hsum
  obtain ⟨e, rest, hcons⟩ := List.exists_cons_of_ne_nil h.some_changed
  have he : e ∈ (changed block block').toFinset := by
    rw [List.mem_toFinset, hcons]
    exact List.mem_cons_self
  exact h.locates.weight_ne_zero e he (hweight e he)

/-- The search over the positions finds the changed ones. -/
theorem chien_eq : chien ((berlekampMassey nroots ((new nroots).syndromes block)).c.take
      ((berlekampMassey nroots ((new nroots).syndromes block)).l + 1)) block.length
    = changed block block' := by
  have hbm := bmInv_berlekampMassey nroots ((new nroots).syndromes block)
  refine List.filter_congr fun i hi => ?_
  rw [List.mem_range] at hi
  rw [decide_eq_decide, ← of_eq_zero, of_evalAt, hbm.poly_take, of_gexp_inv,
    h.locates.eval_eq_zero_iff]
  constructor
  · rintro ⟨e, he, heq⟩
    have hmem := mem_changed.mp (List.mem_toFinset.mp he)
    exact loc_inj h.length_le hmem.1 hi heq ▸ hmem.2
  · intro hne
    exact ⟨i, List.mem_toFinset.mpr (mem_changed.mpr ⟨hi, hne⟩), rfl⟩

/-- Forney's formula gives each change. -/
theorem forney {lambda : List Byte}
    (hlambda : poly lambda = poly (berlekampMassey nroots ((new nroots).syndromes block)).c) {i : ℕ}
    (hi : i ∈ changed block block') :
    evalAt (deriv lambda) (gfInv (gexp (block.length - 1 - i))) ≠ 0 ∧
      gfMul (gexp (block.length - 1 - i))
        (gfDiv (evalAt (omega nroots ((new nroots).syndromes block) lambda)
            (gfInv (gexp (block.length - 1 - i))))
          (evalAt (deriv lambda) (gfInv (gexp (block.length - 1 - i)))))
        = block.getD i 0 ^^^ block'.getD i 0 := by
  obtain ⟨hderiv, hweight⟩ := h.locates.weight_eq (List.mem_toFinset.mpr hi)
  have hinv : of (gfInv (gexp (block.length - 1 - i))) = (loc block.length i)⁻¹ :=
    of_gfInv (gexp_ne_zero _)
  have hlen : ((new nroots).syndromes block).length = nroots := by
    rw [syndromes, List.length_map, List.length_range]
    rfl
  have hd : of (evalAt (deriv lambda) (gfInv (gexp (block.length - 1 - i))))
      = (derivative (poly (berlekampMassey nroots ((new nroots).syndromes block)).c)).eval
        (loc block.length i)⁻¹ := by
    rw [of_evalAt, poly_deriv, hlambda, hinv]
  have hd0 : evalAt (deriv lambda) (gfInv (gexp (block.length - 1 - i))) ≠ 0 := by
    intro hzero
    rw [hzero, of_zero] at hd
    exact hderiv hd.symm
  have ho : of (evalAt (omega nroots ((new nroots).syndromes block) lambda)
        (gfInv (gexp (block.length - 1 - i))))
      = ∑ j ∈ Finset.range nroots,
        (poly (berlekampMassey nroots ((new nroots).syndromes block)).c *
          powerSum (changed block block').toFinset (loc block.length) (change block block')
            nroots).coeff j * (loc block.length i)⁻¹ ^ j := by
    have hpos : 0 < nroots := by
      have hfew := h.few_changed
      have := List.length_pos_iff.mpr h.some_changed
      omega
    have hdeg : (poly (omega nroots ((new nroots).syndromes block) lambda)).natDegree < nroots := by
      have hle :
        (poly (omega nroots ((new nroots).syndromes block) lambda)).natDegree ≤ nroots - 1 :=
        natDegree_le_iff_coeff_eq_zero.mpr fun k hk =>
          coeff_poly_of_length_le (by rw [length_omega]; omega)
      omega
    rw [of_evalAt, hinv, eval_eq_sum_range' hdeg]
    refine Finset.sum_congr rfl fun j hj => ?_
    rw [Finset.mem_range] at hj
    rw [coeff_poly, of_getD_omega nroots _ _ hj hlen, hlambda, poly_syndromes h.length_eq h.code]
  refine ⟨hd0, of_inj.mp ?_⟩
  rw [of_gfMul, of_gfDiv _ hd0, ho, hd]
  exact hweight.trans (neg_eq _)

/-- **A damaged block is restored**, and the changed bytes are counted. -/
theorem decode_eq :
    (new nroots).decode block = (.ok (changed block block').length, block') := by
  have hbm := bmInv_berlekampMassey nroots ((new nroots).syndromes block)
  have hlen := h.length_search
  have hfew := h.few_changed
  have hpos := List.length_pos_iff.mpr h.some_changed
  obtain ⟨fixed, hcorrect, hflen, hfget⟩ := correct_eq (nodup_changed block block')
    (fun i hi => h.forney hbm.poly_take hi) block fun i hi => (mem_changed.mp hi).1
  have hfixed : fixed = block' := by
    refine ext_getD (hflen.trans h.length_eq) fun k => ?_
    rw [hfget]
    by_cases hk : k ∈ changed block block'
    · rw [if_pos hk, ← UInt8.xor_assoc, UInt8.xor_self, UInt8.zero_xor]
    · rw [if_neg hk]
      rw [mem_changed, not_and, not_not] at hk
      rcases Nat.lt_or_ge k block.length with hlt | hge
      · exact hk hlt
      · rw [List.getD_eq_default block 0 hge, List.getD_eq_default block' 0 (h.length_eq ▸ hge)]
  have hclean : ¬ ((new nroots).syndromes block').any (· ≠ 0) = true := by
    intro hany
    obtain ⟨v, hv, hne⟩ := List.any_eq_true.mp hany
    obtain ⟨j, hj, rfl⟩ := List.mem_map.mp hv
    exact of_decide_eq_true hne (h.code j (List.mem_range.mp hj))
  have hn : ¬ (block.length > 255 ∨ block.length ≤ nroots) := by
    have := h.nroots_lt
    have := h.length_le
    omega
  have hroots : (new nroots).nroots = nroots := rfl
  have hl : ¬ ((berlekampMassey nroots ((new nroots).syndromes block)).l = 0 ∨
      (berlekampMassey nroots ((new nroots).syndromes block)).l > nroots / 2) := by
    rw [hlen]
    omega
  simp only [decode, hroots]
  rw [if_neg hn, if_neg h.syndromes_ne_zero, if_neg hl, h.chien_eq, if_neg (not_not.mpr hlen.symm),
    hcorrect]
  dsimp only
  rw [hfixed, if_neg hclean]

end Damaged

/-- **Correction up to capacity.**  A block that differs from an encoded one in at most
half as many bytes as it has parity is restored, and the changed bytes are counted. -/
theorem corrects_up_to_capacity (nroots : ℕ) (data block : List Byte) (h0 : 1 ≤ nroots)
    (hroots : nroots ≤ 254) (hdata : 1 ≤ data.length) (hmax : data.length ≤ 255 - nroots)
    (hlen : block.length = ((new nroots).encode data).length)
    (hfew : (changed block ((new nroots).encode data)).length ≤ nroots / 2) :
    (new nroots).decode block
      = (.ok (changed block ((new nroots).encode data)).length, (new nroots).encode data) := by
  have hencode : ((new nroots).encode data).length = data.length + nroots := by
    rw [encode, List.length_append, (value_parity h0 data).1]
  have hcode : ∀ j < nroots, value (gexp j) ((new nroots).encode data) = 0 :=
    fun j hj => value_encode hj data
  generalize (new nroots).encode data = block' at hlen hfew hencode hcode ⊢
  by_cases hsome : changed block block' = []
  · -- nothing was changed, and the block has no syndrome
    have heq : block = block' := by
      refine ext_getD hlen fun k => ?_
      by_contra hne
      have hk : k < block.length := by
        by_contra hk
        rw [List.getD_eq_default block 0 (by omega),
          List.getD_eq_default block' 0 (by omega)] at hne
        exact hne rfl
      have hmem := mem_changed.mpr ⟨hk, hne⟩
      rw [hsome] at hmem
      exact List.not_mem_nil hmem
    have hclean : ((new nroots).syndromes block').all (· = 0) = true := by
      rw [List.all_eq_true]
      intro v hv
      obtain ⟨j, hj, rfl⟩ := List.mem_map.mp hv
      exact decide_eq_true (of_eq_zero.mp (hcode j (List.mem_range.mp hj)))
    have hn : ¬ (block'.length > 255 ∨ block'.length ≤ nroots) := by omega
    have hnr : (new nroots).nroots = nroots := rfl
    rw [hsome, heq, decode, hnr]
    dsimp only
    rw [if_neg hn, if_pos hclean]
    rfl
  · have hdamaged : Damaged nroots block block' := {
      nroots_lt := by omega
      length_le := by omega
      length_eq := hlen
      code := hcode
      some_changed := hsome
      few_changed := by omega }
    exact hdamaged.decode_eq

/-- Two bytes of nine are changed, one of them in the parity. -/
theorem corrects_up_to_capacity_two :
    (new 4).decode [1, 9, 3, 4, 5, 73, 122, 0, 81] = (.ok 2, [1, 2, 3, 4, 5, 73, 122, 99, 81]) := by
  have hencode : (new 4).encode [1, 2, 3, 4, 5] = [1, 2, 3, 4, 5, 73, 122, 99, 81] := by
    decide +kernel
  have hchanged : changed [1, 9, 3, 4, 5, 73, 122, 0, 81] [1, 2, 3, 4, 5, 73, 122, 99, 81]
      = [1, 7] := by
    decide +kernel
  have h := corrects_up_to_capacity 4 [1, 2, 3, 4, 5] [1, 9, 3, 4, 5, 73, 122, 0, 81] (by decide)
    (by decide) (by decide) (by decide) (by rw [hencode]; rfl) (by rw [hencode, hchanged]; decide)
  rwa [hencode, hchanged] at h

end EvansComputer.Dsp.ReedSolomon
