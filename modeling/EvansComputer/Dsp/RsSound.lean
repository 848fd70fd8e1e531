import EvansComputer.Dsp.RsDecode

/-!
# What the decoder returns

A shortest recurrence of the syndromes that has as many roots among the places of the block as
it is long comes from changes at these places: the syndromes are a sum of geometric sequences,
one for each place, and none of the weights is zero (`exists_locates`).  So the block is a
damaged block of the code (`exists_damaged`), and the decoder restores it; the checks behind
the corrections never fail.  Everything else is refused before the block is touched.
-/

namespace EvansComputer.Dsp.ReedSolomon

open Polynomial GF256

variable {nroots : ℕ} {block : List Byte}

/-- A block with no syndrome. -/
def IsCodeword (rs : ReedSolomon) (block : List Byte) : Prop :=
  (rs.syndromes block).all (· = 0) = true

theorem isCodeword_iff : (new nroots).IsCodeword block ↔ ∀ j < nroots,
    value (gexp j) block = 0 := by
  rw [IsCodeword, List.all_eq_true, syndromes]
  constructor
  · intro h j hj
    exact of_eq_zero.mpr (of_decide_eq_true (h _ (List.mem_map_of_mem (List.mem_range.mpr hj))))
  · intro h v hv
    obtain ⟨j, hj, rfl⟩ := List.mem_map.mp hv
    exact decide_eq_true (of_eq_zero.mp (h j (List.mem_range.mp hj)))

theorem length_syndromes (block : List Byte) : ((new nroots).syndromes block).length = nroots := by
  rw [syndromes, List.length_map, List.length_range]
  rfl

theorem coeff_poly_syndromes {j : ℕ} (hj : j < nroots) :
    (poly ((new nroots).syndromes block)).coeff j = value (gexp j) block := by
  have hget : (List.range (new nroots).nroots)[j]? = some j := List.getElem?_range hj
  rw [coeff_poly, syndromes, List.getD_eq_getElem?_getD, List.getElem?_map, hget]
  rfl

/-! ## Changing bytes -/

/-- A block with some of its bytes changed. -/
def changeAt (places : List ℕ) (w : ℕ → Byte) (block : List Byte) : List Byte :=
  block.mapIdx fun i b => if i ∈ places then b ^^^ w i else b

theorem length_changeAt (places : List ℕ) (w : ℕ → Byte) :
    (changeAt places w block).length = block.length :=
  List.length_mapIdx

theorem getD_changeAt (places : List ℕ) (w : ℕ → Byte) {i : ℕ} (hi : i < block.length) :
    (changeAt places w block).getD i 0 = if i ∈ places then block.getD i 0 ^^^ w i
      else block.getD i 0 := by
  rw [List.getD_eq_getElem _ 0 (by rwa [length_changeAt]), List.getD_eq_getElem _ 0 hi]
  exact List.getElem_mapIdx

theorem of_pow_gexp (i j : ℕ) : of (gexp j) ^ i = of (gexp i) ^ j := by
  rw [of_gexp, of_gexp, ← pow_mul, ← pow_mul, Nat.mul_comm]

/-- The value of a changed block. -/
theorem value_changeAt {places : List ℕ} (w : ℕ → Byte)
    (hplaces : ∀ i ∈ places, i < block.length) (j : ℕ) :
    value (gexp j) (changeAt places w block) = value (gexp j) block +
      ∑ i ∈ places.toFinset, of (w i) * loc block.length i ^ j := by
  have hterm : ∀ i ∈ Finset.range block.length,
      of ((changeAt places w block).getD i 0) * of (gexp j) ^ (block.length - 1 - i) =
        of (block.getD i 0) * of (gexp j) ^ (block.length - 1 - i) +
          if i ∈ places then of (w i) * loc block.length i ^ j else 0 := by
    intro i hi
    rw [getD_changeAt places w (Finset.mem_range.mp hi), loc, ← of_pow_gexp]
    by_cases hmem : i ∈ places
    · rw [if_pos hmem, if_pos hmem, of_xor, add_mul]
    · rw [if_neg hmem, if_neg hmem, add_zero]
  rw [value_eq_sum, value_eq_sum, length_changeAt, Finset.sum_congr rfl hterm,
    Finset.sum_add_distrib, ← Finset.sum_filter]
  congr 1
  refine Finset.sum_congr (Finset.ext fun i => ?_) fun _ _ => rfl
  rw [Finset.mem_filter, Finset.mem_range, List.mem_toFinset]
  exact and_iff_right_of_imp (hplaces i)

/-! ## The roots that are found -/

variable {c : List Byte} {n i : ℕ}

theorem mem_chien {lambda : List Byte} :
    i ∈ chien lambda n ↔ i < n ∧ (poly lambda).eval (loc n i)⁻¹ = 0 := by
  rw [chien, List.mem_filter, List.mem_range, decide_eq_true_eq, ← of_eq_zero, of_evalAt,
    of_gexp_inv, loc]

theorem nodup_chien (lambda : List Byte) (n : ℕ) : (chien lambda n).Nodup :=
  List.nodup_range.filter _

/-- **As many roots as the recurrence is long** make the block a damaged one. -/
theorem exists_damaged (hn : nroots < block.length) (hle : block.length ≤ 255)
    (hpos : (berlekampMassey nroots ((new nroots).syndromes block)).l ≠ 0)
    (hfew : (berlekampMassey nroots ((new nroots).syndromes block)).l ≤ nroots / 2)
    (hroots : (chien ((berlekampMassey nroots ((new nroots).syndromes block)).c.take
        ((berlekampMassey nroots ((new nroots).syndromes block)).l + 1)) block.length).length =
      (berlekampMassey nroots ((new nroots).syndromes block)).l) :
    ∃ block', Damaged nroots block block' := by
  have hbm := bmInv_berlekampMassey nroots ((new nroots).syndromes block)
  have htake := hbm.poly_take
  have hsearch := hbm.search
  generalize hst : berlekampMassey nroots ((new nroots).syndromes block) = st at *
  generalize hplaces : chien (st.c.take (st.l + 1)) block.length = places at hroots
  have hmem : ∀ i, i ∈ places ↔ i < block.length ∧ (poly st.c).eval (loc block.length i)⁻¹ = 0 :=
    fun i => by
    rw [← hplaces, mem_chien, htake]
  have hnodup : places.Nodup := hplaces ▸ nodup_chien _ _
  have hcard : places.toFinset.card = st.l := (List.toFinset_card_of_nodup hnodup).trans hroots
  have hlocates := exists_locates (fun i _ => gexp_ne_zero (block.length - 1 - i))
    (fun i hi j hj heq => loc_inj hle ((hmem i).mp (List.mem_toFinset.mp hi)).1
      ((hmem j).mp (List.mem_toFinset.mp hj)).1 heq)
    (hcard ▸ hsearch.generates) (hcard ▸ hsearch.shortest)
    (fun i hi => ((hmem i).mp (List.mem_toFinset.mp hi)).2) (by omega)
    fun j hj => coeff_poly_of_length_le (by rw [length_syndromes]; exact hj)
  obtain ⟨weight, hsum, hloc⟩ := hlocates
  obtain ⟨w, rfl⟩ : ∃ w : ℕ → Byte, weight = fun i => of (w i) := ⟨weight, rfl⟩
  have hin : ∀ i ∈ places, i < block.length := fun i hi => ((hmem i).mp hi).1
  have hchanged : changed block (changeAt places w block) = places := by
    rw [← hplaces]
    refine List.filter_congr fun i hi => ?_
    have hi' := List.mem_range.mp hi
    rw [decide_eq_decide, ← of_eq_zero, of_evalAt, htake, of_gexp_inv, getD_changeAt _ _ hi']
    by_cases hroot : i ∈ places
    · rw [if_pos (hplaces ▸ hroot)]
      refine iff_of_true (fun heq => ?_) ((hmem i).mp hroot).2
      have hxor : w i = 0 := by
        have hself := congrArg (block.getD i 0 ^^^ ·) heq
        rw [UInt8.xor_self, ← UInt8.xor_assoc, UInt8.xor_self, UInt8.zero_xor] at hself
        exact hself.symm
      exact hloc.weight_ne_zero i (List.mem_toFinset.mpr hroot) (of_eq_zero.mpr hxor)
    · rw [if_neg (hplaces ▸ hroot)]
      exact iff_of_false (fun hne => hne rfl) fun hzero => hroot ((hmem i).mpr ⟨hi', hzero⟩)
  refine ⟨changeAt places w block, hn, hle, (length_changeAt _ _).symm, fun j hj => ?_, ?_, ?_⟩
  · rw [value_changeAt w hin, ← coeff_poly_syndromes hj, hsum, coeff_powerSum hj]
    exact add_self _
  · rw [hchanged]
    intro hnil
    rw [hnil] at hroots
    exact hpos hroots.symm
  · rw [hchanged, hroots]
    omega

/-- **Errors in as many bytes as there is parity are seen.** -/
theorem isCodeword_iff_eq_encode (nroots : ℕ) (data block : List Byte) (hpos : 0 < nroots)
    (hmax : data.length + nroots ≤ 255) (hlen : block.length = data.length + nroots)
    (hfew : (changed block ((new nroots).encode data)).length ≤ nroots) :
    (new nroots).IsCodeword block ↔ block = (new nroots).encode data := by
  have hencode : ((new nroots).encode data).length = data.length + nroots := by
    rw [encode, List.length_append, (value_parity hpos data).1]
  have hcode : ∀ j < nroots, value (gexp j) ((new nroots).encode data) = 0 :=
    fun j hj => value_encode hj data
  refine ⟨fun h => ?_, fun h => h ▸ isCodeword_iff.mpr hcode⟩
  have hsum := poly_syndromes (hlen.trans hencode.symm) hcode
  have hweight := weight_eq_zero (E := (changed block ((new nroots).encode data)).toFinset)
    (fun i hi j hj => loc_inj (hlen.trans_le hmax) (mem_changed.mp (List.mem_toFinset.mp hi)).1
      (mem_changed.mp (List.mem_toFinset.mp hj)).1) fun j hj => by
    have hjn := (hj.trans_eq (card_changed _ _)).trans_le hfew
    rw [← coeff_powerSum hjn, ← hsum, coeff_poly_syndromes hjn, isCodeword_iff.mp h j hjn]
  refine List.ext_getElem (hlen.trans hencode.symm) fun k hk hk' => ?_
  by_contra hne
  rw [← List.getD_eq_getElem _ 0, ← List.getD_eq_getElem _ 0] at hne
  exact hne (change_eq_zero.mp (hweight k (List.mem_toFinset.mpr (mem_changed.mpr ⟨hk, hne⟩))))

theorem isCodeword_iff_eq_encode_four :
    (new 4).IsCodeword [7, 0, 0, 0, 0] ↔ [7, 0, 0, 0, 0] = (new 4).encode [7] :=
  isCodeword_iff_eq_encode 4 [7] _ (by decide) (by decide) (by decide) (by decide +kernel)

end EvansComputer.Dsp.ReedSolomon
