import EvansComputer.Cell.Crypto

/-!
# What the replay window remembers

A receiver that must open every message at most once would keep every counter it
has accepted.  `ReplayWindow` keeps the highest one and 64 bits.  `Tracks` relates
it to the list it stands for, and the two theorems here are all that the channels
need: `check` says of that list whether the counter is new and less than 64 below
everything accepted (`check_iff`), and `accept` adds the counter to it (`Tracks.accept`).

The bit of a counter is counted down from the highest one, so accepting a higher
counter shifts every bit by the distance between the two.
-/

namespace EvansComputer.Cell

/-- Bit `i` of a word. -/
abbrev bit (w : UInt64) (i : ℕ) : Bool := w.toNat.testBit i

theorem toNat_one_shiftLeft {k : UInt64} (h : k < 64) :
    ((1 : UInt64) <<< k).toNat = 2 ^ k.toNat := by
  have hk : k.toNat < 64 := UInt64.lt_iff_toNat_lt.mp h
  rw [UInt64.toNat_shiftLeft, Nat.mod_eq_of_lt hk, Nat.shiftLeft_eq, UInt64.toNat_one, one_mul]
  exact Nat.mod_eq_of_lt (Nat.pow_lt_pow_right (by omega) hk)

theorem and_one_shiftLeft_eq_zero {w k : UInt64} (h : k < 64) :
    w &&& (1 <<< k) = 0 ↔ bit w k.toNat = false := by
  rw [← UInt64.toNat_inj, UInt64.toNat_and, toNat_one_shiftLeft h, UInt64.toNat_zero,
    Nat.and_two_pow]
  cases hb : bit w k.toNat with
  | false => simp [hb]
  | true => simp [hb]

theorem bit_or_one_shiftLeft {w k : UInt64} (h : k < 64) (i : ℕ) :
    bit (w ||| (1 <<< k)) i = (bit w i || decide (k.toNat = i)) := by
  rw [bit, UInt64.toNat_or, Nat.testBit_or, toNat_one_shiftLeft h, Nat.testBit_two_pow]

theorem bit_or_one (w : UInt64) (i : ℕ) : bit (w ||| 1) i = (bit w i || decide (0 = i)) :=
  bit_or_one_shiftLeft (k := 0) (by decide) i

theorem bit_shiftLeft {w k : UInt64} (h : k < 64) {i : ℕ} (hi : i < 64) :
    bit (w <<< k) i = (decide (k.toNat ≤ i) && bit w (i - k.toNat)) := by
  have hk : k.toNat < 64 := UInt64.lt_iff_toNat_lt.mp h
  rw [bit, UInt64.toNat_shiftLeft, Nat.mod_eq_of_lt hk, Nat.testBit_mod_two_pow,
    Nat.testBit_shiftLeft]
  simp [hi]

namespace ReplayWindow

/-- The window stands for the accepted counters `seen`. -/
structure Tracks (w : ReplayWindow) (seen : List ℕ) : Prop where
  below : ∀ n ∈ seen, n < w.top.toNat
  highest : w.top ≠ 0 → w.top.toNat - 1 ∈ seen
  bits : ∀ i < 64, i < w.top.toNat → (bit w.bits i = true ↔ w.top.toNat - 1 - i ∈ seen)

variable {w : ReplayWindow} {seen : List ℕ} {c : UInt64}

theorem tracks_default : Tracks {} [] where
  below _ hn := absurd hn List.not_mem_nil
  highest h := absurd rfl h
  bits i _ hi := absurd hi (Nat.not_lt_zero i)

/-- The distance from the highest accepted counter. -/
theorem toNat_back (h : ¬ w.top ≤ c) :
    (w.top - 1 - c).toNat = w.top.toNat - 1 - c.toNat := by
  have hlt : c.toNat < w.top.toNat := Nat.lt_of_not_le fun hle => h (UInt64.le_iff_toNat_le.mpr hle)
  have hone : (1 : UInt64).toNat = 1 := rfl
  have hle : (1 : UInt64) ≤ w.top := UInt64.le_iff_toNat_le.mpr (by rw [hone]; omega)
  have hpred : (w.top - 1).toNat = w.top.toNat - 1 := by
    rw [UInt64.toNat_sub_of_le _ _ hle, hone]
  have hle' : c ≤ w.top - 1 := UInt64.le_iff_toNat_le.mpr (by rw [hpred]; omega)
  rw [UInt64.toNat_sub_of_le _ _ hle', hpred]

/-- **The window answers for the whole list.**  A counter passes where it is new
and less than 64 below everything accepted. -/
theorem Tracks.check_iff (h : Tracks w seen) :
    w.check c = true ↔ c.toNat ∉ seen ∧ ∀ n ∈ seen, n < c.toNat + 64 := by
  unfold check
  by_cases hnew : w.top = 0 ∨ w.top ≤ c
  · rw [if_pos hnew]
    refine iff_of_true rfl ?_
    have hall : ∀ n ∈ seen, n < c.toNat := by
      intro n hn
      have hlt := h.below n hn
      rcases hnew with h0 | hle
      · rw [h0] at hlt
        exact absurd hlt (Nat.not_lt_zero n)
      · exact Nat.lt_of_lt_of_le hlt (UInt64.le_iff_toNat_le.mp hle)
    exact ⟨fun hc => Nat.lt_irrefl _ (hall _ hc), fun n hn => Nat.lt_add_right 64 (hall n hn)⟩
  · rw [if_neg hnew]
    obtain ⟨h0, hle⟩ := not_or.mp hnew
    have hlt : c.toNat < w.top.toNat :=
      Nat.lt_of_not_le fun h' => hle (UInt64.le_iff_toNat_le.mpr h')
    have hback := toNat_back hle
    have hhigh := h.highest h0
    simp only [decide_eq_true_eq]
    rw [UInt64.lt_iff_toNat_lt, hback, show (64 : UInt64).toNat = 64 from rfl]
    constructor
    · rintro ⟨hnear, hclear⟩
      have hk : w.top - 1 - c < 64 := by
        rw [UInt64.lt_iff_toNat_lt, hback]
        exact hnear
      rw [and_one_shiftLeft_eq_zero hk, hback] at hclear
      have hbit := h.bits _ hnear (by omega)
      rw [show w.top.toNat - 1 - (w.top.toNat - 1 - c.toNat) = c.toNat by omega, hclear] at hbit
      refine ⟨fun hc => Bool.false_ne_true (hbit.mpr hc), fun n hn => ?_⟩
      have := h.below n hn
      omega
    · rintro ⟨hc, hall⟩
      have hnear : w.top.toNat - 1 - c.toNat < 64 := by
        have := hall _ hhigh
        omega
      have hk : w.top - 1 - c < 64 := by
        rw [UInt64.lt_iff_toNat_lt, hback]
        exact hnear
      refine ⟨hnear, ?_⟩
      rw [and_one_shiftLeft_eq_zero hk, hback, ← Bool.not_eq_true, h.bits _ hnear (by omega),
        show w.top.toNat - 1 - (w.top.toNat - 1 - c.toNat) = c.toNat by omega]
      exact hc

/-- The old bits after the window moved up to a new highest counter. -/
theorem bit_shifted (h : Tracks w seen) (htop : w.top.toNat ≤ c.toNat)
    (hsucc : (c + 1).toNat = c.toNat + 1) {i : ℕ} (hi : i < 64) (hpos : 0 < i)
    (hlt : i ≤ c.toNat) {shift : UInt64}
    (hshift : shift = if w.top = 0 then 64 else c + 1 - w.top) :
    bit (if 64 ≤ shift then 0 else w.bits <<< shift) i = true ↔ c.toNat - i ∈ seen := by
  have hgone : w.top.toNat ≤ c.toNat - i → c.toNat - i ∉ seen := by
    intro hle hmem
    exact Nat.lt_irrefl _ (Nat.lt_of_le_of_lt hle (h.below _ hmem))
  have hzero : bit 0 i = false := by
    rw [bit, UInt64.toNat_zero, Nat.zero_testBit]
  by_cases h0 : w.top = 0
  · rw [if_pos h0] at hshift
    rw [hshift, if_pos (UInt64.le_refl 64), hzero]
    refine iff_of_false Bool.false_ne_true (hgone ?_)
    rw [h0]
    exact Nat.zero_le _
  · rw [if_neg h0] at hshift
    have hdist : shift.toNat = c.toNat + 1 - w.top.toNat := by
      rw [hshift, UInt64.toNat_sub_of_le _ _ (UInt64.le_iff_toNat_le.mpr (by rw [hsucc]; omega)),
        hsucc]
    by_cases hfar : 64 ≤ shift
    · have hge : 64 ≤ shift.toNat := UInt64.le_iff_toNat_le.mp hfar
      rw [if_pos hfar, hzero]
      exact iff_of_false Bool.false_ne_true (hgone (by omega))
    · have hnear : shift < 64 := UInt64.not_le.mp hfar
      rw [if_neg hfar, bit_shiftLeft hnear hi, Bool.and_eq_true, decide_eq_true_eq]
      by_cases hold : shift.toNat ≤ i
      · rw [and_iff_right hold, h.bits (i - shift.toNat) (by omega) (by omega),
          show w.top.toNat - 1 - (i - shift.toNat) = c.toNat - i by omega]
      · exact iff_of_false (fun hb => hold hb.1) (hgone (by omega))

/-- Accepting a counter adds it to the list, as long as one more than it is still
a word. -/
theorem Tracks.accept (h : Tracks w seen) (hcheck : w.check c = true)
    (hc : c.toNat + 1 < UInt64.size) : Tracks (w.accept c) (c.toNat :: seen) := by
  obtain ⟨hfresh, hall⟩ := h.check_iff.mp hcheck
  have hsucc : (c + 1).toNat = c.toNat + 1 := by
    rw [UInt64.toNat_add, UInt64.toNat_one]
    exact Nat.mod_eq_of_lt hc
  unfold ReplayWindow.accept
  by_cases hnew : w.top = 0 ∨ w.top ≤ c
  · rw [if_pos hnew]
    have htop : w.top.toNat ≤ c.toNat := by
      rcases hnew with h0 | hle
      · rw [h0]
        exact Nat.zero_le _
      · exact UInt64.le_iff_toNat_le.mp hle
    refine ⟨?_, fun _ => ?_, fun i hi hlt => ?_⟩
    · intro n hn
      dsimp only
      rw [hsucc]
      rcases List.mem_cons.mp hn with rfl | hn
      · exact Nat.lt_succ_self _
      · have := h.below n hn
        omega
    · dsimp only
      rw [hsucc, Nat.add_sub_cancel]
      exact List.mem_cons_self
    · dsimp only at hlt ⊢
      rw [hsucc] at hlt ⊢
      rw [bit_or_one, Nat.add_sub_cancel, List.mem_cons]
      rcases Nat.eq_zero_or_pos i with rfl | hpos
      · simp
      · -- a bit above the lowest is an old one, moved up by the distance
        rw [show decide (0 = i) = false from decide_eq_false (by omega), Bool.or_false]
        rw [or_iff_right (by omega : ¬ c.toNat - i = c.toNat)]
        exact bit_shifted h htop hsucc hi hpos (by omega) rfl
  · rw [if_neg hnew]
    obtain ⟨h0, hle⟩ := not_or.mp hnew
    have hlt : c.toNat < w.top.toNat :=
      Nat.lt_of_not_le fun h' => hle (UInt64.le_iff_toNat_le.mpr h')
    have hback := toNat_back hle
    have hnear : w.top - 1 - c < 64 := by
      have := hall _ (h.highest h0)
      rw [UInt64.lt_iff_toNat_lt, hback, show (64 : UInt64).toNat = 64 from rfl]
      omega
    dsimp only
    rw [if_pos hnear]
    refine ⟨?_, fun h0 => List.mem_cons_of_mem _ (h.highest h0), fun i hi hlt' => ?_⟩
    · intro n hn
      rcases List.mem_cons.mp hn with rfl | hn
      · exact hlt
      · exact h.below n hn
    · dsimp only at hlt' ⊢
      rw [bit_or_one_shiftLeft hnear, hback, Bool.or_eq_true, h.bits i hi hlt', List.mem_cons,
        decide_eq_true_eq, or_comm]
      refine or_congr ?_ Iff.rfl
      omega

end EvansComputer.Cell.ReplayWindow
