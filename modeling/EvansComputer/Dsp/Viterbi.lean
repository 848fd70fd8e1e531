import EvansComputer.Dsp.Conv
import EvansComputer.Library.Trellis

/-!
# The decoder of Viterbi finds a nearest codeword

The encoder's register is a state of six bits and the bit that enters it, so that the encoder
is a walk through a trellis of 64 states (`conv`), and the agreement of a walk with what was
received is its weight.  The decoder's metrics are the greatest weights, up to a number that
the renormalisations have taken off, and its packed decisions lead back along walks that have
them (`running_foldl`).  In the last state only walks end whose last six bits are zero.
-/

namespace EvansComputer.Dsp

/-! ## The trellis -/

/-- The register value of a state and the bit that enters. -/
def register (s : ℕ) (b : Byte) : ℕ := 2 * s + (b &&& 1).toNat

/-- The walk of the encoder, weighed by its agreement with what was received. -/
def conv : Trellis ℕ Byte (ℤ × ℤ) where
  start := 0
  next s b := register s b % 64
  weight r s b :=
    r.1 * (expected.getD (register s b) (0, 0)).1 + r.2 * (expected.getD (register s b) (0, 0)).2

theorem bit_lt (b : Byte) : (b &&& 1).toNat < 2 := by
  rw [UInt8.toNat_and]
  exact (Nat.and_one_is_mod b.toNat).trans_lt (Nat.mod_lt _ (by decide))

/-! ## The two branches into a state -/

variable {metric : List Metric} {decisions : List (BitVec 64)} {r : ℤ × ℤ}
    {rs : List (ℤ × ℤ)} {ns : ℕ}

/-- The metric along the branch from a predecessor below 32. -/
def lower (metric : List Metric) (r : ℤ × ℤ) (ns : ℕ) : Metric := branch metric r (ns / 2) ns

/-- The metric along the branch from one above. -/
def upper (metric : List Metric) (r : ℤ × ℤ) (ns : ℕ) : Metric :=
  branch metric r (ns / 2 + 32) (ns + 64)

/-- The bits of the source are sums. -/
theorem branches_eq :
    ∀ ns < 64, ns >>> 1 = ns / 2 ∧ (ns >>> 1) ||| (1 <<< (constraintLength - 2)) = ns / 2 + 32 ∧
    (((ns >>> 1) <<< 1) ||| (ns &&& 1)) &&& 0x7F = ns ∧
    (((((ns >>> 1) ||| (1 <<< (constraintLength - 2))) <<< 1) ||| (ns &&& 1)) &&& 0x7F) ||| 0x40 =
      ns + 64 := by
  decide

theorem survive_eq (h : ns < 64) (st : List Metric × BitVec 64) : survive metric r st ns =
    if upper metric r ns > lower metric r
      ns then (st.1 ++ [upper metric r ns], st.2 ||| ((1 : BitVec 64) <<< ns))
    else (st.1 ++ [lower metric r ns], st.2) := by
  obtain ⟨hs0, hs1, hsr0, hsr1⟩ := branches_eq ns h
  unfold survive
  dsimp only
  rw [hsr1, hs1, hsr0, hs0]
  rfl

/-- The greater of the two. -/
def greater (metric : List Metric) (r : ℤ × ℤ) (ns : ℕ) : Metric :=
  if upper metric r ns > lower metric r ns then upper metric r ns else lower metric r ns

theorem getLsbD_one_shiftLeft (n i : ℕ) (hi : i < 64) :
    ((1 : BitVec 64) <<< n).getLsbD i = decide (i = n) := by
  rw [BitVec.getLsbD_shiftLeft]
  change (decide (i < 64) && !decide (i < n) && (1#64).getLsbD (i - n)) = _
  rw [BitVec.getLsbD_one, Bool.eq_iff_iff]
  simp only [hi, decide_true, Bool.true_and, Bool.and_eq_true, Bool.not_eq_true',
    decide_eq_false_iff_not,
    decide_eq_true_eq]
  omega

/-- The loop over the states: all greater metrics, and a bit where it was the upper one. -/
theorem foldl_survive (metric : List Metric) (r : ℤ × ℤ) {k : ℕ} (hk : k ≤ 64) :
    ∃ dec : BitVec 64, (List.range k).foldl (survive metric r)
      ([], 0) = ((List.range k).map (greater metric r), dec) ∧
      ∀ i < 64, dec.getLsbD i = decide (i < k ∧ upper metric r i > lower metric r i) := by
  induction k with
  | zero =>
    refine ⟨0, rfl, fun i _ => ?_⟩
    simp
  | succ k ih =>
    obtain ⟨dec, hfold, hdec⟩ := ih (by omega)
    rw [List.range_succ, List.foldl_append, hfold, List.map_append]
    change ∃ dec', survive metric r (_, dec) k = _ ∧ _
    rw [survive_eq (by omega)]
    by_cases hup : upper metric r k > lower metric r k
    · rw [if_pos hup]
      refine ⟨dec ||| ((1 : BitVec 64) <<< k), ?_, fun i hi => ?_⟩
      · rw [List.map_singleton, greater, if_pos hup]
      · rw [BitVec.getLsbD_or, hdec i hi, getLsbD_one_shiftLeft k i hi, ← Bool.decide_or,
          decide_eq_decide]
        constructor
        · rintro (⟨hlt, hi'⟩ | rfl)
          · exact ⟨by omega, hi'⟩
          · exact ⟨Nat.lt_succ_self _, hup⟩
        · rintro ⟨hlt, hi'⟩
          rcases Nat.lt_succ_iff_lt_or_eq.mp hlt with hlt | rfl
          · exact .inl ⟨hlt, hi'⟩
          · exact .inr rfl
    · rw [if_neg hup]
      refine ⟨dec, ?_, fun i hi => ?_⟩
      · rw [List.map_singleton, greater, if_neg hup]
      · rw [hdec i hi, decide_eq_decide]
        refine and_congr_left fun hi' => ?_
        have hne : i ≠ k := by
          rintro rfl
          exact hup hi'
        omega

/-- The bit that is read of the decisions. -/
theorem toNat_decision (dec : BitVec 64) (i : ℕ) :
    ((dec >>> i) &&& 1).toNat = if dec.getLsbD i then 1 else 0 := by
  rw [BitVec.toNat_and, BitVec.toNat_ushiftRight]
  change (dec.toNat >>> i) &&& 1 = _
  rw [Nat.and_one_is_mod, BitVec.getLsbD, Nat.testBit, Nat.and_comm, Nat.and_one_is_mod]
  rcases Nat.mod_two_eq_zero_or_one (dec.toNat >>> i) with h | h <;> rw [h] <;> rfl

/-! ## One step -/

/-- The predecessor that a decision leads back to. -/
def predecessor (dec : BitVec 64) (s : ℕ) : ℕ :=
  (s >>> 1) ||| (((dec >>> s) &&& 1).toNat <<< (constraintLength - 2))

theorem traceback_cons (dec : BitVec 64) (decs : List (BitVec 64)) (s : ℕ) :
    traceback (dec :: decs) s = traceback decs (predecessor dec s) ++ [UInt8.ofNat (s &&& 1)] := rfl

theorem predecessor_eq : ∀ s < 64, (s >>> 1) ||| (0 <<< (constraintLength - 2)) = s / 2 ∧
    (s >>> 1) ||| (1 <<< (constraintLength - 2)) = s / 2 + 32 := by
  decide

/-- The states of a trellis with one step more. -/
structure Stepped (metric : List Metric) (r : ℤ × ℤ) (next : List Metric) (dec : BitVec 64) :
    Prop where
  length : next.length = 64
  /-- A state's metric is along the branch that its decision leads back. -/
  chosen : ∀ s < 64, next.getD s ⊥ = branch metric r (predecessor dec s)
    (register (predecessor dec s) (UInt8.ofNat (s &&& 1)))
    ∧ register (predecessor dec s) (UInt8.ofNat (s &&& 1)) % 64 = s
  best : ∀ s < 64, ∀ b : Byte, branch metric r s (register s b) ≤ next.getD (register s b % 64) ⊥

theorem lower_le (metric : List Metric) (r : ℤ × ℤ) (ns : ℕ) :
    lower metric r ns ≤ greater metric r ns := by
  unfold greater
  split_ifs with h
  · exact h.le
  · exact le_rfl

theorem upper_le (metric : List Metric) (r : ℤ × ℤ) (ns : ℕ) :
    upper metric r ns ≤ greater metric r ns := by
  unfold greater
  split_ifs with h
  · exact le_rfl
  · exact not_lt.mp h

theorem getD_map_range (f : ℕ → Metric) {n i : ℕ} (h : i < n) :
    ((List.range n).map f).getD i ⊥ = f i := by
  rw [List.getD_eq_getElem?_getD, List.getElem?_map, List.getElem?_range h]
  rfl

theorem stepped_survive (metric : List Metric) (r : ℤ × ℤ) :
    ∃ next dec, (List.range numStates).foldl (survive metric r) ([], 0) = (next, dec) ∧
      Stepped metric r next dec := by
  obtain ⟨dec, hfold, hdec⟩ := foldl_survive metric r (le_refl 64)
  refine ⟨_, dec, hfold, ?_, fun s hs => ?_, fun s hs b => ?_⟩
  · rw [List.length_map, List.length_range]
  · obtain ⟨hlow, hhigh⟩ := predecessor_eq s hs
    have hbit : (UInt8.ofNat (s &&& 1) &&& 1).toNat = s % 2 := by
      rw [Nat.and_one_is_mod]
      rcases Nat.mod_two_eq_zero_or_one s with h | h <;> rw [h] <;> rfl
    rw [getD_map_range _ hs, predecessor, toNat_decision, hdec s hs]
    by_cases hup : upper metric r s > lower metric r s
    · rw [decide_eq_true ⟨hs, hup⟩, if_pos rfl, hhigh, greater, if_pos hup, register, hbit]
      have hreg : 2 * (s / 2 + 32) + s % 2 = s + 64 := by omega
      rw [hreg]
      exact ⟨rfl, by omega⟩
    · rw [decide_eq_false (fun h => hup h.2), if_neg Bool.false_ne_true, hlow, greater, if_neg hup,
        register, hbit]
      have hreg : 2 * (s / 2) + s % 2 = s := by omega
      rw [hreg]
      exact ⟨rfl, by omega⟩
  · have hb := bit_lt b
    have hlt : register s b % 64 < 64 := Nat.mod_lt _ (by decide)
    rw [getD_map_range _ hlt]
    by_cases hlow : s < 32
    · have hreg : register s b % 64 = register s b := Nat.mod_eq_of_lt (by unfold register; omega)
      have hhalf : register s b / 2 = s := by
        unfold register
        omega
      have hle := lower_le metric r (register s b)
      rw [hreg]
      rwa [lower, hhalf] at hle
    · have hhalf : register s b % 64 / 2 + 32 = s := by
        unfold register
        omega
      have hreg : register s b % 64 + 64 = register s b := by
        unfold register
        omega
      have hle := upper_le metric r (register s b % 64)
      rwa [upper, hhalf, hreg] at hle

/-! ## All steps -/

/-- A metric up to the number that was taken off. -/
def metricValue (metric : List Metric) (c : ℤ) (s : ℕ) : Metric := metric.getD s ⊥ + (c : ℤ)

theorem branch_eq (metric : List Metric) (r : ℤ × ℤ) (c : ℤ) (s : ℕ) (b : Byte) :
    branch metric r s (register s b) + (c : ℤ) = metricValue metric c s +
      (conv.weight r s b : ℤ) := by
  change metric.getD s ⊥ + _ + _ + _ = metric.getD s ⊥ + (c : ℤ) + ((_ + _ : ℤ) : Metric)
  rw [WithBot.coe_add]
  ac_rfl

theorem lt_of_value_ne_bot {c : ℤ} {s : ℕ} (hlen : metric.length = 64)
    (h : metricValue metric c s ≠ ⊥) : s < 64 := by
  by_contra hge
  rw [metricValue, List.getD_eq_default _ _ (by omega), WithBot.bot_add] at h
  exact h rfl

/-- What is taken off all metrics is added to the number. -/
theorem value_renormalised (next : List Metric) (c k : ℤ) (s : ℕ) :
    metricValue (next.map fun m => m + (-k : ℤ)) (c + k) s = metricValue next c s := by
  rw [metricValue, metricValue, List.getD_eq_getElem?_getD, List.getElem?_map,
    List.getD_eq_getElem?_getD]
  cases next[s]? with
  | none => exact (WithBot.bot_add _).trans (WithBot.bot_add _).symm
  | some m =>
    change m + ((-k : ℤ) : Metric) + ((c + k : ℤ) : Metric) = m + (c : Metric)
    rw [add_assoc, ← WithBot.coe_add]
    congr 2
    omega

/-- **The metrics and the decisions after some observations.** -/
structure Running (rs : List (ℤ × ℤ)) (st : List Metric × List (BitVec 64)) : Prop where
  length : st.1.length = 64
  survivors : ∃ c, conv.Survivors rs (metricValue st.1 c) (traceback st.2.reverse)

theorem running_start : Running [] ((List.replicate numStates ⊥).set 0 0, []) where
  length := rfl
  survivors := by
    refine ⟨0, Trellis.survivors_nil rfl fun s hs => ?_⟩
    have hlt := lt_of_value_ne_bot rfl hs
    by_contra hne
    have hother : (0 : ℕ) ≠ s := fun h => hne h.symm
    have hstate : s < numStates := hlt
    refine hs ?_
    rw [metricValue, List.getD_eq_getElem?_getD]
    change (((List.replicate numStates (⊥ : Metric)).set 0 0)[s]?).getD ⊥ + _ = ⊥
    rw [List.getElem?_set_ne hother, List.getElem?_replicate_of_lt hstate]
    rfl

theorem viterbiStep_eq {st : List Metric × List (BitVec 64)} {r : ℤ × ℤ} {next : List Metric}
    {dec : BitVec 64} (h : (List.range numStates).foldl (survive st.1 r) ([], 0) = (next, dec)) :
    viterbiStep st r =
      (next.map fun m => m + ((-(next.foldl max ⊥).unbotD 0 : ℤ) : Metric), st.2 ++ [dec]) := by
  unfold viterbiStep
  rw [h]

/-- **A step of the trellis keeps the survivors.** -/
theorem Running.step {st : List Metric × List (BitVec 64)} (h : Running rs st) (r : ℤ × ℤ) :
    Running (rs ++ [r]) (viterbiStep st r) := by
  obtain ⟨c, hc⟩ := h.survivors
  obtain ⟨next, dec, hfold, hstep⟩ := stepped_survive st.1 r
  rw [viterbiStep_eq hfold]
  generalize (next.foldl max ⊥).unbotD 0 = k
  refine ⟨(List.length_map _).trans hstep.length, c + k, ?_⟩
  have hvalue : metricValue (next.map fun m => m + (-k : ℤ)) (c + k) = metricValue next c :=
    funext (value_renormalised next c k)
  change conv.Survivors _ (metricValue (next.map fun m => m + (-k : ℤ)) (c + k))
    (traceback (st.2 ++ [dec]).reverse)
  rw [hvalue, List.reverse_append]
  refine hc.step (fun s hs => ?_) fun s b hs => ?_
  · obtain ⟨hchosen, hnext⟩ := hstep.chosen s (lt_of_value_ne_bot hstep.length hs)
    refine ⟨hnext, ?_⟩
    rw [metricValue, hchosen, branch_eq]
    rfl
  · rw [← branch_eq]
    exact add_le_add_left (hstep.best s (lt_of_value_ne_bot h.length hs) b) _

theorem running_foldl {st : List Metric × List (BitVec 64)} (h : Running rs st)
    (more : List (ℤ × ℤ)) :
    Running (rs ++ more) (more.foldl viterbiStep st) := by
  induction more generalizing rs st with
  | nil => rwa [List.append_nil]
  | cons r more ih =>
    have hnext := ih (h.step r)
    rwa [List.append_assoc] at hnext

end EvansComputer.Dsp
