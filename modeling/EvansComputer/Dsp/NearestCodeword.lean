import EvansComputer.Dsp.Viterbi
import EvansComputer.Dsp.HdlcRuns

/-!
# Nearest codewords

The weight of a walk is the agreement of its coded bits with those received, so the survivor in
the last state is a nearest codeword (`viterbi_nearest`): the walks that end there are just
those whose last six bits are zero.
-/

namespace EvansComputer.Dsp

/-- The number of places where two lists differ. -/
def hamming (a b : List Byte) : ℕ := (a.zip b).countP fun x => x.1 ≠ x.2

/-! ## The encoder walks through the trellis -/

variable {n : ℕ} {s : ℕ} {sr : Byte} {bits coded : List Byte}

/-- The coded bits of a walk. -/
def emit : ℕ → List Byte → List Byte
  | _, [] => []
  | s, b :: bits =>
    (outputs (UInt8.ofNat (register s b))).1 :: (outputs (UInt8.ofNat (register s b))).2 ::
      emit (register s b % 64) bits

theorem shiftIn_eq (sr b : Byte) : shiftIn sr b = UInt8.ofNat (register (sr.toNat % 64) b) := by
  have hall : (List.range 256).all (fun n =>
      ((UInt8.ofNat n <<< 1) ||| 0) &&& 0x7F = UInt8.ofNat (2 * (n % 64) + 0) ∧
      ((UInt8.ofNat n <<< 1) ||| 1) &&& 0x7F = UInt8.ofNat (2 * (n % 64) + 1)) = true := by
    decide +kernel
  have hsr := of_decide_eq_true (List.all_eq_true.mp hall sr.toNat (List.mem_range.mpr sr.toNat_lt))
  rw [UInt8.ofNat_toNat] at hsr
  unfold shiftIn register
  rcases Nrzi.and_one b with hb | hb <;> rw [hb]
  · exact hsr.1
  · exact hsr.2

theorem register_lt (hs : s < 64) (b : Byte) : register s b < 128 := by
  have hb := bit_lt b
  unfold register
  omega

theorem toNat_shiftIn (sr b : Byte) : (shiftIn sr b).toNat = register (sr.toNat % 64) b := by
  have hlt := register_lt (Nat.mod_lt sr.toNat (by decide : 64 > 0)) b
  rw [shiftIn_eq]
  exact UInt8.toNat_ofNat_of_lt' (hlt.trans (by decide))

theorem encodeInto_eq (sr : Byte) (bits : List Byte) :
    (encodeInto sr bits).2 = emit (sr.toNat % 64) bits ∧
      (encodeInto sr bits).1.toNat % 64 = bits.foldl conv.next (sr.toNat % 64) := by
  induction bits generalizing sr with
  | nil => exact ⟨rfl, rfl⟩
  | cons b bits ih =>
    obtain ⟨hout, hreg⟩ := ih (shiftIn sr b)
    rw [toNat_shiftIn] at hout hreg
    refine ⟨?_, hreg⟩
    change (outputs (shiftIn sr b)).1 :: (outputs (shiftIn sr b)).2 ::
      (encodeInto (shiftIn sr b) bits).2 = _
    rw [hout, shiftIn_eq]
    rfl

theorem emit_append (s : ℕ) (a b : List Byte) :
    emit s (a ++ b) = emit s a ++ emit (a.foldl conv.next s) b := by
  induction a generalizing s with
  | nil => rfl
  | cons x a ih => exact congrArg (fun l => _ :: _ :: l) (ih _)

/-- What the encoder sends is a walk that ends in six zeros. -/
theorem encodeTerminated_eq (bits : List Byte) :
    encodeTerminated bits = emit 0 (bits ++ List.replicate 6 0) := by
  have hhead := encodeInto_eq 0 bits
  change (encodeInto 0 bits).2 ++ (encodeInto (encodeInto 0 bits).1 (List.replicate 6 0)).2 = _
  rw [hhead.1, (encodeInto_eq (encodeInto 0 bits).1 _).1, hhead.2, emit_append]
  rfl

theorem length_emit (s : ℕ) (bits : List Byte) : (emit s bits).length = 2 * bits.length := by
  induction bits generalizing s with
  | nil => rfl
  | cons b bits ih =>
    rw [emit, List.length_cons, List.length_cons, ih, List.length_cons]
    omega

/-! ## Agreement and distance -/

/-- Hard decisions. -/
def sign (b : Byte) : ℤ := if b &&& 1 = 1 then 1 else -1

/-- The observations, two for each step. -/
def observations : List Byte → List (ℤ × ℤ)
  | a :: b :: coded => (sign a, sign b) :: observations coded
  | _ => []

theorem hamming_cons (a b : Byte) (l l' : List Byte) :
    hamming (a :: l) (b :: l') = (if a = b then 0 else 1) + hamming l l' := by
  unfold hamming
  rw [List.zip_cons_cons, List.countP_cons, Nat.add_comm]
  by_cases h : a = b <;> simp [h]

theorem isBit_parity (x : Byte) : IsBit (parity x) := Nrzi.and_one _

/-- One coded bit agrees or it does not. -/
theorem sign_mul {a o : Byte} (ha : IsBit a) (ho : IsBit o) :
    sign a * (2 * o.toNat - 1) = 1 - 2 * ((if a = o then 0 else 1 : ℕ) : ℤ) := by
  rcases ha with rfl | rfl <;> rcases ho with rfl | rfl <;> decide

theorem expected_eq {k : ℕ} (h : k < 128) : expected.getD k (0, 0) =
    (2 * ((outputs (UInt8.ofNat k)).1.toNat : ℤ) - 1,
      2 * ((outputs (UInt8.ofNat k)).2.toNat : ℤ) - 1) := by
  rw [expected, List.getD_eq_getElem?_getD, List.getElem?_map, List.getElem?_range h]
  rfl

theorem exists_two_cons {k : ℕ} (h : coded.length = 2 * (k + 1)) :
    ∃ x y rest, coded = x :: y :: rest := by
  cases coded with
  | nil => cases h
  | cons x coded =>
    cases coded with
    | nil =>
      simp only [List.length_cons, List.length_nil] at h
      omega
    | cons y rest => exact ⟨x, y, rest, rfl⟩

/-- **The weight of a walk counts where it agrees.** -/
theorem scoreFrom_observations (hs : s < 64) (hcoded : ∀ b ∈ coded, IsBit b)
    (hlen : coded.length = 2 * bits.length) :
    conv.scoreFrom s (observations coded) bits = 2 * bits.length - 2 * hamming coded
      (emit s bits) := by
  induction bits generalizing s coded with
  | nil =>
    rw [List.eq_nil_of_length_eq_zero hlen]
    rfl
  | cons b bits ih =>
    obtain ⟨x, y, coded, rfl⟩ := exists_two_cons hlen
    obtain ⟨hx, hrest⟩ := List.forall_mem_cons.mp hcoded
    obtain ⟨hy, hrest⟩ := List.forall_mem_cons.mp hrest
    have hlen' : coded.length = 2 * bits.length := by
      simp only [List.length_cons] at hlen
      omega
    have hnext : register s b % 64 < 64 := Nat.mod_lt _ (by decide)
    change sign x * (expected.getD (register s b) (0, 0)).1 + sign y *
      (expected.getD (register s b) (0, 0)).2 +
      conv.scoreFrom (register s b % 64) (observations coded) bits = _
    have hfst : IsBit (outputs (UInt8.ofNat (register s b))).1 := isBit_parity _
    have hsnd : IsBit (outputs (UInt8.ofNat (register s b))).2 := isBit_parity _
    rw [ih hnext hrest hlen', expected_eq (register_lt hs b), emit, hamming_cons, hamming_cons]
    dsimp only
    rw [sign_mul hx hfst, sign_mul hy hsnd, List.length_cons]
    push_cast
    ring

theorem observations_eq {steps : ℕ} (h : coded.length = 2 * steps) :
    (List.range steps).map
    (fun t => ((coded.map sign).getD (2 * t) 0, (coded.map sign).getD (2 * t + 1) 0)) =
      observations coded := by
  induction steps generalizing coded with
  | zero =>
    rw [List.eq_nil_of_length_eq_zero h]
    rfl
  | succ steps ih =>
    obtain ⟨x, y, coded, rfl⟩ := exists_two_cons h
    have hlen : coded.length = 2 * steps := by
      simp only [List.length_cons] at h
      omega
    rw [List.range_succ_eq_map, List.map_cons, List.map_map, observations, ← ih hlen]
    rfl

/-! ## The nearest codeword -/

theorem length_observations {steps : ℕ} (h : coded.length = 2 * steps) :
    (observations coded).length = steps := by
  rw [← observations_eq h, List.length_map, List.length_range]

/-- A walk ends in the zero state exactly when its last six bits are zero. -/
theorem reach_append_zeros (bits : List Byte) : conv.reach (bits ++ List.replicate 6 0) = 0 := by
  rw [Trellis.reach, List.foldl_append]
  change register (register
    (register (register (register (register (conv.reach bits) 0 % 64) 0 % 64) 0 % 64) 0 % 64)
    0 % 64) 0 % 64 = 0
  have hzero (s : ℕ) : register s 0 = 2 * s := rfl
  simp only [hzero]
  omega

theorem eq_zero_of_bit {b : Byte} (hb : IsBit b) (h : (b &&& 1).toNat = 0) : b = 0 := by
  rcases hb with rfl | rfl
  · rfl
  · cases h

theorem eq_zeros_of_reach {tail : List Byte} (hlen : tail.length = 6) (htail : ∀ b ∈ tail, IsBit b)
    (h : tail.foldl conv.next s = 0) : tail = List.replicate 6 0 := by
  match tail, hlen with
  | [a, b, c, d, e, f], _ =>
    -- the register shows each of the six at its own place
    have hvalue :
      32 * (a &&& 1).toNat + 16 * (b &&& 1).toNat + 8 * (c &&& 1).toNat + 4 * (d &&& 1).toNat +
        2 * (e &&& 1).toNat + (f &&& 1).toNat = 0 := by
      have ha := bit_lt a
      have hb := bit_lt b
      have hc := bit_lt c
      have hd := bit_lt d
      have he := bit_lt e
      have hf := bit_lt f
      change register (register
        (register (register (register (register s a % 64) b % 64) c % 64) d % 64) e % 64) f
        % 64 = 0 at h
      unfold register at h
      omega
    simp only [List.forall_mem_cons] at htail
    obtain ⟨ha, hb, hc, hd, he, hf, -⟩ := htail
    rw [eq_zero_of_bit ha (by omega), eq_zero_of_bit hb (by omega), eq_zero_of_bit hc (by omega),
      eq_zero_of_bit hd (by omega), eq_zero_of_bit he (by omega), eq_zero_of_bit hf (by omega)]
    rfl

theorem isBit_of_mem_traceback {b : Byte} (decs : List (BitVec 64)) (s : ℕ)
    (h : b ∈ traceback decs s) : IsBit b := by
  induction decs generalizing s with
  | nil => cases h
  | cons dec decs ih =>
    rw [traceback_cons, List.mem_append, List.mem_singleton] at h
    rcases h with h | rfl
    · exact ih _ h
    · rw [Nat.and_one_is_mod]
      rcases Nat.mod_two_eq_zero_or_one s with h | h
      · exact .inl (congrArg UInt8.ofNat h)
      · exact .inr (congrArg UInt8.ofNat h)

theorem viterbiDecodeHard_eq {steps : ℕ} (h : coded.length = 2 * steps) :
    viterbiDecodeHard coded true =
    some ((traceback
      ((observations coded).foldl viterbiStep ((List.replicate numStates ⊥).set 0 0, [])).2.reverse
      0).take (steps - 6)) := by
  have hlen : (coded.map sign).length = 2 * steps := by rw [List.length_map, h]
  have heven : (coded.map sign).length % 2 = 0 := by omega
  have hhalf : (coded.map sign).length / 2 = steps := by omega
  change viterbiDecodeSoft (coded.map sign) true = _
  unfold viterbiDecodeSoft
  rw [if_neg (not_not_intro heven), hhalf]
  dsimp only
  rw [observations_eq h]
  rfl

/-- **The decoder returns a nearest codeword.** -/
theorem viterbi_nearest {n : ℕ} (hcoded : ∀ b ∈ coded, IsBit b)
    (hlen : coded.length = 2 * (n + 6)) :
    ∃ d, viterbiDecodeHard coded true = some d ∧ d.length = n ∧ (∀ b ∈ d, IsBit b) ∧
      ∀ x : List Byte, x.length = n → hamming coded (encodeTerminated d) ≤ hamming coded
        (encodeTerminated x) := by
  have hrun := running_foldl running_start (observations coded)
  rw [List.nil_append] at hrun
  obtain ⟨c, hc⟩ := hrun.survivors
  generalize hst : (observations coded).foldl viterbiStep
    ((List.replicate numStates ⊥).set 0 0, []) = st at hrun hc
  have hobs : (observations coded).length = n + 6 := length_observations hlen
  -- any terminated message is a walk into the last state
  have hwalk (x : List Byte) (hx : x.length = n) :
    (x ++ List.replicate 6 0).length = (observations coded).length := by
    rw [List.length_append, List.length_replicate, hx, hobs]
  obtain ⟨hreach, hpath, -⟩ := hc.score_le (hwalk (List.replicate n 0) List.length_replicate)
  rw [reach_append_zeros] at hreach hpath
  generalize hbits : traceback st.2.reverse 0 = path at hreach hpath
  have hisBit : ∀ b ∈ path, IsBit b :=
    fun b hb => isBit_of_mem_traceback st.2.reverse 0 (hbits ▸ hb)
  have htail : path.drop n = List.replicate 6 0 := by
    refine eq_zeros_of_reach (s := (path.take n).foldl conv.next 0) ?_
      (fun b hb => hisBit b (List.mem_of_mem_drop hb)) ?_
    · rw [List.length_drop, hpath, hobs]
      omega
    · rw [← List.foldl_append, List.take_append_drop]
      exact hreach
  have hsplit : path = path.take n ++ List.replicate 6 0 := by rw [← htail, List.take_append_drop]
  refine ⟨path.take n, ?_, ?_, fun b hb => hisBit b (List.mem_of_mem_take hb), fun x hx => ?_⟩
  · rw [viterbiDecodeHard_eq hlen, hst, hbits, Nat.add_sub_cancel]
  · rw [List.length_take, hpath, hobs]
    omega
  · obtain ⟨-, -, hscore⟩ := hc.score_le (hwalk x hx)
    rw [reach_append_zeros, hbits, hsplit] at hscore
    have hlenx : coded.length = 2 * (x ++ List.replicate 6 0).length := by
      rw [hwalk x hx, hobs, hlen]
    have hlend : coded.length = 2 * (path.take n ++ List.replicate 6 0).length := by
      rw [← hsplit, hpath, hobs, hlen]
    change conv.scoreFrom 0 _ _ ≤ conv.scoreFrom 0 _ _ at hscore
    rw [scoreFrom_observations (by decide) hcoded hlenx,
      scoreFrom_observations (by decide) hcoded hlend,
      ← encodeTerminated_eq, ← encodeTerminated_eq] at hscore
    omega

end EvansComputer.Dsp
