import EvansComputer.Dsp.NearestCodeword

/-!
# The free distance

Two codewords differ in at least ten places: their sum is a codeword, which costs two where it
leaves the zero state, and a potential on the registers says that it costs eight more to come
back (`ten_le_hamming`).  So a nearest codeword is the only one within four flips.
-/

namespace EvansComputer.Dsp

variable {s : ℕ}

/-! ## The sum of two walks -/

theorem xor_and (x y c : Byte) : (x ^^^ y) &&& c = (x &&& c) ^^^ (y &&& c) := by
  apply UInt8.toNat.inj
  rw [UInt8.toNat_and, UInt8.toNat_xor, UInt8.toNat_xor, UInt8.toNat_and, UInt8.toNat_and]
  exact Nat.and_xor_distrib_right ..

theorem parity_eq (x : Byte) : parity x =
    (List.range 8).foldl (fun sum i => sum ^^^ ((x >>> UInt8.ofNat i) &&& 1)) 0 := by
  have hall : (List.range 256).all (fun n => parity (UInt8.ofNat n) =
      (List.range 8).foldl (fun sum i => sum ^^^ ((UInt8.ofNat n >>> UInt8.ofNat i) &&& 1)) 0) =
        true := by
    decide +kernel
  have hx := of_decide_eq_true (List.all_eq_true.mp hall x.toNat (List.mem_range.mpr x.toNat_lt))
  rwa [UInt8.ofNat_toNat] at hx

theorem foldl_xor (f g : ℕ → Byte) (l : List ℕ) (a b : Byte) :
    l.foldl (fun sum i => sum ^^^ (f i ^^^ g i)) (a ^^^ b) =
      l.foldl (fun sum i => sum ^^^ f i) a ^^^ l.foldl (fun sum i => sum ^^^ g i) b := by
  induction l generalizing a b with
  | nil => rfl
  | cons i l ih =>
    have hswap : a ^^^ b ^^^ (f i ^^^ g i) = a ^^^ f i ^^^ (b ^^^ g i) := by ac_rfl
    rw [List.foldl_cons, hswap, ih]
    rfl

theorem parity_xor (x y : Byte) : parity (x ^^^ y) = parity x ^^^ parity y := by
  have hzero : (0 : Byte) = 0 ^^^ 0 := rfl
  rw [parity_eq, parity_eq, parity_eq y, ← foldl_xor, ← hzero]
  congr 1
  funext sum i
  rw [UInt8.shiftRight_xor, xor_and]

theorem outputs_xor (x y : Byte) : (outputs (x ^^^ y)).1 = (outputs x).1 ^^^ (outputs y).1 ∧
    (outputs (x ^^^ y)).2 = (outputs x).2 ^^^ (outputs y).2 := by
  constructor
  · change parity _ = parity _ ^^^ parity _
    rw [← parity_xor, xor_and]
  · change parity _ = parity _ ^^^ parity _
    rw [← parity_xor, xor_and]

theorem register_xor (s s' : ℕ) (b b' : Byte) :
    register s b ^^^ register s' b' = register (s ^^^ s') (b ^^^ b') := by
  have hb := bit_lt b
  have hb' := bit_lt b'
  unfold register
  rw [xor_and, UInt8.toNat_xor]
  generalize (b &&& 1).toNat = c at hb
  generalize (b' &&& 1).toNat = c' at hb'
  have hc : c ^^^ c' < 2 := Nat.xor_lt_two_pow (n := 1) hb hb'
  refine Nat.eq_of_testBit_eq fun i => ?_
  cases i with
  | zero =>
    have hs : (2 * s + c) % 2 = c := by omega
    have hs' : (2 * s' + c') % 2 = c' := by omega
    have hsum : (2 * (s ^^^ s') + (c ^^^ c')) % 2 = c ^^^ c' := by omega
    rw [Nat.testBit_xor, Nat.testBit_zero, Nat.testBit_zero, Nat.testBit_zero, hs, hs', hsum]
    interval_cases c <;> interval_cases c' <;> rfl
  | succ i =>
    have hs : (2 * s + c) / 2 = s := by omega
    have hs' : (2 * s' + c') / 2 = s' := by omega
    have hsum : (2 * (s ^^^ s') + (c ^^^ c')) / 2 = s ^^^ s' := by omega
    rw [Nat.testBit_xor, Nat.testBit_succ, Nat.testBit_succ, Nat.testBit_succ, hs, hs', hsum,
      Nat.testBit_xor]

/-- The coded bits that are set. -/
def weight (s : ℕ) (b : Byte) : ℕ :=
  let out := outputs (UInt8.ofNat (register s b))
  (if out.1 = 0 then 0 else 1) + if out.2 = 0 then 0 else 1

/-- **The distance of two walks is the weight of their sum.** -/
theorem hamming_emit (s s' : ℕ) {a a' : List Byte} (h : a.length = a'.length) :
    hamming (emit s a) (emit s' a') = costFrom conv.next weight (s ^^^ s')
      (List.zipWith (· ^^^ ·) a a') := by
  induction a generalizing s s' a' with
  | nil =>
    rw [List.eq_nil_of_length_eq_zero h.symm]
    rfl
  | cons b a ih =>
    cases a' with
    | nil => cases h
    | cons b' a' =>
      have hnext :
        register s b % 64 ^^^ register s' b' % 64 = register (s ^^^ s') (b ^^^ b') % 64 := by
        rw [← register_xor]
        exact (Nat.xor_mod_two_pow (n := 6)).symm
      obtain ⟨hfst, hsnd⟩ := outputs_xor (UInt8.ofNat (register s b)) (UInt8.ofNat (register s' b'))
      rw [← UInt8.ofNat_xor, register_xor] at hfst hsnd
      rw [emit, emit, hamming_cons, hamming_cons, ih _ _ (Nat.succ.inj h), hnext]
      change _ = weight (s ^^^ s') (b ^^^ b') + costFrom conv.next weight
        (register (s ^^^ s') (b ^^^ b') % 64) _
      rw [weight, hfst, hsnd, Nat.add_assoc]
      simp only [UInt8.xor_eq_zero_iff]

/-! ## The free distance -/

/-- The least weight with which a walk comes back to the zero state. -/
def wayBack (s : ℕ) : ℕ :=
  [0, 8, 7, 7, 7, 5, 6, 6, 5, 7, 4, 8, 4, 6, 5, 7, 3, 7, 6, 6, 4, 4, 7, 7, 4, 6, 5, 7, 5, 7, 6, 6,
   2, 8, 5, 7, 5, 5, 4, 6, 3, 7, 4, 8, 6, 6, 7, 7, 3, 5, 6, 4, 4, 6, 7, 7, 4, 4, 5, 7, 5, 5,
     6, 6].getD s 0

theorem weight_eq (s : ℕ) {b c : Byte} (h : b &&& 1 = c &&& 1) :
    weight s b = weight s c ∧ register s b = register s c := by
  unfold weight register
  rw [h]
  exact ⟨rfl, rfl⟩

/-- No step comes nearer to the zero state than it weighs. -/
theorem wayBack_le (s : ℕ) (b : Byte) : wayBack s ≤ weight s b + wayBack (conv.next s b) := by
  by_cases hs : s < 64
  · have hall :
      (List.range 64).all (fun s => decide (wayBack s ≤ weight s 0 + wayBack (register s 0 % 64) ∧
        wayBack s ≤ weight s 1 + wayBack (register s 1 % 64))) = true := by
      decide +kernel
    have hstate := of_decide_eq_true (List.all_eq_true.mp hall s (List.mem_range.mpr hs))
    change wayBack s ≤ weight s b + wayBack (register s b % 64)
    rcases Nrzi.and_one b with hb | hb
    · obtain ⟨hweight, hreg⟩ := weight_eq s (c := 0) hb
      rw [hweight, hreg]
      exact hstate.1
    · obtain ⟨hweight, hreg⟩ := weight_eq s (c := 1) hb
      rw [hweight, hreg]
      exact hstate.2
  · have hzero : wayBack s = 0 := List.getD_eq_default _ _ (not_lt.mp hs)
    rw [hzero]
    exact Nat.zero_le _

/-- A walk that leaves the zero state and is back at the end weighs at least ten. -/
theorem ten_le_cost {bits : List Byte} (hbits : ∀ b ∈ bits, IsBit b) (hone : 1 ∈ bits)
    (hend : bits.foldl conv.next 0 = 0) :
    10 ≤ costFrom conv.next weight 0 bits := by
  induction bits with
  | nil => cases hone
  | cons b bits ih =>
    obtain ⟨hb, hrest⟩ := List.forall_mem_cons.mp hbits
    rcases hb with rfl | rfl
    · have hone' : 1 ∈ bits := (List.mem_cons.mp hone).resolve_left (by decide)
      have hcost := ih hrest hone' hend
      exact hcost.trans (Nat.le_add_left _ _)
    · have hback := potential_le wayBack_le (conv.next 0 1) bits
      rw [List.foldl_cons] at hend
      rw [hend] at hback
      change 10 ≤ weight 0 1 + costFrom conv.next weight (conv.next 0 1) bits
      have hleave : weight 0 1 + wayBack (conv.next 0 1) = 10 := by decide +kernel
      have hzero : wayBack 0 = 0 := rfl
      omega

theorem isBit_xor {a b : Byte} (ha : IsBit a) (hb : IsBit b) : IsBit (a ^^^ b) := by
  rcases ha with rfl | rfl <;> rcases hb with rfl | rfl
  · exact .inl rfl
  · exact .inr rfl
  · exact .inr rfl
  · exact .inl rfl

theorem isBit_of_mem_zipWith {a b : List Byte} (ha : ∀ x ∈ a, IsBit x) (hb : ∀ x ∈ b, IsBit x) :
    ∀ x ∈ List.zipWith (· ^^^ ·) a b, IsBit x := by
  intro x hx
  rw [← List.map_uncurry_zip_eq_zipWith, List.mem_map] at hx
  obtain ⟨⟨y, z⟩, hmem, rfl⟩ := hx
  obtain ⟨hy, hz⟩ := List.of_mem_zip hmem
  exact isBit_xor (ha y hy) (hb z hz)

theorem one_mem_zipWith {a b : List Byte} (ha : ∀ x ∈ a, IsBit x) (hb : ∀ x ∈ b, IsBit x)
    (hlen : a.length = b.length) (hne : a ≠ b) : 1 ∈ List.zipWith (· ^^^ ·) a b := by
  induction a generalizing b with
  | nil => exact absurd (List.eq_nil_of_length_eq_zero hlen.symm).symm hne
  | cons x a ih =>
    cases b with
    | nil => cases hlen
    | cons y b =>
      obtain ⟨hx, hrest⟩ := List.forall_mem_cons.mp ha
      obtain ⟨hy, hrest'⟩ := List.forall_mem_cons.mp hb
      rw [List.zipWith_cons_cons, List.mem_cons]
      by_cases hxy : x = y
      · subst hxy
        exact .inr (ih hrest hrest' (Nat.succ.inj hlen) fun h => hne (congrArg _ h))
      · rcases isBit_xor hx hy with h | h
        · exact absurd (UInt8.xor_eq_zero_iff.mp h) hxy
        · exact .inl h.symm

/-- **Two codewords differ in at least ten places.** -/
theorem ten_le_hamming {a b : List Byte} (ha : ∀ x ∈ a, IsBit x) (hb : ∀ x ∈ b, IsBit x)
    (hlen : a.length = b.length) (hne : a ≠ b) :
    10 ≤ hamming (encodeTerminated a) (encodeTerminated b) := by
  have hlen' : (a ++ List.replicate 6 0).length = (b ++ List.replicate 6 0).length := by
    rw [List.length_append, List.length_append, hlen]
  have hzip : List.zipWith (· ^^^ ·) (a ++ List.replicate 6 0) (b ++ List.replicate 6 0) =
      List.zipWith (· ^^^ ·) a b ++ List.replicate 6 0 := by
    rw [List.zipWith_append hlen]
    rfl
  rw [encodeTerminated_eq, encodeTerminated_eq, hamming_emit 0 0 hlen', hzip]
  refine ten_le_cost (fun x hx => ?_) ?_ (reach_append_zeros _)
  · rcases List.mem_append.mp hx with hx | hx
    · exact isBit_of_mem_zipWith ha hb x hx
    · exact .inl (List.eq_of_mem_replicate hx)
  · exact List.mem_append_left _ (one_mem_zipWith ha hb hlen hne)

/-! ## Flipped bits -/

theorem hamming_triangle {a b c : List Byte} (hab : a.length = b.length)
    (hbc : b.length = c.length) :
    hamming a c ≤ hamming b a + hamming b c := by
  induction a generalizing b c with
  | nil =>
    have hb := List.eq_nil_of_length_eq_zero hab.symm
    subst hb
    have hc := List.eq_nil_of_length_eq_zero hbc.symm
    subst hc
    decide
  | cons x a ih =>
    cases b with
    | nil => cases hab
    | cons y b =>
      cases c with
      | nil => cases hbc
      | cons z c =>
        have htail := ih (Nat.succ.inj hab) (Nat.succ.inj hbc)
        rw [hamming_cons, hamming_cons, hamming_cons]
        by_cases hyx : y = x
        · subst hyx
          split_ifs <;> omega
        · rw [if_neg hyx]
          split_ifs <;> omega

theorem length_encodeTerminated (bits : List Byte) :
    (encodeTerminated bits).length = 2 * (bits.length + 6) := by
  rw [encodeTerminated_eq, length_emit, List.length_append, List.length_replicate]

/-- **Hard decisions decode to a nearest codeword, and correct four flips.** -/
theorem viterbi_maximum_likelihood :
    (∀ (n : ℕ) (coded : List Byte), (∀ b ∈ coded, IsBit b) → coded.length = 2 * (n + 6) →
      ∃ d, viterbiDecodeHard coded true = some d ∧ d.length = n ∧
        ∀ x : List Byte, x.length = n → hamming coded (encodeTerminated d) ≤ hamming coded
          (encodeTerminated x)) ∧
    ∀ bits received : List Byte, (∀ b ∈ bits, IsBit b) → (∀ b ∈ received, IsBit b) →
      received.length = (encodeTerminated bits).length → hamming received
        (encodeTerminated bits) ≤ 4 →
      viterbiDecodeHard received true = some bits := by
  refine ⟨fun n coded hcoded hlen => ?_, fun bits received hbits hreceived hlen hflips => ?_⟩
  · obtain ⟨d, hd, hlend, -, hnear⟩ := viterbi_nearest hcoded hlen
    exact ⟨d, hd, hlend, hnear⟩
  · rw [length_encodeTerminated] at hlen
    obtain ⟨d, hd, hlend, hisBit, hnear⟩ := viterbi_nearest hreceived hlen
    have hfar := hnear bits rfl
    have hsame : (encodeTerminated d).length = received.length := by
      rw [hlen, length_encodeTerminated, hlend]
    have hdiff := hamming_triangle hsame (hlen.trans (length_encodeTerminated bits).symm)
    by_contra hne
    have hdbits : d ≠ bits := by
      rintro rfl
      exact hne hd
    have hten := ten_le_hamming hisBit hbits hlend hdbits
    omega

/-- The bits `1 0 1` come back from a word with four flips. -/
theorem viterbi_maximum_likelihood_four_flips :
    viterbiDecodeHard [0, 1, 1, 1, 1, 0, 1, 0, 1, 1, 0, 0, 0, 0, 1, 0, 1, 1] true =
      some [1, 0, 1] :=
  viterbi_maximum_likelihood.2 [1, 0, 1] _ (by decide +kernel) (by decide +kernel)
    (by decide +kernel) (by decide +kernel)

end EvansComputer.Dsp
