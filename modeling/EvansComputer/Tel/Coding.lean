import EvansComputer.Tel.Texts

/-!
# Reading a part back

Septets that were packed behind any fill bits are unpacked as they were, and a text comes back
from its septets or its units.  So user data that fits is read back uncut.
-/

namespace EvansComputer.Tel.Sms

variable {t : List Char} {n : ℕ}

/-! ## Septets and bits -/

/-- A bit of a list of bytes, the least significant of each byte first. -/
def bitAt (l : List Byte) (j : ℕ) : Bool := (l.getD (j / 8) 0).toNat.testBit (j % 8)

theorem getD_orAt (l : List Byte) {i : ℕ} (hi : i < l.length) (b : Byte) (k : ℕ) :
    (orAt l i b).getD k 0 = if i = k then l.getD k 0 ||| b else l.getD k 0 := by
  unfold orAt
  rw [List.getD_eq_getElem?_getD, List.getElem?_modify, List.getD_eq_getElem?_getD]
  by_cases h : i = k
  · subst h
    rw [if_pos rfl, List.getElem?_eq_getElem hi]
    simp
  · rw [if_neg h]
    simp [h]

theorem length_orAt (l : List Byte) (i : ℕ) (b : Byte) : (orAt l i b).length = l.length :=
  List.length_modify _ _ _

/-- The value of the septet `s`. -/
theorem toNat_septet (s : Byte) : (s &&& 0x7F).toNat = s.toNat % 128 := by
  rw [UInt8.toNat_and]
  exact Nat.and_two_pow_sub_one_eq_mod s.toNat 7

theorem toNat_shifted (s : Byte) {off : ℕ} (hoff : off < 8) :
    ((s &&& 0x7F).toUInt16 <<< UInt16.ofNat off).toNat = s.toNat % 128 * 2 ^ off := by
  have hlt : s.toNat % 128 * 2 ^ off < 2 ^ 16 := by
    have hs : s.toNat % 128 < 2 ^ 7 := Nat.mod_lt _ (by decide)
    have hp : 2 ^ off ≤ 2 ^ 7 := Nat.pow_le_pow_right (by decide) (by omega)
    calc s.toNat % 128 * 2 ^ off ≤ 2 ^ 7 * 2 ^ 7 := Nat.mul_le_mul hs.le hp
      _ < 2 ^ 16 := by decide
  rw [UInt16.toNat_shiftLeft, UInt8.toNat_toUInt16, toNat_septet, UInt16.toNat_ofNat',
    Nat.mod_eq_of_lt (by omega : off < 2 ^ 16),
    Nat.mod_eq_of_lt (by omega : off < 16), Nat.shiftLeft_eq, Nat.mod_eq_of_lt hlt]

/-- One septet at a bit, into bytes. -/
def putSeptet (out : List Byte) (bit : ℕ) (s : Byte) : List Byte :=
  let v := (s &&& 0x7F).toUInt16 <<< UInt16.ofNat (bit % 8)
  let out := orAt out (bit / 8) v.toUInt8
  if bit % 8 > 1 then orAt out (bit / 8 + 1) (v >>> 8).toUInt8 else out

theorem packFrom_cons (out : List Byte) (bit : ℕ) (s : Byte) (septets : List Byte) :
    packFrom out bit (s :: septets) = packFrom (putSeptet out bit s) (bit + 7) septets := rfl

theorem length_putSeptet (out : List Byte) (bit : ℕ) (s : Byte) :
    (putSeptet out bit s).length = out.length := by
  unfold putSeptet
  dsimp only
  split
  · rw [length_orAt, length_orAt]
  · exact length_orAt _ _ _

theorem testBit_septet_of_le (s : Byte) {i : ℕ} (hi : 7 ≤ i) : (s.toNat % 128).testBit i = false :=
  Nat.testBit_eq_false_of_lt
    ((Nat.mod_lt _ (by decide : 0 < 128)).trans_le (Nat.pow_le_pow_right (by decide : 0 < 2) hi))

/-- **What one septet changes.** -/
theorem bitAt_putSeptet {out : List Byte} {bit : ℕ} (hlen : bit + 7 ≤ 8 * out.length)
    (s : Byte) (j : ℕ) :
    bitAt (putSeptet out bit s) j =
      (bitAt out j || (decide (bit ≤ j) && (s.toNat % 128).testBit (j - bit))) := by
  have hoff : bit % 8 < 8 := Nat.mod_lt _ (by decide)
  have hfirst : bit / 8 < out.length := by omega
  have hv := toNat_shifted s hoff
  unfold putSeptet
  dsimp only
  set v := (s &&& 0x7F).toUInt16 <<< UInt16.ofNat (bit % 8) with hvdef
  have hlow (i : ℕ) (hi : i < 8) : v.toUInt8.toNat.testBit i =
    (decide (bit % 8 ≤ i) && (s.toNat % 128).testBit (i - bit % 8)) := by
    rw [UInt16.toNat_toUInt8, hv, Nat.testBit_mod_two_pow, decide_eq_true hi, Bool.true_and,
      Nat.testBit_mul_two_pow]
  have hhigh (i : ℕ) (hi : i < 8) : (v >>> 8).toUInt8.toNat.testBit i =
      (s.toNat % 128).testBit (i + 8 - bit % 8) := by
    have hshift : (v >>> 8).toNat = v.toNat >>> 8 := UInt16.toNat_shiftRight v 8
    rw [UInt16.toNat_toUInt8, hshift, Nat.testBit_mod_two_pow, decide_eq_true hi, Bool.true_and,
      Nat.testBit_shiftRight, hv,
      Nat.testBit_mul_two_pow, decide_eq_true (by omega : bit % 8 ≤ 8 + i), Bool.true_and]
    congr 1
    omega
  have hcase : j / 8 = bit / 8 ∨ j / 8 = bit / 8 + 1 ∨
    (j / 8 ≠ bit / 8 ∧ j / 8 ≠ bit / 8 + 1) := by omega
  have hj : j % 8 < 8 := Nat.mod_lt _ (by decide)
  unfold bitAt
  rcases hcase with h | h | ⟨h, h'⟩
  · -- the first byte
    have hget :
      (if bit % 8 > 1 then orAt (orAt out (bit / 8) v.toUInt8) (bit / 8 + 1) (v >>> 8).toUInt8
        else orAt out (bit / 8) v.toUInt8).getD (j / 8) 0 = out.getD (j / 8) 0 ||| v.toUInt8 := by
      split
      · rw [getD_orAt _ (by rw [length_orAt]; omega), if_neg (by omega), getD_orAt _ hfirst,
          if_pos h.symm]
      · rw [getD_orAt _ hfirst, if_pos h.symm]
    rw [hget, UInt8.toNat_or, Nat.testBit_or, hlow _ hj]
    congr 1
    have hle : bit % 8 ≤ j % 8 ↔ bit ≤ j := by omega
    rw [decide_eq_decide.mpr hle]
    by_cases hbit : bit ≤ j
    · rw [show j % 8 - bit % 8 = j - bit by omega]
    · rw [decide_eq_false hbit, Bool.false_and, Bool.false_and]
  · -- the second byte
    have hbit : bit ≤ j := by omega
    rw [decide_eq_true hbit, Bool.true_and]
    split
    · rw [getD_orAt _ (by rw [length_orAt]; omega), if_pos h.symm, getD_orAt _ hfirst,
        if_neg (by omega), UInt8.toNat_or, Nat.testBit_or,
        hhigh _ hj, show j % 8 + 8 - bit % 8 = j - bit by omega]
    · rw [getD_orAt _ hfirst, if_neg (by omega), testBit_septet_of_le s (by omega : 7 ≤ j - bit),
        Bool.or_false]
  · have hget :
      (if bit % 8 > 1 then orAt (orAt out (bit / 8) v.toUInt8) (bit / 8 + 1) (v >>> 8).toUInt8
        else orAt out (bit / 8) v.toUInt8).getD (j / 8) 0 = out.getD (j / 8) 0 := by
      split
      · rw [getD_orAt _ (by rw [length_orAt]; omega), if_neg (Ne.symm h'), getD_orAt _ hfirst,
          if_neg (Ne.symm h)]
      · rw [getD_orAt _ hfirst, if_neg (Ne.symm h)]
    rw [hget]
    by_cases hbit : bit ≤ j
    · rw [testBit_septet_of_le s (by omega : 7 ≤ j - bit), Bool.and_false, Bool.or_false]
    · rw [decide_eq_false hbit, Bool.false_and, Bool.or_false]

/-- The bits of septets that are packed one behind the other, and what was there before. -/
theorem bitAt_packFrom {out : List Byte} {bit : ℕ} {septets : List Byte}
    (hlen : bit + 7 * septets.length ≤ 8 * out.length)
    (hzero : ∀ j, bit ≤ j → bitAt out j = false) :
    (∀ j < bit, bitAt (packFrom out bit septets) j = bitAt out j) ∧
      ∀ k s, septets[k]? = some s → ∀ i < 7, bitAt (packFrom out bit septets)
        (bit + 7 * k + i) = (s.toNat % 128).testBit i := by
  induction septets generalizing out bit with
  | nil => exact ⟨fun _ _ => rfl, fun k s h => by simp at h⟩
  | cons s septets ih =>
    rw [List.length_cons] at hlen
    have hstep := bitAt_putSeptet (by omega : bit + 7 ≤ 8 * out.length) s
    have hlen' : bit + 7 + 7 * septets.length ≤ 8 * (putSeptet out bit s).length := by
      rw [length_putSeptet]
      omega
    obtain ⟨hbefore, hrest⟩ := ih hlen' fun j hj => by
      rw [hstep, hzero j (by omega), testBit_septet_of_le s (by omega : 7 ≤ j - bit),
        Bool.and_false, Bool.or_false]
    rw [packFrom_cons]
    refine ⟨fun j hj => ?_, fun k s' hk i hi => ?_⟩
    · rw [hbefore j (by omega), hstep, decide_eq_false (by omega : ¬ bit ≤ j), Bool.false_and,
        Bool.or_false]
    · cases k with
      | zero =>
        cases hk
        rw [hbefore _ (by omega), hstep, hzero _ (by omega),
          decide_eq_true (by omega : bit ≤ bit + 7 * 0 + i), Bool.false_or,
          Bool.true_and, show bit + 7 * 0 + i - bit = i by omega]
      | succ k =>
        rw [show bit + 7 * (k + 1) + i = bit + 7 + 7 * k + i by omega]
        exact hrest k s' hk i hi

theorem length_packFrom (out : List Byte) (bit : ℕ) (septets : List Byte) :
    (packFrom out bit septets).length = out.length := by
  induction septets generalizing out bit with
  | nil => rfl
  | cons s septets ih => rw [packFrom_cons, ih, length_putSeptet]

/-- The bits of the septet that starts at a bit. -/
theorem testBit_septetAt (bytes : List Byte) (bit : ℕ) {i : ℕ} (hi : i < 7) :
    (septetAt bytes bit).toNat.testBit i = bitAt bytes (bit + i) := by
  have hoff : bit % 8 < 8 := Nat.mod_lt _ (by decide)
  have hb (k : ℕ) : (bytes.getD k 0).toNat < 2 ^ 8 := UInt8.toNat_lt _
  have hfirst : ((bytes.getD (bit / 8) 0).toUInt16 >>> UInt16.ofNat (bit % 8)).toNat =
    (bytes.getD (bit / 8) 0).toNat >>> (bit % 8) := by
    rw [UInt16.toNat_shiftRight, UInt8.toNat_toUInt16, UInt16.toNat_ofNat',
      Nat.mod_eq_of_lt (by omega : bit % 8 < 2 ^ 16),
      Nat.mod_eq_of_lt (by omega : bit % 8 < 16)]
  have hmask (v : UInt16) : (v &&& 0x7F).toUInt8.toNat.testBit i = v.toNat.testBit i := by
    have hand : (v &&& 0x7F).toNat = v.toNat % 2 ^ 7 := by
      rw [UInt16.toNat_and]
      exact Nat.and_two_pow_sub_one_eq_mod v.toNat 7
    rw [UInt16.toNat_toUInt8, hand, Nat.testBit_mod_two_pow, decide_eq_true (by omega : i < 8),
      Bool.true_and, Nat.testBit_mod_two_pow,
      decide_eq_true hi, Bool.true_and]
  unfold septetAt bitAt
  dsimp only
  rw [hmask]
  by_cases hin : bit % 8 + i < 8
  · have hdiv : (bit + i) / 8 = bit / 8 := by omega
    have hmod : (bit + i) % 8 = bit % 8 + i := by omega
    rw [hdiv, hmod]
    split
    · rw [UInt16.toNat_or, Nat.testBit_or, hfirst, Nat.testBit_shiftRight]
      have hsecond :
        ((bytes.getD (bit / 8 + 1) 0).toUInt16 <<< UInt16.ofNat (8 - bit % 8)).toNat.testBit i =
        false := by
        rw [UInt16.toNat_shiftLeft, UInt16.toNat_ofNat',
          Nat.mod_eq_of_lt (by omega : 8 - bit % 8 < 2 ^ 16),
          Nat.mod_eq_of_lt (by omega : 8 - bit % 8 < 16), Nat.testBit_mod_two_pow,
            Nat.testBit_shiftLeft,
          decide_eq_false (by omega : ¬ i ≥ 8 - bit % 8), Bool.false_and, Bool.and_false]
      rw [hsecond, Bool.or_false]
    · rw [hfirst, Nat.testBit_shiftRight]
  · have hdiv : (bit + i) / 8 = bit / 8 + 1 := by omega
    have hmod : (bit + i) % 8 = bit % 8 + i - 8 := by omega
    rw [hdiv, hmod, if_pos (by omega), UInt16.toNat_or, Nat.testBit_or, hfirst,
      Nat.testBit_shiftRight,
      Nat.testBit_eq_false_of_lt ((hb _).trans_le
        (Nat.pow_le_pow_right (by decide) (by omega : 8 ≤ bit % 8 + i))), Bool.false_or,
      UInt16.toNat_shiftLeft, UInt8.toNat_toUInt16, UInt16.toNat_ofNat',
        Nat.mod_eq_of_lt (by omega : 8 - bit % 8 < 2 ^ 16),
      Nat.mod_eq_of_lt (by omega : 8 - bit % 8 < 16), Nat.testBit_mod_two_pow,
        Nat.testBit_shiftLeft,
      decide_eq_true (by omega : i ≥ 8 - bit % 8), decide_eq_true (by omega : i < 16),
        Bool.true_and, Bool.true_and]
    congr 1
    omega

theorem septetAt_lt (bytes : List Byte) (bit : ℕ) : (septetAt bytes bit).toNat < 2 ^ 7 := by
  unfold septetAt
  dsimp only
  generalize (if bit % 8 > 1 then _ else _ : UInt16) = v
  have hand : (v &&& 0x7F).toNat = v.toNat % 2 ^ 7 := by
    rw [UInt16.toNat_and]
    exact Nat.and_two_pow_sub_one_eq_mod v.toNat 7
  rw [UInt16.toNat_toUInt8, hand]
  omega

/-- **Septets are unpacked as they were packed.** -/
theorem unpackSeptets_packSeptets {septets : List Byte} (h : ∀ s ∈ septets, s.toNat < 128)
    (fillBits : ℕ) :
    unpackSeptets (packSeptets septets fillBits) fillBits septets.length = .ok septets := by
  have hlength :
    (packSeptets septets fillBits).length = divCeil (fillBits + 7 * septets.length) 8 := by
    rw [packSeptets, length_packFrom, List.length_replicate]
  have hzero : ∀ j, fillBits ≤ j →
    bitAt (List.replicate (divCeil (fillBits + 7 * septets.length) 8) 0) j = false := by
    intro j _
    unfold bitAt
    rw [List.getD_eq_getElem?_getD, List.getElem?_replicate]
    split
    · exact Nat.zero_testBit _
    · exact Nat.zero_testBit _
  obtain ⟨-, hbits⟩ := @bitAt_packFrom _ fillBits septets
    (by rw [List.length_replicate]; unfold divCeil; omega) hzero
  unfold unpackSeptets
  rw [if_neg (by rw [hlength, Nat.mul_comm septets.length 7, Nat.add_comm]; exact Nat.lt_irrefl _)]
  congr 1
  apply List.ext_getElem
  · rw [List.length_map, List.length_range]
  intro k hk hk'
  rw [List.getElem_map, List.getElem_range]
  apply UInt8.toNat_inj.mp
  apply Nat.eq_of_testBit_eq
  intro i
  have hlt : (septets[k]).toNat < 128 := h _ (List.getElem_mem hk')
  by_cases hi : i < 7
  · rw [testBit_septetAt _ _ hi]
    have hbit := hbits k septets[k] (List.getElem?_eq_getElem hk') i hi
    rw [Nat.mod_eq_of_lt hlt] at hbit
    exact hbit
  · have hpow : 2 ^ 7 ≤ 2 ^ i := Nat.pow_le_pow_right (by decide) (by omega)
    rw [Nat.testBit_eq_false_of_lt ((septetAt_lt _ _).trans_le hpow),
      Nat.testBit_eq_false_of_lt (Nat.lt_of_lt_of_le hlt hpow)]

/-! ## Text -/

/-- Septets that are read as one character. -/
def reads (c : Char) (s : Byte × Option Byte) : Bool :=
  match s with
  | (s, none) => s.toNat < 128 && s &&& 0x7F = s && s ≠ gsmEsc && gsm7Basic s = c
  | (s, some e) =>
    s = gsmEsc && e.toNat < 128 && e &&& 0x7F = e && e ≠ gsmEsc &&
      gsmExt.find? (fun x => x.1 = e) = some (e, c)

theorem reads_gsm7Lookup {c : Char} {s : Byte × Option Byte} (h : gsm7Lookup c = some s) :
    reads c s = true := by
  have hbasic : gsmBasic.all (fun c => (gsm7Lookup c).all (reads c)) = true := by decide +kernel
  have hext : (gsmExt.map (·.2)).all (fun c => (gsm7Lookup c).all (reads c)) = true := by
    decide +kernel
  have hof (l : List Char) (hl : l.all (fun c => (gsm7Lookup c).all (reads c)) = true)
    (hc : c ∈ l) : reads c s = true := by
    have hall := List.all_eq_true.mp hl c hc
    rw [h] at hall
    exact hall
  by_cases hc : c ∈ gsmBasic
  · exact hof _ hbasic hc
  · refine hof _ hext ?_
    unfold gsm7Lookup at h
    split at h
    · cases h
    rw [List.idxOf?_eq_none_iff.mpr hc] at h
    obtain ⟨e, he, -⟩ := Option.map_eq_some_iff.mp h
    exact List.mem_map.mpr ⟨e, List.mem_of_find?_eq_some he, by simpa using List.find?_some he⟩

theorem gsm7Decode_cons {c : Char} {s : Byte × Option Byte} (h : reads c s = true)
    (rest : List Byte) :
    gsm7Decode (septetsOf s ++ rest) = c :: gsm7Decode rest := by
  obtain ⟨s, e⟩ := s
  cases e with
  | none =>
    simp only [reads, Bool.and_eq_true, decide_eq_true_eq] at h
    obtain ⟨⟨⟨-, hmask⟩, hesc⟩, hchar⟩ := h
    show gsm7Decode (s :: rest) = _
    rw [gsm7Decode.eq_def]
    dsimp only
    rw [hmask, if_pos hesc, hchar]
  | some e =>
    simp only [reads, Bool.and_eq_true, decide_eq_true_eq] at h
    obtain ⟨⟨⟨⟨rfl, -⟩, hmask⟩, hesc⟩, hfind⟩ := h
    show gsm7Decode (gsmEsc :: e :: rest) = _
    rw [gsm7Decode.eq_def]
    dsimp only
    rw [if_neg (by decide), hmask, if_neg hesc, hfind]

theorem exists_gsm7Lookup (h : gsm7Encodable t = true) : ∃ ss, t.mapM gsm7Lookup = some ss := by
  induction t with
  | nil => exact ⟨[], rfl⟩
  | cons c t ih =>
    unfold gsm7Encodable at h ih
    rw [List.all_cons, Bool.and_eq_true] at h
    obtain ⟨s, hs⟩ := Option.isSome_iff_exists.mp h.1
    obtain ⟨ss, hss⟩ := ih h.2
    exact ⟨s :: ss, by rw [List.mapM_cons, hs, hss]; rfl⟩

theorem mapM_gsm7Lookup_cons {c : Char} {ss : List (Byte × Option Byte)}
    (h : (c :: t).mapM gsm7Lookup = some ss) :
    ∃ s ss', gsm7Lookup c = some s ∧ t.mapM gsm7Lookup = some ss' ∧ ss = s :: ss' := by
  rw [List.mapM_cons] at h
  obtain ⟨s, hs, h⟩ := Option.bind_eq_some_iff.mp h
  obtain ⟨ss', hss', h⟩ := Option.bind_eq_some_iff.mp h
  cases h
  exact ⟨s, ss', hs, hss', rfl⟩

/-- What the septets of a text are. -/
theorem septets_of_mapM {ss : List (Byte × Option Byte)} (h : t.mapM gsm7Lookup = some ss) :
    gsm7Decode (ss.flatMap septetsOf) = t ∧ (ss.flatMap septetsOf).length = costs .gsm7 t ∧
      (∀ s ∈ ss.flatMap septetsOf, s.toNat < 128) ∧
      (ss.flatMap septetsOf).getLast? ≠ some gsmEsc := by
  induction t generalizing ss with
  | nil =>
    cases h
    exact ⟨rfl, rfl, fun _ h => absurd h List.not_mem_nil, by simp⟩
  | cons c t ih =>
    obtain ⟨s, ss, hs, hss, rfl⟩ := mapM_gsm7Lookup_cons h
    obtain ⟨hdecode, hlength, hlt, hlast⟩ := ih hss
    have hreads := reads_gsm7Lookup hs
    rw [List.flatMap_cons]
    refine ⟨?_, ?_, ?_, ?_⟩
    · rw [gsm7Decode_cons hreads, hdecode]
    · have hcost : cost .gsm7 c = (septetsOf s).length := by
        unfold cost gsm7Cost
        rw [if_pos rfl, hs]
        obtain ⟨s, e⟩ := s
        cases e with
        | none => rfl
        | some e => rfl
      rw [List.length_append, hlength, ← hcost]
      rfl
    · intro x hx
      rcases List.mem_append.mp hx with hx | hx
      · obtain ⟨s, e⟩ := s
        cases e with
        | none =>
          simp only [reads, Bool.and_eq_true, decide_eq_true_eq] at hreads
          rw [List.mem_singleton.mp hx]
          exact hreads.1.1.1
        | some e =>
          simp only [reads, Bool.and_eq_true, decide_eq_true_eq] at hreads
          rcases List.mem_cons.mp hx with rfl | hx
          · show x.toNat < 128
            rw [hreads.1.1.1.1]
            decide
          · rw [List.mem_singleton.mp hx]
            exact hreads.1.1.1.2
      · exact hlt x hx
    · rw [List.getLast?_append]
      cases hrest : (ss.flatMap septetsOf).getLast? with
      | some x =>
        rw [Option.some_or, ← hrest]
        exact hlast
      | none =>
        rw [Option.none_or]
        obtain ⟨s, e⟩ := s
        cases e with
        | none =>
          simp only [reads, Bool.and_eq_true, decide_eq_true_eq] at hreads
          exact fun h => hreads.1.2 (Option.some.inj h)
        | some e =>
          simp only [reads, Bool.and_eq_true, decide_eq_true_eq] at hreads
          exact fun h => hreads.1.2 (Option.some.inj h)

/-- **A text comes back from its septets.** -/
theorem gsm7_round_trip (h : gsm7Encodable t = true) :
    ∃ s, gsm7Encode t = some s ∧ gsm7Decode s = t ∧ s.length = costs .gsm7 t ∧
      (∀ x ∈ s, x.toNat < 128) ∧ s.getLast? ≠ some gsmEsc := by
  obtain ⟨ss, hss⟩ := exists_gsm7Lookup h
  exact ⟨_, by rw [gsm7Encode, hss]; rfl, septets_of_mapM hss⟩

/-! ## Units -/

theorem toNat_ofNat_of_lt (h : n < 65536) : (UInt16.ofNat n).toNat = n := by
  rw [UInt16.toNat_ofNat']
  exact Nat.mod_eq_of_lt h

theorem isScalar (c : Char) : c.toNat < 0xD800 ∨ (0xDFFF < c.toNat ∧ c.toNat < 0x110000) := c.valid

theorem fromUtf16_cons (c : Char) (rest : List UInt16) :
    fromUtf16 (utf16Units c ++ rest) = (fromUtf16 rest).map (c :: ·) := by
  have hscalar := isScalar c
  unfold utf16Units
  split
  · rename_i hlt
    have hnat : (UInt16.ofNat c.toNat).toNat = c.toNat := toNat_ofNat_of_lt hlt
    rw [List.singleton_append, fromUtf16.eq_def]
    dsimp only
    rw [hnat, if_pos (by omega), Char.ofNat_toNat]
  · rename_i hge
    have hhigh : (UInt16.ofNat (0xD800 + (c.toNat - 0x10000) / 0x400)).toNat = 0xD800 +
      (c.toNat - 0x10000) / 0x400 :=
      toNat_ofNat_of_lt (by omega)
    have hlow : (UInt16.ofNat (0xDC00 + (c.toNat - 0x10000) % 0x400)).toNat = 0xDC00 +
      (c.toNat - 0x10000) % 0x400 :=
      toNat_ofNat_of_lt (by omega)
    rw [List.cons_append, List.singleton_append, fromUtf16.eq_def]
    dsimp only
    rw [hhigh, if_neg (by omega), if_neg (by omega), hlow, if_pos (by omega)]
    have hchar : 0x10000 + (0xD800 + (c.toNat - 0x10000) / 0x400 - 0xD800) * 0x400 +
      (0xDC00 + (c.toNat - 0x10000) % 0x400 - 0xDC00) =
        c.toNat := by omega
    rw [hchar, Char.ofNat_toNat]

theorem fromUtf16_encodeUtf16 (t : List Char) : fromUtf16 (encodeUtf16 t) = some t := by
  unfold encodeUtf16
  induction t with
  | nil => rfl
  | cons c t ih => rw [List.flatMap_cons, fromUtf16_cons, ih, Option.map_some]

theorem fromBeBytes_toBeBytes (us : List UInt16) : fromBeBytes (us.flatMap toBeBytes) = us := by
  induction us with
  | nil => rfl
  | cons u us ih =>
    rw [List.flatMap_cons]
    show UInt16.ofNat ((UInt8.ofNat (u.toNat / 256)).toNat * 256 +
      (UInt8.ofNat (u.toNat % 256)).toNat) :: fromBeBytes (us.flatMap toBeBytes) = _
    rw [ih]
    congr 1
    have hu : u.toNat < 65536 := u.toNat_lt
    apply UInt16.toNat_inj.mp
    rw [UInt16.toNat_ofNat', UInt8.toNat_ofNat', UInt8.toNat_ofNat']
    omega

theorem length_toBeBytes (us : List UInt16) : (us.flatMap toBeBytes).length = 2 * us.length := by
  induction us with
  | nil => rfl
  | cons u us ih =>
    rw [List.flatMap_cons, List.length_append, ih, List.length_cons]
    show 2 + _ = _
    omega

theorem ucs2Decode_encode (t : List Char) :
    ucs2Decode ((encodeUtf16 t).flatMap toBeBytes) = .ok t := by
  unfold ucs2Decode
  rw [length_toBeBytes, if_neg (by omega), fromBeBytes_toBeBytes, fromUtf16_encodeUtf16]

theorem length_utf16Units (c : Char) : (utf16Units c).length = cost .ucs2 c := by
  show (utf16Units c).length = lenUtf16 c
  unfold utf16Units lenUtf16
  split
  · rfl
  · rfl

theorem length_encodeUtf16 (t : List Char) : (encodeUtf16 t).length = costs .ucs2 t := by
  unfold encodeUtf16 costs
  induction t with
  | nil => rfl
  | cons c t ih =>
    rw [List.flatMap_cons, List.length_append, ih, length_utf16Units, List.map_cons, List.sum_cons]

/-- The last unit of a text is not the first half of a pair. -/
theorem getLast?_encodeUtf16 (t : List Char) :
    ((encodeUtf16 t).getLast?).any (fun u => 0xD800 ≤ u.toNat && u.toNat < 0xDC00) = false := by
  unfold encodeUtf16
  induction t with
  | nil => rfl
  | cons c t ih =>
    rw [List.flatMap_cons, List.getLast?_append]
    cases hrest : (t.flatMap utf16Units).getLast? with
    | some x =>
      rw [hrest] at ih
      exact ih
    | none =>
      rw [Option.none_or]
      have hscalar := isScalar c
      unfold utf16Units
      split
      · rename_i hlt
        have hnat : (UInt16.ofNat c.toNat).toNat = c.toNat := toNat_ofNat_of_lt hlt
        rw [List.getLast?_singleton, Option.any_some, hnat]
        simp only [Bool.and_eq_false_iff, decide_eq_false_iff_not]
        omega
      · have hlow : (UInt16.ofNat (0xDC00 + (c.toNat - 0x10000) % 0x400)).toNat = 0xDC00 +
          (c.toNat - 0x10000) % 0x400 :=
          toNat_ofNat_of_lt (by omega)
        rw [List.getLast?_cons_cons, List.getLast?_singleton, Option.any_some, hlow]
        simp only [Bool.and_eq_false_iff, decide_eq_false_iff_not]
        omega

/-! ## User data -/

namespace UserData

/-- What is read of user data that was sent. -/
def readBack (ud : UserData) : Except SmsError UserData :=
  decodeUd ud.encodeUd.1 ud.encodeUd.2.2.2 (ud.encodeUd.2.1 :: ud.encodeUd.2.2.1)

theorem cutSeptets_eq {s : List Byte} (hn : s.length ≤ n) (hlast : s.getLast? ≠ some gsmEsc) :
    cutSeptets s n = s := by
  unfold cutSeptets
  rw [List.take_of_length_le hn]
  exact if_neg hlast

theorem cutUnits_eq (hn : (encodeUtf16 t).length ≤ n) :
    cutUnits (encodeUtf16 t) n = encodeUtf16 t := by
  unfold cutUnits
  rw [List.take_of_length_le hn]
  dsimp only
  rw [getLast?_encodeUtf16]
  exact if_neg Bool.false_ne_true

theorem length_packSeptets (s : List Byte) (fillBits : ℕ) :
    (packSeptets s fillBits).length = divCeil (fillBits + 7 * s.length) 8 := by
  rw [packSeptets, length_packFrom, List.length_replicate]

theorem toNat_ofNat_length (h : n < 256) : (UInt8.ofNat n).toNat = n := by
  rw [UInt8.toNat_ofNat']
  exact Nat.mod_eq_of_lt h

/-- The header is read back, whatever is behind it. -/
def HeaderReads (ud : UserData) : Prop :=
  ud.front.length ≤ 7 ∧ ∀ rest, readHeader (ud.front.length > 0) (ud.front ++ rest) =
    .ok (ud.udh, ud.front.length)

theorem headerReads_nil (body : Body) : HeaderReads { udh := [], body } :=
  ⟨Nat.zero_le _, fun _ => rfl⟩

theorem headerReads_concat8 (reference : UInt8) {total seq : UInt8}
    (h : concatValid total seq = true) (body : Body) :
    HeaderReads { udh := [.concat8 reference total seq], body } := by
  have hfront : ({ udh := [.concat8 reference total seq], body } : UserData).front =
    [5, 0x00, 3, reference, total, seq] := rfl
  refine ⟨by rw [hfront]; exact Nat.le_succ 6, fun rest => ?_⟩
  rw [hfront]
  unfold readHeader
  rw [if_neg (by simp)]
  show (if (5 : UInt8).toNat > (0x00 :: 3 :: reference :: total :: seq :: rest).length then _
    else _) = _
  rw [if_neg (by simp)]
  show (parseIes 255 [0x00, 3, reference, total, seq]).map _ = _
  have hparse :
    parseIes 255 [0x00, 3, reference, total, seq] = .ok [.concat8 reference total seq] := by
    have hie : parseIe 0x00 [reference, total, seq] = .ok (.concat8 reference total seq) := by
      unfold parseIe
      rw [if_pos rfl]
      exact if_pos h
    show (if [reference, total, seq].length < (3 : UInt8).toNat then _ else _) = _
    rw [if_neg (show ¬ [reference, total, seq].length < (3 : UInt8).toNat from Nat.lt_irrefl 3)]
    show (parseIe 0x00 [reference, total, seq]).bind _ = _
    rw [hie]
    rfl
  rw [hparse]
  rfl

theorem fromDcs_gsm7 : Encoding.fromDcs 0x00 = .ok .gsm7 := rfl

theorem fromDcs_ucs2 : Encoding.fromDcs 0x08 = .ok .ucs2 := rfl

/-- Text in the default alphabet that fits behind its header. -/
theorem readBack_gsm7 {udh : List Ie} (hheader : HeaderReads { udh, body := .text t })
    (henc : gsm7Encodable t = true)
    (hfits : headerSeptets ({ udh, body := .text t } : UserData).front.length +
      costs .gsm7 t ≤ 160) :
    ({ udh, body := .text t } : UserData).readBack = .ok { udh, body := .text t } ∧
      ({ udh, body := .text t } : UserData).encodeUd.2.2.1.length ≤ 140 := by
  obtain ⟨s, hs, hdecode, hlength, hlt, hlast⟩ := gsm7_round_trip henc
  obtain ⟨hshort, hreads⟩ := hheader
  set ud : UserData := { udh, body := .text t } with hud
  have hencoding : ud.encoding = .gsm7 := if_pos henc
  set hlen := ud.front.length with hhlen
  rw [← hlength] at hfits
  have hencode : ud.encodeUd = (0x00, UInt8.ofNat (headerSeptets hlen + s.length),
    ud.front ++ packSeptets s (headerSeptets hlen * 7 - hlen * 8),
      decide (hlen > 0)) := by
    unfold encodeUd
    rw [hud]
    dsimp only
    rw [← hud, hencoding, if_pos rfl, hs, Option.getD_some, ← hhlen, cutSeptets_eq (by omega) hlast]
    rfl
  have hpacked := length_packSeptets s (headerSeptets hlen * 7 - hlen * 8)
  have hoctets : octets .gsm7 (headerSeptets hlen + s.length) = hlen +
    (packSeptets s (headerSeptets hlen * 7 - hlen * 8)).length := by
    rw [hpacked]
    show divCeil ((headerSeptets hlen + s.length) * 7) 8 = _
    unfold headerSeptets divCeil
    omega
  have hlen' : (ud.front ++ packSeptets s (headerSeptets hlen * 7 - hlen * 8)).length =
      hlen + (packSeptets s (headerSeptets hlen * 7 - hlen * 8)).length := List.length_append
  constructor
  · unfold readBack decodeUd
    rw [hencode]
    dsimp only
    rw [fromDcs_gsm7]
    dsimp only
    rw [toNat_ofNat_length (by omega), if_neg (by show ¬ _ > 160; omega), hoctets,
      if_neg (by rw [hlen']; exact Nat.lt_irrefl _),
      List.take_of_length_le (by rw [hlen']), hreads]
    show (readBody .gsm7 (headerSeptets hlen + s.length) _ hlen).map _ = _
    unfold readBody
    dsimp only
    rw [if_neg (by omega), hhlen, List.drop_left, ← hhlen, Nat.add_sub_cancel_left,
      unpackSeptets_packSeptets hlt]
    show Except.ok ({ udh := ud.udh, body := .text (gsm7Decode s) } : UserData) = _
    rw [hdecode]
  · rw [hencode]
    show (ud.front ++ packSeptets s (headerSeptets hlen * 7 - hlen * 8)).length ≤ 140
    rw [hlen', ← hoctets]
    show divCeil ((headerSeptets hlen + s.length) * 7) 8 ≤ 140
    unfold divCeil
    omega

/-- Other text that fits behind its header. -/
theorem readBack_ucs2 {udh : List Ie} (hheader : HeaderReads { udh, body := .text t })
    (henc : gsm7Encodable t = false)
    (hfits : ({ udh, body := .text t } : UserData).front.length + 2 * costs .ucs2 t ≤ 140) :
    ({ udh, body := .text t } : UserData).readBack = .ok { udh, body := .text t } ∧
      ({ udh, body := .text t } : UserData).encodeUd.2.2.1.length ≤ 140 := by
  obtain ⟨hshort, hreads⟩ := hheader
  set ud : UserData := { udh, body := .text t } with hud
  have hencoding : ud.encoding = .ucs2 := if_neg (by rw [henc]; exact Bool.false_ne_true)
  set hlen := ud.front.length with hhlen
  rw [← length_encodeUtf16] at hfits
  have hlen' :
    (ud.front ++ (encodeUtf16 t).flatMap toBeBytes).length = hlen + 2 * (encodeUtf16 t).length := by
    rw [List.length_append, length_toBeBytes]
  have hencode : ud.encodeUd = (0x08, UInt8.ofNat (hlen + 2 * (encodeUtf16 t).length),
    ud.front ++ (encodeUtf16 t).flatMap toBeBytes,
      decide (hlen > 0)) := by
    unfold encodeUd
    rw [hud]
    dsimp only
    rw [← hud, hencoding, if_neg (by decide), ← hhlen, cutUnits_eq (by omega), hlen']
    rfl
  constructor
  · unfold readBack decodeUd
    rw [hencode]
    dsimp only
    rw [fromDcs_ucs2]
    have hoctets (n : ℕ) : octets .ucs2 n = n := if_neg (by decide)
    dsimp only
    rw [toNat_ofNat_length (by omega), if_neg (by show ¬ _ > 140; omega), hoctets,
      if_neg (by rw [hlen']; exact Nat.lt_irrefl _),
      List.take_of_length_le (by rw [hlen']), hreads]
    show (readBody .ucs2 (hlen + 2 * (encodeUtf16 t).length) _ hlen).map _ = _
    unfold readBody
    dsimp only
    rw [hhlen, List.drop_left, ucs2Decode_encode]
    rfl
  · rw [hencode]
    show (ud.front ++ (encodeUtf16 t).flatMap toBeBytes).length ≤ 140
    rw [hlen']
    exact hfits

end UserData

end EvansComputer.Tel.Sms
