import EvansComputer.Dsp.Hdlc
import EvansComputer.Library.ShiftRegister

/-!
# The cyclic checks of the radio stack

CRC-16/X-25, which frames of packet radio end with, CRC-16/CCITT-FALSE and CRC-32.  All three
take a byte at a time and look up in a table what eight steps of the division make of it; an
index is a byte, so no lookup is out of range.

The register is the remainder of the message by the polynomial (`read_x25Update` and its
siblings).  What follows from that is about polynomials only: the check sequence behind a
message leaves one constant in the register, and a burst of at most sixteen bits changes a
CRC of sixteen bits.
-/

namespace EvansComputer.Dsp

open Polynomial

/-! ## The other two checks -/

/-- `table_msb16` -/
def tableMsb16 (poly : UInt16) : List UInt16 :=
  (List.range 256).map fun i => (List.range 8).foldl
    (fun c _ => if c &&& 0x8000 ≠ 0 then (c <<< 1) ^^^ poly else c <<< 1) (UInt16.ofNat i <<< 8)

/-- `table32` -/
def table32 (poly : UInt32) : List UInt32 :=
  (List.range 256).map fun i => (List.range 8).foldl
    (fun c _ => if c &&& 1 ≠ 0 then (c >>> 1) ^^^ poly else c >>> 1) (UInt32.ofNat i)

/-- `CCITT` -/
def ccitt : List UInt16 := tableMsb16 0x1021

/-- `CRC32` -/
def crc32Table : List UInt32 := table32 0xEDB88320

/-- High bit first, 0x1021, init 0xFFFF, no xorout. -/
def crc16CcittFalse (data : List Byte) : UInt16 :=
  data.foldl (fun c b => (c <<< 8) ^^^ ccitt.getD ((c >>> 8) ^^^ b.toUInt16).toNat 0) 0xFFFF

/-- `Crc32::update` -/
def crc32Update (c : UInt32) (data : List Byte) : UInt32 :=
  data.foldl (fun c b => (c >>> 8) ^^^ crc32Table.getD ((c ^^^ b.toUInt32) &&& 0xFF).toNat 0) c

/-- Init and xorout 0xFFFFFFFF. -/
def crc32 (data : List Byte) : UInt32 := crc32Update 0xFFFFFFFF data ^^^ 0xFFFFFFFF

/-! ## What they ought to compute -/

/-- The polynomial of the two short checks. -/
noncomputable def ccittPolynomial : (ZMod 2)[X] := X ^ 16 + X ^ 12 + X ^ 5 + 1

/-- The polynomial of the long check. -/
noncomputable def ieeePolynomial : (ZMod 2)[X] :=
  X ^ 32 + X ^ 26 + X ^ 23 + X ^ 22 + X ^ 16 + X ^ 12 + X ^ 11 + X ^ 10 + X ^ 8 + X ^ 7 + X ^ 5 +
    X ^ 4 + X ^ 2 + X + 1

/-- The bits of a string, low bit of a byte first. -/
def lowBits (data : List Byte) : List Bool := data.flatMap fun b => (lowFirst 8).bits b.toBitVec

/-- The bits of a string, high bit of a byte first. -/
def highBits (data : List Byte) : List Bool := data.flatMap fun b => (highFirst 8).bits b.toBitVec

/-- What dividing leaves of a message, in a register of `w` bits that starts with ones. -/
noncomputable def remainder (P : (ZMod 2)[X]) (w : ℕ) (bits : List Bool) : (ZMod 2)[X] :=
  (X ^ bits.length * ofBits (List.replicate w true) + X ^ w * ofBits bits) %ₘ P

/-- Two strings that differ, and only inside a window of sixteen bits. -/
def Burst (bits : List Byte → List Bool) (x y : List Byte) : Prop :=
  x ≠ y ∧ ∃ a u v b, bits x = a ++ u ++ b ∧ bits y = a ++ v ++ b ∧ u.length = v.length ∧
    u.length ≤ 16

/-! ## Tables -/

theorem getD_table {α : Type} (f : ℕ → α) {d : α} {i : ℕ} (h : i < 256) :
    ((List.range 256).map f).getD i d = f i := by
  rw [List.getD_eq_getElem?_getD, List.getElem?_map, List.getElem?_range h]
  rfl

/-- Eight steps of a program are eight steps of the division. -/
theorem eight_steps {α : Type} {w : ℕ} {r : α → BitVec w} {g : α → α} {s : BitVec w → BitVec w}
    (h : ∀ c, r (g c) = s (r c)) (c : α) :
    r ((List.range 8).foldl (fun c _ => g c) c) = s^[8] (r c) := by
  rw [List.foldl_const, List.length_range]
  exact Function.Semiconj.iterate_right h 8 c

theorem and_twoPow_ne_zero {w i : ℕ} (hi : i < w) (c : BitVec w) :
    c &&& BitVec.twoPow w i ≠ 0#w ↔ c.getLsbD i = true := by
  rw [BitVec.and_twoPow]
  cases c.getLsbD i with
  | false => simp
  | true =>
    refine iff_of_true (fun h => ?_) rfl
    have hbit := congrArg (BitVec.getLsbD · i) h
    simp [hi] at hbit

theorem x25_step (c : UInt16) : (if c &&& 1 ≠ 0 then (c >>> 1) ^^^ 0x8408 else c >>> 1).toBitVec =
    (lowFirst 16).step 0x8408#16 c.toBitVec := by
  have htop : c &&& 1 ≠ 0 ↔ (lowFirst 16).bit c.toBitVec 0 = true := by
    rw [Ne, ← UInt16.toBitVec_inj]
    exact and_twoPow_ne_zero (i := 0) (by decide) c.toBitVec
  rw [Wiring.step, apply_ite UInt16.toBitVec]
  exact if_congr htop rfl rfl

theorem ccitt_step (c : UInt16) :
    (if c &&& 0x8000 ≠ 0 then (c <<< 1) ^^^ 0x1021 else c <<< 1).toBitVec =
    (highFirst 16).step 0x1021#16 c.toBitVec := by
  have htop : c &&& 0x8000 ≠ 0 ↔ (highFirst 16).bit c.toBitVec 0 = true := by
    rw [Ne, ← UInt16.toBitVec_inj]
    exact and_twoPow_ne_zero (i := 15) (by decide) c.toBitVec
  rw [Wiring.step, apply_ite UInt16.toBitVec]
  exact if_congr htop rfl rfl

theorem crc32_step (c : UInt32) :
    (if c &&& 1 ≠ 0 then (c >>> 1) ^^^ 0xEDB88320 else c >>> 1).toBitVec =
    (lowFirst 32).step 0xEDB88320#32 c.toBitVec := by
  have htop : c &&& 1 ≠ 0 ↔ (lowFirst 32).bit c.toBitVec 0 = true := by
    rw [Ne, ← UInt32.toBitVec_inj]
    exact and_twoPow_ne_zero (i := 0) (by decide) c.toBitVec
  rw [Wiring.step, apply_ite UInt32.toBitVec]
  exact if_congr htop rfl rfl

/-! ## A byte -/

theorem x25_byte (c : UInt16) (b : Byte) :
    ((c >>> 8) ^^^ x25.getD ((c ^^^ b.toUInt16) &&& 0xFF).toNat 0).toBitVec =
    (lowFirst 16).shift c.toBitVec 8 ^^^
      ((lowFirst 16).step 0x8408#16)^[8] ((c.toBitVec ^^^ b.toBitVec.setWidth 16) &&& 0xFF#16) := by
  have hlt : ((c ^^^ b.toUInt16) &&& 0xFF).toNat < 256 :=
    (UInt16.toNat_and _ _ ▸ Nat.and_le_right).trans_lt (by decide)
  rw [x25, tableReflected16, getD_table _ hlt, UInt16.ofNat_toNat, UInt16.toBitVec_xor,
    eight_steps x25_step]
  rfl

theorem crc32_byte (c : UInt32) (b : Byte) :
    ((c >>> 8) ^^^ crc32Table.getD ((c ^^^ b.toUInt32) &&& 0xFF).toNat 0).toBitVec =
    (lowFirst 32).shift c.toBitVec 8 ^^^
      ((lowFirst 32).step 0xEDB88320#32)^[8]
      ((c.toBitVec ^^^ b.toBitVec.setWidth 32) &&& 0xFF#32) := by
  have hlt : ((c ^^^ b.toUInt32) &&& 0xFF).toNat < 256 :=
    (UInt32.toNat_and _ _ ▸ Nat.and_le_right).trans_lt (by decide)
  rw [crc32Table, table32, getD_table _ hlt, UInt32.ofNat_toNat, UInt32.toBitVec_xor,
    eight_steps crc32_step]
  rfl

theorem ccitt_byte (c : UInt16) (b : Byte) :
    ((c <<< 8) ^^^ ccitt.getD ((c >>> 8) ^^^ b.toUInt16).toNat 0).toBitVec =
    (highFirst 16).shift c.toBitVec 8 ^^^
      ((highFirst 16).step 0x1021#16)^[8]
      (((c.toBitVec >>> 8) ^^^ b.toBitVec.setWidth 16) <<< 8) := by
  have hlt : ((c >>> 8) ^^^ b.toUInt16).toNat < 256 := by
    rw [UInt16.toNat_xor]
    refine Nat.xor_lt_two_pow (n := 8) ?_ ?_
    · have hc := c.toNat_lt
      rw [UInt16.toNat_shiftRight]
      exact (Nat.shiftRight_eq_div_pow _ _).trans_lt (Nat.div_lt_of_lt_mul hc)
    · rw [UInt8.toNat_toUInt16]
      exact b.toNat_lt
  rw [ccitt, tableMsb16, getD_table _ hlt, UInt16.ofNat_toNat, UInt16.toBitVec_xor,
    eight_steps ccitt_step]
  rfl

/-- The low byte of a sum with a byte. -/
theorem lowFirst_and {w : ℕ} (c : BitVec w) (b : BitVec 8) (i : ℕ) (hi : i < w) :
    (lowFirst w).bit ((c ^^^ b.setWidth w) &&& 0xFF#w) i =
      (decide (i < 8) && ((lowFirst w).bit c i ^^ (lowFirst 8).bit b i)) := by
  have hmask : (0xFF#w).getLsbD i = decide (i < 8) := by
    rw [BitVec.getLsbD_ofNat, decide_eq_true hi, Bool.true_and]
    exact Nat.testBit_two_pow_sub_one 8 i
  have hbyte : (b.setWidth w).getLsbD i = b.getLsbD i := by
    rw [BitVec.getLsbD_setWidth, decide_eq_true hi, Bool.true_and]
  change ((c ^^^ b.setWidth w) &&& 0xFF#w).getLsbD i = _
  rw [BitVec.getLsbD_and, BitVec.getLsbD_xor, hmask, hbyte, Bool.and_comm]
  rfl

/-- The high byte of a sum with a byte. -/
theorem highFirst_shift (c : BitVec 16) (b : BitVec 8) (i : ℕ) (hi : i < 16) :
    (highFirst 16).bit (((c >>> 8) ^^^ b.setWidth 16) <<< 8) i =
      (decide (i < 8) && ((highFirst 16).bit c i ^^ (highFirst 8).bit b i)) := by
  change (((c >>> 8) ^^^ b.setWidth 16) <<< 8).getMsbD i =
    (decide (i < 8) && (c.getMsbD i ^^ b.getMsbD i))
  rw [BitVec.getMsbD_shiftLeft, BitVec.getMsbD_xor, BitVec.getMsbD_ushiftRight,
    BitVec.getMsbD_setWidth]
  by_cases h8 : i < 8
  · have hadd : i + 8 + 8 - 16 = i := by omega
    simp [h8, hadd, show i + 8 < 16 by omega]
  · have hout : b.getMsbD (i + 8 + 8 - 16) = false := BitVec.getMsbD_of_ge b _ (by omega)
    rw [hout]
    simp [h8, show ¬i + 8 < 16 by omega]

/-! ## A message -/

theorem divisor_x25 : (lowFirst 16).divisor 0x8408#16 = ccittPolynomial := by
  have hbits : (lowFirst 16).bits 0x8408#16 =
      [false, false, false, true, false, false, false, false, false, false, true, false, false,
        false, false, true] := by
    decide
  simp [Wiring.divisor, Wiring.read, hbits, ofBits, ccittPolynomial, add_assoc]

theorem divisor_ccitt : (highFirst 16).divisor 0x1021#16 = ccittPolynomial := by
  have hbits : (highFirst 16).bits 0x1021#16 = (lowFirst 16).bits 0x8408#16 := by decide
  rw [← divisor_x25, Wiring.divisor, Wiring.read, hbits]
  rfl

theorem divisor_crc32 : (lowFirst 32).divisor 0xEDB88320#32 = ieeePolynomial := by
  have hbits : (lowFirst 32).bits 0xEDB88320#32 =
      [false, false, false, false, false, true, false, false, true, true, false, false, false,
        false, false, true,
        false, false, false, true, true, true, false, true, true, false, true, true, false, true,
          true, true] := by
    decide
  simp [Wiring.divisor, Wiring.read, hbits, ofBits, ieeePolynomial, add_assoc]

theorem read_x25Update (data : List Byte) (c : UInt16) :
    (lowFirst 16).read (x25Update c data).toBitVec =
    (X ^ (lowBits data).length * (lowFirst 16).read c.toBitVec + X ^ 16 * ofBits (lowBits data)) %ₘ
    ccittPolynomial := by
  rw [← divisor_x25]
  refine Wiring.read_foldl _ _ UInt16.toBitVec (fun c b => ?_) data c
  rw [x25_byte, Wiring.mk_read_chunk _ _ (by decide) (by decide)
    (lowFirst_and c.toBitVec b.toBitVec),
    Wiring.length_bits]
  rfl

theorem read_crc32Update (data : List Byte) (c : UInt32) :
    (lowFirst 32).read (crc32Update c data).toBitVec =
    (X ^ (lowBits data).length * (lowFirst 32).read c.toBitVec + X ^ 32 * ofBits (lowBits data)) %ₘ
    ieeePolynomial := by
  rw [← divisor_crc32]
  refine Wiring.read_foldl _ _ UInt32.toBitVec (fun c b => ?_) data c
  rw [crc32_byte, Wiring.mk_read_chunk _ _ (by decide) (by decide)
    (lowFirst_and c.toBitVec b.toBitVec),
    Wiring.length_bits]
  rfl

theorem bytes_injective {W : Wiring 8} {x y : List Byte}
    (h : (x.flatMap fun b => W.bits b.toBitVec) = y.flatMap fun b => W.bits b.toBitVec) :
    x = y := by
  have hchunks : ∀ z : List Byte, chunks 8 (z.flatMap fun b => W.bits b.toBitVec) = z.map fun b =>
    W.bits b.toBitVec := by
    intro z
    rw [List.flatMap_def]
    refine chunks_flatten (by decide) fun c hc => ?_
    obtain ⟨b, -, rfl⟩ := List.mem_map.mp hc
    exact W.length_bits _
  refine List.map_injective_iff.mpr (fun b c hbc => UInt8.toBitVec_inj.mp (W.bits_injective hbc)) ?_
  rw [← hchunks, ← hchunks, h]

theorem read_ones (w : ℕ) (W : Wiring w) (h : ∀ i < w, W.bit (BitVec.allOnes w) i = true) :
    W.read (BitVec.allOnes w) = ofBits (List.replicate w true) := by
  refine congrArg ofBits (List.eq_replicate_iff.mpr ⟨W.length_bits _, fun b hb => ?_⟩)
  obtain ⟨i, hi, rfl⟩ := List.mem_map.mp hb
  exact h i (List.mem_range.mp hi)

theorem read_crc16CcittFalse (data : List Byte) :
    (highFirst 16).read (crc16CcittFalse data).toBitVec = remainder ccittPolynomial 16
    (highBits data) := by
  rw [remainder, ← read_ones 16 (highFirst 16) (by decide), ← divisor_ccitt]
  refine Wiring.read_foldl _ _ UInt16.toBitVec (fun c b => ?_) data 0xFFFF
  rw [ccitt_byte, Wiring.mk_read_chunk _ _ (by decide) (by decide)
    (highFirst_shift c.toBitVec b.toBitVec),
    Wiring.length_bits]
  rfl

theorem read_crc16X25 (data : List Byte) :
    (lowFirst 16).read (crc16X25 data ^^^ 0xFFFF).toBitVec = remainder ccittPolynomial 16
    (lowBits data) := by
  have hxor : crc16X25 data ^^^ 0xFFFF = x25Update 0xFFFF data := by
    rw [crc16X25, UInt16.xor_assoc, UInt16.xor_self, UInt16.xor_zero]
  rw [hxor, read_x25Update, remainder, ← read_ones 16 (lowFirst 16) (by decide)]
  rfl

/-- Messages of one polynomial remainder that differ in a burst are equal. -/
theorem burst_remainder {w : ℕ} {W : Wiring w} {p : BitVec w} {bits : List Byte → List Bool}
    {x y : List Byte} (hp : W.bit p (w - 1) = true) (hw : 16 ≤ w) (hinj : bits x = bits y → x = y)
    (hxy : Burst bits x y) :
    remainder (W.divisor p) w (bits x) ≠ remainder (W.divisor p) w (bits y) := by
  obtain ⟨hne, a, u, v, b, hx, hy, hlen, hle⟩ := hxy
  intro h
  have hall : (bits x).length = (bits y).length := by rw [hx, hy]; simp [hlen]
  rw [remainder, remainder, hall, hx, hy] at h
  have huv := W.burst hp (by omega) hlen (hle.trans hw) h
  exact hne (hinj (by rw [hx, hy, huv]))

theorem lowBits_u16ToLe (x : UInt16) : lowBits (u16ToLe x) = (lowFirst 16).bits x.toBitVec := by
  have hlow :
    (lowFirst 8).bits x.toUInt8.toBitVec = (List.range 8).map ((lowFirst 16).bit x.toBitVec) := by
    refine List.map_congr_left fun i hi => ?_
    change (x.toBitVec.setWidth 8).getLsbD i = x.toBitVec.getLsbD i
    rw [BitVec.getLsbD_setWidth, decide_eq_true (List.mem_range.mp hi), Bool.true_and]
  have hhigh : (lowFirst 8).bits (x >>> 8).toUInt8.toBitVec =
    (List.range 8).map ((lowFirst 16).bit x.toBitVec ∘ (8 + ·)) := by
    refine List.map_congr_left fun i hi => ?_
    change ((x.toBitVec >>> 8).setWidth 8).getLsbD i = x.toBitVec.getLsbD (8 + i)
    rw [BitVec.getLsbD_setWidth, decide_eq_true (List.mem_range.mp hi), Bool.true_and,
      BitVec.getLsbD_ushiftRight]
  rw [lowBits, u16ToLe, List.flatMap_cons, List.flatMap_singleton, hlow,
    hhigh, ← List.map_map, ← List.map_append]
  rfl

/-- The check sequence behind a message leaves one constant. -/
theorem x25Update_append (data : List Byte) :
    x25Update 0xFFFF (data ++ u16ToLe (crc16X25 data)) = 0xF0B8 := by
  have hzero : x25Update 0xFFFF [0, 0] = 0xF0B8 := by decide
  have hcast : x25Update 0xFFFF (data ++ u16ToLe (crc16X25 data)) =
    x25Update (x25Update 0xFFFF data) (u16ToLe (crc16X25 data)) :=
    List.foldl_append
  refine UInt16.toBitVec_inj.mp ((lowFirst 16).read_injective ?_)
  have hnone : ofBits (lowBits [0, 0]) = 0 := ofBits_replicate_false 16
  have hcrc : ofBits ((lowFirst 16).bits (crc16X25 data).toBitVec) =
      (lowFirst 16).read (x25Update 0xFFFF data).toBitVec + (lowFirst 16).read 0xFFFF#16 :=
        (lowFirst 16).read_xor _ _
  rw [← hzero, hcast, read_x25Update [0, 0], hnone, read_x25Update (u16ToLe _), lowBits_u16ToLe,
    Wiring.length_bits, hcrc,
    mul_zero, add_zero, mul_add, ← add_assoc, CharTwo.add_self_eq_zero, zero_add]
  rfl

/-- No other two bytes do. -/
theorem x25Update_injective {c : UInt16} {a b d e : Byte}
    (h : x25Update c [a, b] = x25Update c [d, e]) : [a, b] = [d, e] := by
  have hread := congrArg (fun c : UInt16 => (lowFirst 16).read c.toBitVec) h
  simp only [read_x25Update, ← divisor_x25] at hread
  refine bytes_injective (W := lowFirst 8) ?_
  refine Wiring.burst (lowFirst 16) (p := 0x8408#16) (a := []) (b := [])
    (r := X ^ 16 * (lowFirst 16).read c.toBitVec)
    rfl (by decide) rfl (le_refl 16) ?_
  rw [List.nil_append, List.nil_append, List.append_nil, List.append_nil]
  exact hread

/-- CRC-16/X-25, CRC-16/CCITT-FALSE and CRC-32 are remainders by their polynomials, of the bits in
the order the line has them.  The X-25 register is 0xF0B8 behind a message and its check sequence
and behind no other two bytes, and a burst of at most sixteen bits changes both short checks. -/
theorem crc_is_the_remainder :
    (∀ data, (lowFirst 16).read (crc16X25 data ^^^ 0xFFFF).toBitVec = remainder ccittPolynomial 16
      (lowBits data)) ∧
    (∀ data, (highFirst 16).read (crc16CcittFalse data).toBitVec = remainder ccittPolynomial 16
      (highBits data)) ∧
    (∀ data, (lowFirst 32).read (crc32 data ^^^ 0xFFFFFFFF).toBitVec = remainder ieeePolynomial 32
      (lowBits data)) ∧
    (∀ data a b, x25Update 0xFFFF (data ++ [a, b]) = 0xF0B8 ↔ [a, b] = u16ToLe (crc16X25 data)) ∧
    (∀ x y, Burst lowBits x y → crc16X25 x ≠ crc16X25 y) ∧
    (∀ x y, Burst highBits x y → crc16CcittFalse x ≠ crc16CcittFalse y) := by
  refine ⟨read_crc16X25, read_crc16CcittFalse, fun data => ?_,
    fun data a b => ⟨fun h => ?_, fun h => ?_⟩,
    fun x y hxy h => ?_, fun x y hxy h => ?_⟩
  · have hxor : crc32 data ^^^ 0xFFFFFFFF = crc32Update 0xFFFFFFFF data := by
      rw [crc32, UInt32.xor_assoc, UInt32.xor_self, UInt32.xor_zero]
    rw [hxor, read_crc32Update, remainder, ← read_ones 32 (lowFirst 32) (by decide)]
    rfl
  · have hcast : ∀ x, x25Update 0xFFFF (data ++ x) = x25Update (x25Update 0xFFFF data) x :=
      fun _ => List.foldl_append
    refine x25Update_injective (c := x25Update 0xFFFF data) ?_
    rw [← hcast, h]
    exact ((hcast _).symm.trans (x25Update_append data)).symm
  · rw [h, x25Update_append]
  · have hread :
      remainder ccittPolynomial 16 (lowBits x) = remainder ccittPolynomial 16 (lowBits y) := by
      rw [← read_crc16X25, ← read_crc16X25, h]
    exact burst_remainder (W := lowFirst 16) (p := 0x8408#16) rfl le_rfl bytes_injective hxy
      (divisor_x25 ▸ hread)
  · have hread :
      remainder ccittPolynomial 16 (highBits x) = remainder ccittPolynomial 16 (highBits y) := by
      rw [← read_crc16CcittFalse, ← read_crc16CcittFalse, h]
    exact burst_remainder (W := highFirst 16) (p := 0x1021#16) rfl le_rfl bytes_injective hxy
      (divisor_ccitt ▸ hread)

theorem one_bit_changes : crc16X25 [0, 1] ≠ crc16X25 [0, 3] ∧
    crc16CcittFalse [0, 1] ≠ crc16CcittFalse [0, 3] := by
  obtain ⟨-, -, -, -, hlow, hhigh⟩ := crc_is_the_remainder
  refine ⟨hlow _ _ ⟨by decide, (lowBits [0, 1]).take 9, [false], [true],
    (lowBits [0, 1]).drop 10, ?_⟩,
    hhigh _ _ ⟨by decide, (highBits [0, 1]).take 14, [false], [true], [true], ?_⟩⟩ <;> decide

end EvansComputer.Dsp
