import EvansComputer.Dsp.Hdlc
import Mathlib.Data.List.GetD

/-!
# Frames come through

Sender and receiver count ones in step: behind every bit of data both have the same count,
less than five, so a zero that was stuffed is told from one that was not, and the flag behind
the data begins with a zero of its own (`pushBits_stuff`).  What a flag closes is then the
data and seven bits of the flag, and after it the decoder is as it was after the flag before
(`pushBits_frame`): that state carries the induction over frames.

The decoder adds to its longest length, and counts ones without end; where these sums fit,
everything comes through, and where they do not, nothing does.
-/

namespace EvansComputer.Dsp

/-- A bit is zero or one. -/
def IsBit (b : Byte) : Prop := b = 0 ∨ b = 1

instance (b : Byte) : Decidable (IsBit b) := inferInstanceAs (Decidable (b = 0 ∨ b = 1))

/-! ## Bits of bytes -/

theorem length_bitsOf (b : Byte) : (bitsOf b).length = 8 := rfl

theorem isBit_of_mem_bitsOf {b x : Byte} (h : x ∈ bitsOf b) : IsBit x := by
  obtain ⟨i, -, rfl⟩ := List.mem_map.mp h
  exact Nrzi.and_one _

theorem byteOf_bitsOf (b : Byte) : byteOf (bitsOf b) = b := by
  have hall :
    (List.range 256).all (fun n => byteOf (bitsOf (UInt8.ofNat n)) = UInt8.ofNat n) = true := by
    decide +kernel
  have hb := List.all_eq_true.mp hall b.toNat (List.mem_range.mpr b.toNat_lt)
  rw [UInt8.ofNat_toNat] at hb
  exact of_decide_eq_true hb

theorem bitsOf_flag : bitsOf flag = [0, 1, 1, 1, 1, 1, 1, 0] := by decide

theorem length_flatMap_bitsOf (bytes : List Byte) :
    (bytes.flatMap bitsOf).length = bytes.length * 8 := by
  simp only [List.length_flatMap, length_bitsOf, List.map_const', List.sum_replicate_nat]

theorem chunks_flatMap_bitsOf (bytes : List Byte) :
    chunks 8 (bytes.flatMap bitsOf) = bytes.map bitsOf := by
  rw [List.flatMap_def]
  refine chunks_flatten (by decide) fun c hc => ?_
  obtain ⟨b, -, rfl⟩ := List.mem_map.mp hc
  exact length_bitsOf b

/-! ## Stuffing -/

/-- The data with its stuffed zeros, when some ones have gone before. -/
def stuffFrom (ones : ℕ) : List Byte → List Byte
  | [] => []
  | b :: bits =>
    if b = 1 then
      if ones + 1 = 5 then 1 :: 0 :: stuffFrom 0 bits else 1 :: stuffFrom (ones + 1) bits
    else b :: stuffFrom 0 bits

/-- The ones at the end. -/
def onesAfter (ones : ℕ) : List Byte → ℕ
  | [] => ones
  | b :: bits =>
    if b = 1 then
      if ones + 1 = 5 then onesAfter 0 bits else onesAfter (ones + 1) bits
    else onesAfter 0 bits

theorem foldl_stuffBit (bits out : List Byte) (ones : ℕ) :
    bits.foldl stuffBit (out, ones) = (out ++ stuffFrom ones bits, onesAfter ones bits) := by
  induction bits generalizing out ones with
  | nil => rw [stuffFrom, onesAfter, List.append_nil, List.foldl_nil]
  | cons b bits ih =>
    rw [List.foldl_cons, stuffBit, stuffFrom, onesAfter]
    dsimp only
    split_ifs with hone hfive
    · rw [ih, hone, List.append_assoc]
      rfl
    · rw [ih, hone, List.append_assoc]
      rfl
    · rw [ih, List.append_assoc]
      rfl

/-- What stands between the flags of a frame. -/
def dataBits (payload : List Byte) : List Byte :=
  (payload ++ u16ToLe (crc16X25 payload)).flatMap bitsOf

theorem length_u16ToLe (x : UInt16) : (u16ToLe x).length = 2 := rfl

theorem length_dataBits (payload : List Byte) :
    (dataBits payload).length = (payload.length + 2) * 8 := by
  rw [dataBits, length_flatMap_bitsOf, List.length_append, length_u16ToLe]

theorem isBit_of_mem_dataBits {payload : List Byte} {b : Byte} (h : b ∈ dataBits payload) :
    IsBit b := by
  obtain ⟨x, -, hx⟩ := List.mem_flatMap.mp h
  exact isBit_of_mem_bitsOf hx

/-- The bits of a frame. -/
def frameBits (payload : List Byte) (preamble postamble : ℕ) : List Byte :=
  flags preamble ++ (stuffFrom 0 (dataBits payload) ++ flags postamble)

theorem encodeFrame_eq (payload : List Byte) (preamble postamble : ℕ) :
    encodeFrame payload preamble postamble =
    (capacity payload preamble postamble).map fun _ => frameBits payload preamble postamble := by
  unfold encodeFrame
  dsimp only
  rw [← List.foldl_flatMap, foldl_stuffBit]
  cases capacity payload preamble postamble with
  | none => rfl
  | some n => exact congrArg some (List.append_assoc _ _ _)

theorem onesAfter_lt {ones : ℕ} (h : ones < 5) (bits : List Byte) : onesAfter ones bits < 5 := by
  induction bits generalizing ones with
  | nil => exact h
  | cons b bits ih =>
    rw [onesAfter]
    split_ifs with hone hfive
    · exact ih (by decide)
    · exact ih (by omega)
    · exact ih (by decide)

/-! ## One bit after another -/

namespace HdlcDecoder

variable {d : HdlcDecoder} {ones : ℕ} {bits out : List Byte}

/-- The sums with the longest length are lengths. -/
def Fits (d : HdlcDecoder) : Prop := (d.maxLen + 2) * 8 + 8 < 2 ^ 64

/-- Inside a frame: the ones counted, and the bits so far. -/
def reading (d : HdlcDecoder) (ones : ℕ) (bits : List Byte) : HdlcDecoder :=
  { d with ones, inFrame := true, bits }

theorem pushBits_append (d : HdlcDecoder) (a b : List Byte) :
    d.pushBits (a ++ b) = (d.pushBits a).bind fun s => (s.1.pushBits b).map fun t =>
      (t.1, s.2 ++ t.2) := by
  induction a generalizing d with
  | nil =>
    change d.pushBits b = (d.pushBits b).map fun t => (t.1, [] ++ t.2)
    cases d.pushBits b <;> rfl
  | cons x a ih =>
    change ((d.pushBit x).bind fun s => (s.1.pushBits (a ++ b)).bind fun t =>
      some (t.1, s.2.toList ++ t.2)) =
      ((d.pushBit x).bind fun s => (s.1.pushBits a).bind fun t =>
        some (t.1, s.2.toList ++ t.2)).bind _
    cases d.pushBit x with
    | none => rfl
    | some s =>
      rw [Option.bind_some, Option.bind_some, ih]
      cases s.1.pushBits a with
      | none => rfl
      | some t =>
        rw [Option.bind_some, Option.bind_some, Option.bind_some]
        cases t.1.pushBits b with
        | none => rfl
        | some u => exact congrArg (fun l => some (u.1, l)) (List.append_assoc _ _ _).symm

theorem pushBits_cons (x : Byte) : d.pushBits (x :: bits) =
    (d.pushBit x).bind fun s => (s.1.pushBits bits).map fun t => (t.1, s.2.toList ++ t.2) := by
  change ((d.pushBit x).bind fun s => (s.1.pushBits bits).bind fun t =>
    some (t.1, s.2.toList ++ t.2)) = _
  cases d.pushBit x with
  | none => rfl
  | some s =>
    rw [Option.bind_some, Option.bind_some]
    cases s.1.pushBits bits <;> rfl

/-- A bit that only changes the state. -/
theorem pushBits_cons_of_silent {d' : HdlcDecoder} {x : Byte} (h : d.pushBit x = some (d', none)) :
    d.pushBits (x :: bits) = d'.pushBits bits := by
  rw [pushBits_cons, h, Option.bind_some]
  cases d'.pushBits bits <;> rfl

theorem pushBit_one (h : ones < 6) :
    (d.reading ones bits).pushBit 1 = some (d.reading (ones + 1) (bits ++ [1]), none) := by
  have hfew : ones + 1 < 2 ^ 32 := by omega
  have hseven : ¬ ones + 1 ≥ 7 := by omega
  change ((d.reading ones bits).pushOne).map (·, none) = _
  have hpush : (d.reading ones bits).pushOne = some (d.reading (ones + 1) (bits ++ [1])) := by
    dsimp only [pushOne, reading]
    rw [if_pos hfew, if_neg hseven, if_pos rfl]
  rw [hpush, Option.map_some]

theorem most_of_fits (hd : d.Fits) : d.most = some ((d.maxLen + 2) * 8 + 8) := if_pos hd

theorem most_eq_none (hd : ¬ d.Fits) : d.most = none := if_neg hd

/-- A zero of data. -/
theorem pushBit_zero (h : ones < 5) (hd : d.Fits) (hlen : bits.length < (d.maxLen + 2) * 8 + 8) :
    (d.reading ones bits).pushBit 0 = some (d.reading 0 (bits ++ [0]), none) := by
  have hmost : (d.reading 0 (bits ++ [0])).most = some ((d.maxLen + 2) * 8 + 8) := most_of_fits hd
  have hshort : ¬ (bits ++ [0]).length > (d.maxLen + 2) * 8 + 8 := by
    rw [List.length_append, List.length_singleton]
    omega
  change (d.reading ones bits).pushZero = _
  dsimp only [pushZero, reading] at hmost ⊢
  rw [if_neg (by omega), if_neg (by omega), if_pos rfl, hmost]
  exact if_neg hshort

/-- The same zero, when the sum with the longest length is too large. -/
theorem pushBit_zero_eq_none (h : ones < 5) (hd : ¬ d.Fits) :
    (d.reading ones bits).pushBit 0 = none := by
  have hmost : (d.reading 0 (bits ++ [0])).most = none := most_eq_none hd
  change (d.reading ones bits).pushZero = _
  dsimp only [pushZero, reading] at hmost ⊢
  rw [if_neg (by omega), if_neg (by omega), if_pos rfl, hmost]
  rfl

/-- A stuffed zero. -/
theorem pushBit_stuffed : (d.reading 5 bits).pushBit 0 = some (d.reading 0 bits, none) := rfl

/-- The zero that ends a flag. -/
theorem pushBit_flag :
    (d.reading 6 (bits ++ [0, 1, 1, 1, 1, 1, 1])).pushBit 0 =
      ((d.reading 0 bits).finish).map fun s => (s.1.reading s.1.ones [], s.2) := by
  have hlen : (bits ++ [0, 1, 1, 1, 1, 1, 1]).length = bits.length + 7 := List.length_append
  have htake :
    (bits ++ [0, 1, 1, 1, 1, 1, 1]).take ((bits ++ [0, 1, 1, 1, 1, 1, 1]).length - 7) = bits := by
    rw [hlen, Nat.add_sub_cancel, List.take_left]
  change (d.reading 6 (bits ++ [0, 1, 1, 1, 1, 1, 1])).pushZero = _
  dsimp only [pushZero, reading]
  rw [if_pos rfl, if_pos ⟨rfl, by omega⟩, htake]
  generalize finish _ = closed
  cases closed <;> rfl

/-- **Data comes out of its stuffing**, and the counts of ones go in step. -/
theorem pushBits_stuff (hd : d.Fits) (h : ones < 5) (hbits : ∀ b ∈ out, IsBit b)
    (hlen : (bits ++ out).length ≤ (d.maxLen + 2) * 8 + 8) :
    (d.reading ones bits).pushBits (stuffFrom ones out) =
      some (d.reading (onesAfter ones out) (bits ++ out), []) := by
  induction out generalizing ones bits with
  | nil =>
    rw [List.append_nil]
    rfl
  | cons b out ih =>
    have hlen' : bits.length + (out.length + 1) ≤ (d.maxLen + 2) * 8 + 8 := by
      rwa [List.length_append, List.length_cons] at hlen
    have hnext {x : Byte} {n : ℕ} (hn : n < 5) :
      (d.reading n (bits ++ [x])).pushBits (stuffFrom n out) =
        some (d.reading (onesAfter n out) (bits ++ x :: out), []) := by
      have hmove : bits ++ x :: out = bits ++ [x] ++ out := List.append_cons bits x out
      rw [hmove]
      refine ih hn (fun y hy => hbits y (List.mem_cons_of_mem _ hy)) ?_
      rw [List.length_append, List.length_append, List.length_singleton]
      omega
    rw [stuffFrom, onesAfter]
    split_ifs with hone hfive
    · rw [hone, pushBits_cons_of_silent (pushBit_one (by omega)), hfive,
        pushBits_cons_of_silent pushBit_stuffed]
      exact hnext (by decide)
    · rw [hone, pushBits_cons_of_silent (pushBit_one (by omega))]
      exact hnext (by omega)
    · have hzero : b = 0 := (hbits b List.mem_cons_self).resolve_right hone
      rw [hzero, pushBits_cons_of_silent (pushBit_zero h hd (by omega))]
      exact hnext (by decide)

/-- The sum with the longest length is too large for the first plain zero, which the flag has. -/
theorem pushBits_stuff_eq_none (hd : ¬ d.Fits) (h : ones < 5) (hbits : ∀ b ∈ out, IsBit b)
    (rest : List Byte) :
    (d.reading ones bits).pushBits (stuffFrom ones out ++ 0 :: rest) = none := by
  induction out generalizing ones bits with
  | nil =>
    rw [stuffFrom, List.nil_append, pushBits_cons, pushBit_zero_eq_none h hd, Option.bind_none]
  | cons b out ih =>
    have hbits' : ∀ y ∈ out, IsBit y := fun y hy => hbits y (List.mem_cons_of_mem _ hy)
    rw [stuffFrom]
    split_ifs with hone hfive
    · rw [List.cons_append, pushBits_cons_of_silent (pushBit_one (by omega)), hfive,
        List.cons_append,
        pushBits_cons_of_silent pushBit_stuffed]
      exact ih (by decide) hbits'
    · rw [List.cons_append, pushBits_cons_of_silent (pushBit_one (by omega))]
      exact ih (by omega) hbits'
    · have hzero : b = 0 := (hbits b List.mem_cons_self).resolve_right hone
      rw [hzero, List.cons_append, pushBits_cons, pushBit_zero_eq_none h hd, Option.bind_none]

/-! ## Flags -/

/-- The ones of a flag are read as any others. -/
theorem pushBits_ones (n : ℕ) (bits rest : List Byte) (h : ones + n ≤ 6) :
    (d.reading ones bits).pushBits (List.replicate n 1 ++ rest) =
      (d.reading (ones + n) (bits ++ List.replicate n 1)).pushBits rest := by
  induction n generalizing ones bits with
  | zero => rw [List.replicate_zero, List.append_nil, List.nil_append, Nat.add_zero]
  | succ n ih =>
    rw [List.replicate_succ, List.cons_append, pushBits_cons_of_silent (pushBit_one (by omega)),
      ih _ (by omega),
      Nat.add_assoc, Nat.add_comm 1 n, List.append_assoc, List.singleton_append]

/-- **A flag closes what is being read.** -/
theorem pushBits_flag (hd : d.Fits) (h : ones < 5) (hlen : bits.length < (d.maxLen + 2) * 8 + 8)
    (rest : List Byte) :
    (d.reading ones bits).pushBits (bitsOf flag ++ rest) = (d.reading 0 bits).finish.bind fun s =>
      ((s.1.reading s.1.ones []).pushBits rest).map fun t => (t.1, s.2.toList ++ t.2) := by
  rw [bitsOf_flag]
  change (d.reading ones bits).pushBits (0 :: (List.replicate 6 1 ++ 0 :: rest)) = _
  rw [pushBits_cons_of_silent (pushBit_zero h hd hlen), pushBits_ones 6 _ _ (by decide),
    List.append_assoc,
    pushBits_cons]
  change ((d.reading 6 (bits ++ [0, 1, 1, 1, 1, 1, 1])).pushBit 0).bind _ = _
  rw [pushBit_flag]
  cases (d.reading 0 bits).finish <;> rfl

theorem checkedAdd_of_lt {a b : ℕ} (h : a + b < 2 ^ 64) : checkedAdd a b = some (a + b) := if_pos h

theorem finish_nil (h : d.minLen + 2 < 2 ^ 64) :
    (d.reading 0 []).finish = some (d.reading 0 [], none) := by
  have hmin : checkedAdd (d.reading 0 []).minLen 2 = some (d.minLen + 2) := checkedAdd_of_lt h
  have hwhole : ¬ (d.reading 0 []).bits.length % 8 ≠ 0 := fun h => h rfl
  have hshort : (d.reading 0 []).bits.length / 8 < d.minLen + 2 := by
    change 0 / 8 < d.minLen + 2
    omega
  unfold finish
  rw [if_neg hwhole, hmin]
  exact if_pos hshort

/-- **The data of a frame is the payload and its check.** -/
theorem finish_dataBits (hd : d.Fits) {payload : List Byte} (hmin : d.minLen ≤ payload.length)
    (hmax : payload.length ≤ d.maxLen) :
    (d.reading 0 (dataBits payload)).finish =
      some (d.reading 0 (dataBits payload), some payload) := by
  have hlong : (d.maxLen + 2) * 8 + 8 < 2 ^ 64 := hd
  have hdiv : (d.reading 0 (dataBits payload)).bits.length / 8 = payload.length + 2 := by
    change (dataBits payload).length / 8 = _
    rw [length_dataBits, Nat.mul_div_cancel _ (by decide)]
  have hwhole : ¬ (d.reading 0 (dataBits payload)).bits.length % 8 ≠ 0 := by
    change ¬ (dataBits payload).length % 8 ≠ 0
    rw [length_dataBits, Nat.mul_mod_left, not_not]
  have hlow : checkedAdd (d.reading 0 (dataBits payload)).minLen 2 = some (d.minLen + 2) :=
    checkedAdd_of_lt (show d.minLen + 2 < 2 ^ 64 by omega)
  have hhigh : checkedAdd (d.reading 0 (dataBits payload)).maxLen 2 = some (d.maxLen + 2) :=
    checkedAdd_of_lt (show d.maxLen + 2 < 2 ^ 64 by omega)
  have hbytes : (chunks 8 (d.reading 0 (dataBits payload)).bits).map byteOf =
      payload ++ u16ToLe (crc16X25 payload) := by
    change (chunks 8 (dataBits payload)).map byteOf = _
    rw [dataBits, chunks_flatMap_bitsOf, List.map_map]
    exact (List.map_congr_left fun b _ => byteOf_bitsOf b).trans (List.map_id _)
  have htake : (payload ++ u16ToLe (crc16X25 payload)).take (payload.length + 2 - 2) = payload := by
    rw [Nat.add_sub_cancel, List.take_left]
  have hcheck : u16ToLe (crc16X25 payload) =
    [(payload ++ u16ToLe (crc16X25 payload)).getD (payload.length + 2 - 2) 0,
      (payload ++ u16ToLe (crc16X25 payload)).getD (payload.length + 2 - 1) 0] := by
    rw [List.getD_append_right _ _ _ _ (by omega), List.getD_append_right _ _ _ _ (by omega),
      Nat.add_sub_cancel, Nat.sub_self, Nat.add_sub_assoc (by decide), Nat.add_sub_cancel_left]
    rfl
  unfold finish
  rw [if_neg hwhole]
  dsimp only
  rw [hdiv, hlow, hhigh, hbytes, htake]
  change (if payload.length + 2 < d.minLen + 2 then _
    else if payload.length + 2 > d.maxLen + 2 then _ else _) = _
  rw [if_neg (by omega), if_neg (by omega), if_pos hcheck]
  rfl

/-- Flags between frames say nothing. -/
theorem pushBits_flags (hd : d.Fits) (hmin : d.minLen + 2 < 2 ^ 64) (n : ℕ) (rest : List Byte) :
    (d.reading 0 []).pushBits ((List.replicate n (bitsOf flag)).flatten ++ rest) =
    (d.reading 0 []).pushBits rest := by
  induction n with
  | zero => rfl
  | succ n ih =>
    have hroom : ([] : List Byte).length < (d.maxLen + 2) * 8 + 8 := Nat.succ_pos _
    rw [List.replicate_succ, List.flatten_cons, List.append_assoc,
      pushBits_flag hd (Nat.succ_pos 4) hroom,
      finish_nil hmin, Option.bind_some]
    change ((d.reading 0 []).pushBits _).map (fun t => (t.1, [] ++ t.2)) = _
    rw [ih]
    exact Option.map_id'

theorem flags_eq (n : ℕ) : ∃ k, flags n = bitsOf flag ++ (List.replicate k (bitsOf flag)).flatten ∧
    k = max n 1 - 1 := by
  have hpos : max n 1 = max n 1 - 1 + 1 := by omega
  refine ⟨max n 1 - 1, ?_, rfl⟩
  rw [flags, hpos, List.replicate_succ, List.flatten_cons, Nat.add_sub_cancel]

/-- Data and the flags behind it. -/
theorem pushBits_body (hd : d.Fits) {payload : List Byte} (hmin : d.minLen ≤ payload.length)
    (hmax : payload.length ≤ d.maxLen) (postamble : ℕ) (rest : List Byte) :
    (d.reading 0 []).pushBits (stuffFrom 0 (dataBits payload) ++ flags postamble ++ rest) =
      ((d.reading 0 []).pushBits rest).map fun t => (t.1, payload :: t.2) := by
  have hlong : (d.maxLen + 2) * 8 + 8 < 2 ^ 64 := hd
  have hlen : (dataBits payload).length < (d.maxLen + 2) * 8 + 8 := by
    rw [length_dataBits]
    omega
  obtain ⟨k, hk, -⟩ := flags_eq postamble
  rw [hk, List.append_assoc, pushBits_append,
    pushBits_stuff hd (by decide) (fun b hb => isBit_of_mem_dataBits hb) hlen.le, Option.bind_some,
      List.nil_append,
    List.append_assoc, pushBits_flag hd (onesAfter_lt (by decide) _) hlen,
      finish_dataBits hd hmin hmax,
    Option.bind_some, Option.map_map]
  change Option.map _ ((d.reading 0 []).pushBits _) = _
  rw [pushBits_flags hd (by omega)]
  rfl

/-- **A frame comes out**, and leaves the decoder behind a flag. -/
theorem pushBits_frame (hd : d.Fits) {payload : List Byte} (hmin : d.minLen ≤ payload.length)
    (hmax : payload.length ≤ d.maxLen) (preamble postamble : ℕ) (rest : List Byte) :
    (d.reading 0 []).pushBits (frameBits payload preamble postamble ++ rest) =
      ((d.reading 0 []).pushBits rest).map fun t => (t.1, payload :: t.2) := by
  have hlong : (d.maxLen + 2) * 8 + 8 < 2 ^ 64 := hd
  rw [frameBits, flags, List.append_assoc, pushBits_flags hd (by omega)]
  exact pushBits_body hd hmin hmax postamble rest

/-! ## The first flag -/

/-- Outside a frame: the ones counted, and bits that nobody reads. -/
def waiting (d : HdlcDecoder) (ones : ℕ) (bits : List Byte) : HdlcDecoder :=
  { d with ones, inFrame := false, bits }

theorem pushBit_one_waiting (d : HdlcDecoder) (bits : List Byte) (h : ones + 1 < 2 ^ 32) :
    ∃ bits', (d.waiting ones bits).pushBit 1 = some (d.waiting (ones + 1) bits', none) := by
  change ∃ bits', ((d.waiting ones bits).pushOne).map (·, none) = _
  dsimp only [pushOne, waiting]
  rw [if_pos h]
  by_cases hseven : ones + 1 ≥ 7
  · exact ⟨[], by rw [if_pos hseven, Option.map_some]⟩
  · exact ⟨bits, by rw [if_neg hseven, if_neg Bool.false_ne_true, Option.map_some]⟩

/-- The line at rest: ones without end are counted for as long as the count has room. -/
theorem pushBits_ones_waiting (d : HdlcDecoder) (ones : ℕ) (bits : List Byte) (n : ℕ)
    (rest : List Byte) (h : ones + n < 2 ^ 32) :
    ∃ bits', (d.waiting ones bits).pushBits (List.replicate n 1 ++ rest) =
      (d.waiting (ones + n) bits').pushBits rest := by
  induction n generalizing ones bits with
  | zero => exact ⟨bits, rfl⟩
  | succ n ih =>
    obtain ⟨bits₁, hone⟩ := pushBit_one_waiting d bits (show ones + 1 < 2 ^ 32 by omega)
    obtain ⟨bits₂, hrest⟩ := ih (ones + 1) bits₁ (by omega)
    refine ⟨bits₂, ?_⟩
    rw [List.replicate_succ, List.cons_append, pushBits_cons_of_silent hone, hrest, Nat.add_assoc,
      Nat.add_comm 1 n]

theorem pushBits_ones_eq_none (n : ℕ) (rest : List Byte) (h : 2 ^ 32 ≤ ones + n) (hn : 0 < n) :
    (d.waiting ones bits).pushBits (List.replicate n 1 ++ rest) = none := by
  induction n generalizing ones bits with
  | zero => exact absurd hn (lt_irrefl 0)
  | succ n ih =>
    rw [List.replicate_succ, List.cons_append]
    by_cases hroom : ones + 1 < 2 ^ 32
    · obtain ⟨bits₁, hone⟩ := pushBit_one_waiting d bits hroom
      rw [pushBits_cons_of_silent hone]
      exact ih (by omega) (by omega)
    · have hfull : (d.waiting ones bits).pushBit 1 = none := by
        change ((d.waiting ones bits).pushOne).map (·, none) = _
        dsimp only [pushOne, waiting]
        rw [if_neg hroom, Option.map_none]
      rw [pushBits_cons, hfull, Option.bind_none]

/-- A zero outside a frame, unless it ends a flag. -/
theorem pushBit_zero_waiting (h : ones ≠ 6) :
    (d.waiting ones bits).pushBit 0 = some (d.waiting 0 bits, none) := by
  change (d.waiting ones bits).pushZero = _
  dsimp only [pushZero, waiting]
  rw [if_neg h, if_neg Bool.false_ne_true, ite_self]

/-- **Any flag begins a frame**, whatever the count of ones was. -/
theorem pushBits_flag_waiting (rest : List Byte) :
    (d.waiting ones bits).pushBits (bitsOf flag ++ rest) = (d.reading 0 []).pushBits rest := by
  rw [bitsOf_flag]
  change (d.waiting ones bits).pushBits (0 :: (List.replicate 6 1 ++ 0 :: rest)) = _
  by_cases hsix : ones = 6
  · -- that zero ends a flag by itself, and the next flag has no zero of its own
    have hzero : (d.waiting ones bits).pushBit 0 = some (d.reading 0 [], none) := by
      rw [hsix]
      rfl
    have hend : (d.reading 6 [1, 1, 1, 1, 1, 1]).pushBit 0 = some (d.reading 0 [], none) := rfl
    rw [pushBits_cons_of_silent hzero, pushBits_ones 6 [] _ (by decide)]
    exact pushBits_cons_of_silent hend
  · obtain ⟨bits', hones⟩ := pushBits_ones_waiting d 0 bits 6 (0 :: rest) (by decide)
    have hend : (d.waiting (0 + 6) bits').pushBit 0 = some (d.reading 0 [], none) := rfl
    rw [pushBits_cons_of_silent (pushBit_zero_waiting hsix), hones]
    exact pushBits_cons_of_silent hend

/-- A flag whose first zero came out as a one: only idling. -/
theorem pushBits_spoilt_flag (d : HdlcDecoder) (bits : List Byte) (h : ones + 7 < 2 ^ 32)
    (rest : List Byte) :
    ∃ bits', (d.waiting ones bits).pushBits (1 :: ((bitsOf flag).tail ++ rest)) =
      (d.waiting 0 bits').pushBits rest := by
  rw [bitsOf_flag]
  change ∃ bits', (d.waiting ones bits).pushBits (List.replicate 7 1 ++ 0 :: rest) = _
  obtain ⟨bits', hones⟩ := pushBits_ones_waiting d ones bits 7 (0 :: rest) h
  exact ⟨bits', by rw [hones, pushBits_cons_of_silent (pushBit_zero_waiting (by omega))]⟩

end HdlcDecoder

end EvansComputer.Dsp
