import EvansComputer.Dsp.HdlcRuns

/-!
# Frames over the line

Frames one after another, through NRZI and a decoder, in calls of any lengths.  NRZI keeps the
bits when sender and receiver begin at the same level; otherwise it spoils the first bit and no
other, and the receiver idles through the first flag.

Whatever the lengths of the calls, the decoder sees the same bits.
-/

namespace EvansComputer.Dsp

/-! ## NRZI undoes itself -/

namespace Nrzi

variable {tx rx : Nrzi} {b : Byte} {bits : List Byte}

theorem ext_level {a b : Nrzi} (h : a.level = b.level) : a = b := by
  cases a
  cases b
  cases h
  rfl

/-- The decoder takes the level of the line. -/
theorem decode_level (rx : Nrzi) : (rx.decode (tx.encode b).2).1 = (tx.encode b).1 := by
  refine ext_level ?_
  change (tx.encode b).1.level &&& 1 = (tx.encode b).1.level
  rcases (tx.encode b).1.isLevel with h | h <;> rw [h] <;> decide

theorem decode_encode (h : rx.level = tx.level) (hb : IsBit b) :
    (rx.decode (tx.encode b).2).2 = b := by
  change (if (if b &&& 1 = 0 then tx.level ^^^ 1 else tx.level) &&& 1 =
    rx.level then (1 : Byte) else 0) = b
  rw [h]
  rcases hb with rfl | rfl <;> rcases tx.isLevel with hl | hl <;> rw [hl] <;> decide

theorem decode_encode_of_ne (h : rx.level ≠ tx.level) (hb : IsBit b) :
    (rx.decode (tx.encode b).2).2 = b ^^^ 1 := by
  change (if (if b &&& 1 = 0 then tx.level ^^^ 1 else tx.level) &&& 1 = rx.level then (1 : Byte)
    else 0) = b ^^^ 1
  rcases hb with rfl | rfl <;> rcases tx.isLevel with hl | hl <;> rcases rx.isLevel with hr | hr <;>
    rw [hl, hr] at h ⊢ <;> first | exact absurd rfl h | decide

theorem decodeBlock_encodeBlock (h : rx.level = tx.level) (hbits : ∀ b ∈ bits, IsBit b) :
    (rx.decodeBlock (tx.encodeBlock bits).2).2 = bits := by
  induction bits generalizing rx tx with
  | nil => rfl
  | cons b bits ih =>
    change (rx.decode (tx.encode b).2).2 ::
      ((rx.decode (tx.encode b).2).1.decodeBlock ((tx.encode b).1.encodeBlock bits).2).2 = b :: bits
    rw [decode_encode h (hbits b List.mem_cons_self), decode_level,
      ih rfl fun x hx => hbits x (List.mem_cons_of_mem _ hx)]

/-- **Different levels spoil one bit.** -/
theorem decodeBlock_encodeBlock_of_ne (h : rx.level ≠ tx.level) (hb : IsBit b)
    (hbits : ∀ b ∈ bits, IsBit b) :
    (rx.decodeBlock (tx.encodeBlock (b :: bits)).2).2 = (b ^^^ 1) :: bits := by
  change (rx.decode (tx.encode b).2).2 ::
    ((rx.decode (tx.encode b).2).1.decodeBlock ((tx.encode b).1.encodeBlock bits).2).2 = _
  rw [decode_encode_of_ne h hb, decode_level, decodeBlock_encodeBlock rfl hbits]

/-- `encode_block`, call after call. -/
def encodeBlocks (n : Nrzi) : List (List Byte) → Nrzi × List Byte
  | [] => (n, [])
  | bits :: calls => ((n.encodeBlock bits).1.encodeBlocks calls).map id
    ((n.encodeBlock bits).2 ++ ·)

/-- `decode_block`, call after call. -/
def decodeBlocks (n : Nrzi) : List (List Byte) → Nrzi × List Byte
  | [] => (n, [])
  | levels :: calls => ((n.decodeBlock levels).1.decodeBlocks calls).map id
    ((n.decodeBlock levels).2 ++ ·)

theorem encodeBlock_append (n : Nrzi) (a b : List Byte) :
    n.encodeBlock (a ++ b) = ((n.encodeBlock a).1.encodeBlock b).map id
      ((n.encodeBlock a).2 ++ ·) := by
  induction a generalizing n with
  | nil => rfl
  | cons x a ih =>
    change (((n.encode x).1.encodeBlock (a ++ b)).1,
      (n.encode x).2 :: ((n.encode x).1.encodeBlock (a ++ b)).2) = _
    rw [ih]
    rfl

theorem decodeBlock_append (n : Nrzi) (a b : List Byte) :
    n.decodeBlock (a ++ b) = ((n.decodeBlock a).1.decodeBlock b).map id
      ((n.decodeBlock a).2 ++ ·) := by
  induction a generalizing n with
  | nil => rfl
  | cons x a ih =>
    change (((n.decode x).1.decodeBlock (a ++ b)).1,
      (n.decode x).2 :: ((n.decode x).1.decodeBlock (a ++ b)).2) = _
    rw [ih]
    rfl

theorem encodeBlocks_eq (n : Nrzi) (calls : List (List Byte)) :
    n.encodeBlocks calls = n.encodeBlock calls.flatten := by
  induction calls generalizing n with
  | nil => rfl
  | cons bits calls ih => rw [encodeBlocks, ih, List.flatten_cons, encodeBlock_append]

theorem decodeBlocks_eq (n : Nrzi) (calls : List (List Byte)) :
    n.decodeBlocks calls = n.decodeBlock calls.flatten := by
  induction calls generalizing n with
  | nil => rfl
  | cons levels calls ih => rw [decodeBlocks, ih, List.flatten_cons, decodeBlock_append]

end Nrzi

namespace HdlcDecoder

/-- `push_bits`, call after call. -/
def pushCalls (d : HdlcDecoder) : List (List Byte) → Option (HdlcDecoder × List (List Byte))
  | [] => some (d, [])
  | bits :: calls => do
    let (d, frames) ← d.pushBits bits
    let (d, more) ← d.pushCalls calls
    return (d, frames ++ more)

theorem pushCalls_eq (d : HdlcDecoder) (calls : List (List Byte)) :
    d.pushCalls calls = d.pushBits calls.flatten := by
  induction calls generalizing d with
  | nil => rfl
  | cons bits calls ih =>
    rw [List.flatten_cons, pushBits_append]
    change ((d.pushBits bits).bind fun s => (s.1.pushCalls calls).bind fun t =>
      some (t.1, s.2 ++ t.2)) = _
    congr 1
    funext s
    rw [ih]
    cases s.1.pushBits calls.flatten <;> rfl

end HdlcDecoder

/-! ## Frames after one another -/

/-- What `encode_frame` is asked for. -/
structure Framing where
  payload : List Byte
  preamble : ℕ
  postamble : ℕ

namespace Framing

/-- There is room for the bits. -/
def HasRoom (f : Framing) : Prop :=
  (f.payload.length + 2) * 10 + (f.preamble + f.postamble) * 8 < 2 ^ 63

def bits (f : Framing) : List Byte := frameBits f.payload f.preamble f.postamble

end Framing

/-- The frames of some payloads, one behind the other. -/
def encodeFrames : List Framing → Option (List Byte)
  | [] => some []
  | f :: fs => do
    let bits ← encodeFrame f.payload f.preamble f.postamble
    let rest ← encodeFrames fs
    return bits ++ rest

theorem encodeFrames_of_hasRoom {fs : List Framing} (h : ∀ f ∈ fs, f.HasRoom) :
    encodeFrames fs = some (fs.flatMap Framing.bits) := by
  induction fs with
  | nil => rfl
  | cons f fs ih =>
    have hroom : capacity f.payload f.preamble f.postamble = some _ :=
      if_pos (h f List.mem_cons_self)
    rw [encodeFrames, encodeFrame_eq, hroom, ih fun g hg => h g (List.mem_cons_of_mem _ hg)]
    rfl

theorem hasRoom_of_encodeFrames {fs : List Framing} {bits : List Byte}
    (h : encodeFrames fs = some bits) :
    ∀ f ∈ fs, f.HasRoom := by
  induction fs generalizing bits with
  | nil => exact List.forall_mem_nil _
  | cons f fs ih =>
    obtain ⟨fbits, hf, h⟩ := Option.bind_eq_some_iff.mp h
    obtain ⟨rest, hrest, -⟩ := Option.bind_eq_some_iff.mp h
    refine List.forall_mem_cons.mpr ⟨?_, ih hrest⟩
    by_contra hfull
    have hnone : capacity f.payload f.preamble f.postamble = none := if_neg hfull
    rw [encodeFrame_eq, hnone] at hf
    cases hf

/-! ## From flag to flag -/

/-- A payload that the decoder accepts. -/
def HdlcDecoder.Accepts (d : HdlcDecoder) (f : Framing) : Prop :=
  d.minLen ≤ f.payload.length ∧ f.payload.length ≤ d.maxLen

namespace Framing

/-- A frame from its last `k` flags of the preamble on. -/
def behind (f : Framing) (k : ℕ) : List Byte :=
  (List.replicate k (bitsOf flag)).flatten ++
    (stuffFrom 0 (dataBits f.payload) ++ flags f.postamble)

theorem behind_succ (f : Framing) (k : ℕ) : f.behind (k + 1) = bitsOf flag ++ f.behind k := by
  rw [behind, List.replicate_succ, List.flatten_cons, List.append_assoc]
  rfl

theorem bits_eq (f : Framing) : f.bits = bitsOf flag ++ f.behind (max f.preamble 1 - 1) := by
  have hpos : max f.preamble 1 - 1 + 1 = max f.preamble 1 := by omega
  rw [← behind_succ, hpos]
  rfl

theorem isBit_of_mem_stuffFrom {out : List Byte} (hout : ∀ b ∈ out, IsBit b) (ones : ℕ) :
    ∀ b ∈ stuffFrom ones out, IsBit b := by
  induction out generalizing ones with
  | nil => exact List.forall_mem_nil _
  | cons b out ih =>
    have hrest := ih fun x hx => hout x (List.mem_cons_of_mem _ hx)
    rw [stuffFrom]
    split_ifs
    · exact List.forall_mem_cons.mpr ⟨.inr rfl, List.forall_mem_cons.mpr ⟨.inl rfl, hrest 0⟩⟩
    · exact List.forall_mem_cons.mpr ⟨.inr rfl, hrest _⟩
    · exact List.forall_mem_cons.mpr ⟨hout b List.mem_cons_self, hrest 0⟩

theorem isBit_of_mem_flags {n : ℕ} {b : Byte} (h : b ∈ (List.replicate n (bitsOf flag)).flatten) :
    IsBit b := by
  obtain ⟨l, hl, hb⟩ := List.mem_flatten.mp h
  exact isBit_of_mem_bitsOf (List.eq_of_mem_replicate hl ▸ hb)

theorem isBit_of_mem_bits {f : Framing} {b : Byte} (h : b ∈ f.bits) : IsBit b := by
  rcases List.mem_append.mp h with h | h
  · exact isBit_of_mem_flags h
  · rcases List.mem_append.mp h with h | h
    · exact isBit_of_mem_stuffFrom (fun x hx => isBit_of_mem_dataBits hx) 0 b h
    · exact isBit_of_mem_flags h

end Framing

namespace HdlcDecoder

variable {d : HdlcDecoder} {fs : List Framing} {f : Framing}

/-- **Frame after frame**: each leaves the decoder behind a flag. -/
theorem pushBits_frames (hd : d.Fits) (hfs : ∀ f ∈ fs, d.Accepts f) :
    (d.reading 0 []).pushBits (fs.flatMap Framing.bits) =
      some (d.reading 0 [], fs.map Framing.payload) := by
  induction fs with
  | nil => rfl
  | cons f fs ih =>
    obtain ⟨hmin, hmax⟩ := hfs f List.mem_cons_self
    rw [List.flatMap_cons, Framing.bits, pushBits_frame hd hmin hmax,
      ih fun g hg => hfs g (List.mem_cons_of_mem _ hg)]
    rfl

theorem pushBits_behind (hd : d.Fits) (hfs : ∀ g ∈ f :: fs, d.Accepts g) (k : ℕ) :
    (d.reading 0 []).pushBits (f.behind k ++ fs.flatMap Framing.bits) =
      some (d.reading 0 [], (f :: fs).map Framing.payload) := by
  obtain ⟨hmin, hmax⟩ := hfs f List.mem_cons_self
  have hlong : (d.maxLen + 2) * 8 + 8 < 2 ^ 64 := hd
  rw [Framing.behind, List.append_assoc, pushBits_flags hd (by omega), pushBits_body hd hmin hmax,
    pushBits_frames hd fun g hg => hfs g (List.mem_cons_of_mem _ hg)]
  rfl

theorem pushBits_behind_eq_none (hd : ¬ d.Fits) (k : ℕ) (rest : List Byte) :
    (d.reading 0 []).pushBits (f.behind k ++ rest) = none := by
  cases k with
  | zero =>
    obtain ⟨n, hn, -⟩ := flags_eq f.postamble
    have hzero : f.behind 0 ++ rest =
        stuffFrom 0 (dataBits f.payload) ++ 0 ::
          ((bitsOf flag).tail ++ ((List.replicate n (bitsOf flag)).flatten ++ rest)) := by
      rw [Framing.behind, hn, List.append_assoc, List.append_assoc, List.append_assoc]
      rfl
    rw [hzero]
    exact pushBits_stuff_eq_none hd (by decide) (fun b hb => isBit_of_mem_dataBits hb) _
  | succ k =>
    rw [Framing.behind_succ, List.append_assoc]
    exact @pushBits_stuff_eq_none d 0 [] [] hd (by decide) (List.forall_mem_nil _) _

end HdlcDecoder

/-! ## Over the line -/

/-- Every payload comes out, in order, and nothing else, however the calls are cut: the bits
between calls to the encoder of the line, the levels between calls to its decoder, and the
decoded bits between calls to the deframer. -/
def ComeThrough (fs : List Framing) (tx rx : Nrzi) (d : HdlcDecoder) : Prop :=
  ∃ bits, encodeFrames fs = some bits ∧
    ∀ sent : List (List Byte), sent.flatten = bits →
      ∀ received : List (List Byte), received.flatten = (tx.encodeBlocks sent).2 →
        ∀ pushed : List (List Byte), pushed.flatten = (rx.decodeBlocks received).2 →
          ∃ d', d.pushCalls pushed = some (d', fs.map Framing.payload) ∧ d'.badFcs = d.badFcs

section

variable {fs : List Framing} {f : Framing} {tx rx : Nrzi} {d : HdlcDecoder}

/-- The bits as they come out of the decoder of the line. -/
def arrived (fs : List Framing) (tx rx : Nrzi) : List Byte :=
  (rx.decodeBlock (tx.encodeBlock (fs.flatMap Framing.bits)).2).2

theorem comeThrough_iff : ComeThrough fs tx rx d ↔ (∀ f ∈ fs, f.HasRoom) ∧
    ∃ d', d.pushBits (arrived fs tx rx) = some (d', fs.map Framing.payload) ∧
      d'.badFcs = d.badFcs := by
  constructor
  · rintro ⟨bits, hbits, hall⟩
    have hroom := hasRoom_of_encodeFrames hbits
    rw [encodeFrames_of_hasRoom hroom] at hbits
    cases hbits
    -- one call each
    have hone :=
      hall [_] List.flatten_singleton [_] List.flatten_singleton [_] List.flatten_singleton
    rw [HdlcDecoder.pushCalls_eq, List.flatten_singleton, Nrzi.decodeBlocks_eq,
      List.flatten_singleton,
      Nrzi.encodeBlocks_eq, List.flatten_singleton] at hone
    exact ⟨hroom, hone⟩
  · rintro ⟨hroom, hone⟩
    refine ⟨_, encodeFrames_of_hasRoom hroom,
      fun sent hsent received hreceived pushed hpushed => ?_⟩
    rw [HdlcDecoder.pushCalls_eq, hpushed, Nrzi.decodeBlocks_eq, hreceived,
      Nrzi.encodeBlocks_eq, hsent]
    exact hone

theorem isBit_of_mem_frames {b : Byte} (h : b ∈ fs.flatMap Framing.bits) : IsBit b := by
  obtain ⟨f, -, hf⟩ := List.mem_flatMap.mp h
  exact Framing.isBit_of_mem_bits hf

theorem arrived_of_eq (h : rx.level = tx.level) : arrived fs tx rx = fs.flatMap Framing.bits :=
  Nrzi.decodeBlock_encodeBlock h fun _ hb => isBit_of_mem_frames hb

/-- At different levels the first zero of the first flag comes out as a one. -/
theorem arrived_of_ne (fs : List Framing) (h : rx.level ≠ tx.level) (hpre : 2 ≤ f.preamble) :
    ∃ k, arrived (f :: fs) tx rx =
      1 :: ((bitsOf flag).tail ++ (bitsOf flag ++ (f.behind k ++ fs.flatMap Framing.bits))) := by
  have htwo : max f.preamble 1 - 1 = f.preamble - 2 + 1 := by omega
  have hbits : (f :: fs).flatMap Framing.bits = 0 :: ((bitsOf flag).tail ++
      (bitsOf flag ++ (f.behind (f.preamble - 2) ++ fs.flatMap Framing.bits))) := by
    rw [List.flatMap_cons, Framing.bits_eq, htwo, Framing.behind_succ, List.append_assoc,
      List.append_assoc]
    rfl
  refine ⟨f.preamble - 2, ?_⟩
  rw [arrived, hbits, Nrzi.decodeBlock_encodeBlock_of_ne h (.inl rfl)]
  · rfl
  · refine fun b hb => @isBit_of_mem_frames (f :: fs) _ ?_
    rw [hbits]
    exact List.mem_cons_of_mem _ hb

theorem waiting_of_not_inFrame (h : d.inFrame = false) : d = d.waiting d.ones d.bits := by
  rw [HdlcDecoder.waiting, ← h]

/-- Where the sums fit, the frames come out. -/
theorem pushBits_arrived (hin : d.inFrame = false) (hfs : ∀ g ∈ f :: fs, d.Accepts g) (hd : d.Fits)
    (hpre : tx.level ≠ rx.level → 2 ≤ f.preamble)
    (hones : tx.level ≠ rx.level → d.ones + 7 < 2 ^ 32) :
    d.pushBits (arrived (f :: fs) tx rx) =
      some (d.reading 0 [], (f :: fs).map Framing.payload) := by
  rw [waiting_of_not_inFrame hin]
  by_cases hlevel : tx.level = rx.level
  · rw [arrived_of_eq hlevel.symm, List.flatMap_cons, Framing.bits_eq, List.append_assoc,
      HdlcDecoder.pushBits_flag_waiting]
    exact HdlcDecoder.pushBits_behind hd hfs _
  · obtain ⟨k, hk⟩ := arrived_of_ne fs (fun h => hlevel h.symm) (hpre hlevel)
    obtain ⟨bits', hspoilt⟩ := HdlcDecoder.pushBits_spoilt_flag d d.bits (hones hlevel)
      (bitsOf flag ++ (f.behind k ++ fs.flatMap Framing.bits))
    rw [hk, hspoilt, HdlcDecoder.pushBits_flag_waiting]
    exact HdlcDecoder.pushBits_behind hd hfs k

/-- Where the sum with the longest length does not fit, the decoder fails. -/
theorem pushBits_arrived_eq_none (hin : d.inFrame = false) (hd : ¬ d.Fits)
    (hpre : tx.level ≠ rx.level → 2 ≤ f.preamble) :
    d.pushBits (arrived (f :: fs) tx rx) = none := by
  rw [waiting_of_not_inFrame hin]
  by_cases hlevel : tx.level = rx.level
  · rw [arrived_of_eq hlevel.symm, List.flatMap_cons, Framing.bits_eq, List.append_assoc,
      HdlcDecoder.pushBits_flag_waiting]
    exact HdlcDecoder.pushBits_behind_eq_none hd _ _
  · obtain ⟨k, hk⟩ := arrived_of_ne fs (fun h => hlevel h.symm) (hpre hlevel)
    rw [hk]
    by_cases hones : d.ones + 7 < 2 ^ 32
    · obtain ⟨bits', hspoilt⟩ := HdlcDecoder.pushBits_spoilt_flag d d.bits hones
        (bitsOf flag ++ (f.behind k ++ fs.flatMap Framing.bits))
      rw [hspoilt, HdlcDecoder.pushBits_flag_waiting]
      exact HdlcDecoder.pushBits_behind_eq_none hd _ _
    · exact HdlcDecoder.pushBits_ones_eq_none 7 _ (by omega) (by decide)

/-- Where the count of ones has no room for the spoilt flag, the decoder fails. -/
theorem pushBits_arrived_of_full (hin : d.inFrame = false) (hlevel : tx.level ≠ rx.level)
    (hpre : 2 ≤ f.preamble) (hones : ¬ d.ones + 7 < 2 ^ 32) :
    d.pushBits (arrived (f :: fs) tx rx) = none := by
  obtain ⟨k, hk⟩ := arrived_of_ne fs hlevel.symm hpre
  rw [waiting_of_not_inFrame hin, hk]
  exact HdlcDecoder.pushBits_ones_eq_none 7 _ (by omega) (by decide)

end

/-- **Framing over NRZI loses nothing**, exactly where the sums fit: the room that the encoder
asks for, and, if there is a frame, the decoder's longest length in bits and, at different
levels, the count of ones with those of the spoilt flag. -/
theorem hdlc_lossless (fs : List Framing) (tx rx : Nrzi) (d : HdlcDecoder) (hin : d.inFrame = false)
    (hfs : ∀ f ∈ fs, d.minLen ≤ f.payload.length ∧ f.payload.length ≤ d.maxLen)
    (hpre : tx.level ≠ rx.level → ∀ f ∈ fs.head?, 2 ≤ f.preamble) :
    ComeThrough fs tx rx d ↔ (∀ f ∈ fs, f.HasRoom) ∧
      (fs = [] ∨ d.Fits ∧ (tx.level ≠ rx.level → d.ones + 7 < 2 ^ 32)) := by
  rw [comeThrough_iff]
  refine and_congr_right fun _ => ?_
  cases fs with
  | nil => exact ⟨fun _ => .inl rfl, fun _ => ⟨d, rfl, rfl⟩⟩
  | cons f fs =>
    have hpre' : tx.level ≠ rx.level → 2 ≤ f.preamble := fun h => hpre h f rfl
    constructor
    · rintro ⟨d', hsome, -⟩
      right
      by_contra hnot
      by_cases hd : d.Fits
      · obtain ⟨hlevel, hones⟩ := Classical.not_imp.mp fun h => hnot ⟨hd, h⟩
        rw [pushBits_arrived_of_full hin hlevel (hpre' hlevel) hones] at hsome
        cases hsome
      · rw [pushBits_arrived_eq_none hin hd hpre'] at hsome
        cases hsome
    · rintro (hnil | ⟨hd, hones⟩)
      · cases hnil
      · exact ⟨_, pushBits_arrived hin hfs hd hpre' hones, rfl⟩

theorem hdlc_lossless_new :
    ComeThrough [⟨[0xFF, 0x7E], 2, 1⟩, ⟨[0x00], 0, 0⟩] Nrzi.new ⟨1, .inr rfl⟩ (.new 1 4096) := by
  refine (hdlc_lossless _ _ _ _ rfl ?_ ?_).mpr ⟨?_, .inr ⟨?_, ?_⟩⟩
  · decide
  · decide
  · simp only [Framing.HasRoom]
    decide
  · unfold HdlcDecoder.Fits
    decide
  · decide

/-- A decoder for payloads of any length takes none. -/
theorem not_any_length : ¬ ∀ (fs : List Framing) (tx rx : Nrzi) (d : HdlcDecoder),
    d.inFrame = false →
    (∀ f ∈ fs, d.minLen ≤ f.payload.length ∧ f.payload.length ≤ d.maxLen) →
    (tx.level ≠ rx.level → ∀ f ∈ fs.head?, 2 ≤ f.preamble) → ComeThrough fs tx rx d := by
  intro h
  have hall :=
    h [⟨[0x41], 2, 1⟩] Nrzi.new Nrzi.new (.new 0 (2 ^ 64 - 1)) rfl (by decide) (by decide)
  obtain ⟨-, d', hsome, -⟩ := comeThrough_iff.mp hall
  have hnot : ¬ (HdlcDecoder.new 0 (2 ^ 64 - 1)).Fits := by
    unfold HdlcDecoder.Fits
    decide
  rw [pushBits_arrived_eq_none rfl hnot fun _ => le_rfl] at hsome
  cases hsome

/-! ## Behind an abort -/

/-- Seven ones end a frame. -/
theorem HdlcDecoder.pushBits_abort {d : HdlcDecoder} (n : ℕ) (rest : List Byte)
    (hones : d.ones + n < 2 ^ 32) (hn : d.inFrame = true → 7 ≤ d.ones + n ∧ 0 < n) :
    ∃ bits, d.pushBits (List.replicate n 1 ++ rest) =
      (d.waiting (d.ones + n) bits).pushBits rest := by
  induction n generalizing d with
  | zero =>
    exact ⟨d.bits, congrArg (pushBits · rest)
      (waiting_of_not_inFrame (Bool.eq_false_iff.mpr fun h => absurd (hn h).2 (lt_irrefl 0)))⟩
  | succ n ih =>
    obtain ⟨d', hpush, hcount, hsame, hin⟩ :
      ∃ d', d.pushBit 1 = some (d', none) ∧ d'.ones = d.ones + 1 ∧
        d'.waiting = d.waiting ∧ (d'.inFrame = true → d.inFrame = true ∧ d.ones + 1 < 7) := by
      change ∃ d', d.pushOne.map (·, none) = _ ∧ _
      rw [pushOne, if_pos (by omega)]
      dsimp only
      split_ifs with hseven hframe
      · exact ⟨_, rfl, rfl, rfl, fun h => absurd h Bool.false_ne_true⟩
      · exact ⟨_, rfl, rfl, rfl, fun _ => ⟨hframe, by omega⟩⟩
      · exact ⟨_, rfl, rfl, rfl, fun h => absurd h hframe⟩
    obtain ⟨bits, hrest⟩ := ih (d := d') (by omega) fun h => by
      have hlast := hn (hin h).1
      have hfew := (hin h).2
      omega
    refine ⟨bits, ?_⟩
    rw [List.replicate_succ, List.cons_append, pushBits_cons_of_silent hpush, hrest, hsame, hcount,
      Nat.add_assoc,
      Nat.add_comm 1 n]

/-- **Whatever a decoder was reading, what stands behind an abort comes out**, and nothing else. -/
theorem frames_behind_abort (d : HdlcDecoder) (n : ℕ) (fs : List Framing) (hd : d.Fits) (hn : 7 ≤ n)
    (hones : d.ones + n < 2 ^ 32) (hfs : ∀ f ∈ fs, d.Accepts f) :
    ∃ d', d.pushBits (List.replicate n 1 ++ fs.flatMap Framing.bits) =
      some (d', fs.map Framing.payload) ∧
      d'.badFcs = d.badFcs := by
  obtain ⟨bits, habort⟩ := d.pushBits_abort n (fs.flatMap Framing.bits) hones fun _ => by omega
  rw [habort]
  cases fs with
  | nil => exact ⟨_, rfl, rfl⟩
  | cons f fs =>
    rw [List.flatMap_cons, Framing.bits_eq, List.append_assoc, HdlcDecoder.pushBits_flag_waiting]
    exact ⟨_, HdlcDecoder.pushBits_behind hd hfs _, rfl⟩

theorem frames_behind_abort_two :
    ∃ d', ({ HdlcDecoder.new 1 4 with inFrame := true, bits := [0] } : HdlcDecoder).pushBits
      (List.replicate 7 1 ++ [⟨[9], 1, 1⟩, ⟨[126, 255], 1, 2⟩].flatMap Framing.bits) =
        some (d', [[9], [126, 255]]) ∧ d'.badFcs = 0 :=
  frames_behind_abort _ 7 [⟨[9], 1, 1⟩, ⟨[126, 255], 1, 2⟩]
    (by unfold HdlcDecoder.Fits; decide) (by decide)
    (by decide) (by unfold HdlcDecoder.Accepts; decide)

end EvansComputer.Dsp
