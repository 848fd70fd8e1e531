import EvansComputer.Net.Checksum
import EvansComputer.Router.Nat

/-!
# What rewriting leaves of a packet

`rewrite` writes an endpoint into a packet and computes its two checksums again.
On a segment that the translator has accepted it cannot fail, the checksums verify,
and nothing else in the packet has changed.
-/

namespace EvansComputer.Router

variable {seg p p' : List Byte} {protocol : Byte} {s d ip : Ipv4Addr} {h : Ipv4Header}
  {source : Bool} {port : UInt16}

/-! ## The port of a segment -/

theorem getElem?_eq_getD {l : List Byte} {k : ℕ} (hk : k < l.length) :
    l[k]? = some (l.getD k 0) := by
  rw [List.getD_eq_getElem?_getD, List.getElem?_eq_getElem hk, Option.getD_some]

/-- A segment of a protocol that the translator knows, long enough for the
header of that protocol. -/
def IsTransport (protocol : Byte) (seg : List Byte) : Prop :=
  protocol = 6 ∧ 20 ≤ seg.length ∨ protocol = 17 ∧ 8 ≤ seg.length ∨ protocol = 1 ∧ 8 ≤ seg.length

/-- The port and the checksum of a segment lie in it, and apart. -/
theorem positions_of_isTransport (source : Bool) (ht : IsTransport protocol seg) :
    ∃ ck, checksumPos protocol = some ck ∧ portPos protocol source + 2 ≤ seg.length ∧
      ck + 2 ≤ seg.length ∧
        (ck + 2 ≤ portPos protocol source ∨ portPos protocol source + 2 ≤ ck) := by
  rcases ht with ⟨rfl, hl⟩ | ⟨rfl, hl⟩ | ⟨rfl, hl⟩ <;> cases source
  all_goals
    refine ⟨_, rfl, ?_⟩
    simp only [portPos, reduceIte, reduceCtorEq, show ¬ (6 : Byte) = 1 by decide,
      show ¬ (17 : Byte) = 1 by decide]
    omega

/-! ## Checksums of a segment -/

/-- The sum under the checksum of a segment, without any carry. -/
def segmentWeight (protocol : Byte) (s d : Ipv4Addr) (seg : List Byte) : ℕ :=
  if protocol = 1 then weight true seg else pseudoWeight s d protocol seg

theorem cast_segmentChecksum (seg : List Byte) (protocol : Byte) (s d : Ipv4Addr) :
    ((segmentChecksum seg protocol s d).toNat : ZMod 65535) =
      -((segmentWeight protocol s d seg : ℕ) : ZMod 65535) := by
  have hsum : (((if protocol = 1 then internetChecksum seg
      else pseudoHeaderChecksum s d protocol seg).toNat : ℕ) : ZMod 65535) =
        -((segmentWeight protocol s d seg : ℕ) : ZMod 65535) := by
    unfold segmentWeight
    split_ifs
    · exact cast_internetChecksum seg
    · exact cast_pseudoHeaderChecksum s d protocol seg
  unfold segmentChecksum
  generalize (if protocol = 1 then internetChecksum seg
    else pseudoHeaderChecksum s d protocol seg) = sum at hsum ⊢
  dsimp only
  split_ifs with hzero
  · rw [hzero.1] at hsum
    rw [← hsum]
    rfl
  · exact hsum

theorem segmentChecksum_ne_zero (h17 : protocol = 17) : segmentChecksum seg protocol s d ≠ 0 := by
  unfold segmentChecksum
  dsimp only
  by_cases hsum : (if protocol = 1 then internetChecksum seg
      else pseudoHeaderChecksum s d protocol seg) = 0
  · rw [if_pos ⟨hsum, h17⟩]
    decide
  · rwa [if_neg (fun h => hsum h.1)]

/-- Outside UDP, the largest word is the checksum of an ICMP message of zeros
alone. -/
theorem segmentChecksum_eq_max (h0 : protocol ≠ 0) (h17 : protocol ≠ 17)
    (h : (segmentChecksum seg protocol s d).toNat = 65535) :
    protocol = 1 ∧ weight true seg = 0 := by
  unfold segmentChecksum at h
  rw [if_neg (fun hz => h17 hz.2)] at h
  split_ifs at h with h1
  · exact ⟨h1, (internetChecksum_eq_max_iff seg).mp h⟩
  · exact absurd h (pseudoHeaderChecksum_ne_max s d seg h0)

/-! ## Words that change -/

/-- Two segments that differ in two words differ in weight by these words. -/
theorem weight_of_words {l l' : List Byte} {i j : ℕ} (hlen : l'.length = l.length)
    (hi : i % 2 = 0) (hj : j % 2 = 0) (hil : i + 2 ≤ l.length) (hjl : j + 2 ≤ l.length)
    (hij : i + 2 ≤ j ∨ j + 2 ≤ i)
    (hsame : ∀ k, ¬ (i ≤ k ∧ k < i + 2) → ¬ (j ≤ k ∧ k < j + 2) → l'[k]? = l[k]?) :
    weight true l' + (wordAt l i).toNat + (wordAt l j).toNat =
      weight true l + (wordAt l' i).toNat + (wordAt l' j).toNat := by
  have hlen₁ := length_overwrite (l := l) (d := u16ToBe (wordAt l' i)) (i := i) hil
  have hjl₁ : j + 2 ≤ (overwrite l i (u16ToBe (wordAt l' i))).length := by omega
  have heq : l' = overwrite (overwrite l i (u16ToBe (wordAt l' i))) j (u16ToBe (wordAt l' j)) := by
    have hbyte (p k : ℕ) (hp : p + 2 ≤ l'.length) (hk : p ≤ k ∧ k < p + 2) :
        (u16ToBe (wordAt l' p))[k - p]? = l'[k]? := by
      obtain rfl | rfl : k = p ∨ k = p + 1 := by omega
      · rw [Nat.sub_self, wordAt, u16ToBe_u16FromBe, List.getD_eq_getElem?_getD,
          List.getElem?_eq_getElem (by omega : k < l'.length)]
        rfl
      · rw [Nat.add_sub_cancel_left, wordAt, u16ToBe_u16FromBe, List.getD_eq_getElem?_getD,
          List.getD_eq_getElem?_getD, List.getElem?_eq_getElem (by omega : p + 1 < l'.length)]
        rfl
    refine List.ext_getElem? fun k => ?_
    rw [getElem?_overwrite hjl₁, getElem?_overwrite hil, length_u16ToBe, length_u16ToBe]
    split_ifs with h1 h2
    · rw [hbyte j k (by omega) h1]
    · rw [hbyte i k (by omega) h2]
    · exact hsame k h2 h1
  have hw₁ := weight_setWord hi hil (wordAt l' i)
  have hw₂ := weight_setWord hj hjl₁ (wordAt l' j)
  rw [← heq] at hw₂
  have hold : wordAt (overwrite l i (u16ToBe (wordAt l' i))) j = wordAt l j := by
    refine wordAt_congr fun k hk => ?_
    rw [getElem?_overwrite hil, length_u16ToBe, if_neg (by omega)]
  rw [hold] at hw₂
  omega

/-! ## Rewritten segments -/

/-- A segment carries the checksum of its protocol. -/
def Verifies (protocol : Byte) (s d : Ipv4Addr) (seg : List Byte) : Prop :=
  (if protocol = 1 then internetChecksum seg else pseudoHeaderChecksum s d protocol seg) = 0

theorem Verifies.cast (h0 : protocol ≠ 0) (h : Verifies protocol s d seg) :
    ((segmentWeight protocol s d seg : ℕ) : ZMod 65535) = 0 := by
  unfold Verifies at h
  unfold segmentWeight
  split_ifs at h ⊢
  · exact ((internetChecksum_eq_zero_iff seg).mp h).1
  · exact (pseudoHeaderChecksum_eq_zero_iff s d seg h0).mp h

/-- A segment whose sum has the residue zero carries its checksum, unless it is
an ICMP message of zeros. -/
theorem verifies_of_cast (h0 : protocol ≠ 0)
    (h : ((segmentWeight protocol s d seg : ℕ) : ZMod 65535) = 0)
    (hne : protocol = 1 → weight true seg ≠ 0) : Verifies protocol s d seg := by
  unfold segmentWeight at h
  unfold Verifies
  split_ifs at h ⊢ with h1
  · exact (internetChecksum_eq_zero_iff seg).mpr ⟨h, hne h1⟩
  · exact (pseudoHeaderChecksum_eq_zero_iff s d seg h0).mpr h

theorem IsTransport.ne_zero (ht : IsTransport protocol seg) :
    protocol ≠ 0 := by
  rcases ht with ⟨rfl, -⟩ | ⟨rfl, -⟩ | ⟨rfl, -⟩ <;> decide

/-- What rewriting leaves of a segment: the port and the checksum are new, the
checksum verifies, and it is written as a sender writes it.  The word at `ck` is
never zero in a datagram, and elsewhere it is the largest word only for an ICMP
message of zeros. -/
structure SegmentRewritten (protocol : Byte) (source : Bool) (ck : ℕ) (s d : Ipv4Addr)
    (port : UInt16) (seg seg' : List Byte) : Prop where
  length_eq : seg'.length = seg.length
  at_port : ∀ k < 2, seg'[portPos protocol source + k]? = (u16ToBe port)[k]?
  same : ∀ k, ¬ (portPos protocol source ≤ k ∧ k < portPos protocol source + 2) →
    ¬ (ck ≤ k ∧ k < ck + 2) → seg'[k]? = seg[k]?
  verifies : Verifies protocol s d seg'
  datagram : protocol = 17 → wordAt seg' ck ≠ 0
  largest : protocol ≠ 17 → (wordAt seg' ck).toNat = 65535 → protocol = 1 ∧ port = 0

/-- The offsets that the translator writes at are even. -/
theorem portPos_even (protocol : Byte) (source : Bool) : portPos protocol source % 2 = 0 := by
  unfold portPos
  split_ifs <;> rfl

theorem checksumPos_even {ck : ℕ} (h : checksumPos protocol = some ck) :
    ck % 2 = 0 := by
  unfold checksumPos at h
  split_ifs at h <;> cases h <;> rfl

/-- **Rewriting a segment**, in full. -/
theorem rewriteSegment_rewritten (source : Bool) (ht : IsTransport protocol seg) (s d : Ipv4Addr)
    (port : UInt16) :
    ∃ ck seg', checksumPos protocol = some ck ∧ ck + 2 ≤ seg.length ∧
      rewriteSegment seg protocol source s d port = some (seg', true) ∧
      SegmentRewritten protocol source ck s d port seg seg' := by
  obtain ⟨ck, hck, hpos, hckl, hapart⟩ := positions_of_isTransport source ht
  have hckeven := checksumPos_even hck
  unfold rewriteSegment
  obtain ⟨seg₁, h₁, hlen₁, hb₁⟩ := exists_copyInto seg (d := u16ToBe port)
    (i := portPos protocol source) (j := portPos protocol source + 2) rfl hpos
  obtain ⟨seg₂, h₂, hlen₂, hb₂⟩ :=
    exists_copyInto seg₁ (d := [0, 0]) (i := ck) (j := ck + 2) rfl (by omega)
  simp only [h₁, hck, h₂, Option.bind_eq_bind, Option.bind_some]
  have hckl₂ : ck + 2 ≤ seg₂.length := by omega
  obtain ⟨c, hc⟩ : ∃ c, c = segmentChecksum seg₂ protocol s d := ⟨_, rfl⟩
  have hcopy : copyInto seg₂ ck (ck + 2) (u16ToBe c) = some (overwrite seg₂ ck (u16ToBe c)) :=
    if_pos ⟨by omega, hckl₂, by rw [length_u16ToBe]; omega⟩
  have hlen₃ := length_overwrite (l := seg₂) (d := u16ToBe c) (i := ck) hckl₂
  have hb₃ := getElem?_overwrite (l := seg₂) (d := u16ToBe c) (i := ck) hckl₂
  have hword : wordAt (overwrite seg₂ ck (u16ToBe c)) ck = c := by
    refine wordAt_eq fun k hk => ?_
    rw [hb₃, length_u16ToBe, if_pos (by omega), Nat.add_sub_cancel_left]
  have hblank : wordAt seg₂ ck = 0 := by
    refine wordAt_eq (w := 0) fun k hk => ?_
    rw [hb₂, if_pos (by omega), Nat.add_sub_cancel_left]
    rfl
  have hweight : weight true (overwrite seg₂ ck (u16ToBe c)) = weight true seg₂ + c.toNat := by
    have hw := weight_setWord hckeven hckl₂ c
    rw [hblank] at hw
    exact hw
  have hlarge (h17 : protocol ≠ 17) (hmax : c.toNat = 65535) :
      protocol = 1 ∧ weight true seg₂ = 0 :=
    segmentChecksum_eq_max ht.ne_zero h17 (hc ▸ hmax)
  have hport (k : ℕ) (hk : k < 2) : seg₂[portPos protocol source + k]? = (u16ToBe port)[k]? := by
    rw [hb₂, if_neg (by omega), hb₁, if_pos (by omega), Nat.add_sub_cancel_left]
  refine ⟨ck, overwrite seg₂ ck (u16ToBe c), rfl, hckl, ?_, ?_⟩
  · rw [← hc, hcopy]
    rfl
  refine ⟨by omega, ?_, ?_, ?_, ?_, ?_⟩
  · intro k hk
    rw [hb₃, length_u16ToBe, if_neg (by omega), hport k hk]
  · intro k hk hk'
    rw [hb₃, length_u16ToBe, if_neg (by omega), hb₂, if_neg (by omega), hb₁, if_neg (by omega)]
  · refine verifies_of_cast ht.ne_zero ?_ ?_
    · have hcast := cast_segmentChecksum seg₂ protocol s d
      have hsum : segmentWeight protocol s d (overwrite seg₂ ck (u16ToBe c)) =
          segmentWeight protocol s d seg₂ + c.toNat := by
        unfold segmentWeight pseudoWeight
        rw [hlen₃, hweight]
        split_ifs <;> omega
      rw [hsum, Nat.cast_add, hc, hcast, add_neg_cancel]
    · intro h1 hzero
      have hmax := (internetChecksum_eq_max_iff seg₂).mpr (by omega)
      have hsum : c.toNat = (internetChecksum seg₂).toNat := by
        rw [hc, segmentChecksum, h1]
        simp
      omega
  · intro h17
    rw [hword, hc]
    exact segmentChecksum_ne_zero h17
  · intro h17 hmax
    rw [hword] at hmax
    obtain ⟨h1, hz⟩ := hlarge h17 hmax
    have hle := wordAt_le_weight (portPos_even protocol source) (by omega : _ ≤ seg₂.length)
    rw [hz, wordAt_eq hport] at hle
    exact ⟨h1, UInt16.toNat_inj.mp (Nat.le_zero.mp hle)⟩

/-! ## Rewritten packets -/

/-- The address that stands at an offset. -/
def addressAt (p : List Byte) (i : ℕ) : Ipv4Addr :=
  ⟨p.getD i 0, p.getD (i + 1) 0, p.getD (i + 2) 0, p.getD (i + 3) 0⟩

theorem addressAt_congr {q : List Byte} {i j : ℕ} (h : ∀ k < 4, p[i + k]? = q[j + k]?) :
    addressAt p i = addressAt q j := by
  have h0 := h 0 (by omega)
  rw [Nat.add_zero, Nat.add_zero] at h0
  simp only [addressAt, List.getD_eq_getElem?_getD, h0, h 1 (by omega), h 2 (by omega),
    h 3 (by omega)]

theorem addressAt_eq {i : ℕ} (h : ∀ k < 4, p[i + k]? = ip.bytes[k]?) : addressAt p i = ip :=
  addressAt_congr (q := ip.bytes) (j := 0) fun k hk => by rw [h k hk, Nat.zero_add]

/-- The source or the destination endpoint that a packet carries: an address, and
the port or echo identifier that goes with it. -/
def endpoint (source : Bool) (p : List Byte) : Ipv4Addr × UInt16 :=
  let h := Ipv4Header.read p
  let pos := h.headerLen + portPos h.protocol source
  (if source then h.src else h.dst, u16FromBe (p.getD pos 0) (p.getD (pos + 1) 0))

/-- The endpoint of a packet, from its bytes. -/
theorem endpoint_eq {source : Bool} {p : List Byte} {ip : Ipv4Addr}
    (hlen : (Ipv4Header.read p).headerLen = h.headerLen)
    (hproto : (Ipv4Header.read p).protocol = h.protocol)
    (hip : ∀ k < 4, p[(if source then 12 else 16) + k]? = ip.bytes[k]?)
    (hport : ∀ k < 2, p[h.headerLen + portPos h.protocol source + k]? = (u16ToBe port)[k]?) :
    endpoint source p = (ip, port) := by
  unfold endpoint
  dsimp only
  rw [hlen, hproto]
  refine Prod.ext ?_ (wordAt_eq hport)
  have haddr := addressAt_eq hip
  cases source
  · exact haddr
  · exact haddr

/-- **A checksum is computed over a range of a packet**, its own word counting as
zero: the range verifies, and nothing else in the packet changes. -/
theorem exists_checksum (p : List Byte) {i j c e : ℕ} (he : e = c + 2) (hi : i ≤ c)
    (hc : c + 2 ≤ j) (hj : j ≤ p.length) (heven : (c - i) % 2 = 0) :
    ∃ blank range p', copyInto p c e [0, 0] = some blank ∧ slice blank i j = some range ∧
      copyInto blank c e (u16ToBe (internetChecksum range)) = some p' ∧ p'.length = p.length ∧
      (∀ k, ¬ (c ≤ k ∧ k < c + 2) → p'[k]? = p[k]?) ∧
      internetChecksum ((p'.take j).drop i) = 0 ∧
      ∀ k, i ≤ k → k < c → p.getD k 0 ≠ 0 → (wordAt p' c).toNat ≠ 65535 := by
  subst he
  obtain ⟨blank, hblank, hlen, hb⟩ :=
    exists_copyInto p (d := [0, 0]) (i := c) (j := c + 2) (by simp) (by omega)
  obtain ⟨range, hrange, hrlen, hr⟩ := exists_slice blank (i := i) (j := j) (by omega) (by omega)
  obtain ⟨p', hp', hlen', hb'⟩ := exists_copyInto blank
    (d := u16ToBe (internetChecksum range)) (i := c) (j := c + 2) (by simp) (by omega)
  refine ⟨blank, range, p', hblank, hrange, hp', by omega, ?_, ?_, ?_⟩
  · intro k hk
    rw [hb', if_neg hk, hb, if_neg hk]
  · have hover : (p'.take j).drop i =
        overwrite range (c - i) (u16ToBe (internetChecksum range)) := by
      refine List.ext_getElem? fun k => ?_
      rw [getElem?_overwrite (by rw [length_u16ToBe]; omega), length_u16ToBe, List.getElem?_drop]
      rcases Nat.lt_or_ge (i + k) j with hk | hk
      · rw [List.getElem?_take_of_lt hk, hb', hr k hk]
        by_cases hin : c ≤ i + k ∧ i + k < c + 2
        · rw [if_pos hin, if_pos (by omega)]
          congr 1
          omega
        · rw [if_neg hin, if_neg (by omega)]
      · rw [List.getElem?_eq_none (by rw [List.length_take]; omega), if_neg (by omega),
          List.getElem?_eq_none (by omega)]
    rw [hover]
    refine internetChecksum_written heven (by omega) (wordAt_eq (w := 0) fun k hk => ?_)
    rw [hr _ (by omega), show i + (c - i + k) = c + k by omega, hb, if_pos (by omega),
      Nat.add_sub_cancel_left]
    rfl
  · intro k hk hkc hne
    have hword : wordAt p' c = internetChecksum range := by
      refine wordAt_eq fun k hk => ?_
      rw [hb', if_pos (by omega), Nat.add_sub_cancel_left]
    rw [hword]
    refine internetChecksum_ne_max (k := k - i) (by omega) ?_
    rw [List.getD_eq_getElem?_getD, hr _ (by omega), Nat.add_sub_cancel' hk, hb,
      if_neg (by omega), ← List.getD_eq_getElem?_getD]
    exact hne

/-- Where a packet has its source or its destination address. -/
def addressPos (source : Bool) : ℕ := if source then 12 else 16

theorem addressPos_bounds (source : Bool) :
    12 ≤ addressPos source ∧ addressPos source + 4 ≤ 20 := by
  unfold addressPos
  split <;> omega

/-- Where a translated packet may differ from the one it was: the address, the
header checksum, the port and the checksum of the segment. -/
def Edited (source : Bool) (h : Ipv4Header) (k : ℕ) : Prop :=
  (addressPos source ≤ k ∧ k < addressPos source + 4) ∨ (10 ≤ k ∧ k < 12) ∨
    (h.headerLen + portPos h.protocol source ≤ k ∧
      k < h.headerLen + portPos h.protocol source + 2) ∨
    ∃ ck, checksumPos h.protocol = some ck ∧ h.headerLen + ck ≤ k ∧ k < h.headerLen + ck + 2

/-- What lies between the header and the total length. -/
def payload (h : Ipv4Header) (p : List Byte) : List Byte :=
  (p.take h.totalLength.toNat).drop h.headerLen

theorem getElem?_payload (p : List Byte) {k : ℕ} (hk : h.headerLen + k < h.totalLength.toNat) :
    (payload h p)[k]? = p[h.headerLen + k]? := by
  rw [payload, List.getElem?_drop, List.getElem?_take_of_lt hk]

theorem length_payload (htot : h.totalLength.toNat ≤ p.length) :
    (payload h p).length = h.totalLength.toNat - h.headerLen := by
  rw [payload, List.length_drop, List.length_take, Nat.min_eq_left htot]

/-- The payload is what the parser returns beside the header. -/
theorem payload_of_parse (hp : Ipv4Header.parse p = some (h, seg)) : payload h p = seg :=
  (Ipv4Header.parse_eq_some hp).2.2.2.2.symm

theorem length_of_parse (hp : Ipv4Header.parse p = some (h, seg)) :
    seg.length = h.totalLength.toNat - h.headerLen := by
  rw [← payload_of_parse hp]
  exact length_payload (Ipv4Header.parse_eq_some hp).2.2.2.1

theorem getElem?_segment (hp : Ipv4Header.parse p = some (h, seg)) {k : ℕ} (hk : k < seg.length) :
    seg[k]? = p[h.headerLen + k]? := by
  have hlen := length_of_parse hp
  rw [← payload_of_parse hp, getElem?_payload p (by omega)]

/-- What rewriting leaves of a packet. -/
structure Rewritten (source : Bool) (ip : Ipv4Addr) (port : UInt16) (h : Ipv4Header)
    (p p' : List Byte) : Prop where
  length_eq : p'.length = p.length
  same : ∀ k, ¬ Edited source h k → p'[k]? = p[k]?
  address : ∀ k < 4, p'[addressPos source + k]? = ip.bytes[k]?
  header : internetChecksum (p'.take h.headerLen) = 0
  canonical : (wordAt p' 10).toNat ≠ 65535
  segment : ∃ ck, checksumPos h.protocol = some ck ∧ ck + 2 ≤ (payload h p).length ∧
    SegmentRewritten h.protocol source ck (Ipv4Header.read p').src (Ipv4Header.read p').dst port
      (payload h p) (payload h p')

/-- **Rewriting a packet**, in full. -/
theorem rewrite_rewritten (hp : Ipv4Header.parse p = some (h, seg))
    (ht : IsTransport h.protocol seg) (source : Bool) (ip : Ipv4Addr) (port : UInt16) :
    ∃ p', rewrite p source ip port = some (p', true) ∧ Rewritten source ip port h p p' := by
  obtain ⟨hh, hver, h20, hle, htot, -, hseg⟩ := Ipv4Header.parse_eq_some_iff.mp hp
  have hapos := addressPos_bounds source
  unfold rewrite
  simp only [hp, Option.bind_eq_bind]
  obtain ⟨p₁, h₁, hlen₁, hb₁⟩ := exists_copyInto p (d := ip.bytes)
    (i := addressPos source) (j := addressPos source + 4) rfl (by omega)
  obtain ⟨s, hs, hslen, hsb⟩ := exists_slice p₁ (i := 12) (j := 16) (by omega) (by omega)
  obtain ⟨d, hd, hdlen, hdb⟩ := exists_slice p₁ (i := 16) (j := 20) (by omega) (by omega)
  obtain ⟨seg₁, hs₁, hslen₁, hsb₁⟩ := exists_slice p₁ hle (by omega)
  have hseglen : seg₁.length = (payload h p).length := by
    rw [hslen₁, length_payload htot]
  have ht₁ : IsTransport h.protocol seg₁ := by
    rwa [IsTransport, hseglen, payload, ← hseg]
  obtain ⟨ck, seg₂, hck, hckl, hs₂, hr⟩ := rewriteSegment_rewritten source ht₁
    (Ipv4Addr.fromBytes s) (Ipv4Addr.fromBytes d) port
  have hslen₂ := hr.length_eq
  obtain ⟨p₂, h₂, hlen₂, hb₂⟩ := exists_copyInto p₁ (d := seg₂) (i := h.headerLen)
    (j := h.totalLength.toNat) (by omega) (by omega)
  obtain ⟨p₃, hdr, p₄, h₃, hhdr, h₄, hlen₄, hb₄, hsum, hmax⟩ :=
    exists_checksum p₂ (i := 0) (j := h.headerLen) (c := 10) (e := 12) rfl (by omega) (by omega)
      (by omega) rfl
  refine ⟨p₄, ?_, ?_⟩
  · unfold addressPos at h₁
    simp only [h₁, hs, hd, hs₁, hs₂, h₂, h₃, hhdr, h₄, Option.bind_some, if_true]
    rfl
  -- the header checksum is written after the address and the segment
  have hhead (k : ℕ) (hk : k < h.headerLen) (hne : k < 10 ∨ 12 ≤ k) : p₄[k]? = p₁[k]? := by
    rw [hb₄ k (by omega), hb₂, if_neg (by omega)]
  have hfill (k : ℕ) (hk : h.headerLen ≤ k ∧ k < h.totalLength.toNat) :
      p₄[k]? = seg₂[k - h.headerLen]? := by
    rw [hb₄ k (by omega), hb₂, if_pos hk]
  have htail (k : ℕ) (hk : h.totalLength.toNat ≤ k) : p₄[k]? = p[k]? := by
    rw [hb₄ k (by omega), hb₂, if_neg (by omega), hb₁, if_neg (by omega)]
  have hhead₁ (k : ℕ) (hk : ¬ (addressPos source ≤ k ∧ k < addressPos source + 4)) :
      p₁[k]? = p[k]? := by rw [hb₁, if_neg hk]
  have hpay : payload h p₄ = seg₂ := by
    refine List.ext_getElem? fun k => ?_
    rcases Nat.lt_or_ge k seg₂.length with hk | hk
    · rw [getElem?_payload p₄ (by omega), hfill _ (by omega), Nat.add_sub_cancel_left]
    · rw [List.getElem?_eq_none (by rw [length_payload (by omega)]; omega),
        List.getElem?_eq_none hk]
  have hpay₁ : payload h p = seg₁ := by
    refine List.ext_getElem? fun k => ?_
    rcases Nat.lt_or_ge k seg₁.length with hk | hk
    · rw [getElem?_payload p (by omega), hsb₁ k (by omega), hhead₁ _ (by omega)]
    · rw [List.getElem?_eq_none (by omega), List.getElem?_eq_none hk]
  have hsrc : Ipv4Addr.fromBytes s = (Ipv4Header.read p₄).src :=
    addressAt_congr (i := 0) (j := 12) fun k hk => by
      rw [Nat.zero_add, hsb k (by omega), hhead _ (by omega) (by omega)]
  have hdst : Ipv4Addr.fromBytes d = (Ipv4Header.read p₄).dst :=
    addressAt_congr (i := 0) (j := 16) fun k hk => by
      rw [Nat.zero_add, hdb k (by omega), hhead _ (by omega) (by omega)]
  refine ⟨by omega, ?_, ?_, ?_, ?_, ck, hck, by omega, ?_⟩
  · intro k hk
    simp only [Edited, not_or, not_and, not_lt, not_exists] at hk
    obtain ⟨ha, hc, hport, hsum⟩ := hk
    have hsum' := hsum ck hck
    rcases Nat.lt_or_ge k h.headerLen with hlt | hge
    · rw [hhead k hlt (by omega), hhead₁ k (by omega)]
    rcases Nat.lt_or_ge k h.totalLength.toNat with hlt | hge'
    · rw [hfill k ⟨hge, hlt⟩, hr.same _ (by omega) (by omega), hsb₁ _ (by omega),
        Nat.add_sub_cancel' hge, hhead₁ k (by omega)]
    · exact htail k hge'
  · intro k hk
    rw [hhead _ (by omega) (by omega), hb₁, if_pos (by omega), Nat.add_sub_cancel_left]
  · simpa using hsum
  · refine hmax 0 le_rfl (by omega) ?_
    have h0 : p₂.getD 0 0 = h.versionIhl := by
      rw [hh, List.getD_eq_getElem?_getD, hb₂, if_neg (by omega), hhead₁ _ (by omega),
        ← List.getD_eq_getElem?_getD]
      rfl
    rw [h0]
    rintro hv
    rw [hv] at hver
    exact absurd hver (by decide)
  · rw [hpay, hpay₁, ← hsrc, ← hdst]
    exact hr

/-- A header with a new address and a new checksum is the one it was, but for
these. -/
theorem read_of_address (source : Bool) (ip : Ipv4Addr)
    (hsame : ∀ k < 20, ¬ (addressPos source ≤ k ∧ k < addressPos source + 4) →
      ¬ (10 ≤ k ∧ k < 12) → p'[k]? = p[k]?)
    (haddress : ∀ k < 4, p'[addressPos source + k]? = ip.bytes[k]?) :
    Ipv4Header.read p' =
      { Ipv4Header.read p with
        checksum := (Ipv4Header.read p').checksum
        src := if source then ip else (Ipv4Header.read p).src
        dst := if source then (Ipv4Header.read p).dst else ip } := by
  have hget (k : ℕ) (hk : k < 20) (ha : ¬ (addressPos source ≤ k ∧ k < addressPos source + 4))
      (hc : ¬ (10 ≤ k ∧ k < 12)) : p'.getD k 0 = p.getD k 0 := by
    rw [List.getD_eq_getElem?_getD, hsame k hk ha hc, ← List.getD_eq_getElem?_getD]
  have hfront (k : ℕ) (hk : k < 10) : p'.getD k 0 = p.getD k 0 := by
    refine hget k (by omega) ?_ (by omega)
    unfold addressPos
    split <;> omega
  have hnew : addressAt p' (addressPos source) = ip := addressAt_eq haddress
  have hother : addressAt p' (addressPos (!source)) = addressAt p (addressPos (!source)) :=
    addressAt_congr fun k hk => by
      refine hsame _ ?_ ?_ ?_ <;> cases source <;> simp only [addressPos] <;> simp <;> omega
  have hsrc : (if source then ip else (Ipv4Header.read p).src) = (Ipv4Header.read p').src := by
    cases source
    · exact hother.symm
    · exact hnew.symm
  have hdst : (if source then (Ipv4Header.read p).dst else ip) = (Ipv4Header.read p').dst := by
    cases source
    · exact hnew.symm
    · exact hother.symm
  rw [hsrc, hdst]
  unfold Ipv4Header.read
  rw [hfront 0 (by omega), hfront 1 (by omega), hfront 2 (by omega), hfront 3 (by omega),
    hfront 4 (by omega), hfront 5 (by omega), hfront 6 (by omega), hfront 7 (by omega),
    hfront 8 (by omega), hfront 9 (by omega)]

/-- **A packet with a new address parses** if its header checksum verifies, and
its payload stands where it stood. -/
theorem parse_of_address (source : Bool) (ip : Ipv4Addr) (hp : Ipv4Header.parse p = some (h, seg))
    (hsame : ∀ k < 20, ¬ (addressPos source ≤ k ∧ k < addressPos source + 4) →
      ¬ (10 ≤ k ∧ k < 12) → p'[k]? = p[k]?)
    (haddress : ∀ k < 4, p'[addressPos source + k]? = ip.bytes[k]?) (hlength : p'.length = p.length)
    (hheader : internetChecksum (p'.take h.headerLen) = 0) :
    Ipv4Header.parse p' = some (Ipv4Header.read p', payload h p') := by
  obtain ⟨rfl, hver, h20, hle, htot, -, -⟩ := Ipv4Header.parse_eq_some_iff.mp hp
  have hread := read_of_address source ip hsame haddress
  have hversion := congrArg Ipv4Header.versionIhl hread
  have htotal := congrArg Ipv4Header.totalLength hread
  dsimp only at hversion htotal
  have hlen : (Ipv4Header.read p').headerLen = (Ipv4Header.read p).headerLen := by
    rw [Ipv4Header.headerLen, Ipv4Header.headerLen, hversion]
  rw [Ipv4Header.parse_eq_some_iff, hlen, htotal, hversion]
  exact ⟨rfl, hver, h20, hle, by omega, hheader, rfl⟩

/-- A byte of the fixed header that is in neither the address nor the checksum. -/
theorem Rewritten.same_header (hr : Rewritten source ip port h p p') (h20 : 20 ≤ h.headerLen) :
    ∀ k < 20, ¬ (addressPos source ≤ k ∧ k < addressPos source + 4) → ¬ (10 ≤ k ∧ k < 12) →
      p'[k]? = p[k]? := by
  intro k hk ha hc
  refine hr.same k ?_
  rintro (h | h | h | ⟨ck, -, h⟩) <;> omega

/-- The header of a rewritten packet is the one it had, but for the address and
the checksum. -/
theorem Rewritten.read_eq (hr : Rewritten source ip port h p p') (h20 : 20 ≤ h.headerLen) :
    Ipv4Header.read p' =
      { Ipv4Header.read p with
        checksum := (Ipv4Header.read p').checksum
        src := if source then ip else (Ipv4Header.read p).src
        dst := if source then (Ipv4Header.read p).dst else ip } :=
  read_of_address source ip (hr.same_header h20) hr.address

/-- **A rewritten packet parses.** -/
theorem Rewritten.parsed (hr : Rewritten source ip port h p p')
    (hp : Ipv4Header.parse p = some (h, seg)) :
    Ipv4Header.parse p' = some (Ipv4Header.read p', payload h p') :=
  parse_of_address source ip hp (hr.same_header (Ipv4Header.parse_eq_some hp).2.1) hr.address
    hr.length_eq hr.header

/-- Rewriting keeps what the header says of itself and of its protocol. -/
theorem Rewritten.fields (hr : Rewritten source ip port h p p')
    (hp : Ipv4Header.parse p = some (h, seg)) :
    (Ipv4Header.read p').versionIhl = h.versionIhl ∧
      (Ipv4Header.read p').headerLen = h.headerLen ∧
      (Ipv4Header.read p').protocol = h.protocol := by
  obtain ⟨hh, h20, -⟩ := Ipv4Header.parse_eq_some hp
  rw [hr.read_eq h20, ← hh]
  exact ⟨rfl, rfl, rfl⟩

/-- A rewritten packet has the endpoint that it was given. -/
theorem endpoint_of_rewritten (hp : Ipv4Header.parse p = some (h, seg))
    (ht : IsTransport h.protocol seg) (hr : Rewritten source ip port h p p') :
    endpoint source p' = (ip, port) := by
  obtain ⟨ck, -, -, hs⟩ := hr.segment
  obtain ⟨-, -, hpos, -⟩ := positions_of_isTransport source ht
  obtain ⟨-, hlen, hprotocol⟩ := hr.fields hp
  have hseglen := length_of_parse hp
  refine endpoint_eq hlen hprotocol hr.address fun k hk => ?_
  rw [← hs.at_port k hk, getElem?_payload p' (by omega), Nat.add_assoc]

end EvansComputer.Router
