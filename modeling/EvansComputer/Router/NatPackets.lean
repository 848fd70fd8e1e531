import EvansComputer.Router.NatTable

/-!
# What a translated packet is

A packet that the translator lets through has the address and the port it was
given, its two checksums verify, and nothing else in it has changed.

The transport checksum is where the translator and a receiver part.  `rewrite`
covers everything between the IP header and the total length.  A receiver covers
that much of a TCP segment and of an ICMP message, but only the UDP length of a
datagram.  `surplus` is what the two sums differ by, and the receiver accepts a
translated datagram exactly when it is a multiple of `65535`.
-/

namespace EvansComputer.Router

variable {seg p p' : List Byte} {protocol : Byte} {s d ip : Ipv4Addr} {h : Ipv4Header}
  {source : Bool} {port : UInt16}

/-! ## What the receiver checks -/

/-- The check that the receiving stack makes of a segment before it looks at it:
`rx_tcp`, `rx_udp` and `IcmpPacket::parse`. -/
def rxAccepts (h : Ipv4Header) (seg : List Byte) : Bool :=
  if h.protocol = protoTcp then
    Tcp.verifyChecksum h.src h.dst seg && (Tcp.WireHeader.parse seg).isSome
  else if h.protocol = protoUdp then
    match Udp.UdpHeader.parse seg with
    | none => false
    | some (uh, _) =>
      Udp.verifyChecksum h.src h.dst ((slice seg 0 uh.length.toNat).getD seg)
  else if h.protocol = protoIcmp then 8 ≤ seg.length && internetChecksum seg == 0
  else false

/-- A packet that the receiving stack takes to its protocol. -/
def Deliverable (p : List Byte) : Prop :=
  ∃ h seg, Ipv4Header.parseChecked p = .ok (h, seg) ∧ rxAccepts h seg = true

/-- What the bytes behind the UDP length add to the sum of a datagram: their
words, and their number through the length in the pseudo-header. -/
def surplus (seg : List Byte) : ℕ :=
  let length := (wordAt seg 4).toNat
  seg.length - length + weight (halfAfter true length) (seg.drop length)

/-- When a datagram parses: its length covers its header and lies in the segment. -/
theorem udpHeader_isSome_iff :
    (Udp.UdpHeader.parse seg).isSome ↔
      8 ≤ (wordAt seg 4).toNat ∧ (wordAt seg 4).toNat ≤ seg.length := by
  have hword : u16FromBe (seg.getD 4 0) (seg.getD 5 0) = wordAt seg 4 := rfl
  unfold Udp.UdpHeader.parse
  rw [hword]
  dsimp only
  split_ifs <;> simp only [Option.isSome_none, Option.isSome_some, Bool.false_eq_true, false_iff,
    true_iff] <;> omega

theorem udpHeader_length {data : List Byte} {uh : Udp.UdpHeader}
    (h : Udp.UdpHeader.parse seg = some (uh, data)) : uh.length = wordAt seg 4 := by
  unfold Udp.UdpHeader.parse at h
  dsimp only at h
  split_ifs at h
  rw [← (Prod.mk.inj (Option.some.inj h)).1]
  rfl

/-- When a TCP header parses: its data offset covers it and lies in the segment. -/
theorem wireHeader_isSome_iff :
    (Tcp.WireHeader.parse seg).isSome ↔
      20 ≤ (seg.getD 12 0 >>> 4).toNat * 4 ∧ (seg.getD 12 0 >>> 4).toNat * 4 ≤ seg.length := by
  unfold Tcp.WireHeader.parse
  dsimp only
  split_ifs <;> simp only [Option.isSome_none, Option.isSome_some, Bool.false_eq_true, false_iff,
    true_iff] <;> omega

/-- The sum of a segment is the sum of its datagram and the surplus. -/
theorem pseudoWeight_take (hlen : seg.length < 65536) (hle : (wordAt seg 4).toNat ≤ seg.length) :
    pseudoWeight s d protocol seg =
      pseudoWeight s d protocol (seg.take (wordAt seg 4).toNat) + surplus seg := by
  have hcut := weightFrom_append UInt8.toNat 256 true (seg.take (wordAt seg 4).toNat)
    (seg.drop (wordAt seg 4).toNat)
  rw [List.take_append_drop, List.length_take, Nat.min_eq_left hle] at hcut
  unfold pseudoWeight surplus
  rw [List.length_take, Nat.min_eq_left hle]
  simp only [weight] at hcut ⊢
  omega

/-- Outside UDP, a segment that carries its checksum is accepted as long as its
header still parses. -/
theorem rxAccepts_iff (ht : IsTransport h.protocol seg) (hlen : seg.length < 65536)
    (hv : Verifies h.protocol h.src h.dst seg)
    (htcp : h.protocol = 6 → (Tcp.WireHeader.parse seg).isSome)
    (hudp : h.protocol = 17 → (Udp.UdpHeader.parse seg).isSome ∧ wordAt seg 6 ≠ 0) :
    rxAccepts h seg = true ↔ (h.protocol = 17 → surplus seg % 65535 = 0) := by
  have h61 : ¬ (6 : Byte) = 1 := by decide
  have h617 : ¬ (6 : Byte) = 17 := by decide
  have h176 : ¬ (17 : Byte) = 6 := by decide
  have h16 : ¬ (1 : Byte) = 6 := by decide
  have h117 : ¬ (1 : Byte) = 17 := by decide
  have hcast := hv.cast ht.ne_zero
  unfold Verifies at hv
  unfold rxAccepts protoTcp protoUdp protoIcmp
  rcases ht with ⟨h6, hl⟩ | ⟨h17, hl⟩ | ⟨h1, hl⟩
  · have hparse := htcp h6
    rw [h6] at hv
    simp only [h61, if_false] at hv
    simp [h6, h617, Tcp.verifyChecksum, protoTcp, hl, hv, hparse]
  · obtain ⟨hsome, hne⟩ := hudp h17
    obtain ⟨h8, hle⟩ := udpHeader_isSome_iff.mp hsome
    obtain ⟨⟨uh, data⟩, hparse⟩ := Option.isSome_iff_exists.mp hsome
    have huh := udpHeader_length hparse
    obtain ⟨n, hn⟩ : ∃ n, n = (wordAt seg 4).toNat := ⟨_, rfl⟩
    have hslice : slice seg 0 n = some (seg.take n) := if_pos ⟨by omega, by omega⟩
    have hbytes : slice (seg.take n) 6 8 = some [seg.getD 6 0, seg.getD 7 0] := by
      have hlen' : (seg.take n).length = n := by rw [List.length_take]; omega
      have hget (k : ℕ) (hk : k < 8) : (seg.take n).getD k 0 = seg.getD k 0 := by
        rw [List.getD_eq_getElem?_getD, List.getD_eq_getElem?_getD,
          List.getElem?_take_of_lt (by omega)]
      rw [slice, if_pos ⟨by omega, by omega⟩, List.drop_take,
        take_drop_eq_word (by omega), hget 6 (by omega), hget 7 (by omega)]
    have hnot : ¬ (seg.getD 6 0 = 0 ∧ seg.getD 7 0 = 0) := by
      rintro ⟨ha, hb⟩
      exact hne (by rw [wordAt, ha, hb]; rfl)
    have hverify : Udp.verifyChecksum h.src h.dst (seg.take n) =
        (pseudoHeaderChecksum h.src h.dst protoUdp (seg.take n) == 0) := by
      unfold Udp.verifyChecksum
      rw [hbytes]
      split
      · rename_i heq
        simp only [Option.some.injEq, List.cons.injEq, and_true] at heq
        exact absurd heq hnot
      · rfl
      · rename_i heq
        cases heq
    have hsum : ((pseudoWeight h.src h.dst 17 seg : ℕ) : ZMod 65535) = 0 := by
      rw [h17] at hcast
      exact hcast
    rw [pseudoWeight_take hlen hle, Nat.cast_add, ← hn] at hsum
    simp only [h17, h176, if_false, if_true, hparse, huh, ← hn, hslice, Option.getD_some, hverify,
      beq_iff_eq, true_imp_iff]
    rw [pseudoHeaderChecksum_eq_zero_iff h.src h.dst _ (by decide), ← Nat.dvd_iff_mod_eq_zero,
      ← ZMod.natCast_eq_zero_iff]
    constructor
    · intro hz
      rw [show protoUdp = 17 from rfl] at hz
      rwa [hz, zero_add] at hsum
    · intro hz
      rwa [hz, add_zero] at hsum
  · rw [h1] at hv
    simp only [if_true] at hv
    simp [h1, h16, h117, hl, hv]

namespace NatTable

variable {n n' : NatTable} {p p' seg : List Byte} {h : Ipv4Header} {outside : Ipv4Addr}
  {forwards : List Forward} {now : ℤ}

/-- Rewriting keeps what the receiver reads of the headers of a segment, and the
bytes behind a datagram. -/
theorem receiver_keeps (hp : Ipv4Header.parse p = some (h, seg))
    (hr : Rewritten source ip port h p p') (hval : validateTransport h seg = true) :
    (h.protocol = 6 → (Tcp.WireHeader.parse (payload h p')).isSome) ∧
      (h.protocol = 17 → (Udp.UdpHeader.parse (payload h p')).isSome ∧
        surplus (payload h p') = surplus seg) := by
  obtain ⟨ck, hck, hckl, hs⟩ := hr.segment
  rw [payload_of_parse hp] at hs
  have hlen := hs.length_eq
  have hpos : portPos h.protocol source + 2 ≤ 6 := by
    unfold portPos
    split_ifs <;> omega
  have hpos' (h1 : h.protocol ≠ 1) : portPos h.protocol source + 2 ≤ 4 := by
    unfold portPos
    rw [if_neg h1]
    split_ifs <;> omega
  unfold validateTransport at hval
  constructor
  · intro h6
    rw [if_pos h6, Bool.and_eq_true] at hval
    have hck' : ck = 16 := by
      rw [checksumPos, if_pos h6] at hck
      exact (Option.some.inj hck).symm
    have h12 : (payload h p').getD 12 0 = seg.getD 12 0 := by
      rw [List.getD_eq_getElem?_getD, List.getD_eq_getElem?_getD,
        hs.same 12 (by omega) (by omega)]
    rw [wireHeader_isSome_iff, h12, hlen, ← wireHeader_isSome_iff]
    exact hval.1
  · intro h17
    have h6 : ¬ h.protocol = 6 := by rw [h17]; decide
    have h1 : ¬ h.protocol = 1 := by rw [h17]; decide
    rw [if_neg h6, if_pos h17, Bool.and_eq_true] at hval
    have hck' : ck = 6 := by
      rw [checksumPos, if_neg h6, if_pos h17] at hck
      exact (Option.some.inj hck).symm
    have hfour := hpos' h1
    have hword : wordAt (payload h p') 4 = wordAt seg 4 :=
      wordAt_congr fun k hk => hs.same _ (by omega) (by omega)
    have hparse : (Udp.UdpHeader.parse (payload h p')).isSome := by
      rw [udpHeader_isSome_iff, hword, hlen, ← udpHeader_isSome_iff]
      exact hval.1
    have h8 := (udpHeader_isSome_iff.mp hparse).1
    have hdrop : (payload h p').drop (wordAt seg 4).toNat = seg.drop (wordAt seg 4).toNat := by
      refine List.ext_getElem? fun k => ?_
      rw [List.getElem?_drop, List.getElem?_drop]
      rw [hword] at h8
      exact hs.same _ (by omega) (by omega)
    refine ⟨hparse, ?_⟩
    unfold surplus
    rw [hword, hlen]
    dsimp only
    rw [hdrop]

/-- **Which translated packets are deliverable.**  What the translator lets
through, other than an ICMP error, is accepted by the receiving stack and is
unchanged outside the address, the port and the two checksums exactly when it is
no datagram with a surplus behind its UDP length. -/
theorem output_deliverable (source : Bool) (hp : Ipv4Header.parse p = some (h, seg))
    (herr : isIcmpError h seg = false)
    (hcall : n.cross source p outside forwards now = some (n', p', true)) :
    (Deliverable p' ∧ p'.length = p.length ∧ ∀ k, ¬ Edited source h k → p'[k]? = p[k]?) ↔
      (h.protocol = 17 → surplus seg % 65535 = 0) := by
  obtain ⟨hv, ⟨ip, port, hr⟩, -⟩ := cross_ok hp herr hcall
  obtain ⟨ck, hck, hckl, hs⟩ := hr.segment
  obtain ⟨htcp, hudp⟩ := receiver_keeps hp hr hv.checked
  have hlen := hs.length_eq
  have hlen' := hr.length_eq
  obtain ⟨-, -, hproto⟩ := hr.fields hp
  have hparse := hr.parsed hp
  have hdeliver : Deliverable p' ↔ rxAccepts (Ipv4Header.read p') (payload h p') = true := by
    unfold Ipv4Header.parse at hparse
    unfold Deliverable
    cases hchecked : Ipv4Header.parseChecked p' with
    | error e =>
      rw [hchecked] at hparse
      cases hparse
    | ok r =>
      rw [hchecked] at hparse
      obtain rfl := Option.some.inj hparse
      constructor
      · rintro ⟨h', seg', heq, hacc⟩
        cases heq
        exact hacc
      · intro hacc
        exact ⟨_, _, rfl, hacc⟩
  have ht : IsTransport (Ipv4Header.read p').protocol (payload h p') := by
    rw [hproto, IsTransport, hlen, payload_of_parse hp]
    exact isTransport_of_validateTransport hv.checked
  have hsmall : (payload h p').length < 65536 := by
    have htotal := h.totalLength.toNat_lt
    rw [hlen, payload_of_parse hp, length_of_parse hp]
    omega
  have hverifies : Verifies (Ipv4Header.read p').protocol (Ipv4Header.read p').src
      (Ipv4Header.read p').dst (payload h p') := by
    rw [hproto]
    exact hs.verifies
  have hck17 (h17 : h.protocol = 17) : wordAt (payload h p') 6 ≠ 0 := by
    have hck' : ck = 6 := by
      rw [checksumPos, h17] at hck
      exact (Option.some.inj hck).symm
    rw [← hck']
    exact hs.datagram h17
  have hacc := rxAccepts_iff ht hsmall hverifies (fun h6 => htcp (hproto ▸ h6))
    (fun h17 => ⟨(hudp (hproto ▸ h17)).1, hck17 (hproto ▸ h17)⟩)
  rw [hdeliver, hacc, hproto]
  constructor
  · rintro ⟨hz, -⟩ h17
    rw [← (hudp h17).2]
    exact hz h17
  · intro hz
    refine ⟨fun h17 => ?_, hlen', hr.same⟩
    rw [(hudp h17).2]
    exact hz h17

/-- The query of `translation_inverted_reply` fills its packet. -/
theorem output_deliverable_query :
    Deliverable sentQuery ∧ sentQuery.length = query.length ∧
      ∀ k, ¬ Edited true (Ipv4Header.read query) k → sentQuery[k]? = query[k]? := by
  have hp : Ipv4Header.parse query = some (Ipv4Header.read query, query.drop 20) := by
    decide +kernel
  have hcall : NatTable.new.cross true query ⟨100, 65, 1, 2⟩ [] 0 =
      some (queryTable, sentQuery, true) := by decide +kernel
  exact (output_deliverable true hp (by decide +kernel) hcall).mpr (by decide +kernel)

/-- A datagram from 192.168.1.2:1234 to 8.8.8.8:53 with an empty payload and no
checksum, and two bytes behind it in its packet. -/
def paddedQuery : List Byte :=
  [69, 0, 0, 30, 0, 1, 64, 0, 64, 17, 105, 20, 192, 168, 1, 2, 8, 8, 8, 8,
    4, 210, 0, 53, 0, 8, 0, 0, 1, 2]

/-- The datagram as it leaves, with a checksum that covers the two bytes. -/
def sentPaddedQuery : List Byte :=
  [69, 0, 0, 30, 0, 1, 64, 0, 64, 17, 197, 123, 100, 65, 1, 2, 8, 8, 8, 8,
    192, 0, 0, 53, 0, 8, 201, 81, 1, 2]

/-- A deliverable datagram that is shorter than its packet leaves with a checksum
that the receiver does not accept. -/
theorem not_output_deliverable :
    Deliverable paddedQuery ∧ (∃ n', NatTable.new.outbound paddedQuery ⟨100, 65, 1, 2⟩ [] 0 =
        some (n', sentPaddedQuery, true)) ∧
      isIcmpError (Ipv4Header.read paddedQuery) (paddedQuery.drop 20) = false ∧
      ¬ Deliverable sentPaddedQuery := by
  refine ⟨⟨Ipv4Header.read paddedQuery, paddedQuery.drop 20, by decide +kernel, by decide +kernel⟩,
    ⟨queryTable, by decide +kernel⟩, by decide +kernel, ?_⟩
  rintro ⟨h, seg, hp, hacc⟩
  have hparse : Ipv4Header.parseChecked sentPaddedQuery =
      .ok (Ipv4Header.read sentPaddedQuery, sentPaddedQuery.drop 20) := by decide +kernel
  rw [hparse] at hp
  cases hp
  exact absurd hacc (by decide +kernel)

end EvansComputer.Router.NatTable
