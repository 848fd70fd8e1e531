import EvansComputer.Router.NatErrors

/-!
# Errors come back to the packet they are about

A packet crosses the router, an ICMP error about it comes back, and the router
translates the error and the packet it quotes.  Three things meet here: the table
still has the endpoint that the packet was translated to, so that the lookup of
the quote gives the endpoint it had; the packet that crossed differs from the one
that arrived in its address, its port and two checksums; and the quote differs
from the packet that crossed in nothing.

The lookup of a quote on its way out goes by the inside endpoint.  A forwarded
endpoint has no mapping, which `InsideFree` says of every table a run reaches,
but two forwards may share one, and then the first one wins.
-/

namespace EvansComputer.Router

variable {source : Bool} {ip : Ipv4Addr} {port : UInt16}

namespace NatTable

variable {forwards : List Forward} {now : ℤ} {n n' : NatTable} {p p' seg : List Byte}
  {h : Ipv4Header} {port : UInt16} {outside : Ipv4Addr} {ok : Bool}

/-! ## The lookup of a quote -/

variable {ms : List Mapping} {next : UInt16} {protocol : Byte}

/-- A quote of a packet that went out through a mapping. -/
theorem quotedEndpoint_mapped_out (hs : Sound forwards ms) {src : Ipv4Addr}
    {inner external : UInt16} (hm : Maps ms (protocol, src, inner, outside) external) :
    quotedEndpoint ⟨ms, next⟩ outside forwards false protocol outside external =
      some (src, inner) := by
  obtain ⟨m, hmem, hkey, rfl⟩ := hm
  simp only [Mapping.insideKey, Prod.mk.injEq] at hkey
  obtain ⟨rfl, rfl, rfl, rfl⟩ := hkey
  unfold quotedEndpoint
  dsimp only
  rw [find?_eq_of_nodup (a := m) hs.outside_nodup hmem (by simp)]
  · simp
  · intro b _ hb
    simp only [Bool.and_eq_true, beq_iff_eq, Bool.false_eq_true, if_false] at hb
    simp only [Mapping.outsideKey, hb]

/-- A quote of a packet that went out through a forward. -/
theorem quotedEndpoint_forwarded_out (hs : Sound forwards ms)
    (hnodup : (forwards.map fun f => (f.protocol, f.outsidePort)).Nodup) {f : Forward}
    (hf : f ∈ forwards) :
    quotedEndpoint ⟨ms, next⟩ outside forwards false f.protocol outside f.outsidePort =
      some (f.inside, f.insidePort) := by
  have hnone : ms.find? (fun m => m.protocol == f.protocol && m.outside == outside &&
      (m.outside == outside && m.external == f.outsidePort)) = none := by
    rw [List.find?_eq_none]
    intro m hm hmatch
    simp only [Bool.and_eq_true, beq_iff_eq] at hmatch
    exact hs.not_forwarded m hm f hf hmatch.1.1.symm hmatch.2.2.symm
  unfold quotedEndpoint
  simp only [Bool.false_eq_true, if_false, hnone]
  rw [find?_eq_of_nodup (a := f) hnodup hf (by simp)]
  · rfl
  · intro b _ hb
    simp only [Bool.and_eq_true, beq_iff_eq] at hb
    rw [hb.1, hb.2.2]

theorem quotedEndpoint_mapped_in (hs : Sound forwards ms) {src : Ipv4Addr}
    {inner external : UInt16} (hm : Maps ms (protocol, src, inner, outside) external) :
    quotedEndpoint ⟨ms, next⟩ outside forwards true protocol src inner =
      some (outside, external) := by
  obtain ⟨m, hmem, hkey, rfl⟩ := hm
  simp only [Mapping.insideKey, Prod.mk.injEq] at hkey
  obtain ⟨rfl, rfl, rfl, rfl⟩ := hkey
  unfold quotedEndpoint
  dsimp only
  rw [find?_eq_of_nodup (a := m) hs.inside_nodup hmem (by simp)]
  · simp
  · intro b _ hb
    simp only [Bool.and_eq_true, beq_iff_eq, if_true] at hb
    simp only [Mapping.insideKey, hb]

theorem quotedEndpoint_forwarded_in (hfree : InsideFree forwards ms)
    (hnodup : (forwards.map fun f => (f.protocol, f.inside, f.insidePort)).Nodup) {f : Forward}
    (hf : f ∈ forwards) :
    quotedEndpoint ⟨ms, next⟩ outside forwards true f.protocol f.inside f.insidePort =
      some (outside, f.outsidePort) := by
  have hnone : ms.find? (fun m => m.protocol == f.protocol && m.outside == outside &&
      (m.inside == f.inside && m.port == f.insidePort)) = none := by
    rw [List.find?_eq_none]
    intro m hm hmatch
    simp only [Bool.and_eq_true, beq_iff_eq] at hmatch
    exact hfree m hm f hf hmatch.1.1.symm hmatch.2.1.symm hmatch.2.2.symm
  unfold quotedEndpoint
  simp only [if_true, hnone]
  rw [find?_eq_of_nodup (a := f) hnodup hf (by simp)]
  · rfl
  · intro b _ hb
    simp only [Bool.and_eq_true, beq_iff_eq] at hb
    rw [hb.1, hb.2.1, hb.2.2]

/-! ## The checksum of the packet that crossed -/

/-- The checksum of a segment before and after: they differ by the endpoint. -/
theorem cast_checksum_rewritten {ck : ℕ} (hp : Ipv4Header.parse p = some (h, seg))
    (ht : IsTransport h.protocol seg) (hr : Rewritten source ip port h p p')
    (hck : checksumPos h.protocol = some ck) (hv : Verifies h.protocol h.src h.dst seg) :
    ((wordAt seg ck).toNat : ZMod 65535) =
      ((wordAt (payload h p') ck).toNat : ZMod 65535) + endpointWeight h.protocol ip port -
        endpointWeight h.protocol (endpoint source p).1 (endpoint source p).2 := by
  obtain ⟨hh, h20, -⟩ := Ipv4Header.parse_eq_some hp
  obtain ⟨ck', hck', hckl, hs⟩ := hr.segment
  obtain rfl : ck' = ck := Option.some.inj (hck'.symm.trans hck)
  rw [payload_of_parse hp] at hs hckl
  obtain ⟨ck, hck₂, hpos, -, hapart⟩ := positions_of_isTransport source ht
  obtain rfl : ck' = ck := Option.some.inj (hck'.symm.trans hck₂)
  have hport : wordAt (payload h p') (portPos h.protocol source) = port := wordAt_eq hs.at_port
  have hport₀ : wordAt seg (portPos h.protocol source) = (endpoint source p).2 := by
    have hbyte (k : ℕ) (hk : k < seg.length) : seg.getD k 0 = p.getD (h.headerLen + k) 0 := by
      rw [List.getD_eq_getElem?_getD, List.getD_eq_getElem?_getD, getElem?_segment hp hk]
    rw [wordAt, hbyte _ (by omega), hbyte _ (by omega), endpoint, ← hh]
    rfl
  have hwords :=
    weight_of_words hs.length_eq (portPos_even h.protocol source) (checksumPos_even hck)
    hpos hckl hapart.symm fun k hk hk' => hs.same k hk hk'
  rw [hport, hport₀] at hwords
  have hsum := hv.cast ht.ne_zero
  have hsum' := hs.verifies.cast ht.ne_zero
  have hread := hr.read_eq h20
  have hsrc := congrArg Ipv4Header.src hread
  have hdst := congrArg Ipv4Header.dst hread
  dsimp only at hsrc hdst
  rw [← hh] at hsrc hdst
  have hold : (endpoint source p).1 = if source then h.src else h.dst := by
    rw [endpoint, ← hh]
  have htotal :
    ((weight true (payload h p') + (endpoint source p).2.toNat + (wordAt seg ck').toNat : ℕ)
      : ZMod 65535) = (weight true seg + port.toNat + (wordAt (payload h p') ck').toNat : ℕ) := by
    rw [hwords]
  unfold segmentWeight pseudoWeight at hsum hsum'
  unfold endpointWeight
  rw [hsrc, hdst, hs.length_eq] at hsum'
  push_cast at htotal
  by_cases h1 : h.protocol = 1
  · rw [if_pos h1] at hsum hsum' ⊢
    rw [if_pos h1]
    push_cast
    linear_combination htotal - hsum' + hsum
  · rw [if_neg h1] at hsum hsum' ⊢
    rw [if_neg h1, hold]
    push_cast at hsum hsum' ⊢
    cases source
    · simp only [Bool.false_eq_true, if_false] at hsum' ⊢
      linear_combination htotal - hsum' + hsum
    · simp only [if_true] at hsum' ⊢
      linear_combination htotal - hsum' + hsum

/-! ## Errors about a packet -/

/-- A valid ICMP error that quotes the first `m` bytes of a packet: its header
and at least eight bytes of what it carries. -/
structure ErrorAbout (q e : List Byte) (he : Ipv4Header) (se : List Byte) (m : ℕ) : Prop where
  parsed : Ipv4Header.parse e = some (he, se)
  whole : he.isFragment = false
  error : isIcmpError he se = true
  checked : validateTransport he se = true
  fits : 8 + m ≤ se.length
  quotes : ∀ k < m, se[8 + k]? = q[k]?
  enough : (Ipv4Header.read q).headerLen + 8 ≤ m

/-- A transport checksum that a sender writes: not the absent one of a datagram,
and the smaller word of zero elsewhere. -/
def IsCanonical (protocol : Byte) (checksum : UInt16) : Prop :=
  if protocol = 17 then checksum ≠ 0 else checksum.toNat ≠ 65535

/-- A translated error about a packet `p` that crossed in direction `source`: it
goes back the way `p` came, it is valid, and the `m` bytes that it quotes have the
endpoint of `p` and, as far as they are canonical, its checksums. -/
structure Restores (source : Bool) (p e' : List Byte) (he : Ipv4Header) (m : ℕ) : Prop where
  parsed : Ipv4Header.parse e' = some (Ipv4Header.read e', payload he e')
  message : internetChecksum (payload he e') = 0
  back : (if source then (Ipv4Header.read e').dst else (Ipv4Header.read e').src) =
    (endpoint source p).1
  same_endpoint : endpoint source ((payload he e').drop 8) = endpoint source p
  header_checksum : (wordAt p 10).toNat ≠ 65535 → wordAt ((payload he e').drop 8) 10 = wordAt p 10
  transport_checksum : ∀ ck, checksumPos (Ipv4Header.read p).protocol = some ck →
    (Ipv4Header.read p).headerLen + ck + 2 ≤ m →
    IsCanonical (Ipv4Header.read p).protocol (wordAt p ((Ipv4Header.read p).headerLen + ck)) →
    wordAt ((payload he e').drop 8) ((Ipv4Header.read p).headerLen + ck) =
      wordAt p ((Ipv4Header.read p).headerLen + ck)

theorem read_congr {l l' : List Byte} (h : ∀ k < 20, l[k]? = l'[k]?) :
    Ipv4Header.read l = Ipv4Header.read l' := by
  have hget (k : ℕ) (hk : k < 20) : l.getD k 0 = l'.getD k 0 := by
    rw [List.getD_eq_getElem?_getD, h k hk, ← List.getD_eq_getElem?_getD]
  unfold Ipv4Header.read
  rw [hget 0 (by omega), hget 1 (by omega), hget 2 (by omega), hget 3 (by omega),
    hget 4 (by omega), hget 5 (by omega), hget 6 (by omega), hget 7 (by omega),
    hget 8 (by omega), hget 9 (by omega), hget 10 (by omega), hget 11 (by omega),
    hget 12 (by omega), hget 13 (by omega), hget 14 (by omega), hget 15 (by omega),
    hget 16 (by omega), hget 17 (by omega), hget 18 (by omega), hget 19 (by omega)]

/-- The endpoint of a packet stands in its header and six bytes behind it. -/
theorem endpoint_congr {l l' : List Byte} (h20 : 20 ≤ (Ipv4Header.read l).headerLen)
    (h : ∀ k < (Ipv4Header.read l).headerLen + 8, l[k]? = l'[k]?) :
    endpoint source l = endpoint source l' := by
  have hread : Ipv4Header.read l = Ipv4Header.read l' := read_congr fun k hk => h k (by omega)
  have hpos := portPos_le (Ipv4Header.read l).protocol source
  unfold endpoint
  rw [← hread]
  simp only [List.getD_eq_getElem?_getD]
  rw [h _ (by omega), h _ (by omega)]

/-- A valid segment carries its checksum, unless it is a datagram without one. -/
theorem verifies_of_validateTransport {ck : ℕ} (hval : validateTransport h seg = true)
    (hck : checksumPos h.protocol = some ck) (hcan : IsCanonical h.protocol (wordAt seg ck)) :
    Verifies h.protocol h.src h.dst seg := by
  have h61 : ¬ (6 : Byte) = 1 := by decide
  have h171 : ¬ (17 : Byte) = 1 := by decide
  unfold validateTransport at hval
  unfold Verifies
  split_ifs at hval with h6 h17 h1
  · rw [h6, if_neg h61]
    simp only [Bool.and_eq_true, Tcp.verifyChecksum, beq_iff_eq] at hval
    exact hval.2.2
  · rw [h17] at hck hcan
    rw [h17, if_neg h171]
    obtain rfl : 6 = ck := Option.some.inj hck
    rw [Bool.and_eq_true] at hval
    obtain ⟨hparse, hsum⟩ := hval
    have hlen := Udp.UdpHeader.length_of_parse hparse
    have hbytes : slice seg 6 8 = some [seg.getD 6 0, seg.getD 7 0] := by
      rw [slice, if_pos ⟨by omega, hlen⟩, List.drop_take, take_drop_eq_word (by omega)]
    unfold Udp.verifyChecksum at hsum
    rw [hbytes] at hsum
    split at hsum
    · rename_i hzero
      simp only [Option.some.injEq, List.cons.injEq, and_true] at hzero
      unfold IsCanonical at hcan
      rw [if_pos rfl, wordAt, hzero.1, hzero.2] at hcan
      exact absurd rfl hcan
    · exact eq_of_beq hsum
    · cases hsum
  · rw [if_pos h1]
    simp only [Bool.and_eq_true, beq_iff_eq] at hval
    exact hval.2

/-- **The quoted transport checksum is the one that the packet had**, where a
sender would have written it. -/
theorem quotedSum_restores {ck : ℕ} (hp : Ipv4Header.parse p = some (h, seg))
    (hval : validateTransport h seg = true) (hr : Rewritten source ip port h p p')
    (hck : checksumPos h.protocol = some ck) (hcan : IsCanonical h.protocol (wordAt seg ck)) :
    quotedSum (wordAt (payload h p') ck) h.protocol ip (endpoint source p).1 port
      (endpoint source p).2 = wordAt seg ck := by
  have ht := isTransport_of_validateTransport hval
  obtain ⟨ck', hck', -, hs⟩ := hr.segment
  obtain rfl : ck' = ck := Option.some.inj (hck'.symm.trans hck)
  have hcast := cast_checksum_rewritten hp ht hr hck (verifies_of_validateTransport hval hck hcan)
  rw [← cast_quotedSum hs.datagram] at hcast
  have hlt := (wordAt seg ck').toNat_lt
  have hlt' := (quotedSum (wordAt (payload h p') ck') h.protocol ip (endpoint source p).1 port
    (endpoint source p).2).toNat_lt
  apply UInt16.toNat_inj.mp
  unfold IsCanonical at hcan
  by_cases h17 : h.protocol = 17
  · rw [if_pos h17] at hcan
    have hne := quotedSum_ne_zero ip (endpoint source p).1 port (endpoint source p).2
      (hs.datagram h17)
    rw [← h17] at hne
    refine eq_of_cast_eq_of_pos (m := 65535) ?_ (by omega) ?_ (by omega) hcast.symm
    · exact Nat.pos_of_ne_zero fun h0 => hne (UInt16.toNat_inj.mp h0)
    · exact Nat.pos_of_ne_zero fun h0 => hcan (UInt16.toNat_inj.mp h0)
  · rw [if_neg h17] at hcan
    have hne := quotedSum_ne_max ip (endpoint source p).1 (endpoint source p).2 h17
      (hs.largest h17)
    exact eq_of_cast_eq_of_lt (m := 65535) (by omega) (by omega) hcast.symm

/-- A quote of a packet that crossed can be looked up, by the endpoint that the
packet was given. -/
theorem quotable_of_rewritten {q : List Byte} (hv : Valid p h seg)
    (hr : Rewritten source ip port h p p') (hq : ∀ k < h.headerLen + 8, q[k]? = p'[k]?)
    (hlen : h.headerLen + 8 ≤ q.length) :
    Quotable q ∧ (Ipv4Header.read q).headerLen = h.headerLen ∧
      (Ipv4Header.read q).protocol = h.protocol ∧ endpoint source q = endpoint source p' := by
  obtain ⟨-, hver, h20, -⟩ := Ipv4Header.parse_eq_some_iff.mp hv.parsed
  have ht := isTransport_of_validateTransport hv.checked
  have hread : Ipv4Header.read q = Ipv4Header.read p' := read_congr fun k hk => hq k (by omega)
  obtain ⟨hversion, hhl, hproto⟩ := hr.fields hv.parsed
  rw [← hread] at hhl hproto
  refine ⟨⟨by rw [hread, hversion, hver], by omega, by omega, ?_, ?_⟩, hhl, hproto, ?_⟩
  · rw [hhl]
    have htake : q.take h.headerLen = p'.take h.headerLen := by
      refine List.ext_getElem? fun k => ?_
      rw [List.getElem?_take, List.getElem?_take]
      split_ifs with hk
      · exact hq k (by omega)
      · rfl
    rw [htake]
    exact hr.header
  · unfold HasPort
    rw [hproto, hhl]
    rcases ht with ⟨h6, -⟩ | ⟨h17, -⟩ | ⟨h1, hl⟩
    · exact Or.inl h6
    · exact Or.inr (Or.inl h17)
    · refine Or.inr (Or.inr ⟨h1, ?_⟩)
      have hlenseg := length_of_parse hv.parsed
      have hne : ¬ Edited source h h.headerLen := by
        have h4 : portPos h.protocol source = 4 := if_pos h1
        have hpos := addressPos_bounds source
        rintro (hk | hk | hk | ⟨ck, hck, hk⟩)
        · omega
        · omega
        · omega
        · rw [checksumPos, h1] at hck
          obtain rfl : 2 = ck := Option.some.inj hck
          omega
      have hhead : (q.drop h.headerLen).head? = seg.head? := by
        rw [List.head?_eq_getElem?, List.head?_eq_getElem?, List.getElem?_drop, Nat.add_zero,
          hq _ (by omega), hr.same _ hne, getElem?_segment hv.parsed (by omega), Nat.add_zero]
      unfold IsEcho
      rw [hhead]
      exact hv.echo h1
  · exact endpoint_congr (by omega) fun k hk => hq k (by omega)

theorem getElem?_address (source : Bool) {p : List Byte} (hlen : 20 ≤ p.length) :
    ∀ k < 4, p[addressPos source + k]? = (endpoint source p).1.bytes[k]? := by
  intro k hk
  have hpos := addressPos_bounds source
  rw [getElem?_eq_getD (by omega)]
  unfold endpoint addressPos
  obtain rfl | rfl | rfl | rfl : k = 0 ∨ k = 1 ∨ k = 2 ∨ k = 3 := by omega
  all_goals cases source <;> rfl

/-- Two valid headers that differ in the checksum alone have the same one, if
neither is the larger word of zero. -/
theorem header_checksum_unique {l l' : List Byte} (hlen : l'.length = l.length)
    (h20 : 20 ≤ l.length) (hsame : ∀ k, ¬ (10 ≤ k ∧ k < 12) → l'[k]? = l[k]?)
    (hl : internetChecksum l = 0) (hl' : internetChecksum l' = 0)
    (hcan : (wordAt l 10).toNat ≠ 65535) (hcan' : (wordAt l' 10).toNat ≠ 65535) :
    wordAt l' 10 = wordAt l 10 := by
  have hzero := ((internetChecksum_eq_zero_iff l).mp hl).1
  have hzero' := ((internetChecksum_eq_zero_iff l').mp hl').1
  have hfirst : wordAt l' 0 = wordAt l 0 := wordAt_congr fun k hk => hsame _ (by omega)
  have hwords := weight_of_words (i := 10) (j := 0) hlen rfl rfl (by omega) (by omega)
    (Or.inr (by omega)) fun k hk _ => hsame k hk
  rw [hfirst] at hwords
  have hcast : (((weight true l' + (wordAt l 10).toNat : ℕ)) : ZMod 65535) =
      ((weight true l + (wordAt l' 10).toNat : ℕ) : ZMod 65535) := by
    congr 1
    omega
  rw [Nat.cast_add, Nat.cast_add, hzero, hzero', zero_add, zero_add] at hcast
  have hlt := (wordAt l 10).toNat_lt
  have hlt' := (wordAt l' 10).toNat_lt
  apply UInt16.toNat_inj.mp
  exact eq_of_cast_eq_of_lt (m := 65535) (by omega) (by omega) hcast.symm

/-- Two packets whose headers differ in the checksum alone have the same one. -/
theorem checksum_of_take {l l' : List Byte} {hl : ℕ} (h20 : 20 ≤ hl) (hlen : hl ≤ l.length)
    (hlen' : hl ≤ l'.length) (hsame : ∀ k < hl, ¬ (10 ≤ k ∧ k < 12) → l'[k]? = l[k]?)
    (hsum : internetChecksum (l.take hl) = 0) (hsum' : internetChecksum (l'.take hl) = 0)
    (hcan : (wordAt l 10).toNat ≠ 65535) (hcan' : (wordAt l' 10).toNat ≠ 65535) :
    wordAt l' 10 = wordAt l 10 := by
  have hword (l : List Byte) : wordAt (l.take hl) 10 = wordAt l 10 :=
    wordAt_congr fun k hk => List.getElem?_take_of_lt (by omega)
  rw [← hword, ← hword l]
  refine header_checksum_unique ?_ ?_ ?_ hsum hsum' ((hword l).symm ▸ hcan)
    ((hword l').symm ▸ hcan')
  · rw [List.length_take, List.length_take]
    omega
  · rw [List.length_take]
    omega
  · intro k hk
    rw [List.getElem?_take, List.getElem?_take]
    split_ifs with hlt
    · exact hsame k hlt hk
    · rfl

/-- A quote that holds the checksum of a packet has it where the packet has it. -/
theorem quotedPos_of_checksumPos {q : List Byte} {hl ck : ℕ} (hck : checksumPos protocol = some ck)
    (hlen : hl + ck + 2 ≤ q.length) : quotedPos q hl protocol = some (hl + ck) := by
  unfold checksumPos at hck
  unfold quotedPos
  split_ifs at hck with h6 h17 h1
  · cases hck
    have hroom : hl + 18 ≤ q.length := hlen
    rw [if_neg (by rw [h6]; decide), if_pos ⟨h6, hroom⟩]
  · cases hck
    rw [if_pos h17]
  · cases hck
    rw [if_neg h17, if_neg (fun h => h6 h.1), if_pos h1]

section Restored

variable {e se e' : List Byte} {he : Ipv4Header} {m : ℕ}

/-- What stands behind the ICMP header of an error is what it quotes. -/
theorem ErrorAbout.getElem?_quoted {q : List Byte} (habout : ErrorAbout q e he se m) {k : ℕ}
    (hk : k < m) : (e.drop (he.headerLen + 8))[k]? = q[k]? := by
  have hfits := habout.fits
  have hselen := length_of_parse habout.parsed
  rw [← habout.quotes k hk, List.getElem?_drop, ← payload_of_parse habout.parsed,
    getElem?_payload e (by omega),
    Nat.add_assoc]

/-- If the quote is looked up as the endpoint that the packet had, the error is
translated with that endpoint. -/
theorem rewritten_of_lookup (hv : Valid p h seg) (hr : Rewritten source ip port h p p')
    (habout : ErrorAbout p' e he se m)
    (hlookup : quotedEndpoint n outside forwards (!source) h.protocol (endpoint source p').1
      (endpoint source p').2 = some (endpoint source p)) :
    ∃ e', translateError n e outside forwards (!source) = some (e', true) ∧
      ErrorRewritten (!source) h.headerLen h.protocol (endpoint source p').1 (endpoint source p).1
        (endpoint source p').2 (endpoint source p).2 he e e' := by
  obtain ⟨hh, hver, h20, -⟩ := Ipv4Header.parse_eq_some_iff.mp hv.parsed
  obtain ⟨-, -, he20, hele, hetot, -⟩ := Ipv4Header.parse_eq_some_iff.mp habout.parsed
  have hselen := length_of_parse habout.parsed
  obtain ⟨-, hhl', -⟩ := hr.fields hv.parsed
  have henough := habout.enough
  have hfits := habout.fits
  rw [hhl'] at henough
  have hQ (k : ℕ) (hk : k < m) : (se.drop 8)[k]? = p'[k]? := by
    rw [List.getElem?_drop, habout.quotes k hk]
  obtain ⟨hquot, hhl, hproto, hendQ⟩ := quotable_of_rewritten (q := se.drop 8) hv hr
    (fun k hk => hQ k (by omega)) (by rw [List.length_drop]; omega)
  have hfirst : e.getD (he.headerLen + 8) 0 ≠ 0 := by
    have h0 := habout.getElem?_quoted (show 0 < m by omega)
    rw [List.getElem?_drop, Nat.add_zero, hr.same_header h20 0 (by omega) ?_ (by omega)] at h0
    · rw [List.getD_eq_getElem?_getD, h0, ← List.getD_eq_getElem?_getD]
      intro hz
      have hz' : h.versionIhl = 0 := by
        rw [hh]
        exact hz
      rw [hz'] at hver
      exact absurd hver (by decide)
    · have hpos := addressPos_bounds source
      omega
  obtain ⟨e', he', hE⟩ := rewriteQuoted_spec (p := e) (h := he) (!source)
    h.protocol (endpoint source p').1 (endpoint source p).1 (endpoint source p').2
    (endpoint source p).2 he20 h20 (by omega) hetot hfirst
  refine ⟨e', ?_, hE⟩
  rw [translateError_of_quotable habout.parsed (by omega) (!source) hquot, Bool.not_not, hendQ,
    hproto, hlookup, hhl]
  simp only [he', Option.bind_eq_bind, Option.bind_some]
  rfl

/-- **What was translated with the endpoint of the packet** is about the packet as it was. -/
theorem restores_of_rewritten (hv : Valid p h seg) (hr : Rewritten source ip port h p p')
    (hend : endpoint source p' = (ip, port)) (habout : ErrorAbout p' e he se m)
    (hE : ErrorRewritten (!source) h.headerLen h.protocol (endpoint source p').1
      (endpoint source p).1
      (endpoint source p').2 (endpoint source p).2 he e e') : Restores source p e' he m := by
  obtain ⟨hh, -, h20, hle, htot, hpsum, hseg⟩ := Ipv4Header.parse_eq_some_iff.mp hv.parsed
  obtain ⟨hhe, -, he20, hele, hetot, -, hse⟩ := Ipv4Header.parse_eq_some_iff.mp habout.parsed
  have hselen := length_of_parse habout.parsed
  obtain ⟨-, hhl', -⟩ := hr.fields hv.parsed
  have henough := habout.enough
  have hfits := habout.fits
  rw [hhl'] at henough
  have hquote := hE.quote
  have haddress := hquote.address
  have hport := hquote.at_port
  have hsame := hquote.same
  rw [Bool.not_not] at haddress hport hsame
  have hpos := addressPos_bounds source
  have hppos := portPos_le h.protocol source
  have helen := hE.length_eq
  -- the quote in the message, and in the packet with its padding
  have hq' (k : ℕ) (hk : k < m) :
      ((payload he e').drop 8)[k]? = (e'.drop (he.headerLen + 8))[k]? := by
    rw [List.getElem?_drop, List.getElem?_drop, getElem?_payload e' (by omega), Nat.add_assoc]
  have hbounds {ck : ℕ} (hck : quotedPos (e.drop (he.headerLen + 8)) h.headerLen h.protocol =
      some ck) : h.headerLen + 2 ≤ ck := by
    have hb := (quotedPos_bounds (by rw [List.length_drop]; omega) hck).2
    omega
  have hhead (k : ℕ) (hk : k < h.headerLen)
      (ha : ¬ (addressPos source ≤ k ∧ k < addressPos source + 4)) (hc : ¬ (10 ≤ k ∧ k < 12)) :
      ((payload he e').drop 8)[k]? = p[k]? := by
    have hne : ¬ Edited source h k := by
      rintro (hk | hk | hk | ⟨ck, -, hk⟩) <;> omega
    rw [hq' k (by omega), hsame k ha hc (by omega), habout.getElem?_quoted (by omega),
      hr.same k hne]
    intro ck hck
    have := hbounds hck
    omega
  have hheadD (k : ℕ) (hk : k < 10) : ((payload he e').drop 8).getD k 0 = p.getD k 0 := by
    rw [List.getD_eq_getElem?_getD, hhead k (by omega) (by omega) (by omega),
      ← List.getD_eq_getElem?_getD]
  have haddr (k : ℕ) (hk : k < 4) : ((payload he e').drop 8)[addressPos source + k]? =
      (endpoint source p).1.bytes[k]? := by
    rw [hq' _ (by omega), haddress k hk]
  refine ⟨?_, hE.message, ?_, ?_, ?_, ?_⟩
  · have hpos' := addressPos_bounds (!source)
    refine parse_of_address (!source) (endpoint source p).1 habout.parsed ?_
      hE.address helen hE.header
    exact fun k hk => hE.same k (by omega)
  · have hread := read_of_address (!source) (endpoint source p).1
      (fun k hk => hE.same k (by omega)) hE.address
    have hsrc := congrArg Ipv4Header.src hread
    have hdst := congrArg Ipv4Header.dst hread
    dsimp only at hsrc hdst
    cases source
    · rw [if_neg Bool.false_ne_true, hsrc]
      rfl
    · rw [if_pos rfl, hdst]
      rfl
  · have hhl₂ : (Ipv4Header.read ((payload he e').drop 8)).headerLen = h.headerLen := by
      rw [hh]
      unfold Ipv4Header.headerLen Ipv4Header.read
      rw [hheadD 0 (by omega)]
    have hproto₂ : (Ipv4Header.read ((payload he e').drop 8)).protocol = h.protocol := by
      rw [hh]
      unfold Ipv4Header.read
      rw [hheadD 9 (by omega)]
    have hendpoint : endpoint source ((payload he e').drop 8) =
        ((endpoint source p).1, (endpoint source p).2) := by
      refine endpoint_eq hhl₂ hproto₂ haddr fun k hk => ?_
      rw [hq' _ (by omega), hport k hk]
    exact hendpoint
  · intro hcan
    have hword : wordAt (e'.drop (he.headerLen + 8)) 10 = wordAt ((payload he e').drop 8) 10 :=
      wordAt_congr fun k hk => (hq' _ (by omega)).symm
    have htake : ((payload he e').drop 8).take h.headerLen =
        (e'.drop (he.headerLen + 8)).take h.headerLen := by
      refine List.ext_getElem? fun k => ?_
      rw [List.getElem?_take, List.getElem?_take]
      split_ifs with hk
      · exact hq' k (by omega)
      · rfl
    refine checksum_of_take h20 (by omega) ?_ ?_ hpsum (htake ▸ hquote.header) hcan
      (hword ▸ hquote.canonical)
    · rw [List.length_drop, length_payload (by omega)]
      omega
    · intro k hlt hk
      by_cases ha : addressPos source ≤ k ∧ k < addressPos source + 4
      · have hold := getElem?_address source (p := p) (by omega) (k - addressPos source) (by omega)
        have hnew := haddr (k - addressPos source) (by omega)
        rw [Nat.add_sub_cancel' ha.1] at hold hnew
        rw [hold, hnew]
      · exact hhead k hlt ha hk
  · rw [← hh]
    intro ck hck hm hcan
    obtain ⟨ck', hck', hckl, -⟩ := hr.segment
    obtain rfl : ck' = ck := Option.some.inj (hck'.symm.trans hck)
    rw [length_payload htot] at hckl
    have hwordseg : wordAt p (h.headerLen + ck') = wordAt seg ck' := by
      refine wordAt_congr fun k hk => ?_
      rw [getElem?_segment hv.parsed (by rw [length_of_parse hv.parsed]; omega), Nat.add_assoc]
    have hwordcross : wordAt (e.drop (he.headerLen + 8)) (h.headerLen + ck') =
        wordAt (payload h p') ck' := by
      refine wordAt_congr fun k hk => ?_
      rw [habout.getElem?_quoted (by omega), getElem?_payload p' (by omega), Nat.add_assoc]
    have hsum := hquote.sum _ (quotedPos_of_checksumPos hck (by rw [List.length_drop]; omega))
    rw [hwordcross, hend, quotedSum_restores hv.parsed hv.checked hr hck (hwordseg ▸ hcan)] at hsum
    rw [hwordseg, ← hsum]
    exact wordAt_congr fun k hk => hq' _ (by omega)

/-- **An error is restored**: if the quote is looked up as the endpoint that the
packet had, what comes out is about the packet as it was. -/
theorem restores_of_lookup (hv : Valid p h seg)
    (hr : Rewritten source ip port h p p') (hend : endpoint source p' = (ip, port))
    (habout : ErrorAbout p' e he se m)
    (hlookup : quotedEndpoint n outside forwards (!source) h.protocol (endpoint source p').1
      (endpoint source p').2 = some (endpoint source p)) :
    ∃ e', translateError n e outside forwards (!source) = some (e', true) ∧
      Restores source p e' he m := by
  obtain ⟨e', he', hE⟩ := rewritten_of_lookup hv hr habout hlookup
  exact ⟨e', he', restores_of_rewritten hv hr hend habout hE⟩

end Restored

theorem cross_error {e se : List Byte} {he : Ipv4Header} (hp : Ipv4Header.parse e = some (he, se))
    (hwhole : he.isFragment = false) (herr : isIcmpError he se = true)
    (hval : validateTransport he se = true) (hout : source = true → outside.isUnspecified = false)
    (hin : source = false → he.dst = outside) :
    n.cross source e outside forwards now =
      (translateError (n.expire now) e outside forwards source).map fun r => (n.expire now, r) := by
  cases source
  · simp only [cross, Bool.false_eq_true, if_false]
    unfold inbound
    simp only [hp, hwhole, hin rfl, hval, herr, bne_self_eq_false, Bool.or_self, Bool.not_true,
      Bool.false_eq_true, if_false, if_true]
    cases translateError (n.expire now) e outside forwards false <;> rfl
  · simp only [cross, if_true]
    unfold outbound
    simp only [hp, hwhole, hout rfl, hval, herr, Bool.or_self, Bool.not_true, Bool.false_eq_true,
      if_false, if_true]
    cases translateError (n.expire now) e outside forwards true <;> rfl

/-- The inside endpoint of a packet that crossed: the source of what went out, the
new destination of what came in. -/
def insideOf (source : Bool) (protocol : Byte) (outside : Ipv4Addr) (p p' : List Byte) :
    Byte × Ipv4Addr × UInt16 × Ipv4Addr :=
  let inner := endpoint source (if source then p else p')
  (protocol, inner.1, inner.2, outside)

/-- **The lookup of a quote undoes the crossing**, for as long as the mapping of
the inside endpoint has not expired. -/
theorem lookup_of_cross {t : ℤ} {start : ℤ}
    (houtside : (forwards.map fun f => (f.protocol, f.outsidePort)).Nodup)
    (hinside : source = false →
      (forwards.map fun f => (f.protocol, f.inside, f.insidePort)).Nodup)
    (hrun : Run forwards (fun _ _ => True) NatTable.new start n t)
    (hp : Ipv4Header.parse p = some (h, seg)) (herr : isIcmpError h seg = false)
    (hcall : n.cross source p outside forwards now = some (n', p', true)) {n'' : NatTable} {t' : ℤ}
    (hrun' : Run forwards (Unexpired (insideOf source h.protocol outside p p')) n' now n'' t')
    {now' : ℤ} (hu : Unexpired (insideOf source h.protocol outside p p') n'' now') :
    quotedEndpoint (n''.expire now') outside forwards (!source) h.protocol (endpoint source p').1
      (endpoint source p').2 = some (endpoint source p) := by
  have hs := hrun.sound (sound_new forwards)
  have hfree : InsideFree forwards n.mappings :=
    hrun.insideFree fun m hm => absurd hm List.not_mem_nil
  obtain ⟨hturn, hkeeps⟩ := cross_turn _ hcall
  have hs'' : Sound forwards (n''.expire now').mappings :=
    (hrun'.sound ((hs.filter _).turn hturn)).filter _
  have hfree'' : InsideFree forwards (n''.expire now').mappings := fun m hm =>
    hrun'.insideFree (hkeeps hfree) m (List.mem_of_mem_filter hm)
  have hkept {external : UInt16}
      (hm : Maps n'.mappings (insideOf source h.protocol outside p p') external) :
      Maps (n''.expire now').mappings (insideOf source h.protocol outside p p') external :=
    Maps.expire (hrun'.maps hm) hu
  obtain ⟨-, -, ⟨f, hf, hproto, hsides⟩ | ⟨⟨src, inner⟩, external, hm, hsides⟩⟩ :=
    cross_ok hp herr hcall
  · cases source
    · obtain ⟨hfrom, hnew⟩ := Prod.mk.inj hsides
      rw [← hnew, ← hfrom, ← hproto]
      exact quotedEndpoint_forwarded_in hfree'' (hinside rfl) hf
    · obtain ⟨hfrom, hnew⟩ := Prod.mk.inj hsides
      rw [← hnew, ← hfrom, ← hproto]
      exact quotedEndpoint_forwarded_out hs'' houtside hf
  · cases source
    · obtain ⟨hfrom, hnew⟩ := Prod.mk.inj hsides
      have hkey : insideOf false h.protocol outside p p' = (h.protocol, src, inner, outside) := by
        simp [insideOf, ← hnew]
      rw [hkey] at hkept
      rw [← hnew, ← hfrom]
      exact quotedEndpoint_mapped_in hs'' (hkept hm)
    · obtain ⟨hfrom, hnew⟩ := Prod.mk.inj hsides
      have hkey : insideOf true h.protocol outside p p' = (h.protocol, src, inner, outside) := by
        simp [insideOf, ← hfrom]
      rw [hkey] at hkept
      rw [← hnew, ← hfrom]
      exact quotedEndpoint_mapped_out hs'' (hkept hm)

/-- **Quoted errors are translated exactly.**  For forwards with distinct outside
ports, in every table that a run reaches: when a packet crosses in either
direction, then a valid ICMP error that quotes its header and at least eight
bytes behind it crosses back, at any later time up to which the mapping of the
inside endpoint has not expired, and it is restored to the packet as it was.  On
the way out the outside address is a configured one, and no two forwards have the
same inside endpoint. -/
theorem errors_translated (forwards : List Forward)
    (houtside : (forwards.map fun f => (f.protocol, f.outsidePort)).Nodup) (start : ℤ)
    (n : NatTable) (t : ℤ) (hrun : Run forwards (fun _ _ => True) NatTable.new start n t)
    (source : Bool) (hinside : source = false →
      (forwards.map fun f => (f.protocol, f.inside, f.insidePort)).Nodup) :
    ∀ now ≥ t, ∀ (p p' seg : List Byte) (h : Ipv4Header) (outside : Ipv4Addr) (n' : NatTable),
      Ipv4Header.parse p = some (h, seg) → isIcmpError h seg = false →
      n.cross source p outside forwards now = some (n', p', true) →
      ∀ n'' t', Run forwards (Unexpired (insideOf source h.protocol outside p p')) n' now n'' t' →
        ∀ now' ≥ t', Unexpired (insideOf source h.protocol outside p p') n'' now' →
          ∀ (e se : List Byte) (he : Ipv4Header) (m : ℕ), ErrorAbout p' e he se m →
            (if source then he.dst = outside else outside.isUnspecified = false) →
            ∃ n₃ e', n''.cross (!source) e outside forwards now' = some (n₃, e', true) ∧
              Restores source p e' he m := by
  intro now hnow p p' seg h outside n' hp herr hcall n'' t' hrun' now' hnow' hu e se he
    m habout hway
  obtain ⟨hv, ⟨ip, port, hr⟩, -⟩ := cross_ok hp herr hcall
  have hend := endpoint_of_rewritten hp (isTransport_of_validateTransport hv.checked) hr
  have hlookup := lookup_of_cross houtside hinside hrun hp herr hcall hrun' hu
  obtain ⟨e', he', hrest⟩ := restores_of_lookup hv hr hend habout hlookup
  refine ⟨n''.expire now', e', ?_, hrest⟩
  rw [cross_error habout.parsed habout.whole habout.error habout.checked ?_ ?_, he']
  · rfl
  · intro hsource
    cases source
    · exact hway
    · cases hsource
  · intro hsource
    cases source
    · cases hsource
    · exact hway

/-- A port-unreachable error from 8.8.8.8 about the query as it left. -/
def queryError : List Byte :=
  [69, 0, 0, 56, 0, 2, 64, 0, 64, 1, 197, 112, 8, 8, 8, 8, 100, 65, 1, 2,
    3, 3, 118, 110, 0, 0, 0, 0,
    69, 0, 0, 31, 0, 1, 64, 0, 64, 17, 197, 122, 100, 65, 1, 2, 8, 8, 8, 8,
    192, 0, 0, 53, 0, 11, 198, 77]

/-- The error about the query, after a call that expires nothing. -/
theorem errors_translated_query :
    ∃ n₃ e', queryTable.cross false queryError ⟨100, 65, 1, 2⟩ [] 2 = some (n₃, e', true) ∧
      Restores true query e' (Ipv4Header.read queryError) 28 := by
  have hrun : Run [] (fun _ _ => True) NatTable.new 0 NatTable.new 0 := Run.refl _ _
  have hkey : insideOf true 17 ⟨100, 65, 1, 2⟩ query sentQuery =
      (17, ⟨192, 168, 1, 2⟩, 1234, ⟨100, 65, 1, 2⟩) := by decide +kernel
  have hquiet : Run [] (Unexpired (insideOf true 17 ⟨100, 65, 1, 2⟩ query sentQuery)) queryTable 0
      queryTable 1 := by
    refine Run.step Call.expire (Run.refl _ _) (by omega) ?_ (by decide +kernel)
    rw [hkey]
    unfold Unexpired
    decide +kernel
  have habout : ErrorAbout sentQuery queryError (Ipv4Header.read queryError) (queryError.drop 20)
      28 :=
    ⟨by decide +kernel, by decide +kernel, by decide +kernel, by decide +kernel, by decide +kernel,
      by decide +kernel, by decide +kernel⟩
  refine errors_translated [] List.nodup_nil 0 _ 0 hrun true (by simp) 0 le_rfl query sentQuery
    (query.drop 20) (Ipv4Header.read query) ⟨100, 65, 1, 2⟩ queryTable (by decide +kernel)
    (by decide +kernel) (by decide +kernel) queryTable 1 hquiet 2 (by omega) ?_ queryError
    (queryError.drop 20) (Ipv4Header.read queryError) 28 habout (by decide +kernel)
  rw [show (Ipv4Header.read query).protocol = 17 from by decide +kernel, hkey]
  unfold Unexpired
  decide +kernel

/-- A datagram from 192.168.1.2:1234 to 8.8.8.8:53 that has no checksum, under a
header whose checksum is the larger word of zero. -/
def plainQuery : List Byte :=
  [69, 0, 0, 29, 105, 22, 64, 0, 64, 17, 255, 255, 192, 168, 1, 2, 8, 8, 8, 8,
    4, 210, 0, 53, 0, 9, 0, 0, 7]

/-- It leaves with both checksums computed. -/
def sentPlainQuery : List Byte :=
  [69, 0, 0, 29, 105, 22, 64, 0, 64, 17, 92, 103, 100, 65, 1, 2, 8, 8, 8, 8,
    192, 0, 0, 53, 0, 9, 195, 83, 7]

/-- An error about it. -/
def plainError : List Byte :=
  [69, 0, 0, 56, 0, 2, 64, 0, 64, 1, 197, 112, 8, 8, 8, 8, 100, 65, 1, 2,
    3, 3, 121, 106, 0, 0, 0, 0,
    69, 0, 0, 29, 105, 22, 64, 0, 64, 17, 92, 103, 100, 65, 1, 2, 8, 8, 8, 8,
    192, 0, 0, 53, 0, 9, 195, 83]

/-- The error as it reaches the inside host. -/
def plainDelivered : List Byte :=
  [69, 0, 0, 56, 0, 2, 64, 0, 64, 1, 105, 9, 8, 8, 8, 8, 192, 168, 1, 2,
    3, 3, 213, 209, 0, 0, 0, 0,
    69, 0, 0, 29, 105, 22, 64, 0, 64, 17, 0, 0, 192, 168, 1, 2, 8, 8, 8, 8,
    4, 210, 0, 53, 0, 9, 34, 27]

/-- Two outside ports that are forwarded to one inside endpoint. -/
def sharedForwards : List Forward :=
  [⟨17, ⟨192, 168, 1, 2⟩, 53, 1053⟩, ⟨17, ⟨192, 168, 1, 2⟩, 53, 2053⟩]

/-- A datagram from 8.8.8.8:1234 to the second of them. -/
def sharedRequest : List Byte :=
  [69, 0, 0, 29, 0, 1, 64, 0, 64, 17, 197, 124, 8, 8, 8, 8, 100, 65, 1, 2,
    4, 210, 8, 5, 0, 9, 0, 0, 7]

/-- The datagram as it is delivered. -/
def sharedArrived : List Byte :=
  [69, 0, 0, 29, 0, 1, 64, 0, 64, 17, 105, 21, 8, 8, 8, 8, 192, 168, 1, 2,
    4, 210, 0, 53, 0, 9, 34, 27, 7]

/-- An error about it from the inside host. -/
def sharedError : List Byte :=
  [69, 0, 0, 56, 0, 2, 64, 0, 64, 1, 105, 9, 192, 168, 1, 2, 8, 8, 8, 8,
    3, 3, 213, 209, 0, 0, 0, 0,
    69, 0, 0, 29, 0, 1, 64, 0, 64, 17, 105, 21, 8, 8, 8, 8, 192, 168, 1, 2,
    4, 210, 0, 53, 0, 9, 34, 27]

/-- The error as it leaves: about a datagram to the first port. -/
def sharedSent : List Byte :=
  [69, 0, 0, 56, 0, 2, 64, 0, 64, 1, 197, 112, 100, 65, 1, 2, 8, 8, 8, 8,
    3, 3, 121, 106, 0, 0, 0, 0,
    69, 0, 0, 29, 0, 1, 64, 0, 64, 17, 197, 124, 8, 8, 8, 8, 100, 65, 1, 2,
    4, 210, 4, 29, 0, 9, 122, 154]

/-- A quote does not get back a checksum that no sender computes, nor the one of
two forwarded ports that the packet came in by, and once the mapping has expired
the error is refused. -/
theorem not_errors_translated :
    (∃ n', NatTable.new.cross true plainQuery ⟨100, 65, 1, 2⟩ [] 0 =
          some (n', sentPlainQuery, true) ∧
        ErrorAbout sentPlainQuery plainError (Ipv4Header.read plainError) (plainError.drop 20) 28 ∧
        n'.cross false plainError ⟨100, 65, 1, 2⟩ [] 1 = some (n', plainDelivered, true) ∧
        wordAt (plainDelivered.drop 28) 10 ≠ wordAt plainQuery 10 ∧
        wordAt (plainDelivered.drop 28) 26 ≠ 0 ∧ wordAt plainQuery 26 = 0 ∧
        n'.cross false plainError ⟨100, 65, 1, 2⟩ [] 300000 =
          some (n'.expire 300000, plainError, false)) ∧
      NatTable.new.cross false sharedRequest ⟨100, 65, 1, 2⟩ sharedForwards 0 =
          some (NatTable.new, sharedArrived, true) ∧
        ErrorAbout sharedArrived sharedError (Ipv4Header.read sharedError) (sharedError.drop 20)
          28 ∧
        NatTable.new.cross true sharedError ⟨100, 65, 1, 2⟩ sharedForwards 1 =
          some (NatTable.new, sharedSent, true) ∧
        endpoint false (sharedSent.drop 28) ≠ endpoint false sharedRequest := by
  refine ⟨⟨queryTable, by decide +kernel, ?_, by decide +kernel, by decide +kernel,
    by decide +kernel, by decide +kernel, by decide +kernel⟩, by decide +kernel, ?_,
    by decide +kernel, by decide +kernel⟩
  · exact ⟨by decide +kernel, by decide +kernel, by decide +kernel, by decide +kernel,
      by decide +kernel, by decide +kernel, by decide +kernel⟩
  · exact ⟨by decide +kernel, by decide +kernel, by decide +kernel, by decide +kernel,
      by decide +kernel, by decide +kernel, by decide +kernel⟩

end EvansComputer.Router.NatTable
