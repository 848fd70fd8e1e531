import EvansComputer.Router.NatRewrite

/-!
# The translator keeps endpoints apart

Two inside endpoints never share an outside endpoint, and a reply to a
translated packet goes back to the endpoint that sent it.

`Turn` lists the three things a call does to the mappings that are left after
expiry: nothing, a refresh of one of them, or a new one whose outside endpoint is
free.  Each keeps `Sound`, and each keeps every mapping that has not expired.
`Looked` lists what comes of a packet whose port is looked up, in either
direction, and `cross_cases` says that a crossing refuses the packet, translates
an error, or looks up a port.
-/

namespace EvansComputer.Router

variable {protocol : Byte} {seg : List Byte} {h : Ipv4Header} {port external : UInt16}

/-! ## The port of a packet -/

theorem isTransport_of_validateTransport (hv : validateTransport h seg = true) :
    IsTransport h.protocol seg := by
  unfold validateTransport at hv
  split_ifs at hv with h6 h17 h1
  · rw [Bool.and_eq_true] at hv
    exact Or.inl ⟨h6, Tcp.WireHeader.length_of_parse hv.1⟩
  · rw [Bool.and_eq_true] at hv
    exact Or.inr (Or.inl ⟨h17, Udp.UdpHeader.length_of_parse hv.1⟩)
  · rw [Bool.and_eq_true, decide_eq_true_iff] at hv
    exact Or.inr (Or.inr ⟨h1, hv.1⟩)

/-- An ICMP segment that carries an identifier. -/
def IsEcho (seg : List Byte) : Prop := seg.head? = some 0 ∨ seg.head? = some 8

theorem identifierPos_eq_some {source : Bool} {pos : ℕ} :
    identifierPos protocol seg source = some pos ↔
      pos = portPos protocol source ∧ IsTransport protocol seg ∧ (protocol = 1 → IsEcho seg) := by
  have h61 : ¬ (6 : Byte) = 1 := by decide
  have h171 : ¬ (17 : Byte) = 1 := by decide
  have h16 : ¬ (1 : Byte) = 6 := by decide
  have h117 : ¬ (1 : Byte) = 17 := by decide
  have h176 : ¬ (17 : Byte) = 6 := by decide
  have h617 : ¬ (6 : Byte) = 17 := by decide
  unfold identifierPos portPos IsTransport IsEcho
  by_cases h6 : protocol = 6
  · subst h6
    simp only [h61, h617, true_and, false_and, if_false, or_false, false_imp_iff, and_true]
    split_ifs <;> simp_all [eq_comm]
  by_cases h17 : protocol = 17
  · subst h17
    simp only [h171, h176, true_and, false_and, if_false, or_false, false_or,
      false_imp_iff, and_true]
    split_ifs <;> simp_all [eq_comm]
  by_cases h1 : protocol = 1
  · subst h1
    simp only [h16, h117, true_and, false_and, if_false, if_true, false_or, true_imp_iff]
    split_ifs with hlen <;> simp_all [eq_comm]
  · simp [h6, h17, h1]

/-- **The identifier of a segment is the port of the packet's endpoint.** -/
theorem identifier_eq_some {p : List Byte} {source : Bool}
    (hp : Ipv4Header.parse p = some (h, seg)) :
    identifier h.protocol seg source = some (some port) ↔
      port = (endpoint source p).2 ∧ IsTransport h.protocol seg ∧
        (h.protocol = 1 → IsEcho seg) := by
  obtain ⟨hh, -, -, htot, -⟩ := Ipv4Header.parse_eq_some hp
  have hseglen := length_of_parse hp
  have hread (k : ℕ) (hk : k < seg.length) : seg[k]? = some (p.getD (h.headerLen + k) 0) := by
    rw [getElem?_segment hp hk, getElem?_eq_getD (by omega)]
  have hend : (endpoint source p).2 = u16FromBe (p.getD (h.headerLen + portPos h.protocol source) 0)
      (p.getD (h.headerLen + portPos h.protocol source + 1) 0) := by
    rw [endpoint, ← hh]
  unfold identifier
  cases hpos : identifierPos h.protocol seg source with
  | none =>
    have hno : ¬ (IsTransport h.protocol seg ∧ (h.protocol = 1 → IsEcho seg)) := by
      intro hyes
      have hsome : identifierPos h.protocol seg source = some _ :=
        identifierPos_eq_some.mpr ⟨rfl, hyes⟩
      rw [hpos] at hsome
      cases hsome
    simp only [Option.some.injEq, reduceCtorEq, false_iff]
    exact fun hyes => hno hyes.2
  | some pos =>
    obtain ⟨rfl, ht, he⟩ := identifierPos_eq_some.mp hpos
    obtain ⟨ck, -, hlen, -⟩ := positions_of_isTransport source ht
    simp only [hread _ (by omega : portPos h.protocol source < seg.length),
      hread _ (by omega : portPos h.protocol source + 1 < seg.length), Option.bind_eq_bind,
      Option.bind_some, ← Nat.add_assoc, ← hend]
    constructor
    · intro heq
      exact ⟨(Option.some.inj (Option.some.inj heq)).symm, ht, he⟩
    · rintro ⟨rfl, -⟩
      rfl

/-- The identifier of a segment of a known protocol is read inside it. -/
theorem exists_identifier (protocol : Byte) (seg : List Byte) (source : Bool) :
    ∃ id, identifier protocol seg source = some id := by
  unfold identifier
  cases hpos : identifierPos protocol seg source with
  | none => exact ⟨none, rfl⟩
  | some pos =>
    obtain ⟨rfl, ht, -⟩ := identifierPos_eq_some.mp hpos
    obtain ⟨ck, -, hlen, -⟩ := positions_of_isTransport source ht
    simp only [getElem?_eq_getD (by omega : portPos protocol source < seg.length),
      getElem?_eq_getD (by omega : portPos protocol source + 1 < seg.length)]
    exact ⟨_, rfl⟩

/-! ## Sound tables -/

/-- What a packet from outside is looked up by. -/
def Mapping.outsideKey (m : Mapping) : Byte × Ipv4Addr × UInt16 :=
  (m.protocol, m.outside, m.external)

/-- What a packet from inside is looked up by. -/
def Mapping.insideKey (m : Mapping) : Byte × Ipv4Addr × UInt16 × Ipv4Addr :=
  (m.protocol, m.inside, m.port, m.outside)

/-- No two mappings share an outside endpoint, no two stand for the same inside
endpoint, none has a forwarded port, and there are not too many. -/
structure Sound (forwards : List Forward) (ms : List Mapping) : Prop where
  outside_nodup : (ms.map Mapping.outsideKey).Nodup
  inside_nodup : (ms.map Mapping.insideKey).Nodup
  not_forwarded : ∀ m ∈ ms, ∀ f ∈ forwards, f.protocol = m.protocol → f.outsidePort ≠ m.external
  length_le : ms.length ≤ maxMappings

/-- No mapping stands for an inside endpoint that is forwarded. -/
def InsideFree (forwards : List Forward) (ms : List Mapping) : Prop :=
  ∀ m ∈ ms, ∀ f ∈ forwards, f.protocol = m.protocol → f.inside = m.inside → f.insidePort ≠ m.port

/-- What a call does to the mappings it did not expire. -/
inductive Turn (forwards : List Forward) (now : ℤ) (ms : List Mapping) : List Mapping → Prop
  | keep : Turn forwards now ms ms
  | refresh (i : ℕ) (m : Mapping) (seg : List Byte) :
      ms[i]? = some m → Turn forwards now ms (ms.set i (touch m seg now))
  | extend (m : Mapping) (seg : List Byte) :
      m.outsideKey ∉ ms.map Mapping.outsideKey → m.insideKey ∉ ms.map Mapping.insideKey →
      (∀ f ∈ forwards, f.protocol = m.protocol → f.outsidePort ≠ m.external) →
      ms.length < maxMappings → Turn forwards now ms (ms ++ [touch m seg now])

@[simp] theorem touch_outsideKey (m : Mapping) (seg : List Byte) (now : ℤ) :
    (touch m seg now).outsideKey = m.outsideKey := by
  unfold touch Mapping.outsideKey
  dsimp only
  split_ifs <;> rfl

@[simp] theorem touch_insideKey (m : Mapping) (seg : List Byte) (now : ℤ) :
    (touch m seg now).insideKey = m.insideKey := by
  unfold touch Mapping.insideKey
  dsimp only
  split_ifs <;> rfl

variable {forwards : List Forward} {now : ℤ} {ms ms' : List Mapping}

/-- Replacing a mapping by one with the same key changes no key. -/
theorem map_set_of_key {κ : Type*} (key : Mapping → κ) {i : ℕ} {m m' : Mapping}
    (hi : ms[i]? = some m) (hkey : key m' = key m) : (ms.set i m').map key = ms.map key := by
  obtain ⟨hlt, rfl⟩ := List.getElem?_eq_some_iff.mp hi
  have hlen : i < (ms.map key).length := by rwa [List.length_map]
  have hget : (ms.map key)[i] = key ms[i] := List.getElem_map key
  rw [List.map_set, hkey, ← hget, List.set_getElem_self]

theorem Sound.filter (h : Sound forwards ms) (p : Mapping → Bool) :
    Sound forwards (ms.filter p) where
  outside_nodup := h.outside_nodup.sublist (List.filter_sublist.map _)
  inside_nodup := h.inside_nodup.sublist (List.filter_sublist.map _)
  not_forwarded m hm := h.not_forwarded m (List.mem_of_mem_filter hm)
  length_le := (List.length_filter_le p ms).trans h.length_le

/-- The clause about forwards, through the outside keys. -/
theorem not_forwarded_iff :
    (∀ m ∈ ms, ∀ f ∈ forwards, f.protocol = m.protocol → f.outsidePort ≠ m.external) ↔
      ∀ k ∈ ms.map Mapping.outsideKey, ∀ f ∈ forwards, f.protocol = k.1 →
        f.outsidePort ≠ k.2.2 := by
  simp only [List.forall_mem_map, Mapping.outsideKey]

/-- **A turn keeps the table sound.** -/
theorem Sound.turn (h : Sound forwards ms) (ht : Turn forwards now ms ms') :
    Sound forwards ms' := by
  cases ht with
  | keep => exact h
  | refresh i m seg hi =>
    have hout := map_set_of_key Mapping.outsideKey hi (touch_outsideKey m seg now)
    have hin := map_set_of_key Mapping.insideKey hi (touch_insideKey m seg now)
    refine ⟨by rw [hout]; exact h.outside_nodup, by rw [hin]; exact h.inside_nodup, ?_, ?_⟩
    · rw [not_forwarded_iff, hout, ← not_forwarded_iff]
      exact h.not_forwarded
    · rw [List.length_set]
      exact h.length_le
  | extend m seg hout hin hf hlen =>
    refine ⟨?_, ?_, ?_, ?_⟩
    · rw [List.map_append, List.map_singleton, touch_outsideKey]
      exact h.outside_nodup.append (List.nodup_singleton _) (by simpa using hout)
    · rw [List.map_append, List.map_singleton, touch_insideKey]
      exact h.inside_nodup.append (List.nodup_singleton _) (by simpa using hin)
    · rw [not_forwarded_iff, List.map_append, List.map_singleton, touch_outsideKey]
      intro k hk
      rcases List.mem_append.mp hk with hk | hk
      · exact not_forwarded_iff.mp h.not_forwarded k hk
      · rw [List.mem_singleton.mp hk]
        exact hf
    · rw [List.length_append]
      exact hlen

/-- The outside endpoint that the table has for an inside one. -/
def Maps (ms : List Mapping) (inside : Byte × Ipv4Addr × UInt16 × Ipv4Addr) (external : UInt16) :
    Prop :=
  ∃ m ∈ ms, m.insideKey = inside ∧ m.external = external

/-- **A turn keeps every mapping.** -/
theorem Maps.turn {inside : Byte × Ipv4Addr × UInt16 × Ipv4Addr} (h : Maps ms inside external)
    (ht : Turn forwards now ms ms') : Maps ms' inside external := by
  have hiff (l : List Mapping) : Maps l inside external ↔
      (inside, external) ∈ l.map fun m => (m.insideKey, m.external) := by
    simp only [Maps, List.mem_map, Prod.mk.injEq]
  rw [hiff] at h ⊢
  cases ht with
  | keep => exact h
  | refresh i m seg hi =>
    have hkey : ((touch m seg now).insideKey, (touch m seg now).external) =
        (m.insideKey, m.external) := by
      have hout := congrArg (fun k => k.2.2) (touch_outsideKey m seg now)
      exact Prod.ext (touch_insideKey m seg now) hout
    rwa [map_set_of_key (fun m => (m.insideKey, m.external)) hi hkey]
  | extend m seg =>
    rw [List.map_append]
    exact List.mem_append_left _ h

/-! ## What a call does -/

namespace NatTable

theorem scan_free {free : UInt16 → Bool} {tries : ℕ} {next : UInt16}
    (h : (scan free tries next).2 = some port) : free port = true := by
  induction tries generalizing next with
  | zero => cases h
  | succ tries ih =>
    rw [scan] at h
    split_ifs at h with hfree
    · rwa [← Option.some.inj h]
    · exact ih h

theorem isFree_iff {outside : Ipv4Addr} :
    isFree ms forwards protocol outside port = true ↔
      (protocol, outside, port) ∉ ms.map Mapping.outsideKey ∧
        ∀ f ∈ forwards, f.protocol = protocol → f.outsidePort ≠ port := by
  simp only [isFree, Bool.and_eq_true, Bool.not_eq_true', List.any_eq_false, beq_iff_eq,
    List.mem_map, Mapping.outsideKey, Prod.mk.injEq, not_exists, not_and]
  constructor
  · rintro ⟨hm, hf⟩
    exact ⟨fun m hmem hp ho he => hm m hmem ⟨hp, he⟩ ho, hf⟩
  · rintro ⟨hm, hf⟩
    exact ⟨fun m hmem hpe ho => hm m hmem hpe.1 ho hpe.2, hf⟩

/-- The mapping of an inside endpoint: one that is there, or a new one at the
end with a free port. -/
theorem mappingFor_eq_some {n n' : NatTable} {src : Ipv4Addr} {outside : Ipv4Addr} {idx : ℕ}
    (h : n.mappingFor protocol src port outside forwards now = (n', some idx)) :
    ∃ m, n'.mappings[idx]? = some m ∧ m.insideKey = (protocol, src, port, outside) ∧
      (∀ x ∈ n'.mappings, x ∈ n.mappings ∨ x.insideKey = (protocol, src, port, outside)) ∧
      ∀ seg, Turn forwards now n.mappings (n'.mappings.set idx (touch m seg now)) := by
  unfold mappingFor at h
  dsimp only at h
  split at h
  case h_1 i hfound =>
    obtain ⟨rfl, hidx⟩ := Prod.mk.inj h
    obtain rfl := Option.some.inj hidx
    obtain ⟨hlt, hmatch, -⟩ := List.findIdx?_eq_some_iff_getElem.mp hfound
    refine ⟨n.mappings[i], List.getElem?_eq_getElem hlt, ?_, fun x hx => Or.inl hx, ?_⟩
    · simp only [Bool.and_eq_true, beq_iff_eq] at hmatch
      simp only [Mapping.insideKey, hmatch]
    · intro seg
      exact Turn.refresh i _ seg (List.getElem?_eq_getElem hlt)
  case h_2 hfound =>
    split_ifs at h with hfull
    · cases h
    split at h
    · cases h
    rename_i external hscan
    obtain ⟨rfl, hidx⟩ := Prod.mk.inj h
    obtain rfl := Option.some.inj hidx
    obtain ⟨hout, hfwd⟩ := isFree_iff.mp (scan_free hscan)
    rw [List.findIdx?_eq_none_iff] at hfound
    simp only [List.length_append, List.length_singleton, Nat.add_sub_cancel]
    refine ⟨_, List.getElem?_concat_length, rfl, ?_, ?_⟩
    · intro x hx
      rcases List.mem_append.mp hx with hx | hx
      · exact Or.inl hx
      · rw [List.mem_singleton.mp hx]
        exact Or.inr rfl
    intro seg
    rw [List.set_append_right _ _ le_rfl, Nat.sub_self, List.set_cons_zero]
    refine Turn.extend _ seg hout ?_ hfwd (by omega)
    intro hmem
    obtain ⟨m, hm, hkey⟩ := List.mem_map.mp hmem
    have hne := hfound m hm
    simp only [Mapping.insideKey, Prod.mk.injEq] at hkey
    simp [hkey] at hne

theorem mappingFor_eq_none {n n' : NatTable} {src : Ipv4Addr} {outside : Ipv4Addr}
    (h : n.mappingFor protocol src port outside forwards now = (n', none)) :
    n'.mappings = n.mappings := by
  unfold mappingFor at h
  dsimp only at h
  split at h
  · cases h
  split_ifs at h with hfull
  · rw [(Prod.mk.inj h).1]
  split at h
  · rw [← (Prod.mk.inj h).1]
  · cases h

variable {n n' : NatTable} {p p' seg : List Byte} {h : Ipv4Header} {port : UInt16}
  {outside : Ipv4Addr} {ok : Bool}

theorem insideFree_touch {ms : List Mapping} {m : Mapping} {idx : ℕ}
    (hf : InsideFree forwards ms) (hm : ms[idx]? = some m) :
    InsideFree forwards (ms.set idx (touch m seg now)) := by
  intro x hx f hff
  rcases List.mem_or_eq_of_mem_set hx with hx | rfl
  · exact hf x hx f hff
  · have hkey := touch_insideKey m seg now
    simp only [Mapping.insideKey, Prod.mk.injEq] at hkey
    rw [hkey.1, hkey.2.1, hkey.2.2.1]
    exact hf m (List.mem_of_getElem? hm) f hff

/-- A packet that the translator accepts for its port: a whole packet with a
valid TCP or UDP segment or ICMP echo message. -/
structure Valid (p : List Byte) (h : Ipv4Header) (seg : List Byte) : Prop where
  parsed : Ipv4Header.parse p = some (h, seg)
  whole : h.isFragment = false
  checked : validateTransport h seg = true
  echo : h.protocol = 1 → IsEcho seg

theorem Valid.not_icmpError (hv : Valid p h seg) : isIcmpError h seg = false := by
  by_cases h1 : h.protocol = 1
  · rcases hv.echo h1 with he | he <;> simp [isIcmpError, he]
  · simp [isIcmpError, h1]

/-- The endpoint that a packet has in direction `source`, and the one that it gets:
the inner and the outer one on its way out, and the other way around on its way
in. -/
def sides (source : Bool) (inner outer : Ipv4Addr × UInt16) :
    (Ipv4Addr × UInt16) × Ipv4Addr × UInt16 :=
  if source then (inner, outer) else (outer, inner)

/-- What comes of a packet whose port is looked up: it is refused, or it gets what
a forward or a mapping has for its endpoint. -/
inductive Looked (source : Bool) (n : NatTable) (p : List Byte) (h : Ipv4Header)
    (outside : Ipv4Addr) (forwards : List Forward) (now : ℤ) :
    Option (NatTable × List Byte × Bool) → Prop
  | unknown (n' : NatTable) : n'.mappings = n.mappings →
      Looked source n p h outside forwards now (some (n', p, false))
  | forward (f : Forward) (new : Ipv4Addr × UInt16) (p' : List Byte) :
      f ∈ forwards → f.protocol = h.protocol →
      sides source (f.inside, f.insidePort) (outside, f.outsidePort) = (endpoint source p, new) →
      Rewritten source new.1 new.2 h p p' →
      Looked source n p h outside forwards now (some (n, p', true))
  | mapping (m : Mapping) (new : Ipv4Addr × UInt16) (n' : NatTable) (p' : List Byte) :
      m ∈ n'.mappings → m.protocol = h.protocol → m.outside = outside →
      sides source (m.inside, m.port) (outside, m.external) = (endpoint source p, new) →
      Turn forwards now n.mappings n'.mappings →
      (InsideFree forwards n.mappings → InsideFree forwards n'.mappings) →
      Rewritten source new.1 new.2 h p p' →
      Looked source n p h outside forwards now (some (n', p', true))

section Looked

variable (n : NatTable) (forwards : List Forward) (now : ℤ) (outside : Ipv4Addr)
  (hp : Ipv4Header.parse p = some (h, seg)) (ht : IsTransport h.protocol seg)
include hp ht

theorem looked_outboundPort :
    Looked true n p h outside forwards now
      (n.outboundPort p h seg (endpoint true p).2 outside forwards now) := by
  have hsrc : (endpoint true p).1 = h.src := by
    rw [(Ipv4Header.parse_eq_some hp).1]
    rfl
  unfold outboundPort
  dsimp only
  split
  case h_1 f hfind =>
    obtain ⟨p', hp', hr⟩ := rewrite_rewritten hp ht true outside f.outsidePort
    have hmatch := List.find?_some hfind
    simp only [Bool.and_eq_true, beq_iff_eq] at hmatch
    rw [hp']
    refine Looked.forward f (outside, f.outsidePort) p' (List.mem_of_find?_eq_some hfind)
      hmatch.1.1 ?_ hr
    exact Prod.ext (Prod.ext (hmatch.1.2.trans hsrc.symm) hmatch.2) rfl
  case h_2 hnone =>
    split
    case h_1 n₁ hfull => exact Looked.unknown n₁ (mappingFor_eq_none hfull)
    case h_2 n₁ idx hsome =>
      obtain ⟨m, hm, hkey, hmem, hturn⟩ := mappingFor_eq_some hsome
      obtain ⟨p', hp', hr⟩ := rewrite_rewritten hp ht true outside (touch m seg now).external
      have hfree (hf : InsideFree forwards n.mappings) : InsideFree forwards n₁.mappings := by
        intro x hx f hff hproto hinside hport
        rcases hmem x hx with hx | hkey
        · exact hf x hx f hff hproto hinside hport
        · simp only [Mapping.insideKey, Prod.mk.injEq] at hkey
          have hno := List.find?_eq_none.mp hnone f hff
          simp [hproto, hinside, hport, hkey] at hno
      rw [← touch_insideKey m seg now] at hkey
      simp only [Mapping.insideKey, Prod.mk.injEq] at hkey
      obtain ⟨hproto, hinside, hport, hout⟩ := hkey
      simp only [hm, hp', Option.bind_eq_bind, Option.bind_some]
      refine Looked.mapping (touch m seg now) (outside, (touch m seg now).external) _ p' ?_ hproto
        hout ?_ (hturn seg) (fun hf => insideFree_touch (hfree hf) hm) hr
      · exact List.mem_of_getElem? (List.getElem?_set_self (List.getElem?_eq_some_iff.mp hm).1)
      · exact Prod.ext (Prod.ext (hinside.trans hsrc.symm) hport) rfl

theorem looked_inboundPort (hdst : h.dst = outside) :
    Looked false n p h outside forwards now
      (n.inboundPort p h seg (endpoint false p).2 outside forwards now) := by
  have haddr : (endpoint false p).1 = outside := by
    rw [← hdst, (Ipv4Header.parse_eq_some hp).1]
    rfl
  unfold inboundPort
  dsimp only
  split
  case h_1 f hfind =>
    obtain ⟨p', hp', hr⟩ := rewrite_rewritten hp ht false f.inside f.insidePort
    have hmatch := List.find?_some hfind
    simp only [Bool.and_eq_true, beq_iff_eq] at hmatch
    rw [hp']
    refine Looked.forward f (f.inside, f.insidePort) p' (List.mem_of_find?_eq_some hfind) hmatch.1
      ?_ hr
    exact Prod.ext (Prod.ext haddr.symm hmatch.2) rfl
  case h_2 =>
    split
    · exact Looked.unknown n rfl
    case h_2 idx hfound =>
      obtain ⟨hlt, hmatch, -⟩ := List.findIdx?_eq_some_iff_getElem.mp hfound
      simp only [Bool.and_eq_true, beq_iff_eq] at hmatch
      have hm := List.getElem?_eq_getElem hlt
      generalize n.mappings[idx] = m at hmatch hm
      obtain ⟨p', hp', hr⟩ := rewrite_rewritten hp ht false (touch m seg now).inside
        (touch m seg now).port
      have hkey := touch_outsideKey m seg now
      simp only [Mapping.outsideKey, Prod.mk.injEq, hmatch] at hkey
      simp only [hm, hp', Option.bind_eq_bind, Option.bind_some]
      refine Looked.mapping (touch m seg now) ((touch m seg now).inside, (touch m seg now).port) _
        p' ?_ hkey.1 hkey.2.1 ?_ (Turn.refresh idx m seg hm) (fun hf => insideFree_touch hf hm) hr
      · exact List.mem_of_getElem? (List.getElem?_set_self hlt)
      · exact Prod.ext (Prod.ext haddr.symm hkey.2.2) rfl

end Looked

/-- A packet that crosses the outside interface, on its way out when `source` is
to be translated and on its way in otherwise. -/
def cross (n : NatTable) (source : Bool) (p : List Byte) (outside : Ipv4Addr)
    (forwards : List Forward) (now : ℤ) : Option (NatTable × List Byte × Bool) :=
  if source then n.outbound p outside forwards now else n.inbound p outside forwards now

/-- **What a crossing comes to**, on the table without what has expired: the packet
is refused, or it is an error about another one, or its port is looked up. -/
theorem cross_cases (n : NatTable) (source : Bool) (p : List Byte) (outside : Ipv4Addr)
    (forwards : List Forward) (now : ℤ) :
    n.cross source p outside forwards now = some (n.expire now, p, false) ∨
      (∃ h seg, Ipv4Header.parse p = some (h, seg) ∧ isIcmpError h seg = true ∧
        n.cross source p outside forwards now =
          (translateError (n.expire now) p outside forwards source).bind
            fun r => some (n.expire now, r)) ∨
      ∃ h seg, Valid p h seg ∧
        Looked source (n.expire now) p h outside forwards now
          (n.cross source p outside forwards now) := by
  cases source
  all_goals
    simp only [cross, Bool.false_eq_true, if_true, if_false]
    first | unfold outbound | unfold inbound
    dsimp only
    split
    · exact Or.inl rfl
    rename_i h seg hp
    split_ifs with hfrag hval herr
    · exact Or.inl rfl
    · exact Or.inl rfl
    · exact Or.inr (Or.inl ⟨h, seg, hp, herr, rfl⟩)
    simp only [Bool.or_eq_true, not_or, Bool.not_eq_true, bne_iff_ne, ne_eq, not_not] at hfrag
    replace hval : validateTransport h seg = true := by simpa using hval
  · obtain ⟨id, hid⟩ := exists_identifier h.protocol seg false
    simp only [hid, Option.bind_eq_bind, Option.bind_some]
    cases id with
    | none => exact Or.inl rfl
    | some port =>
      obtain ⟨rfl, ht, hecho⟩ := (identifier_eq_some hp).mp hid
      exact Or.inr (Or.inr ⟨h, seg, ⟨hp, hfrag.1, hval, hecho⟩,
        looked_inboundPort _ forwards now outside hp ht hfrag.2⟩)
  · obtain ⟨id, hid⟩ := exists_identifier h.protocol seg true
    simp only [hid, Option.bind_eq_bind, Option.bind_some]
    cases id with
    | none => exact Or.inl rfl
    | some port =>
      obtain ⟨rfl, ht, hecho⟩ := (identifier_eq_some hp).mp hid
      exact Or.inr (Or.inr ⟨h, seg, ⟨hp, hfrag.1, hval, hecho⟩,
        looked_outboundPort _ forwards now outside hp ht⟩)

/-- What a crossing does to the table. -/
theorem cross_turn (source : Bool)
    (hcall : n.cross source p outside forwards now = some (n', p', ok)) :
    Turn forwards now (n.expire now).mappings n'.mappings ∧
      (InsideFree forwards n.mappings → InsideFree forwards n'.mappings) := by
  have hexpire (hf : InsideFree forwards n.mappings) :
      InsideFree forwards (n.expire now).mappings := fun m hm => hf m (List.mem_of_mem_filter hm)
  obtain heq | ⟨h, seg, -, -, heq⟩ | ⟨h, seg, -, hlooked⟩ :=
    cross_cases n source p outside forwards now
  · rw [hcall] at heq
    cases heq
    exact ⟨Turn.keep, hexpire⟩
  · rw [hcall] at heq
    obtain ⟨r, -, hr⟩ := Option.bind_eq_some_iff.mp heq.symm
    cases hr
    exact ⟨Turn.keep, hexpire⟩
  · rw [hcall] at hlooked
    cases hlooked with
    | unknown _ hsame =>
      rw [hsame]
      exact ⟨Turn.keep, hexpire⟩
    | forward => exact ⟨Turn.keep, hexpire⟩
    | mapping m new _ _ _ _ _ _ hturn hfree => exact ⟨hturn, fun hf => hfree (hexpire hf)⟩

/-! ## Translated packets -/

/-- **What crosses is valid, and what comes out is a rewriting of it.**  A forward or
a mapping has the new endpoint for the old one. -/
theorem cross_ok {source : Bool} (hp : Ipv4Header.parse p = some (h, seg))
    (herr : isIcmpError h seg = false)
    (hcall : n.cross source p outside forwards now = some (n', p', true)) :
    Valid p h seg ∧ (∃ ip port, Rewritten source ip port h p p') ∧
      ((∃ f ∈ forwards, f.protocol = h.protocol ∧
          sides source (f.inside, f.insidePort) (outside, f.outsidePort) =
            (endpoint source p, endpoint source p')) ∨
        ∃ inner external, Maps n'.mappings (h.protocol, inner.1, inner.2, outside) external ∧
          sides source inner (outside, external) = (endpoint source p, endpoint source p')) := by
  obtain heq | ⟨h', seg', hp', herr', -⟩ | ⟨h', seg', hv, hlooked⟩ :=
    cross_cases n source p outside forwards now
  · rw [hcall] at heq
    cases heq
  · rw [hp] at hp'
    cases hp'
    rw [herr] at herr'
    cases herr'
  · have hp' := hv.parsed
    rw [hp] at hp'
    cases hp'
    have ht := isTransport_of_validateTransport hv.checked
    rw [hcall] at hlooked
    cases hlooked with
    | forward f new _ hf hproto hsides hr =>
      refine ⟨hv, ⟨_, _, hr⟩, Or.inl ⟨f, hf, hproto, ?_⟩⟩
      rw [endpoint_of_rewritten hp ht hr, hsides]
    | mapping m new _ _ hm hproto hout hsides _ _ hr =>
      refine ⟨hv, ⟨_, _, hr⟩, Or.inr ⟨(m.inside, m.port), m.external, ⟨m, hm, ?_, rfl⟩, ?_⟩⟩
      · rw [Mapping.insideKey, hproto, hout]
      · rw [endpoint_of_rewritten hp ht hr, hsides]

/-- A packet for the outside address reaches the lookup of its port. -/
theorem Valid.inbound_eq (hv : Valid p h seg) (hdst : endpoint false p = (outside, port)) :
    n.inbound p outside forwards now =
      (n.expire now).inboundPort p h seg port outside forwards now := by
  have ht := isTransport_of_validateTransport hv.checked
  have hid : identifier h.protocol seg false = some (some port) :=
    (identifier_eq_some hv.parsed).mpr ⟨by rw [hdst], ht, hv.echo⟩
  have hout : h.dst = outside := by
    rw [(Ipv4Header.parse_eq_some hv.parsed).1]
    exact congrArg Prod.fst hdst
  unfold inbound
  simp only [hv.parsed, hv.whole, hout, hv.checked, hv.not_icmpError, hid, bne_self_eq_false,
    Bool.or_self, Bool.not_true, Bool.false_eq_true, if_false]
  rfl

/-- The search of a list finds a member if the members that match agree on a key
that is all different. -/
theorem find?_eq_of_nodup {α κ : Type*} {l : List α} {key : α → κ} {pred : α → Bool} {a : α}
    (hnodup : (l.map key).Nodup) (ha : a ∈ l) (hpred : pred a = true)
    (hkey : ∀ b ∈ l, pred b = true → key b = key a) : l.find? pred = some a := by
  cases hfound : l.find? pred with
  | none =>
    have hno := List.find?_eq_none.mp hfound a ha
    exact absurd hpred hno
  | some b =>
    have hb := List.mem_of_find?_eq_some hfound
    rw [List.inj_on_of_nodup_map hnodup hb ha (hkey b hb (List.find?_some hfound))]

/-- A packet to a forwarded port goes to the endpoint behind it. -/
theorem Valid.inbound_forward (hv : Valid p h seg)
    (hnodup : (forwards.map fun f => (f.protocol, f.outsidePort)).Nodup) {f : Forward}
    (hf : f ∈ forwards) (hproto : f.protocol = h.protocol)
    (hdst : endpoint false p = (outside, f.outsidePort)) :
    ∃ n' p', n.inbound p outside forwards now = some (n', p', true) ∧
      endpoint false p' = (f.inside, f.insidePort) := by
  have ht := isTransport_of_validateTransport hv.checked
  have hfind :
    forwards.find? (fun g => g.protocol == h.protocol && g.outsidePort == f.outsidePort) =
      some f := by
    refine find?_eq_of_nodup hnodup hf (by simp [hproto]) fun g _ hg => ?_
    simp only [Bool.and_eq_true, beq_iff_eq] at hg
    rw [hg.1, hg.2, hproto]
  obtain ⟨p', hp', hr⟩ := rewrite_rewritten hv.parsed ht false f.inside f.insidePort
  refine ⟨n.expire now, p', ?_, endpoint_of_rewritten hv.parsed ht hr⟩
  rw [hv.inbound_eq hdst, inboundPort]
  simp only [hfind, hp']
  rfl

/-- A packet to a mapped port goes to the endpoint it stands for. -/
theorem Valid.inbound_mapping (hv : Valid p h seg) (hs : Sound forwards (n.expire now).mappings)
    {src : Ipv4Addr} {inner : UInt16}
    (hm : Maps (n.expire now).mappings (h.protocol, src, inner, outside) external)
    (hdst : endpoint false p = (outside, external)) :
    ∃ n' p', n.inbound p outside forwards now = some (n', p', true) ∧
      endpoint false p' = (src, inner) := by
  have ht := isTransport_of_validateTransport hv.checked
  obtain ⟨m, hmem, hkey, rfl⟩ := hm
  simp only [Mapping.insideKey, Prod.mk.injEq] at hkey
  obtain ⟨hproto, rfl, rfl, hout⟩ := hkey
  have hnone : forwards.find? (fun f => f.protocol == h.protocol && f.outsidePort == m.external) =
      none := by
    rw [List.find?_eq_none]
    intro f hf hmatch
    simp only [Bool.and_eq_true, beq_iff_eq] at hmatch
    exact hs.not_forwarded m hmem f hf (hmatch.1.trans hproto.symm) hmatch.2
  rw [hv.inbound_eq hdst, inboundPort]
  generalize (n.expire now).mappings = ms at hs hmem ⊢
  cases hfound : ms.findIdx? fun m' =>
      m'.protocol == h.protocol && m'.outside == outside && m'.external == m.external with
  | none =>
    rw [List.findIdx?_eq_none_iff] at hfound
    have hno := hfound m hmem
    simp [hproto, hout] at hno
  | some idx =>
    obtain ⟨hlt, hmatch, -⟩ := List.findIdx?_eq_some_iff_getElem.mp hfound
    simp only [Bool.and_eq_true, beq_iff_eq] at hmatch
    have hkey : ms[idx].outsideKey = m.outsideKey := by
      simp only [Mapping.outsideKey, hmatch, hproto, hout]
    have hidx : ms[idx] = m :=
      List.inj_on_of_nodup_map hs.outside_nodup (List.getElem_mem hlt) hmem hkey
    have hget : ms[idx]? = some m := by rw [List.getElem?_eq_getElem hlt, hidx]
    have hin := touch_insideKey m seg now
    simp only [Mapping.insideKey, Prod.mk.injEq] at hin
    obtain ⟨p', hp', hr⟩ := rewrite_rewritten hv.parsed ht false (touch m seg now).inside
      (touch m seg now).port
    have hend := endpoint_of_rewritten hv.parsed ht hr
    rw [hin.2.1, hin.2.2.1] at hend
    refine ⟨⟨ms.set idx (touch m seg now), (n.expire now).next⟩, p', ?_, hend⟩
    simp only [hnone, hget, hp', Option.bind_eq_bind, Option.bind_some]
    rfl

/-! ## Runs -/

/-- The calls of a router on its translator. -/
inductive Call where
  | outbound (p : List Byte) (outside : Ipv4Addr)
  | inbound (p : List Byte) (outside : Ipv4Addr)
  | expire

/-- The table after a call. -/
def call (n : NatTable) (forwards : List Forward) (now : ℤ) : Call → Option NatTable
  | .outbound p outside => (n.outbound p outside forwards now).map Prod.fst
  | .inbound p outside => (n.inbound p outside forwards now).map Prod.fst
  | .expire => some (n.expire now)

/-- Calls from one table and time to another, the clock never going back, each
made on a table and at a time that `P` holds of. -/
inductive Run (forwards : List Forward) (P : NatTable → ℤ → Prop) :
    NatTable → ℤ → NatTable → ℤ → Prop
  | refl (n : NatTable) (t : ℤ) : Run forwards P n t n t
  | step {n n₁ n₂ : NatTable} {t t₁ t₂ : ℤ} (c : Call) :
      Run forwards P n t n₁ t₁ → t₁ ≤ t₂ → P n₁ t₂ → n₁.call forwards t₂ c = some n₂ →
      Run forwards P n t n₂ t₂

/-- The mapping of an inside endpoint, if there is one, has not expired. -/
def Unexpired (inside : Byte × Ipv4Addr × UInt16 × Ipv4Addr) (n : NatTable) (now : ℤ) : Prop :=
  ∀ m ∈ n.mappings, m.insideKey = inside → now < m.expires

theorem call_turn {c : Call} (hc : n.call forwards now c = some n') :
    Turn forwards now (n.expire now).mappings n'.mappings ∧
      (InsideFree forwards n.mappings → InsideFree forwards n'.mappings) := by
  cases c with
  | outbound p outside =>
    obtain ⟨⟨n₁, p₁, ok⟩, hcall, rfl⟩ := Option.map_eq_some_iff.mp hc
    exact cross_turn true hcall
  | inbound p outside =>
    obtain ⟨⟨n₁, p₁, ok⟩, hcall, rfl⟩ := Option.map_eq_some_iff.mp hc
    exact cross_turn false hcall
  | expire =>
    cases hc
    exact ⟨Turn.keep, fun hf m hm => hf m (List.mem_of_mem_filter hm)⟩

theorem Run.sound {P : NatTable → ℤ → Prop} {t t' : ℤ} (hrun : Run forwards P n t n' t')
    (hn : Sound forwards n.mappings) : Sound forwards n'.mappings := by
  induction hrun with
  | refl => exact hn
  | step c _ _ _ hc ih => exact (ih.filter _).turn (call_turn hc).1

/-- **A forwarded endpoint never gets a mapping.** -/
theorem Run.insideFree {P : NatTable → ℤ → Prop} {t t' : ℤ} (hrun : Run forwards P n t n' t')
    (hn : InsideFree forwards n.mappings) : InsideFree forwards n'.mappings := by
  induction hrun with
  | refl => exact hn
  | step c _ _ _ hc ih => exact (call_turn hc).2 ih

theorem sound_new (forwards : List Forward) : Sound forwards NatTable.new.mappings where
  outside_nodup := List.nodup_nil
  inside_nodup := List.nodup_nil
  not_forwarded _ hm := absurd hm List.not_mem_nil
  length_le := Nat.zero_le _

theorem Maps.expire {inside : Byte × Ipv4Addr × UInt16 × Ipv4Addr}
    (hm : Maps n.mappings inside external) (hu : Unexpired inside n now) :
    Maps (n.expire now).mappings inside external := by
  obtain ⟨m, hmem, hkey, hext⟩ := hm
  exact ⟨m, List.mem_filter.mpr ⟨hmem, decide_eq_true (hu m hmem hkey)⟩, hkey, hext⟩

/-- A mapping stays where it is for as long as it has not expired. -/
theorem Run.maps {inside : Byte × Ipv4Addr × UInt16 × Ipv4Addr} {t t' : ℤ}
    (hrun : Run forwards (Unexpired inside) n t n' t') (hm : Maps n.mappings inside external) :
    Maps n'.mappings inside external := by
  induction hrun with
  | refl => exact hm
  | step c _ _ hu hc ih => exact (Maps.expire ih hu).turn (call_turn hc).1

/-- **The translator is injective, and a reply undoes it.**  For forwards with
distinct outside ports: every table that a run reaches is sound; and when a
packet that is not an ICMP error is translated on its way out, from an inside
endpoint to an outside one, then a valid packet of the same protocol to that
outside endpoint is translated to the inside endpoint, at any later time up to
which the mapping has not expired. -/
theorem translation_inverted (forwards : List Forward)
    (hnodup : (forwards.map fun f => (f.protocol, f.outsidePort)).Nodup) (start : ℤ)
    (n : NatTable) (t : ℤ) (hrun : Run forwards (fun _ _ => True) NatTable.new start n t) :
    Sound forwards n.mappings ∧
      ∀ now ≥ t, ∀ (p p' seg : List Byte) (h : Ipv4Header) (outside : Ipv4Addr) (n' : NatTable),
        Ipv4Header.parse p = some (h, seg) → isIcmpError h seg = false →
        n.outbound p outside forwards now = some (n', p', true) →
        (endpoint true p').1 = outside ∧
        ∀ n'' t', Run forwards (Unexpired (h.protocol, h.src, (endpoint true p).2, outside))
            n' now n'' t' →
          ∀ now' ≥ t', Unexpired (h.protocol, h.src, (endpoint true p).2, outside) n'' now' →
            ∀ (q segq : List Byte) (hq : Ipv4Header), Valid q hq segq →
              hq.protocol = h.protocol → endpoint false q = endpoint true p' →
              ∃ n₃ q', n''.inbound q outside forwards now' = some (n₃, q', true) ∧
                endpoint false q' = endpoint true p := by
  have hs := hrun.sound (sound_new forwards)
  refine ⟨hs, ?_⟩
  intro now hnow p p' seg h outside n' hp herr hcall
  have hsrc : (endpoint true p).1 = h.src := by
    rw [(Ipv4Header.parse_eq_some hp).1]
    rfl
  have hcross : n.cross true p outside forwards now = some (n', p', true) := hcall
  have hs' : Sound forwards n'.mappings := (hs.filter _).turn (cross_turn _ hcross).1
  obtain ⟨-, -, ⟨f, hf, hproto, hsides⟩ | ⟨inner, external, hm, hsides⟩⟩ :=
    cross_ok hp herr hcross
  · obtain ⟨hinside, hend⟩ := Prod.mk.inj hsides
    refine ⟨by rw [← hend], ?_⟩
    intro n'' t' _ now' _ _ q segq hq hv hqproto hq'
    rw [← hend] at hq'
    rw [← hinside]
    exact hv.inbound_forward hnodup hf (hproto.trans hqproto.symm) hq'
  · obtain ⟨rfl, hend⟩ := Prod.mk.inj hsides
    refine ⟨by rw [← hend], ?_⟩
    intro n'' t' hrun' now' _ hu q segq hq hv hqproto hq'
    rw [← hend] at hq'
    rw [hsrc] at hm
    have hm' := Maps.expire (hrun'.maps hm) hu
    rw [← hqproto] at hm'
    obtain ⟨n₃, q', hin, hback⟩ :=
      hv.inbound_mapping ((hrun'.sound hs').filter _) hm' hq'
    exact ⟨n₃, q', hin, by rw [hback, ← hsrc]⟩

/-- A datagram from 192.168.1.2:1234 to 8.8.8.8:53. -/
def query : List Byte :=
  [69, 0, 0, 31, 0, 1, 64, 0, 64, 17, 105, 19, 192, 168, 1, 2, 8, 8, 8, 8,
    4, 210, 0, 53, 0, 11, 37, 21, 1, 2, 3]

/-- The datagram as it leaves, from 100.65.1.2:49152. -/
def sentQuery : List Byte :=
  [69, 0, 0, 31, 0, 1, 64, 0, 64, 17, 197, 122, 100, 65, 1, 2, 8, 8, 8, 8,
    192, 0, 0, 53, 0, 11, 198, 77, 1, 2, 3]

/-- A reply to it. -/
def reply : List Byte :=
  [69, 0, 0, 31, 0, 1, 64, 0, 64, 17, 197, 122, 8, 8, 8, 8, 100, 65, 1, 2,
    0, 53, 192, 0, 0, 11, 198, 77, 1, 2, 3]

/-- The table between the two. -/
def queryTable : NatTable :=
  ⟨[{ protocol := 17
      inside := ⟨192, 168, 1, 2⟩
      port := 1234
      outside := ⟨100, 65, 1, 2⟩
      external := 49152
      expires := 300000
      established := false
      closing := false }], 49153⟩

/-- A reply to a query, after a call that expires nothing. -/
theorem translation_inverted_reply :
    ∃ n q, queryTable.inbound reply ⟨100, 65, 1, 2⟩ [] 2 = some (n, q, true) ∧
      endpoint false q = (⟨192, 168, 1, 2⟩, 1234) := by
  have hrun : Run [] (fun _ _ => True) NatTable.new 0 NatTable.new 0 := Run.refl _ _
  have hinv := (translation_inverted [] List.nodup_nil 0 _ 0 hrun).2 0 le_rfl query sentQuery
    (query.drop 20) (Ipv4Header.read query) ⟨100, 65, 1, 2⟩ queryTable (by decide +kernel)
    (by decide +kernel) (by decide +kernel)
  have hquiet : Run [] (Unexpired (17, ⟨192, 168, 1, 2⟩, 1234, ⟨100, 65, 1, 2⟩)) queryTable 0
      queryTable 1 := by
    refine Run.step Call.expire (Run.refl _ _) (by omega) ?_ (by decide +kernel)
    unfold Unexpired
    decide +kernel
  refine hinv.2 queryTable 1 hquiet 2 (by omega) ?_ reply (reply.drop 20) (Ipv4Header.read reply)
    ⟨by decide +kernel, by decide +kernel, by decide +kernel, fun h => absurd h (by decide +kernel)⟩
    (by decide +kernel) (by decide +kernel)
  unfold Unexpired
  decide +kernel

end EvansComputer.Router.NatTable
