import EvansComputer.Router.NatPackets

/-!
# Quoted packets

An ICMP error quotes the packet it is about.  When the packet was translated on
its way to where the error arose, the error has to be translated back, and with
it the quote: its endpoint, the checksum of its header, and the transport
checksum if that much is quoted.

The header checksum is computed again.  The transport checksum cannot be, for its
segment is not there; it is adjusted word by word.  Both give the word that a
sender would have written, and they give back the word that was there unless that
was the other word of zero, or none at all.
-/

namespace EvansComputer.Router

variable {proto : Byte} {q : List Byte}

/-! ## Adjusted checksums -/

theorem adjust_eq_fold (checksum old new : UInt16) :
    adjust checksum old new = fold ((~~~ checksum).toNat + (~~~ old).toNat + new.toNat) := rfl

/-- **An adjusted checksum**: the new word takes the place of the old one. -/
theorem cast_adjust (checksum old new : UInt16) :
    ((adjust checksum old new).toNat : ZMod 65535) =
      (checksum.toNat : ZMod 65535) + old.toNat - new.toNat := by
  have hc := (~~~ checksum).toNat_lt
  have ho := (~~~ old).toNat_lt
  have hn := new.toNat_lt
  rw [adjust_eq_fold, cast_fold (by omega), Nat.cast_add, Nat.cast_add, cast_complement,
    cast_complement]
  ring

theorem adjust_eq_max {checksum old new : UInt16}
    (h : (adjust checksum old new).toNat = 65535) :
    checksum.toNat = 65535 ∧ old.toNat = 65535 := by
  have hc := (~~~ checksum).toNat_lt
  have ho := (~~~ old).toNat_lt
  have hn := new.toNat_lt
  have hc' := checksum.toNat_lt
  have ho' := old.toNat_lt
  rw [adjust_eq_fold, fold_eq_max_iff (by omega)] at h
  have h1 := toNat_complement checksum
  have h2 := toNat_complement old
  omega

/-- Where a quoted packet has its transport checksum, if it is translated. -/
def quotedPos (q : List Byte) (hl : ℕ) (proto : Byte) : Option ℕ :=
  if proto = 17 then some (hl + 6)
  else if proto = 6 ∧ hl + 18 ≤ q.length then some (hl + 16)
  else if proto = 1 then some (hl + 2)
  else none

/-- What is written over the transport checksum of a quoted packet. -/
def quotedSum (original : UInt16) (proto : Byte) (ip inside : Ipv4Addr) (id port : UInt16) :
    UInt16 :=
  if proto ≠ 17 ∨ original ≠ 0 then
    let sum :=
      if proto ≠ 1 then
        let sum := adjust original (u16FromBe ip.a ip.b) (u16FromBe inside.a inside.b)
        adjust sum (u16FromBe ip.c ip.d) (u16FromBe inside.c inside.d)
      else original
    let sum := adjust sum id port
    if proto = 17 ∧ sum = 0 then 65535 else sum
  else original

/-- The weight of the words that a transport checksum covers besides the segment's
other words: the address, unless the protocol is ICMP, and the port. -/
def endpointWeight (proto : Byte) (ip : Ipv4Addr) (port : UInt16) : ℕ :=
  (if proto = 1 then 0 else weight true ip.bytes) + port.toNat

/-- The new checksum covers the new endpoint in place of the old one. -/
theorem cast_quotedSum {original : UInt16} {ip inside : Ipv4Addr} {id port : UInt16}
    (h : proto = 17 → original ≠ 0) :
    ((quotedSum original proto ip inside id port).toNat : ZMod 65535) =
      (original.toNat : ZMod 65535) + endpointWeight proto ip id -
        endpointWeight proto inside port := by
  have hused : proto ≠ 17 ∨ original ≠ 0 := by
    by_cases h17 : proto = 17
    · exact Or.inr (h h17)
    · exact Or.inl h17
  unfold quotedSum endpointWeight
  rw [if_pos hused, weight_bytes, weight_bytes]
  dsimp only
  have hfix (sum : UInt16) :
      ((if proto = 17 ∧ sum = 0 then 65535 else sum : UInt16).toNat : ZMod 65535) = sum.toNat := by
    split_ifs with hz
    · rw [hz.2]
      rfl
    · rfl
  rw [hfix]
  by_cases h1 : proto = 1
  · rw [if_neg (not_not.mpr h1), if_pos h1, if_pos h1, cast_adjust]
    push_cast
    ring
  · rw [if_pos h1, if_neg h1, if_neg h1, cast_adjust, cast_adjust, cast_adjust]
    push_cast
    ring

theorem quotedSum_ne_zero {original : UInt16} (ip inside : Ipv4Addr) (id port : UInt16)
    (h : original ≠ 0) : quotedSum original 17 ip inside id port ≠ 0 := by
  unfold quotedSum
  rw [if_pos (Or.inr h)]
  dsimp only
  generalize adjust _ id port = sum
  by_cases hz : sum = 0
  · rw [if_pos ⟨rfl, hz⟩]
    decide
  · rwa [if_neg (fun hs => hz hs.2)]

/-- A checksum that a sender writes becomes one that a sender writes. -/
theorem quotedSum_ne_max {original : UInt16} (ip inside : Ipv4Addr) {id : UInt16} (port : UInt16)
    (h17 : proto ≠ 17) (h : original.toNat = 65535 → proto = 1 ∧ id = 0) :
    (quotedSum original proto ip inside id port).toNat ≠ 65535 := by
  intro hmax
  unfold quotedSum at hmax
  rw [if_pos (Or.inl h17)] at hmax
  dsimp only at hmax
  rw [if_neg (fun hz => h17 hz.1)] at hmax
  obtain ⟨hsum, hid⟩ := adjust_eq_max hmax
  have horig : original.toNat = 65535 := by
    by_cases h1 : proto = 1
    · rwa [if_neg (not_not.mpr h1)] at hsum
    · rw [if_pos h1] at hsum
      exact (adjust_eq_max (adjust_eq_max hsum).1).1
  rw [(h horig).2] at hid
  exact absurd hid (by decide)

/-- Where the transport checksum of a quote is, it lies in the quote behind the
header and its first six bytes, or at its third and fourth. -/
theorem quotedPos_bounds {hl ck : ℕ} (hlen : hl + 8 ≤ q.length)
    (h : quotedPos q hl proto = some ck) :
    ck + 2 ≤ q.length ∧ (proto = 1 ∧ ck = hl + 2 ∨ proto ≠ 1 ∧ hl + 6 ≤ ck) := by
  have h171 : ¬ (17 : Byte) = 1 := by decide
  have h61 : ¬ (6 : Byte) = 1 := by decide
  unfold quotedPos at h
  split_ifs at h with h17 h6 h1
  · cases h
    exact ⟨by omega, Or.inr ⟨by rw [h17]; exact h171, by omega⟩⟩
  · cases h
    exact ⟨by omega, Or.inr ⟨by rw [h6.1]; exact h61, by omega⟩⟩
  · cases h
    exact ⟨by omega, Or.inl ⟨h1, rfl⟩⟩

theorem quotedChecksum_eq (hl : ℕ) (proto : Byte) (ip inside : Ipv4Addr) (id port : UInt16) :
    quotedChecksum q hl proto ip inside id port =
      match quotedPos q hl proto with
      | none => some q
      | some ck => do
        let original := u16FromBe (← q[ck]?) (← q[ck + 1]?)
        if proto ≠ 17 ∨ original ≠ 0 then
          copyInto q ck (ck + 2) (u16ToBe (quotedSum original proto ip inside id port))
        else return q := by
  unfold quotedChecksum
  dsimp only
  rw [← quotedPos]
  cases quotedPos q hl proto with
  | none => rfl
  | some ck =>
    refine Option.bind_congr fun a _ => Option.bind_congr fun b _ => ?_
    by_cases hused : proto ≠ 17 ∨ u16FromBe a b ≠ 0
    · rw [if_pos hused, if_pos hused, quotedSum, if_pos hused]
    · rw [if_neg hused, if_neg hused]

/-- **Adjusting the quoted transport checksum** changes that word alone. -/
theorem quotedChecksum_spec (hl : ℕ) (proto : Byte) (ip inside : Ipv4Addr) (id port : UInt16)
    (hlen : hl + 8 ≤ q.length) :
    ∃ q', quotedChecksum q hl proto ip inside id port = some q' ∧ q'.length = q.length ∧
      (∀ k, (∀ ck, quotedPos q hl proto = some ck → ¬ (ck ≤ k ∧ k < ck + 2)) → q'[k]? = q[k]?) ∧
      ∀ ck, quotedPos q hl proto = some ck →
        wordAt q' ck = quotedSum (wordAt q ck) proto ip inside id port := by
  rw [quotedChecksum_eq]
  cases hpos : quotedPos q hl proto with
  | none => exact ⟨q, rfl, rfl, fun k _ => rfl, fun ck h => absurd h (by simp)⟩
  | some ck =>
    obtain ⟨hle, -⟩ := quotedPos_bounds hlen hpos
    have h0 : q[ck]? = some (q.getD ck 0) := getElem?_eq_getD (by omega)
    have h1 : q[ck + 1]? = some (q.getD (ck + 1) 0) := getElem?_eq_getD (by omega)
    simp only [h0, h1, Option.bind_eq_bind, Option.bind_some, Option.some.injEq,
      forall_eq', ← show wordAt q ck = u16FromBe (q.getD ck 0) (q.getD (ck + 1) 0) from rfl]
    by_cases hused : proto ≠ 17 ∨ wordAt q ck ≠ 0
    · rw [if_pos hused]
      obtain ⟨q', hq', hlen', hb⟩ := exists_copyInto q
        (d := u16ToBe (quotedSum (wordAt q ck) proto ip inside id port)) (i := ck) (j := ck + 2)
        rfl hle
      refine ⟨q', hq', hlen', ?_, ?_⟩
      · intro k hk
        rw [hb, if_neg hk]
      · refine wordAt_eq fun k hk => ?_
        rw [hb, if_pos (by omega), Nat.add_sub_cancel_left]
    · rw [if_neg hused]
      refine ⟨q, rfl, rfl, fun k _ => rfl, ?_⟩
      rw [quotedSum, if_neg hused]

/-! ## Rewritten errors -/

/-- What the translator leaves of a quoted packet. -/
structure QuoteRewritten (outbound : Bool) (hl : ℕ) (proto : Byte) (ip inside : Ipv4Addr)
    (id port : UInt16) (q q' : List Byte) : Prop where
  length_eq : q'.length = q.length
  address : ∀ k < 4, q'[addressPos (!outbound) + k]? = inside.bytes[k]?
  at_port : ∀ k < 2, q'[hl + portPos proto (!outbound) + k]? = (u16ToBe port)[k]?
  header : internetChecksum (q'.take hl) = 0
  canonical : (wordAt q' 10).toNat ≠ 65535
  sum : ∀ ck, quotedPos q hl proto = some ck →
    wordAt q' ck = quotedSum (wordAt q ck) proto ip inside id port
  same : ∀ k, ¬ (addressPos (!outbound) ≤ k ∧ k < addressPos (!outbound) + 4) →
    ¬ (10 ≤ k ∧ k < 12) →
    ¬ (hl + portPos proto (!outbound) ≤ k ∧ k < hl + portPos proto (!outbound) + 2) →
    (∀ ck, quotedPos q hl proto = some ck → ¬ (ck ≤ k ∧ k < ck + 2)) → q'[k]? = q[k]?

/-- What the translator leaves of an ICMP error. -/
structure ErrorRewritten (outbound : Bool) (hl : ℕ) (proto : Byte) (ip inside : Ipv4Addr)
    (id port : UInt16) (h : Ipv4Header) (p p' : List Byte) : Prop where
  length_eq : p'.length = p.length
  address : ∀ k < 4, p'[addressPos outbound + k]? = inside.bytes[k]?
  same : ∀ k < h.headerLen, ¬ (addressPos outbound ≤ k ∧ k < addressPos outbound + 4) →
    ¬ (10 ≤ k ∧ k < 12) → p'[k]? = p[k]?
  header : internetChecksum (p'.take h.headerLen) = 0
  message : internetChecksum (payload h p') = 0
  quote : QuoteRewritten outbound hl proto ip inside id port (p.drop (h.headerLen + 8))
    (p'.drop (h.headerLen + 8))

/-- The port of a quote lies in the first eight bytes behind its header, and apart
from its checksum. -/
theorem portPos_quoted {hl ck : ℕ} (source : Bool) (hlen : hl + 8 ≤ q.length)
    (h : quotedPos q hl proto = some ck) :
    ck + 2 ≤ hl + portPos proto source ∨ hl + portPos proto source + 2 ≤ ck := by
  obtain ⟨-, ⟨rfl, rfl⟩ | ⟨h1, hck⟩⟩ := quotedPos_bounds hlen h
  · left
    rfl
  · right
    unfold portPos
    rw [if_neg h1]
    split <;> omega

theorem portPos_le (proto : Byte) (source : Bool) : portPos proto source + 2 ≤ 6 := by
  unfold portPos
  split_ifs <;> omega

/-- **Rewriting an error**, in full. -/
theorem rewriteQuoted_spec {p : List Byte} {h : Ipv4Header} {hl : ℕ} (outbound : Bool)
    (proto : Byte) (ip inside : Ipv4Addr) (id port : UInt16) (h20 : 20 ≤ h.headerLen)
    (hl20 : 20 ≤ hl) (hroom : h.headerLen + 8 + hl + 8 ≤ h.totalLength.toNat)
    (htot : h.totalLength.toNat ≤ p.length) (hfirst : p.getD (h.headerLen + 8) 0 ≠ 0) :
    ∃ p', rewriteQuoted p h outbound hl proto ip inside id port = some p' ∧
      ErrorRewritten outbound hl proto ip inside id port h p p' := by
  obtain ⟨ha12, ha20⟩ := addressPos_bounds outbound
  obtain ⟨hb12, hb20⟩ := addressPos_bounds (!outbound)
  have hport := portPos_le proto (!outbound)
  have hpos : (if proto = 1 then hl + 4 else hl + (if outbound then 2 else 0)) =
      hl + portPos proto (!outbound) := by
    unfold portPos
    cases outbound <;> split_ifs <;> simp_all
  have haddr : (if outbound then 16 else 12) = addressPos (!outbound) := by
    cases outbound <;> rfl
  have houter : (if outbound then 12 else 16) = addressPos outbound := rfl
  unfold rewriteQuoted
  simp only [hpos, haddr, houter, Option.bind_eq_bind]
  obtain ⟨p₁, hp₁, hlen₁, hb₁⟩ := exists_copyInto p (d := inside.bytes)
    (i := addressPos outbound) (j := addressPos outbound + 4) rfl (by omega)
  obtain ⟨q, hq, hqlen, hqb⟩ := exists_slice p₁ (i := h.headerLen + 8) (j := p₁.length) (by omega)
    le_rfl
  have hqdrop : q = p.drop (h.headerLen + 8) := by
    refine List.ext_getElem? fun k => ?_
    rw [List.getElem?_drop]
    rcases Nat.lt_or_ge (h.headerLen + 8 + k) p₁.length with hk | hk
    · rw [hqb k hk, hb₁, if_neg (by omega)]
    · rw [List.getElem?_eq_none (by omega), List.getElem?_eq_none (by omega)]
  obtain ⟨q₁, hq₁, hqlen₁, hsame₁, hsum₁⟩ := quotedChecksum_spec (q := q) hl proto ip inside id port
    (by omega)
  obtain ⟨q₂, hq₂, hqlen₂, hqb₂⟩ := exists_copyInto q₁ (d := inside.bytes)
    (i := addressPos (!outbound)) (j := addressPos (!outbound) + 4) rfl (by omega)
  obtain ⟨q₃, hq₃, hqlen₃, hqb₃⟩ := exists_copyInto q₂ (d := u16ToBe port)
    (i := hl + portPos proto (!outbound)) (j := hl + portPos proto (!outbound) + 2) rfl (by omega)
  obtain ⟨q₄, qh, q₅, hq₄, hqh, hq₅, hqlen₅, hqb₅, hqsum, hqmax⟩ :=
    exists_checksum q₃ (i := 0) (j := hl) (c := 10) (e := 12) rfl (by omega) (by omega) (by omega)
      rfl
  obtain ⟨p₂, hp₂, hlen₂, hb₂⟩ := exists_copyInto p₁ (d := q₅) (i := h.headerLen + 8)
    (j := p₁.length) (by omega) le_rfl
  obtain ⟨p₃, m, p₄, hp₃, hm, hp₄, hlen₄, hb₄, hmsum, -⟩ :=
    exists_checksum p₂ (i := h.headerLen) (j := h.totalLength.toNat) (c := h.headerLen + 2)
      (e := h.headerLen + 4) rfl (by omega) (by omega) (by omega) (by rw [Nat.add_sub_cancel_left])
  obtain ⟨p₅, hd, p₆, hp₅, hhd, hp₆, hlen₆, hb₆, hhsum, -⟩ :=
    exists_checksum p₄ (i := 0) (j := h.headerLen) (c := 10) (e := 12) rfl (by omega) (by omega)
      (by omega) rfl
  refine ⟨p₆, ?_, ?_⟩
  · simp only [hp₁, hq, hq₁, hq₂, hq₃, hq₄, hqh, hq₅, hp₂, hp₃, hm, hp₄, hp₅, hhd, hp₆,
      Option.bind_some]
  -- the quote, and then the message and the outer header around it
  have hquote (k : ℕ) (hk : h.headerLen + 8 ≤ k) : p₆[k]? = q₅[k - (h.headerLen + 8)]? := by
    rw [hb₆ k (by omega), hb₄ k (by omega), hb₂]
    rcases Nat.lt_or_ge k p₁.length with hlt | hge
    · rw [if_pos ⟨hk, hlt⟩]
    · rw [if_neg (by omega), List.getElem?_eq_none hge, List.getElem?_eq_none (by omega)]
  have hdrop : p₆.drop (h.headerLen + 8) = q₅ := by
    refine List.ext_getElem? fun k => ?_
    rw [List.getElem?_drop, hquote _ (by omega), Nat.add_sub_cancel_left]
  refine ⟨by omega, ?_, ?_, ?_, ?_, ?_⟩
  · intro k hk
    rw [hb₆ _ (by omega), hb₄ _ (by omega), hb₂, if_neg (by omega), hb₁, if_pos (by omega),
      Nat.add_sub_cancel_left]
  · intro k hk ha hc
    rw [hb₆ k hc, hb₄ k (by omega), hb₂, if_neg (by omega), hb₁, if_neg ha]
  · simpa using hhsum
  · have hpay : payload h p₆ = payload h p₄ := by
      refine List.ext_getElem? fun k => ?_
      rcases Nat.lt_or_ge (h.headerLen + k) h.totalLength.toNat with hk | hk
      · rw [getElem?_payload p₆ hk, getElem?_payload p₄ hk, hb₆ _ (by omega)]
      · rw [List.getElem?_eq_none (by rw [length_payload (by omega)]; omega),
          List.getElem?_eq_none (by rw [length_payload (by omega)]; omega)]
    rw [hpay]
    exact hmsum
  rw [hdrop, ← hqdrop]
  refine ⟨by omega, ?_, ?_, by simpa using hqsum, ?_, ?_, ?_⟩
  · intro k hk
    rw [hqb₅ _ (by omega), hqb₃, if_neg (by omega), hqb₂, if_pos (by omega),
      Nat.add_sub_cancel_left]
  · intro k hk
    rw [hqb₅ _ (by omega), hqb₃, if_pos (by omega), Nat.add_sub_cancel_left]
  · refine hqmax 0 le_rfl (by omega) ?_
    have h0 : q₃.getD 0 0 = p.getD (h.headerLen + 8) 0 := by
      rw [List.getD_eq_getElem?_getD, hqb₃, if_neg (by omega), hqb₂, if_neg (by omega),
        hsame₁ _ ?_, hqdrop, List.getElem?_drop, ← List.getD_eq_getElem?_getD]
      intro ck hck
      have hbounds := (quotedPos_bounds (by omega) hck).2
      omega
    rwa [h0]
  · intro ck hck
    have hbounds := (quotedPos_bounds (by omega) hck).2
    have hapart := portPos_quoted (!outbound) (by omega) hck
    rw [← hsum₁ ck hck]
    refine wordAt_congr fun k hk => ?_
    rw [hqb₅ _ (by omega), hqb₃, if_neg (by omega), hqb₂, if_neg (by omega)]
  · intro k ha hc hpt hck
    rw [hqb₅ k hc, hqb₃, if_neg hpt, hqb₂, if_neg ha, hsame₁ k hck]

/-! ## Quotes that are translated -/

/-- A quoted packet with a port or an echo identifier. -/
def HasPort (q : List Byte) : Prop :=
  (Ipv4Header.read q).protocol = 6 ∨ (Ipv4Header.read q).protocol = 17 ∨
    (Ipv4Header.read q).protocol = 1 ∧ IsEcho (q.drop (Ipv4Header.read q).headerLen)

/-- A quote that the translator looks up: a valid header, eight bytes behind it,
and a port or an echo identifier among them. -/
structure Quotable (q : List Byte) : Prop where
  version : (Ipv4Header.read q).versionIhl >>> 4 = 4
  header_len : 20 ≤ (Ipv4Header.read q).headerLen
  enough : (Ipv4Header.read q).headerLen + 8 ≤ q.length
  checksum : internetChecksum (q.take (Ipv4Header.read q).headerLen) = 0
  has_port : HasPort q

/-- What the translator reads of a quote to look it up. -/
def quotedId (q : List Byte) (outbound : Bool) : Option (Option UInt16) :=
  if (Ipv4Header.read q).protocol = 6 ∨ (Ipv4Header.read q).protocol = 17 then do
    let portPos := (Ipv4Header.read q).headerLen + (if outbound then 2 else 0)
    let a ← q[portPos]?
    let b ← q[portPos + 1]?
    pure (some (u16FromBe a b))
  else identifier (Ipv4Header.read q).protocol (q.drop (Ipv4Header.read q).headerLen) true

/-- It is the port of the quoted endpoint. -/
theorem quotedId_of_hasPort (outbound : Bool) (hl : (Ipv4Header.read q).headerLen + 8 ≤ q.length)
    (hq : HasPort q) :
    quotedId q outbound = some (some (endpoint (!outbound) q).2) := by
  have h61 : ¬ (6 : Byte) = 1 := by decide
  have h171 : ¬ (17 : Byte) = 1 := by decide
  have h16 : ¬ (1 : Byte) = 6 := by decide
  have h117 : ¬ (1 : Byte) = 17 := by decide
  unfold quotedId endpoint
  dsimp only
  by_cases hport : (Ipv4Header.read q).protocol = 6 ∨ (Ipv4Header.read q).protocol = 17
  · have h1 : ¬ (Ipv4Header.read q).protocol = 1 := by
      rcases hport with h | h <;> rw [h]
      · exact h61
      · exact h171
    have hpos : portPos (Ipv4Header.read q).protocol (!outbound) = if outbound then 2 else 0 := by
      unfold portPos
      rw [if_neg h1]
      cases outbound <;> rfl
    have hle : (if outbound then 2 else 0) + 2 ≤ 8 := by split <;> omega
    rw [if_pos hport, hpos, getElem?_eq_getD (by omega), getElem?_eq_getD (by omega)]
    rfl
  · obtain ⟨h1, hecho⟩ : (Ipv4Header.read q).protocol = 1 ∧
        IsEcho (q.drop (Ipv4Header.read q).headerLen) := by
      rcases hq with h | h | h
      · exact absurd (Or.inl h) hport
      · exact absurd (Or.inr h) hport
      · exact h
    have hlen : 8 ≤ (q.drop (Ipv4Header.read q).headerLen).length := by
      rw [List.length_drop]
      omega
    rw [if_neg hport, identifier, identifierPos_eq_some.mpr ⟨rfl, Or.inr (Or.inr ⟨h1, hlen⟩),
      fun _ => hecho⟩]
    have hpos (source : Bool) : portPos (Ipv4Header.read q).protocol source = 4 := if_pos h1
    rw [hpos, hpos]
    simp only [List.getElem?_drop, Option.bind_eq_bind]
    rw [getElem?_eq_getD (by omega), getElem?_eq_getD (by omega)]
    rfl

theorem quotedId_of_not_hasPort (outbound : Bool) (hq : ¬ HasPort q) :
    quotedId q outbound = some none := by
  have hport : ¬ ((Ipv4Header.read q).protocol = 6 ∨ (Ipv4Header.read q).protocol = 17) :=
    fun h => hq (h.imp_right Or.inl)
  rw [quotedId, if_neg hport, identifier]
  cases hpos : identifierPos (Ipv4Header.read q).protocol
      (q.drop (Ipv4Header.read q).headerLen) true with
  | none => rfl
  | some pos =>
    obtain ⟨-, ht, hecho⟩ := identifierPos_eq_some.mp hpos
    rcases ht with ⟨h, -⟩ | ⟨h, -⟩ | ⟨h, -⟩
    · exact absurd (Or.inl h) hport
    · exact absurd (Or.inr h) hport
    · exact absurd (Or.inr (Or.inr ⟨h, hecho h⟩)) hq

section Translate

variable {n : NatTable} {p seg : List Byte} {h : Ipv4Header} {outside : Ipv4Addr}
  {forwards : List Forward}

/-- The translator, once it has read the quote. -/
theorem translateError_eq (hp : Ipv4Header.parse p = some (h, seg)) (h36 : 36 ≤ seg.length)
    (outbound : Bool) :
    translateError n p outside forwards outbound =
      if (Ipv4Header.read (seg.drop 8)).versionIhl >>> 4 ≠ 4 ∨
          (Ipv4Header.read (seg.drop 8)).headerLen < 20 ∨
          (seg.drop 8).length < (Ipv4Header.read (seg.drop 8)).headerLen + 8 ∨
          internetChecksum ((seg.drop 8).take (Ipv4Header.read (seg.drop 8)).headerLen) ≠ 0 then
        some (p, false)
      else do
        match ← quotedId (seg.drop 8) outbound with
        | none => return (p, false)
        | some id =>
          match quotedEndpoint n outside forwards outbound
              (Ipv4Header.read (seg.drop 8)).protocol
              (endpoint (!outbound) (seg.drop 8)).1 id with
          | none => return (p, false)
          | some (inside, port) =>
            return (← rewriteQuoted p h outbound (Ipv4Header.read (seg.drop 8)).headerLen
              (Ipv4Header.read (seg.drop 8)).protocol (endpoint (!outbound) (seg.drop 8)).1
              inside id port, true) := by
  have hlen : 28 ≤ (seg.drop 8).length := by
    rw [List.length_drop]
    omega
  unfold translateError
  rw [hp]
  dsimp only
  rw [if_neg (by omega)]
  generalize seg.drop 8 = q at hlen ⊢
  have haddr : (if outbound = true then 16 else 12) = addressPos (!outbound) := by
    cases outbound <;> rfl
  obtain ⟨-, hbound⟩ := addressPos_bounds (!outbound)
  obtain ⟨a, ha, halen, hab⟩ := exists_slice q (i := addressPos (!outbound))
    (j := addressPos (!outbound) + 4) (by omega) (by omega)
  have hip : Ipv4Addr.fromBytes a = (endpoint (!outbound) q).1 := by
    have haddr : addressAt a 0 = addressAt q (addressPos (!outbound)) :=
      addressAt_congr fun k hk => by rw [Nat.zero_add, hab k (by omega)]
    cases outbound <;> exact haddr
  have hfirst : q.getD 0 0 = (Ipv4Header.read q).versionIhl := rfl
  have hproto : q.getD 9 0 = (Ipv4Header.read q).protocol := rfl
  have hhl : ((Ipv4Header.read q).versionIhl &&& 15).toNat * 4 = (Ipv4Header.read q).headerLen :=
    rfl
  rw [getElem?_eq_getD (by omega), getElem?_eq_getD (by omega : 9 < q.length)]
  simp only [Option.bind_eq_bind, Option.bind_some, hfirst, hproto, hhl, haddr, ha, hip]
  refine ite_congr rfl (fun _ => rfl) fun _ => ?_
  unfold quotedId
  by_cases hport : (Ipv4Header.read q).protocol = 6 ∨ (Ipv4Header.read q).protocol = 17
  · rewrite [if_pos hport, if_pos hport]
    dsimp only
    generalize (Ipv4Header.read q).headerLen + (if outbound = true then 2 else 0) = pos
    cases q[pos]? with
    | none => rfl
    | some a => cases q[pos + 1]? <;> rfl
  · rewrite [if_neg hport, if_neg hport]
    rfl

/-- **A quote that can be looked up** is rewritten to the endpoint it stands for,
or the error is refused. -/
theorem translateError_of_quotable (hp : Ipv4Header.parse p = some (h, seg))
    (h36 : 36 ≤ seg.length) (outbound : Bool) (hq : Quotable (seg.drop 8)) :
    translateError n p outside forwards outbound =
      match quotedEndpoint n outside forwards outbound (Ipv4Header.read (seg.drop 8)).protocol
          (endpoint (!outbound) (seg.drop 8)).1 (endpoint (!outbound) (seg.drop 8)).2 with
      | none => some (p, false)
      | some (inside, port) => do
        return (← rewriteQuoted p h outbound (Ipv4Header.read (seg.drop 8)).headerLen
          (Ipv4Header.read (seg.drop 8)).protocol (endpoint (!outbound) (seg.drop 8)).1 inside
          (endpoint (!outbound) (seg.drop 8)).2 port, true) := by
  have hl := hq.enough
  have h20 := hq.header_len
  rw [translateError_eq hp h36, if_neg, quotedId_of_hasPort outbound hl hq.has_port]
  · rfl
  · simp only [hq.version, hq.checksum, ne_eq, not_true_eq_false, or_false, false_or,
      not_or, not_lt]
    exact ⟨h20, hl⟩

theorem translateError_of_not_quotable (hp : Ipv4Header.parse p = some (h, seg))
    (outbound : Bool) (hq : 36 ≤ seg.length → ¬ Quotable (seg.drop 8)) :
    translateError n p outside forwards outbound = some (p, false) := by
  rcases Nat.lt_or_ge seg.length 36 with hlt | hge
  · unfold translateError
    rw [hp]
    dsimp only
    rw [if_pos hlt]
  rw [translateError_eq hp hge]
  split_ifs with hbad
  · rfl
  simp only [not_or, not_not, not_lt] at hbad
  have hport : ¬ HasPort (seg.drop 8) :=
    fun hport => hq hge ⟨hbad.1, hbad.2.1, hbad.2.2.1, hbad.2.2.2, hport⟩
  rw [quotedId_of_not_hasPort outbound hport]
  rfl

/-- **An error is translated whole or not at all**, and nothing is read outside
it. -/
theorem translateError_total (n : NatTable) (outside : Ipv4Addr) (forwards : List Forward)
    (hp : Ipv4Header.parse p = some (h, seg)) (outbound : Bool) :
    ∃ p' ok, translateError n p outside forwards outbound = some (p', ok) ∧
      (ok = false → p' = p) := by
  by_cases hq : 36 ≤ seg.length ∧ Quotable (seg.drop 8)
  · obtain ⟨h36, hq⟩ := hq
    obtain ⟨-, h20, -, htot, -⟩ := Ipv4Header.parse_eq_some hp
    rw [translateError_of_quotable hp h36 outbound hq]
    cases quotedEndpoint n outside forwards outbound (Ipv4Header.read (seg.drop 8)).protocol
        (endpoint (!outbound) (seg.drop 8)).1 (endpoint (!outbound) (seg.drop 8)).2 with
    | none => exact ⟨p, false, rfl, fun _ => rfl⟩
    | some target =>
      have hlen := length_of_parse hp
      have henough := hq.enough
      rw [List.length_drop] at henough
      have hfirst : p.getD (h.headerLen + 8) 0 = (Ipv4Header.read (seg.drop 8)).versionIhl := by
        rw [List.getD_eq_getElem?_getD, ← getElem?_segment hp (by omega)]
        simp [Ipv4Header.read]
      have hne : p.getD (h.headerLen + 8) 0 ≠ 0 := by
        rw [hfirst]
        intro h0
        have hv := hq.version
        rw [h0] at hv
        exact absurd hv (by decide)
      obtain ⟨p', hp', -⟩ := rewriteQuoted_spec (p := p) (h := h) outbound
        (Ipv4Header.read (seg.drop 8)).protocol (endpoint (!outbound) (seg.drop 8)).1 target.1
        (endpoint (!outbound) (seg.drop 8)).2 target.2 h20 hq.header_len (by omega) htot hne
      refine ⟨p', true, ?_, by simp⟩
      simp only [hp', Option.bind_eq_bind, Option.bind_some]
      rfl
  · refine ⟨p, false, translateError_of_not_quotable hp outbound ?_, fun _ => rfl⟩
    exact fun h36 hquot => hq ⟨h36, hquot⟩

end Translate

end EvansComputer.Router
