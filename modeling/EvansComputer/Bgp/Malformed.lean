import EvansComputer.Bgp.Loops
import EvansComputer.Bgp.RoundTrip
import EvansComputer.Bgp.Segmentation

/-!
# Malformed UPDATEs

An UPDATE that the decoder refuses is read a second time, by a parser that looks only
at its prefixes.  What the message lists is said here from its bytes (`Lists`), without
either parser: the prefixes of the two fields and of the two reachability attributes.
The second parser finds all of them, or nothing at all; so the prefixes of the message
are gone from the table of the peer, and nothing of it is there, whether its session goes
on or is reset.
-/

namespace EvansComputer.Bgp

variable {data rest values v : List Byte} {pfx : Prefix} {ps ps' : List Prefix} {kind : Byte}

/-! ## What a message lists -/

/-- A prefix in a field, before whatever there cannot be one. -/
inductive ListsIn : List Byte → Prefix → Prop
  | head {bits : Byte} {bytes rest rest' : List Byte} (hbits : bits ≤ 32)
      (h : splitOff ((bits.toNat + 7) / 8) rest = some (bytes, rest')) :
      ListsIn (bits :: rest) (.new (Ipv4Addr.fromBytes bytes) bits)
  | tail {bits : Byte} {bytes rest rest' : List Byte} {pfx : Prefix} (hbits : bits ≤ 32)
      (h : splitOff ((bits.toNat + 7) / 8) rest = some (bytes, rest')) (hrest : ListsIn rest' pfx) :
      ListsIn (bits :: rest) pfx

/-- An attribute among others, before whatever there cannot be one. -/
inductive AttributeIn : List Byte → Byte → List Byte → Prop
  | head {data rest v : List Byte} {flags kind : Byte}
      (h : readHeader data = some (flags, kind, v, rest)) : AttributeIn data kind v
  | tail {data rest v v' : List Byte} {flags kind kind' : Byte}
      (h : readHeader data = some (flags, kind', v', rest)) (hrest : AttributeIn rest kind v) :
      AttributeIn data kind v

/-- The fields of an UPDATE that list IPv4 unicast prefixes. -/
inductive Field (body : List Byte) : List Byte → Prop
  | withdrawn {w values rest : List Byte} (h : splitUpdate body = some (w, values, rest)) :
      Field body w
  | nlri {w values rest : List Byte} (h : splitUpdate body = some (w, values, rest)) :
      Field body rest
  | mpReach {w values rest v hop nlri : List Byte} {n reserved : Byte}
      (h : splitUpdate body = some (w, values, rest))
      (hattr : AttributeIn values 14 (0 :: 1 :: 1 :: n :: v))
      (hhop : splitOff n.toNat v = some (hop, reserved :: nlri)) : Field body nlri
  | mpUnreach {w values rest withdrawn : List Byte} (h : splitUpdate body = some (w, values, rest))
      (hattr : AttributeIn values 15 (0 :: 1 :: 1 :: withdrawn)) : Field body withdrawn

/-- The prefix is listed in a field of the UPDATE. -/
def Lists (body : List Byte) (pfx : Prefix) : Prop := ∃ field, Field body field ∧ ListsIn field pfx

/-! ## The second parser -/

theorem mem_of_readAll_prefixItem (h : readAll prefixItem ps data = .ok ps') (hp : pfx ∈ ps) :
    pfx ∈ ps' := by
  refine readAll_invariant (P := fun ps => pfx ∈ ps) (fun ps l ps' rest hp hitem => ?_) hp h
  obtain ⟨-, q, -, rfl⟩ := prefixItem_eq_ok hitem
  exact List.mem_append_left _ hp

theorem prefixItem_of_splitOff {bits : Byte} {bytes rest' : List Byte} (hbits : bits ≤ 32)
    (h : splitOff ((bits.toNat + 7) / 8) rest = some (bytes, rest')) :
    prefixItem ps (bits :: rest) =
      .ok (ps ++ [.new (Ipv4Addr.fromBytes bytes) bits], rest') := by
  rw [prefixItem, if_neg (UInt8.not_lt.mpr hbits), h]

theorem mem_of_listsIn (hlists : ListsIn data pfx) (h : readAll prefixItem ps data = .ok ps') :
    pfx ∈ ps' := by
  induction hlists generalizing ps with
  | head hbits hsplit =>
    rw [readAll_step consumes_prefixItem (prefixItem_of_splitOff hbits hsplit)] at h
    exact mem_of_readAll_prefixItem h (List.mem_append_right _ (List.mem_singleton_self _))
  | tail hbits hsplit _ ih =>
    rw [readAll_step consumes_prefixItem (prefixItem_of_splitOff hbits hsplit)] at h
    exact ih h

theorem malformedItem_eq_ok (h : malformedItem ps data = .ok (ps', rest)) :
    ∃ flags kind v qs, readHeader data = some (flags, kind, v, rest) ∧ ps' = ps ++ qs ∧
      (kind = 14 → ∃ a b c d r nlri, v = 0 :: 1 :: 1 :: 4 :: a :: b :: c :: d :: r :: nlri ∧
        prefixes nlri = .ok qs) ∧
      (kind = 15 → ∃ withdrawn, v = 0 :: 1 :: 1 :: withdrawn ∧ prefixes withdrawn = .ok qs) := by
  unfold malformedItem at h
  cases hheader : readHeader data with
  | none =>
    rw [hheader] at h
    cases h
  | some r =>
    obtain ⟨flags, kind, v, rest'⟩ := r
    rw [hheader] at h
    dsimp only at h
    by_cases hreach : kind = 14
    · rw [if_pos hreach] at h
      split at h
      next a b c d r nlri =>
        cases hqs : prefixes nlri with
        | error err =>
          rw [hqs] at h
          cases h
        | ok qs =>
          rw [hqs] at h
          obtain ⟨rfl, rfl⟩ := Prod.mk.inj (Except.ok.inj h)
          refine ⟨_, _, _, qs, rfl, rfl, fun _ => ⟨_, _, _, _, _, _, rfl, hqs⟩, ?_⟩
          rw [hreach]
          exact fun hkind => absurd hkind (by decide)
      next => cases h
    · rw [if_neg hreach] at h
      by_cases hunreach : kind = 15
      · rw [if_pos hunreach] at h
        split at h
        next withdrawn =>
          cases hqs : prefixes withdrawn with
          | error err =>
            rw [hqs] at h
            cases h
          | ok qs =>
            rw [hqs] at h
            obtain ⟨rfl, rfl⟩ := Prod.mk.inj (Except.ok.inj h)
            exact ⟨_, _, _, qs, rfl, rfl, fun hkind => absurd hkind hreach,
              fun _ => ⟨_, rfl, hqs⟩⟩
        next => cases h
      · rw [if_neg hunreach] at h
        obtain ⟨rfl, rfl⟩ := Prod.mk.inj (Except.ok.inj h)
        exact ⟨_, _, _, [], rfl, (List.append_nil _).symm, fun hkind => absurd hkind hreach,
          fun hkind => absurd hkind hunreach⟩

theorem consumes_malformedItem : Consumes malformedItem := by
  intro ps data ps' rest h
  obtain ⟨_, _, _, _, hheader, _⟩ := malformedItem_eq_ok h
  exact readHeader_eq_some hheader

theorem mem_of_readAll_malformedItem (h : readAll malformedItem ps values = .ok ps')
    (hp : pfx ∈ ps) : pfx ∈ ps' := by
  refine readAll_invariant (P := fun ps => pfx ∈ ps) (fun ps l ps' rest hp hitem => ?_) hp h
  obtain ⟨_, _, _, qs, _, rfl, _⟩ := malformedItem_eq_ok hitem
  exact List.mem_append_left _ hp

/-- Where the second parser comes through, it has read every reachability attribute. -/
theorem exists_of_attributeIn (hattr : AttributeIn values kind v)
    (h : readAll malformedItem ps values = .ok ps') :
    ∃ qs, (∀ q ∈ qs, q ∈ ps') ∧
      (kind = 14 → ∃ a b c d r nlri, v = 0 :: 1 :: 1 :: 4 :: a :: b :: c :: d :: r :: nlri ∧
        prefixes nlri = .ok qs) ∧
      (kind = 15 → ∃ withdrawn, v = 0 :: 1 :: 1 :: withdrawn ∧ prefixes withdrawn = .ok qs) := by
  induction hattr generalizing ps with
  | @head data rest v flags kind hheader =>
    obtain ⟨ps₁, rest₁, hitem, hrest⟩ := exists_of_readAll consumes_malformedItem h fun hnil => by
      rw [hnil] at hheader
      cases hheader
    obtain ⟨flags', kind', v', qs, hheader', rfl, hreach, hunreach⟩ := malformedItem_eq_ok hitem
    obtain ⟨_, rfl, rfl, _⟩ : flags = flags' ∧ kind = kind' ∧ v = v' ∧ rest = rest₁ := by
      simpa using hheader.symm.trans hheader'
    exact ⟨qs, fun q hq => mem_of_readAll_malformedItem hrest (List.mem_append_right _ hq),
      hreach, hunreach⟩
  | @tail data rest v v' flags kind kind' hheader _ ih =>
    obtain ⟨ps₁, rest₁, hitem, hrest⟩ := exists_of_readAll consumes_malformedItem h fun hnil => by
      rw [hnil] at hheader
      cases hheader
    obtain ⟨_, _, _, _, hheader', _⟩ := malformedItem_eq_ok hitem
    have heq : rest = rest₁ := by
      have hboth := hheader.symm.trans hheader'
      simp only [Option.some.injEq, Prod.mk.injEq] at hboth
      exact hboth.2.2.2
    exact ih (heq ▸ hrest)

/-- **The second parser finds every prefix that the message lists.** -/
theorem withdrawMalformedUpdate_eq_some {m : Message} {n : ℕ}
    (h : withdrawMalformedUpdate data = some (m, n)) :
    n = Engine.frameLength data ∧ ∃ withdrawn, m = .update withdrawn Attributes.default [] ∧
      ∀ pfx, Lists ((data.take n).drop 19) pfx → pfx ∈ withdrawn := by
  unfold withdrawMalformedUpdate at h
  dsimp only at h
  split_ifs at h
  simp only [Option.bind_eq_bind, Option.bind_eq_some_iff, Option.pure_def, Option.some_inj,
    Prod.mk.injEq] at h
  obtain ⟨⟨w, values, rest⟩, hsplit, ws, hw, ns, hnlri, ps, hps, rfl, rfl⟩ := h
  refine ⟨rfl, ps, rfl, fun pfx hpfx => ?_⟩
  dsimp only at hw hnlri hps
  have hok {x : Except WireError (List Prefix)} {l : List Prefix} (hx : x.toOption = some l) :
      x = .ok l := by
    cases x with
    | error err => cases hx
    | ok l' => exact congrArg _ (Option.some.inj hx)
  have hps : readAll malformedItem (ws ++ ns) values = .ok ps := by
    cases hall : readAll malformedItem (ws ++ ns) values with
    | error err =>
      rw [hall] at hps
      cases hps
    | ok l =>
      rw [hall] at hps
      exact congrArg _ (Option.some.inj hps)
  have hparts {w' values' rest' : List Byte}
      (h : splitUpdate ((data.take (u16FromBe (data.getD 16 0) (data.getD 17 0)).toNat).drop 19) =
        some (w', values', rest')) : w = w' ∧ values = values' ∧ rest = rest' := by
    simpa using hsplit.symm.trans h
  obtain ⟨field, hfield, hlists⟩ := hpfx
  cases hfield with
  | withdrawn h =>
    obtain ⟨rfl, _, _⟩ := hparts h
    exact mem_of_readAll_malformedItem hps
      (List.mem_append_left _ (mem_of_listsIn hlists (hok hw)))
  | nlri h =>
    obtain ⟨_, _, rfl⟩ := hparts h
    exact mem_of_readAll_malformedItem hps
      (List.mem_append_right _ (mem_of_listsIn hlists (hok hnlri)))
  | mpReach h hattr hhop =>
    obtain ⟨_, rfl, _⟩ := hparts h
    obtain ⟨qs, hqs, hreach, _⟩ := exists_of_attributeIn hattr hps
    obtain ⟨a, b, c, d, r, nlri, hv, hnlri⟩ := hreach rfl
    simp only [List.cons.injEq, true_and] at hv
    obtain ⟨rfl, rfl⟩ := hv
    have heq : some (([a, b, c, d] : List Byte), r :: nlri) = some (_, _) := hhop
    simp only [Option.some.injEq, Prod.mk.injEq, List.cons.injEq] at heq
    exact hqs _ (mem_of_listsIn (heq.2.2 ▸ hlists) hnlri)
  | mpUnreach h hattr =>
    obtain ⟨_, rfl, _⟩ := hparts h
    obtain ⟨qs, hqs, _, hunreach⟩ := exists_of_attributeIn hattr hps
    obtain ⟨withdrawn, hv, hw⟩ := hunreach rfl
    simp only [List.cons.injEq, true_and] at hv
    exact hqs _ (mem_of_listsIn (hv ▸ hlists) hw)

/-! ## The table of the peer -/

theorem not_mem_of_withdrawn {l : List Prefix} {t : OrderedMap Prefix Attributes} (h : pfx ∈ l) :
    (l.foldl (fun t q => t.erase q) t)[pfx]? = none := by
  induction l generalizing t with
  | nil => cases h
  | cons q l ih =>
    by_cases hl : pfx ∈ l
    · exact ih hl
    · have hq : q = pfx := ((List.mem_cons.mp h).resolve_right hl).symm
      cases hfound : ((q :: l).foldl (fun t q => t.erase q) t)[pfx]? with
      | none => rfl
      | some a =>
        have hkept := Engine.getElem?_of_withdrawn (l := l) (t := t.erase q) hfound
        rw [OrderedMap.getElem?_erase', if_pos hq] at hkept
        cases hkept

namespace Engine

variable {e e' : Engine} {ip : Ipv4Addr} {p q : Peer} {now : ℤ} {err : WireError}

/-- The session of a peer is reset: it has no connection and no routes. -/
def Reset (e : Engine) (ip : Ipv4Addr) : Prop :=
  ∀ q, e.peers[ip]? = some q → (q.state = .idle ∨ q.state = .active) ∧ q.adjIn = ∅

theorem reset_disconnected : Reset (e.disconnected ip now) ip := by
  intro q hq
  obtain ⟨hstate, -, hadj⟩ := peer_of_disconnected hq
  exact ⟨hstate, hadj⟩

theorem reset_fail (code subcode : Byte) : Reset (e.fail ip code subcode now) ip :=
  reset_disconnected

/-- The peer has lost the prefixes of a list, and got no routes. -/
structure Loses (p q : Peer) (l : List Prefix) : Prop where
  lost : ∀ pfx ∈ l, q.adjIn[pfx]? = none
  kept : ∀ (pfx : Prefix) (a : Attributes), q.adjIn[pfx]? = some a → p.adjIn[pfx]? = some a

theorem update_withdrawn (hs : p.state = .established) (l : List Prefix) (a : Attributes) :
    Reset (e.update ip p l a [] now) ip ∨
      ∃ q, (e.update ip p l a [] now).peers[ip]? = some q ∧ q.state = .established ∧
        q.input = p.input ∧ Loses p q l := by
  rw [update_eq]
  have hinstalled : e.installed p l a [] = (l.foldl (fun t q => t.erase q) p.adjIn, false) := rfl
  rw [hinstalled, conclude]
  dsimp only
  rw [if_neg Bool.false_ne_true]
  split
  · exact .inl (reset_fail _ _)
  · right
    generalize hr : ({ p with adjIn := l.foldl (fun t q => t.erase q) p.adjIn } : Peer) = r
    have hstanding := standing_recompute (e.setPeer ip r) ip
    rw [getElem?_setPeer_self, Option.map_some] at hstanding
    obtain ⟨q, hq, -⟩ := Option.map_eq_some_iff.mp hstanding
    obtain ⟨r', hr', hstate, hinput, hadj⟩ :=
      exists_of_standing (standing_recompute (e.setPeer ip r) ip) hq
    obtain rfl := Option.some.inj (getElem?_setPeer_self.symm.trans hr')
    refine ⟨q, hq, ?_, ?_, ⟨fun pfx hpfx => ?_, fun pfx a ha => ?_⟩⟩
    · rw [← hstate, ← hr]
      exact hs
    · rw [← hinput, ← hr]
    · rw [← hadj, ← hr]
      exact not_mem_of_withdrawn hpfx
    · rw [← hadj, ← hr] at ha
      exact getElem?_of_withdrawn ha

theorem nextMessage_malformed (hs : p.state = .established)
    (herr : Message.decode p.input p.as4 = .error err) (hcode : err.code = 3) :
    nextMessage p = match withdrawMalformedUpdate p.input with
      | some r => .ok (some r)
      | none => .error err := by
  rw [nextMessage, herr]
  exact if_pos ⟨hcode, hs⟩

/-- **A malformed UPDATE is treated as a withdrawal, completely.**  When the decoder
refuses an UPDATE on an established session, the session is reset and its routes are
gone; or the message is taken off the buffer, the session goes on, and the table has
none of the prefixes that the message lists and nothing that it did not have before. -/
theorem malformed_update_withdraws (hp : e.peers[ip]? = some p) (hs : p.state = .established)
    (herr : Message.decode p.input p.as4 = .error err) (hcode : err.code = 3) (now : ℤ) :
    Reset (e.receiveTurn ip now).1 ip ∨
      ∃ q, (e.receiveTurn ip now).1.peers[ip]? = some q ∧ q.state = .established ∧
        q.input = p.input.drop (frameLength p.input) ∧
        (∀ pfx : Prefix, Lists ((p.input.take (frameLength p.input)).drop 19) pfx →
          q.adjIn[pfx]? = none) ∧
        ∀ (pfx : Prefix) (a : Attributes), q.adjIn[pfx]? = some a → p.adjIn[pfx]? = some a := by
  unfold receiveTurn
  rw [hp]
  dsimp only
  rw [nextMessage_malformed hs herr hcode]
  cases hw : withdrawMalformedUpdate p.input with
  | none => exact .inl (reset_fail _ _)
  | some r =>
    obtain ⟨m, n⟩ := r
    obtain ⟨rfl, l, rfl, hlists⟩ := withdrawMalformedUpdate_eq_some hw
    dsimp only
    unfold message
    rw [getElem?_setPeer_self]
    dsimp only
    generalize hheard : Peer.heard { p with
      input := p.input.drop (frameLength p.input)
      msgsIn := p.msgsIn + 1 } now = heard
    have hfields : heard.state = .established ∧ heard.adjIn = p.adjIn ∧
        heard.input = p.input.drop (frameLength p.input) := by
      rw [← hheard, Peer.heard]
      split_ifs
      · exact ⟨hs, rfl, rfl⟩
      · exact ⟨hs, rfl, rfl⟩
    obtain ⟨hstate, hadj, hinput⟩ := hfields
    have hanswer (e : Engine) : e.answer ip heard (.update l Attributes.default []) now =
        e.update ip heard l Attributes.default [] now := by
      unfold answer
      rw [hstate]
    rw [hanswer]
    refine (update_withdrawn hstate l _).imp_right fun ⟨q, hq, hqs, hqi, hloses⟩ => ?_
    refine ⟨q, hq, hqs, hqi.trans hinput, fun pfx hpfx => hloses.lost pfx (hlists pfx hpfx), ?_⟩
    exact fun pfx a ha => hadj ▸ hloses.kept pfx a ha

/-- An UPDATE whose ORIGIN has a wrong flag, for the route `198.51.100.0/24`. -/
def wrongFlags : List Byte :=
  frame 31 2 ([0, 0, 0, 4] ++ [128, 1, 1, 0] ++ [24, 198, 51, 100])

/-- A peer that has the route has sent the message. -/
def withWrongFlags : Peer where
  config := ⟨some (.asn 1), true, false, none, none, none, none⟩
  remoteAs := 1
  dynamic := none
  state := .established
  routerId := ⟨0, 0, 0, 2⟩
  as4 := true
  refresh := true
  adjIn := (∅ : OrderedMap Prefix Attributes).insert (.new ⟨198, 51, 100, 0⟩ 24) Attributes.default
  adjOut := ∅
  retry := 0
  holdDeadline := 180000
  keepaliveDeadline := 60000
  negotiatedHold := 180
  msgsIn := 2
  msgsOut := 2
  since := 0
  lastError := none
  prefixBlock := none
  input := wrongFlags
  here := speakerIp 254

/-- The session goes on, and the route is withdrawn. -/
theorem malformed_update_withdraws_route :
    let e :=
  (((speaker [(1, 1)]).setPeer (speakerIp 1) withWrongFlags).receiveTurn (speakerIp 1) 1).1
    ∃ q, e.peers[speakerIp 1]? = some q ∧ q.state = .established ∧
      q.input = wrongFlags.drop (frameLength wrongFlags) ∧
      q.adjIn[Prefix.new ⟨198, 51, 100, 0⟩ 24]? = none := by
  intro e
  have hgoes : (e.peers[speakerIp 1]?).any (fun q => q.state = .established) = true := by
    decide +kernel
  rcases @malformed_update_withdraws _ _ withWrongFlags ⟨3, 4⟩ getElem?_setPeer_self rfl
    (by decide +kernel) rfl 1 with
    hreset | ⟨q, hq, hs, hinput, hgone, -⟩
  · obtain ⟨q, hq, hs⟩ := (Option.any_eq_true _ _).mp hgoes
    rcases (hreset q hq).1 with h | h
    · simp [h] at hs
    · simp [h] at hs
  · refine ⟨q, hq, hs, hinput,
      hgone _ ⟨[24, 198, 51, 100], @Field.nlri _ [] [128, 1, 1, 0] _ rfl, ?_⟩⟩
    exact @ListsIn.head 24 [198, 51, 100] _ [] (by decide) rfl

end EvansComputer.Bgp.Engine
