import EvansComputer.Cell.HandlerMoves

/-!
# What the user plane and the clock do is moves

Packets in both directions, the counting of them, what a site says of a session that it
serves, and what the time brings.  None of it makes a move that has a label.

Counting a packet can end the session it is counted for, so a packet is forwarded only where
`account` says that the session is still there.
-/

namespace EvansComputer.Cell.Core

open Carrier Exec

variable {core : Core} {allowed : Carrier → Label → Prop} {safe : Prop}

variable {id : UInt32}

theorem carrier_session_ne_none {s : Session} (h : core.sessions[id]? = some s) :
    core.carrier.sessions id ≠ none := by
  rw [carrier_sessions h]
  exact Option.some_ne_none _

theorem session_of_carrier {a : Seat} (h : core.carrier.sessions id = some a) :
    ∃ s, core.sessions[id]? = some s ∧ s.seat = a :=
  Option.map_eq_some_iff.mp h

/-! ## Counting -/

section

variable (hq : ∀ v, allowed v .quiet)
include hq

/-- **Counting is moves**, none if the packet may pass. -/
theorem meets_account (n now : ℕ) (hsafe : safe → core.carrier.sessions id ≠ none) :
    Meets safe (core.account id n now) fun r =>
      Moves allowed core.carrier r.1.carrier ∧ (r.2 = true → r.1.carrier = core.carrier) := by
  refine Meets.bind (meets_sessionAt hsafe) fun s hs => ?_
  cases hsub : core.db.subs[s.imsi]? with
  | none => exact meets_pure ⟨Moves.refl, fun h => nomatch h⟩
  | some sub =>
    dsimp only
    split_ifs with hover hover'
    · exact meets_pure ⟨Moves.refl, fun h => nomatch h⟩
    all_goals
      generalize hcore₁ : ({ core.setSession id
          { s with usedSinceReport := s.usedSinceReport + UInt64.ofNat n } with
        db := { core.db with
            subs := core.db.subs.insert s.imsi { sub with used := sub.used + UInt64.ofNat n } }
        dirty := true } : Core) = core₁
      have hcarrier₁ : core₁.carrier = core.carrier := by
        have hself :
          (core.setSession id
          { s with usedSinceReport := s.usedSinceReport + UInt64.ofNat n }).carrier
            = core.carrier := carrier_setSession_self hs rfl
        rw [← hcore₁, ← hself]
        refine (carrier_db fun imsi => ?_ :)
        dsimp only
        rw [OrderedMap.getElem?_insert']
        split_ifs with himsi
        · change some sub.revoked = (core.db.subs[imsi]?).map _
          rw [← himsi, hsub]
          rfl
        · rfl
    · refine meets_pure ⟨?_, fun h => nomatch h⟩
      rw [carrier_endSession, carrier_save, carrier_log, hcarrier₁]
      exact Moves.single (.ended _ id) (hq _)
    · exact meets_pure ⟨Moves.of_eq hcarrier₁.symm, fun _ => hcarrier₁⟩

theorem meets_charge (free : Bool) (n now : ℕ) (hsafe : safe → core.carrier.sessions id ≠ none) :
    Meets safe (core.charge free id n now) fun r =>
      Moves allowed core.carrier r.1.carrier ∧ (r.2 = true → r.1.carrier = core.carrier) := by
  cases free with
  | true => exact meets_ok ⟨Moves.refl, fun _ => rfl⟩
  | false => exact meets_account hq n now hsafe

/-! ## Uplink -/

/-- A packet of a live session goes to the LAN. -/
theorem moves_toLan (hid : core.carrier.sessions id ≠ none) (pkt : List Byte) :
    Moves allowed core.carrier (core.push (.toLan id pkt)).carrier := by
  obtain ⟨a, ha⟩ := Option.ne_none_iff_exists'.mp hid
  refine (Moves.single (.up ha) (hq _)).trans (Moves.of_eq ?_)
  ext1
  case said =>
    change core.out.filterMap CoreOut.said ++ [Said.up id] =
      (core.out ++ [CoreOut.toLan id pkt]).filterMap _
    rw [List.filterMap_append]
    rfl
  all_goals rfl

theorem meets_uplink {c : ConnId} (seq : UInt32) (pkt : List Byte) (now : ℕ)
    (hid : core.carrier.sessions id ≠ none) :
    Meets safe (core.uplink c id seq pkt now) fun core' =>
      Moves allowed core.carrier core'.carrier := by
  refine Meets.bind (meets_sessionAt fun _ => hid) fun s hs => ?_
  dsimp only
  split_ifs with hcheck himsSrc hnet hsrc hzero
  · refine meets_pure (Moves.of_eq (Eq.symm ?_))
    exact carrier_setSession_self hs rfl
  all_goals
    generalize hcore₁ : core.setSession id { s with ulSeen := s.ulSeen.insert c _ } = core₁
    have hcarrier₁ : core₁.carrier = core.carrier := by
      rw [← hcore₁]
      exact carrier_setSession_self hs rfl
    rw [← hcarrier₁] at hid ⊢
  · exact meets_pure (moves_toLan hq hid pkt)
  · exact meets_pure (Moves.of_eq rfl)
  · exact meets_pure Moves.refl
  · exact meets_pure (moves_toLan hq hid pkt)
  · refine Meets.bind (meets_account hq pkt.length now fun _ => hid) ?_
    rintro ⟨core₂, counted⟩ ⟨hmoves, hsame⟩
    refine meets_pure ?_
    dsimp only at hmoves hsame ⊢
    split_ifs with hcounted
    · refine hmoves.trans (moves_toLan hq ?_ pkt)
      rwa [hsame hcounted]
    · exact hmoves

omit hq in
theorem carrier_openTunnel (core : Core) (c : ConnId) (bytes : List Byte) :
    (core.openTunnel c bytes).1.carrier = core.carrier := by
  unfold openTunnel
  cases hc : core.conns[c]? with
  | none => rfl
  | some conn =>
    dsimp only
    cases conn.bh with
    | none => rfl
    | some bh =>
      dsimp only
      exact carrier_setConn (by rw [hc]; rfl)

omit hq in
theorem conns_of_tunnel (core : Core) («from» : SocketAddr) :
    ∀ c ∈ (core.conns.toList.filter fun (_, k) =>
    k.site.any (fun s => s.tunnel = «from») && k.bh.isSome).map (·.1), core.conns[c]? ≠ none := by
  intro c hc
  obtain ⟨⟨c', conn⟩, hx, rfl⟩ := List.mem_map.mp hc
  have hconn := Std.ExtTreeMap.mem_toList_iff_getElem?_eq_some.mp (List.mem_filter.mp hx).1
  exact fun hnone => Option.some_ne_none _ (hconn.symm.trans hnone)

omit hq in
/-- Looking for the site of a datagram asserts what is so. -/
theorem meets_pickTunnel («from» : SocketAddr) (bytes : List Byte) :
    Meets safe (core.pickTunnel «from» bytes) fun _ => True := by
  unfold pickTunnel
  have hmem := conns_of_tunnel core «from»
  generalize List.map _ _ = cands at hmem ⊢
  have hfind : Meets safe (cands.findM? fun id => do
      let conn ← core.connAt id
      return conn.bh.any fun b => b.tun.tunnelOpens bytes) fun _ => True := by
    clear * - hmem
    induction cands with
    | nil => exact meets_pure trivial
    | cons c cands ih =>
      rw [List.findM?]
      refine Meets.bind (Q := fun _ => True) ?_ fun found _ => ?_
      · refine Meets.bind (Q := fun _ => True) (meets_expect (fun _ => hmem c List.mem_cons_self)
          fun _ _ => trivial) fun _ _ => meets_pure trivial
      · cases found with
        | true => exact meets_pure trivial
        | false => exact ih fun c' hc' => hmem c' (List.mem_cons_of_mem _ hc')
  split
  · trivial
  · exact hfind

omit hq in
theorem carrier_rejectTunnel («from» : SocketAddr) (now : ℕ) :
    (core.rejectTunnel «from» now).carrier = core.carrier := by
  unfold rejectTunnel
  dsimp only
  split_ifs
  · exact carrier_log ..
  · rfl

theorem meets_tunnelPacket (c : ConnId) (inner : List Byte) (now : ℕ) :
    Meets safe (core.tunnelPacket c inner now) fun core' =>
      Moves allowed core.carrier core'.carrier := by
  unfold tunnelPacket
  cases TunnelPacket.decode inner with
  | error _ => exact Moves.refl
  | ok p =>
    dsimp only
    cases hs : core.sessions[p.session]? with
    | none => exact Moves.refl
    | some s =>
      dsimp only
      split_ifs
      · exact Moves.refl
      · cases hpush : core.join.push p with
        | mk join whole =>
          cases whole with
          | none => exact Moves.refl
          | some x =>
            obtain ⟨id, seq, pkt⟩ := x
            obtain rfl := TunnelJoin.session_of_push hpush
            have hid : ({ core with join } : Core).carrier.sessions p.session ≠ none :=
              carrier_session_ne_none hs
            exact meets_uplink hq seq pkt now hid

/-- **A datagram from a site is moves.** -/
theorem meets_onTunnel («from» : SocketAddr) (bytes : List Byte) (now : ℕ) :
    Meets safe (core.onTunnel «from» bytes now) fun core' =>
      Moves allowed core.carrier core'.carrier := by
  refine Meets.bind (meets_pickTunnel «from» bytes) fun pick _ => ?_
  cases pick with
  | none => exact meets_pure (Moves.of_eq (carrier_rejectTunnel ..).symm)
  | some c =>
    have hcarrier := carrier_openTunnel core c bytes
    dsimp only
    generalize core.openTunnel c bytes = opened at hcarrier ⊢
    obtain ⟨core₁, inner⟩ := opened
    rw [← hcarrier]
    cases inner with
    | none => exact meets_pure (Moves.of_eq (carrier_rejectTunnel ..).symm)
    | some inner => exact meets_tunnelPacket hq c inner now

/-! ## Downlink -/

omit hq in
theorem carrier_pageAll (tmsi : UInt32) : (core.pageAll tmsi).carrier = core.carrier :=
  carrier_foldl _ fun _ _ _ => carrier_send_quiet rfl

/-- What goes down a tunnel is packets of the session, as many as there is room for. -/
def Downs (id : UInt32) (v v' : Carrier) : Prop :=
  ∃ n, v' = { v with said := v.said ++ List.replicate n (.down id) }

omit hq in
theorem Downs.refl (id : UInt32) (v : Carrier) : Downs id v v := ⟨0, by
  rw [List.replicate_zero, List.append_nil]⟩

omit hq in
theorem Downs.trans {v v' v'' : Carrier} (h : Downs id v v') (h' : Downs id v' v'') :
    Downs id v v'' := by
  obtain ⟨n, rfl⟩ := h
  obtain ⟨n', rfl⟩ := h'
  refine ⟨n + n', ?_⟩
  dsimp only
  rw [List.append_assoc, List.replicate_append_replicate]

omit hq in
theorem Downs.foldl {α : Type} {f : Core → α → Core}
    (hf : ∀ core a, Downs id core.carrier (f core a).carrier) (l : List α) :
    Downs id core.carrier (l.foldl f core).carrier := by
  induction l generalizing core with
  | nil => exact Downs.refl id _
  | cons a l ih => exact (hf core a).trans ih

/-- Packets for a live session are moves. -/
theorem Downs.moves {v v' : Carrier} (h : Downs id v v') (hid : v.sessions id ≠ none) :
    Moves allowed v v' := by
  obtain ⟨n, rfl⟩ := h
  obtain ⟨a, ha⟩ := Option.ne_none_iff_exists'.mp hid
  induction n with
  | zero => exact Moves.of_eq (by rw [List.replicate_zero, List.append_nil])
  | succ n ih =>
    refine ih.trans (Moves.trans (Moves.single (.down ha) (hq _)) (Moves.of_eq ?_))
    rw [List.replicate_succ', ← List.append_assoc]
    rfl

omit hq in
theorem downs_sendTunnel (c : ConnId) (id : UInt32) (dst : SocketAddr) (d : List Byte) :
    Downs id core.carrier (core.sendTunnel c id dst d).carrier := by
  unfold sendTunnel
  cases hc : core.conns[c]? with
  | none => exact Downs.refl id _
  | some conn =>
    dsimp only
    cases conn.bh with
    | none => exact Downs.refl id _
    | some bh =>
      refine ⟨1, ?_⟩
      dsimp only
      have hconn : (core.setConn c { conn with
          bh := some { bh with tun := (bh.tun.sealTunnel d).1 } }).carrier = core.carrier :=
        carrier_setConn (by rw [hc]; rfl)
      rw [← hconn]
      ext1
      case said =>
        change (core.out ++ [CoreOut.tunnel id dst _]).filterMap CoreOut.said = _
        rw [List.filterMap_append]
        rfl
      all_goals rfl

omit hq in
theorem downs_tunnelTo (id seq : UInt32) (pkt : List Byte) (c : ConnId) :
    Downs id core.carrier (core.tunnelTo id seq pkt c).carrier := by
  unfold tunnelTo
  cases core.conns[c]? with
  | none => exact Downs.refl id _
  | some conn =>
    dsimp only
    cases conn.site with
    | none => exact Downs.refl id _
    | some site =>
      cases conn.bh with
      | none => exact Downs.refl id _
      | some _ => exact Downs.foldl (fun core d => downs_sendTunnel c id site.tunnel d) _

/-- **A packet for a phone is moves.** -/
theorem meets_downlink (id : UInt32) (pkt : List Byte) (now : ℕ) :
    Meets safe (core.downlink id pkt now) fun core' =>
      Moves allowed core.carrier core'.carrier := by
  unfold downlink
  cases hs : core.sessions[id]? with
  | none => exact Moves.refl
  | some s =>
    dsimp only
    by_cases hidle : s.idle = true
    · -- held for it, and it is paged the first time
      have hheld : ∀ q, (core.setSession id { s with page := some q }).carrier = core.carrier :=
        fun _ => carrier_setSession_self hs rfl
      rw [if_pos hidle]
      refine Moves.of_eq (Eq.symm ?_)
      by_cases hfirst : s.page.isNone = true
      · rw [if_pos hfirst, carrier_pageAll, hheld]
      · rw [if_neg hfirst, hheld]
    rw [if_neg hidle]
    by_cases hinactive : (!s.active && s.ho.isNone) = true
    · rw [if_pos hinactive]
      exact Moves.refl
    · rw [if_neg hinactive]
      have hid := carrier_session_ne_none hs
      refine Meets.bind (meets_charge hq _ pkt.length now fun _ => hid) ?_
      rintro ⟨core₁, counted⟩ ⟨hmoves, hsame⟩
      cases counted with
      | false => exact meets_pure hmoves
      | true =>
        have hcarrier₁ := hsame rfl
        dsimp only at hcarrier₁ ⊢
        rw [← hcarrier₁] at hid ⊢
        refine Meets.bind (meets_sessionAt fun _ => hid) fun s₁ hs₁ => ?_
        refine meets_pure ?_
        have hself :
          (core₁.setSession id { s₁ with dlSeq := max (s₁.dlSeq + 1) 1 }).carrier = core₁.carrier :=
          carrier_setSession_self hs₁ rfl
        rw [← hself] at hid ⊢
        exact (Downs.foldl (fun core c => downs_tunnelTo id _ pkt c) _).moves hq hid

/-- **A packet from the LAN is moves.** -/
theorem meets_onLanPacket (pkt : List Byte) (now : ℕ) :
    Meets safe (core.onLanPacket pkt now) fun core' =>
      Moves allowed core.carrier core'.carrier := by
  unfold onLanPacket
  split
  · exact Moves.refl
  · exact meets_downlink hq _ pkt now

end

end EvansComputer.Cell.Core
