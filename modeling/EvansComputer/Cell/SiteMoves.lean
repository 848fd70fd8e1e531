import EvansComputer.Cell.TrafficMoves

/-!
# What a site's stream and the clock do is moves

The control messages of a site that no label is for, then all of them together, and the
loop that takes them off the stream.  `Core.heard` is the message that the next turn of
that loop handles: conditions on a run are stated on it, as it is a function of the state
before the turn.
-/

namespace EvansComputer.Cell.Core

open Carrier Exec

variable {core : Core} {allowed : Carrier → Label → Prop} {safe : Prop}

/-! ## What a site says of a session -/

section

variable (hq : ∀ v, allowed v .quiet)
include hq

/-- A session that keeps what the network knows, but for what it lets go. -/
theorem moves_keep {id : UInt32} {s s' : Session} (hs : core.sessions[id]? = some s)
    (hkeeps : Seat.Keeps s.seat s'.seat) :
    Moves allowed core.carrier (core.setSession id s').carrier := by
  rw [carrier_setSession]
  exact Moves.single (.kept_one (carrier_sessions hs) hkeeps) (hq _)

/-- Packets held for a phone, one after another. -/
theorem meets_foldl_downlink (id : UInt32) (pkts : List (List Byte)) (now : ℕ) :
    Meets safe (pkts.foldlM (fun core pkt => core.downlink id pkt now) core) fun core' =>
      Moves allowed core.carrier core'.carrier :=
  meets_foldlM (I := fun core' => Moves allowed core.carrier core'.carrier) Moves.refl
    fun _ pkt _ h => (meets_downlink hq id pkt now).mono fun _ h' => h.trans h'

theorem meets_ueActive (c : ConnId) (session : UInt32) (now : ℕ) :
    Meets safe (core.ueActive c session now) fun core' =>
      Moves allowed core.carrier core'.carrier := by
  unfold ueActive
  cases hs : core.sessions[session]? with
  | none => exact Moves.refl
  | some s =>
    dsimp only
    split_ifs with hserving
    · have hself :
        (core.setSession session { s with active := true, idle := false, page := none }).carrier
          = core.carrier := carrier_setSession_self hs rfl
      rw [← hself]
      exact meets_foldl_downlink hq session _ now
    · exact Moves.refl

theorem moves_ueRelease (c : ConnId) (session : UInt32) (cause : Cause) (now : ℕ) :
    Moves allowed core.carrier (core.ueRelease c session cause now).carrier := by
  unfold ueRelease
  split_ifs
  · rw [carrier_endSession]
    exact Moves.single (.ended _ session) (hq _)
  · exact Moves.refl

theorem moves_ueIdle (c : ConnId) (session : UInt32) :
    Moves allowed core.carrier (core.ueIdle c session).carrier := by
  unfold ueIdle
  cases hs : core.sessions[session]? with
  | none => exact Moves.refl
  | some s =>
    dsimp only
    split_ifs
    · rw [carrier_log]
      exact moves_keep hq hs ⟨rfl, rfl, rfl, rfl, rfl, rfl, .inr rfl, .inr rfl⟩
    · exact Moves.refl

theorem moves_hoFailure (c : ConnId) (ho session : UInt32) (cause : Cause) :
    Moves allowed core.carrier (core.hoFailure c ho session cause).carrier := by
  unfold hoFailure
  cases hs : core.sessions[session]? with
  | none => exact Moves.refl
  | some s =>
    dsimp only
    split_ifs
    · have hkept :
        Moves allowed core.carrier (core.setSession session { s with ho := none }).carrier :=
        moves_keep hq hs ⟨rfl, rfl, rfl, rfl, rfl, rfl, .inl rfl, .inr rfl⟩
      generalize core.setSession session { s with ho := none } = core₁ at hkept ⊢
      cases s.serving with
      | none => exact hkept
      | some v =>
        dsimp only
        rw [carrier_send_quiet rfl, carrier_log]
        exact hkept
    · exact Moves.refl

end

theorem carrier_bearerResult (session : UInt32) (id : Byte) (ok : Bool) :
    (core.bearerResult session id ok).carrier = core.carrier := by
  unfold bearerResult
  cases hs : core.sessions[session]? with
  | none => rfl
  | some s =>
    have hself : (core.setSession session { s with bearers := setAdmitted id ok s.bearers }).carrier
        = core.carrier := carrier_setSession_self hs rfl
    dsimp only
    split_ifs
    · exact hself
    · rw [carrier_log, hself]

/-! ## Control messages -/

/-- What the labels of a control message from site `c` may be, and what is known of the
state where each is made. -/
inductive CtlLets (core : Core) (c : ConnId) : Ctl → Carrier → Label → Prop
  | quiet (m : Ctl) (v : Carrier) : CtlLets core c m v .quiet
  | created {ue : UInt32} {res : List Byte} {p : PendingAuth} {v : Carrier} {a : Seat}
      (hp : core.pending.lookup (c, ue) = some p) (hres : p.resp.res = res)
      (ha : core.Attaches p.imsi v a) : CtlLets core c (.ueAuthResponse ue res) v (.created a)
  | served {ue cell tmsi count : UInt32} {mac : List Byte} {id : UInt32} {s : Session}
      (hid : core.byTmsi[tmsi]? = some id) (hs : core.sessions[id]? = some s)
      (hcount : s.srCount < count)
      (hmac : core.prim.srMac s.resp.ksInt tmsi count = mac) :
      CtlLets core c (.ueService ue cell tmsi count mac) core.carrier (.served id)
  | acked (ho : UInt32) (ueId : UInt16) (grant : Grant) (v : Carrier) :
      CtlLets core c (.hoRequestAck ho ueId grant) v (.acked c ho)
  | switched (ho session : UInt32) (v : Carrier) :
      CtlLets core c (.pathSwitch ho session) v (.switched c ho session)

/-- **A control message is moves**, with the labels that it lets. -/
theorem meets_onCtl {c : ConnId} (m : Ctl) (now : ℕ) (hc : core.carrier.conns c ≠ none)
    (hsafe : safe → core.carrier.Indexed) :
    Meets safe (core.onCtl c m now) fun core' => Moves
      (core.CtlLets c m) core.carrier core'.carrier := by
  have hq : ∀ v, core.CtlLets c m v .quiet := .quiet m
  unfold onCtl
  split_ifs with hsite
  · -- before the registration
    have hc' : core.carrier.conns c = some none := by
      obtain ⟨site, hsite'⟩ := Option.ne_none_iff_exists'.mp hc
      obtain ⟨conn, hconn, rfl⟩ := conns_of_carrier hsite'
      rw [siteOf, hconn, Option.bind_some, Option.isNone_iff_eq_none] at hsite
      rw [hsite', hsite]
    cases m with
    | siteAuth ver siteId cells tunnelPort nonce proof => exact meets_siteAuth hq hc' ..
    | _ => exact moves_closed hq (by rw [carrier_push rfl, carrier_log]) now
  · have hreg : core.carrier.Registered c := by
      obtain ⟨reg, hreg⟩ := Option.ne_none_iff_exists'.mp (mt Option.isNone_iff_eq_none.mpr hsite)
      obtain ⟨conn, hconn, hsite'⟩ := Option.bind_eq_some_iff.mp hreg
      exact ⟨reg, (carrier_conns hconn).trans (congrArg some hsite')⟩
    cases m with
    | heartbeat _ => exact Moves.refl
    | ueAttach ue cellId imsi carrier =>
      exact (meets_ueAttach c ue cellId imsi carrier now).mono fun _ h => Moves.of_eq h.symm
    | ueAuthResponse ue res => exact meets_ueAuthResponse hq hreg now fun p v a => .created
    | ueService ue cellId tmsi count mac =>
      refine meets_ueService hreg ue cellId (fun hs id hid => (hsafe hs).1 tmsi id hid) fun id s =>
        .served
    | ueActive session => exact meets_ueActive hq c session now
    | ueRelease session cause => exact moves_ueRelease hq c session cause now
    | ueIdle session => exact moves_ueIdle hq c session
    | hoRequired session targetCell => exact meets_hoRequired hq c session targetCell now
    | hoRequestAck ho ueId grant => exact moves_hoAck (fun v => .acked ho ueId grant v) ueId grant
    | hoFailure ho session cause => exact moves_hoFailure hq c ho session cause
    | pathSwitch ho session => exact moves_pathSwitch fun v => .switched ho session v
    | bearerResult session id ok => exact Moves.of_eq (carrier_bearerResult ..).symm
    | _ => exact Moves.of_eq (carrier_log _).symm

/-! ## The stream -/

/-- The message that the next turn over a connection's stream handles. -/
def heard (core : Core) (c : ConnId) : Option Ctl :=
  (core.conns[c]?).bind fun conn =>
    let (framer, body) := conn.framer.popBody
    if framer.broken then none
    else body.bind fun body => (openBody { conn with framer } body).2.toOption

/-- What the labels of a turn over a connection's stream may be. -/
inductive TurnLets (core : Core) (c : ConnId) : Carrier → Label → Prop
  | quiet (v : Carrier) : TurnLets core c v .quiet
  | ctl {m : Ctl} {v : Carrier} {l : Label} (hm : core.heard c = some m)
    (hl : core.CtlLets c m v l) :
      TurnLets core c v l

/-- What a message may do does not depend on where its connection's stream is. -/
theorem CtlLets.of_setConn {c : ConnId} {conn : Conn} {m : Ctl} {v : Carrier} {l : Label}
    (hcarrier : (core.setConn c conn).carrier = core.carrier)
    (h : (core.setConn c conn).CtlLets c m v l) :
    core.CtlLets c m v l := by
  cases h with
  | quiet m v => exact .quiet m v
  | created hp hres ha =>
    refine .created hp hres ⟨ha.same, ha.addrs, ?_, ?_, ?_, ?_⟩
    · rw [ha.sessions, hcarrier]
    · rw [ha.revoked, hcarrier]
    · rw [ha.nextSession, hcarrier]
    · rw [ha.said, hcarrier]
  | served hid hs hcount hmac =>
    rw [hcarrier]
    exact .served hid hs hcount hmac
  | acked ho ueId grant v => exact .acked ho ueId grant v
  | switched ho session v => exact .switched ho session v

theorem carrier_pushBytes (c : ConnId) (bytes : List Byte) (now : ℕ) :
    (core.pushBytes c bytes now).carrier = core.carrier := by
  unfold pushBytes
  cases hc : core.conns[c]? with
  | none => rfl
  | some conn => exact carrier_setConn (by rw [hc]; rfl)

theorem site_openBody (conn : Conn) (body : List Byte) :
    (openBody conn body).1.site = conn.site := by
  unfold openBody
  cases conn.bh <;> rfl

/-- **A turn over a stream is moves**: those of the message, if there is one. -/
theorem meets_bytesTurn (c : ConnId) (now : ℕ) (hsafe : safe → core.carrier.Indexed) :
    Meets safe (core.bytesTurn c now) fun r => Moves
      (core.TurnLets c) core.carrier r.1.carrier := by
  have hq : ∀ v, core.TurnLets c v .quiet := .quiet
  unfold bytesTurn
  cases hc : core.conns[c]? with
  | none => exact Moves.refl
  | some conn =>
    have hheard : core.heard c =
        let (framer, body) := conn.framer.popBody
        if framer.broken then none
        else body.bind fun body => (openBody { conn with framer } body).2.toOption := by
      rw [heard, hc]
      rfl
    dsimp only at hheard ⊢
    generalize conn.framer.popBody = popped at hheard ⊢
    obtain ⟨framer, body⟩ := popped
    dsimp only at hheard ⊢
    generalize hconn₁ : ({ conn with framer } : Conn) = conn₁ at hheard ⊢
    have hsite₁ : conn₁.site = conn.site := by rw [← hconn₁]
    have hcarrier₁ : (core.setConn c conn₁).carrier = core.carrier :=
      carrier_setConn (by rw [hc, hsite₁]; rfl)
    split_ifs with hbroken
    · refine moves_closed hq ?_ now
      rw [carrier_push rfl, carrier_log, hcarrier₁]
    rw [if_neg hbroken] at hheard
    cases body with
    | none => exact Moves.of_eq hcarrier₁.symm
    | some body =>
      rw [Option.bind_some] at hheard
      have hsite := site_openBody conn₁ body
      dsimp only
      generalize openBody conn₁ body = opened at hheard hsite ⊢
      obtain ⟨conn₂, m⟩ := opened
      have hcarrier₂ :
        ((core.setConn c conn₁).setConn c conn₂).carrier = (core.setConn c conn₁).carrier := by
        refine carrier_setConn ?_
        rw [setConn, OrderedMap.getElem?_insert', if_pos rfl, hsite]
        rfl
      cases m with
      | error why =>
        refine moves_closed hq ?_ now
        rw [carrier_push rfl, carrier_log, hcarrier₂, hcarrier₁]
      | ok m =>
        have hctl : Meets safe (((core.setConn c conn₁).setConn c conn₂).onCtl c m now) _ :=
          meets_onCtl m now
            (by rw [hcarrier₂, hcarrier₁, carrier_conns hc]; exact Option.some_ne_none _)
          (by rwa [hcarrier₂, hcarrier₁])
        refine Meets.bind hctl fun core' h => meets_pure ?_
        rw [hcarrier₂, hcarrier₁] at h
        exact h.mono fun v l hl => .ctl hheard ((hl.of_setConn hcarrier₂).of_setConn hcarrier₁)

/-! ## Time -/

theorem keeps_tickSession (now : ℕ) (s : Session) :
    Seat.Keeps s.seat (core.tickSession now s).seat := by
  unfold tickSession
  dsimp only
  split_ifs <;> exact ⟨rfl, rfl, rfl, rfl, rfl, rfl,
    .inl rfl, by first | exact .inl rfl | exact .inr rfl⟩

/-- A change of all sessions that lets things go. -/
theorem moves_keepAll (core : Core) (hq : ∀ v, allowed v .quiet) {f : Session → Session}
    (hf : ∀ s, Seat.Keeps s.seat (f s).seat) :
    Moves allowed core.carrier
      { core with sessions := core.sessions.map fun _ s => f s }.carrier := by
  -- a session is found by its place, as two of them may look the same to the network
  have hmove := Move.kept (v := core.carrier)
    (fun id a => ((core.sessions[id]?).map fun s => (f s).seat).getD a) fun id a ha => by
      obtain ⟨s, hs, rfl⟩ := session_of_carrier ha
      rw [hs]
      exact hf s
  refine (Moves.single hmove (hq _)).trans (Moves.of_eq ?_)
  rw [carrier_mapSessions]
  ext1
  case sessions =>
    funext id
    change ((core.sessions[id]?).map Session.seat).map _ = (core.sessions[id]?).map _
    cases core.sessions[id]? <;> rfl
  all_goals rfl

/-- **What the time brings is moves.** -/
theorem meets_tick (hq : ∀ v, allowed v .quiet) (now : ℕ) :
    Meets safe (core.tick now) fun core' => Moves allowed core.carrier core'.carrier := by
  unfold tick
  dsimp only
  have hdead := moves_close core hq (f := fun core c =>
    (core.log ["conn ".toList, Text.decimal c.toNat, ": heartbeat lost".toList]).push (.close c))
    (fun core c => by rw [carrier_push rfl, carrier_log])
    ((core.conns.toList.filter fun x => now - x.2.lastRxMs >
      3 * core.cfg.heartbeatMs.toNat + core.cfg.heartbeatMs.toNat / 2).map (·.1)) now
  generalize List.foldl (fun core c => onDisconnect _ c now) core _ = core₁ at hdead ⊢
  refine Meets.bind (Q := fun core₂ => core₂.carrier = core₁.carrier) ?_ fun core₂ hcarrier₂ => ?_
  · -- the heartbeats
    refine meets_foldlM rfl fun core₂ c hc h => ?_
    obtain ⟨⟨c', conn⟩, hmem, rfl⟩ := List.mem_map.mp hc
    have hconn := Std.ExtTreeMap.mem_toList_iff_getElem?_eq_some.mp (List.mem_filter.mp hmem).1
    refine Meets.bind (meets_connAt fun _ => by
      rw [h, carrier_conns hconn]; exact Option.some_ne_none _) fun conn' hconn' => meets_pure ?_
    rw [carrier_send_quiet rfl, carrier_setConn (by rw [hconn']; rfl), h]
  · refine meets_pure (hdead.trans ?_)
    rw [← hcarrier₂]
    have hsave :
      ∀ (core : Core) (p : Bool), (if p then core.save now else core).carrier = core.carrier := by
      intro core p
      split_ifs
      · exact carrier_save now
      · rfl
    rw [hsave, carrier_foldl _ fun core t _ => carrier_pageAll t, carrier_foldl _ ?_,
      carrier_foldl _ fun core x _ => ?_]
    · exact moves_keepAll { core₂ with pending := _ } hq (keeps_tickSession now)
    · rw [carrier_send_release, carrier_log]
    · rintro core ⟨c, m⟩ hm
      obtain ⟨s, -, hs⟩ := List.mem_filterMap.mp hm
      split_ifs at hs
      split at hs
      · obtain ⟨rfl, rfl⟩ := Prod.mk.injEq .. ▸ Option.some.inj hs
        exact carrier_send_quiet rfl
      · cases hs

/-! ## Bearers -/

theorem indexed_byIp (h : core.carrier.Indexed) {ip : Ipv4Addr} {id : UInt32}
    (hip : core.byIp[ip]? = some id) :
    core.carrier.sessions id ≠ none := h.2 ip id hip

theorem meets_bearerSetup (ueIp : Ipv4Addr) (uePort : UInt16) (remote : Ipv4Addr)
    (remotePort : UInt16) (hsafe : safe → core.carrier.Indexed) :
    Meets safe (core.bearerSetup ueIp uePort remote remotePort) fun r =>
      r.1.carrier = core.carrier := by
  unfold bearerSetup
  cases hip : core.byIp[ueIp]? with
  | none => exact meets_ok rfl
  | some id =>
    refine Meets.bind (meets_sessionAt fun h => indexed_byIp (hsafe h) hip) fun s hs => ?_
    by_cases himsi : s.imsIp ≠ some ueIp
    · rw [if_pos himsi]
      exact meets_pure rfl
    rw [if_neg himsi]
    split
    · exact meets_pure rfl
    · split_ifs
      · exact meets_pure rfl
      dsimp only
      generalize hcore₁ : (core.setSession id { s with
        nextBearer := max (s.nextBearer + 1) 1
        bearers := s.bearers ++
          [({ id := s.nextBearer, qci := qciVoice, uePort, remote, remotePort }, false)]
        }).log _ = core₁
      have hcarrier₁ : core₁.carrier = core.carrier := by
        rw [← hcore₁, carrier_log]
        exact carrier_setSession_self hs rfl
      cases s.serving with
      | none => exact meets_pure hcarrier₁
      | some v =>
        refine meets_pure ?_
        dsimp only
        cases s.ho with
        | none => exact (carrier_send_quiet rfl).trans hcarrier₁
        | some h => exact ((carrier_send_quiet rfl).trans (carrier_send_quiet rfl)).trans hcarrier₁

theorem meets_bearerRelease (ueIp : Ipv4Addr) (bid : Byte) (hsafe : safe → core.carrier.Indexed) :
    Meets safe (core.bearerRelease ueIp bid) fun r => r.1.carrier = core.carrier := by
  unfold bearerRelease
  cases hip : core.byIp[ueIp]? with
  | none => exact meets_ok rfl
  | some id =>
    refine Meets.bind (meets_sessionAt fun h => indexed_byIp (hsafe h) hip) fun s hs => ?_
    have hself : (core.setSession id { s with bearers := s.bearers.filter (·.1.id ≠ bid) }).carrier
        = core.carrier := carrier_setSession_self hs rfl
    dsimp only
    generalize core.setSession id { s with bearers := s.bearers.filter (·.1.id ≠ bid) } = core₁
      at hself ⊢
    split_ifs
    · exact meets_pure hself
    · refine meets_pure ?_
      dsimp only
      cases s.serving with
      | none => exact hself
      | some v => exact (carrier_send_quiet rfl).trans hself

end EvansComputer.Cell.Core
