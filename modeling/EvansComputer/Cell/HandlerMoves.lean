import EvansComputer.Cell.CoreMoves

/-!
# What the handlers of the core do is moves

One lemma for each handler.  A handler that asserts nothing comes to a sequence of moves
outright.  One that does has a `Meets`, whose first argument says where its assertions hold:
that the connection is there, that the session is.

`allowed` is what the caller lets happen.  A handler asks for the labels it can make, with
what it knows of the state where it makes them, so that a run can be held to a condition on
its inputs.
-/

namespace EvansComputer.Cell.Core

open Carrier Exec

variable {core : Core} {allowed : Carrier → Label → Prop} {safe : Prop}

variable {c : ConnId}

/-! ## Loops -/

theorem moves_foldl {α : Type} {f : Core → α → Core} (l : List α)
    (hf : ∀ core, ∀ a ∈ l, Moves allowed core.carrier (f core a).carrier) :
    Moves allowed core.carrier (l.foldl f core).carrier := by
  induction l generalizing core with
  | nil => exact Moves.refl
  | cons a l ih =>
    rw [List.foldl_cons]
    exact (hf core a List.mem_cons_self).trans
      (ih fun core b hb => hf core b (List.mem_cons_of_mem _ hb))

theorem carrier_foldl {α : Type} {f : Core → α → Core} (l : List α)
    (hf : ∀ core, ∀ a ∈ l, (f core a).carrier = core.carrier) :
    (l.foldl f core).carrier = core.carrier := by
  induction l generalizing core with
  | nil => rfl
  | cons a l ih =>
    rw [List.foldl_cons, ih fun core b hb => hf core b (List.mem_cons_of_mem _ hb)]
    exact hf core a List.mem_cons_self

/-- A draw from the entropy source takes bytes from it and nothing else. -/
theorem meets_random {n : ℕ} :
    Meets safe (core.random n) fun r => ∃ entropy, r.1 = { core with entropy } := by
  unfold random
  cases splitOff n core.entropy with
  | none => exact meets_starved
  | some p => exact ⟨p.2, rfl⟩

theorem carrier_entropy (entropy : List Byte) : { core with entropy }.carrier = core.carrier := rfl

/-! ## Connections -/

theorem carrier_setConn_site (c : ConnId) (conn : Conn) :
    (core.setConn c conn).carrier = core.carrier.withConn c (some conn.site) := by
  ext1
  case conns =>
    funext c'
    simp only [carrier, setConn, OrderedMap.getElem?_insert', Carrier.withConn]
    by_cases h : c = c'
    · rw [if_pos h, ← h, Function.update_self]
      rfl
    · rw [if_neg h, Function.update_of_ne (Ne.symm h)]
  all_goals rfl

theorem carrier_conns {conn : Conn} (h : core.conns[c]? = some conn) :
    core.carrier.conns c = some conn.site := by
  change (core.conns[c]?).map (·.site) = _
  rw [h]
  rfl

theorem conns_of_carrier {site : Option SiteReg} (h : core.carrier.conns c = some site) :
    ∃ conn, core.conns[c]? = some conn ∧ conn.site = site :=
  Option.map_eq_some_iff.mp h

/-- A connection is there, and what the network knows of it. -/
theorem meets_connAt (hsafe : safe → core.carrier.conns c ≠ none) :
    Meets safe (core.connAt c) fun conn => core.conns[c]? = some conn := by
  refine meets_expect (fun hs hnone => hsafe hs ?_) fun conn h => h
  change (core.conns[c]?).map (·.site) = none
  rw [hnone]
  rfl

theorem meets_sessionAt {id : UInt32} (hsafe : safe → core.carrier.sessions id ≠ none) :
    Meets safe (core.sessionAt id) fun s => core.sessions[id]? = some s := by
  refine meets_expect (fun hs hnone => hsafe hs ?_) fun s h => h
  change (core.sessions[id]?).map Session.seat = none
  rw [hnone]
  rfl

theorem meets_onConnect (hq : ∀ v, allowed v .quiet) (hc : core.conns[c]? = none) (peer : Ipv4Addr)
    (now : ℕ) :
    Meets safe (core.onConnect c peer now) fun core' =>
      Moves allowed core.carrier core'.carrier := by
  refine Meets.bind meets_random ?_
  rintro ⟨core₁, nonce⟩ ⟨entropy, rfl⟩
  refine meets_pure ?_
  rw [carrier_send_quiet rfl, carrier_setConn_site, carrier_entropy]
  refine Moves.single (.connected ?_) (hq _)
  change (core.conns[c]?).map (·.site) = none
  rw [hc]
  rfl

/-- A connection goes, after something that the network does not see. -/
theorem moves_closed (hq : ∀ v, allowed v .quiet) {core' : Core} (h : core'.carrier = core.carrier)
    (now : ℕ) : Moves allowed core.carrier (core'.onDisconnect c now).carrier := by
  rw [← h]
  exact moves_onDisconnect hq c now

/-- Connections go, one after another. -/
theorem moves_close (core : Core) (hq : ∀ v, allowed v .quiet) {f : Core → ConnId → Core}
    (hf : ∀ core c, (f core c).carrier = core.carrier) (cs : List ConnId) (now : ℕ) :
    Moves allowed core.carrier
      (cs.foldl (fun core c => (f core c).onDisconnect c now) core).carrier := by
  exact moves_foldl cs fun core c _ => moves_closed hq (hf core c) now

theorem conns_close (core : Core) {f : Core → ConnId → Core}
    (hf : ∀ core c, (f core c).carrier = core.carrier) (cs : List ConnId) (hc : c ∉ cs) (now : ℕ) :
    (cs.foldl (fun core c => (f core c).onDisconnect c now) core).carrier.conns c
      = core.carrier.conns c := by
  induction cs generalizing core with
  | nil => rfl
  | cons c' cs ih =>
    rw [List.mem_cons, not_or] at hc
    rw [List.foldl_cons, ih _ hc.2, conns_onDisconnect, if_neg hc.1, hf]

theorem not_mem_stale (core : Core) (c : ConnId) (siteId : Str) (cells : List CellInfo) :
    c ∉ (core.conns.toList.filter fun (id, k) =>
    id ≠ c && k.site.any fun s =>
      s.id = siteId || s.cells.any fun x => cells.any fun y => y.cellId = x.cellId).map (·.1) := by
  rw [List.mem_map]
  rintro ⟨⟨c', k⟩, hmem, rfl⟩
  have := (List.mem_filter.mp hmem).2
  simp at this

/-- **The registration of a site is moves.** -/
theorem meets_siteAuth (hq : ∀ v, allowed v .quiet) (hc : core.carrier.conns c = some none)
    (ver : Byte) (siteId : Str) (cells : List CellInfo) (tunnelPort : UInt16)
    (siteNonce proof : List Byte) (now : ℕ) :
    Meets safe (core.siteAuth c ver siteId cells tunnelPort siteNonce proof now) fun core' =>
      Moves allowed core.carrier core'.carrier := by
  refine Meets.bind (meets_connAt fun _ => by rw [hc]; exact Option.some_ne_none _)
    fun conn hconn => ?_
  dsimp only
  split_ifs with hok
  · have hnotin := not_mem_stale core c siteId cells
    generalize List.map _ _ = stale at hnotin ⊢
    have hclose : ∀ (core : Core) (s : ConnId), (core.push (.close s)).carrier = core.carrier :=
      fun _ _ => carrier_push rfl
    have hmoves := moves_close core hq hclose stale now
    have hconns := conns_close core hclose stale hnotin now
    rw [hc] at hconns
    generalize stale.foldl (fun core c => (core.push (.close c)).onDisconnect c now) core = core₁
      at hmoves hconns ⊢
    refine Meets.bind (meets_connAt fun _ => by rw [hconns]; exact Option.some_ne_none _)
      fun conn₁ _ => ?_
    refine Meets.bind (Q := fun _ => True) (meets_expect (fun _ hnone => ?_) fun _ _ => trivial)
      fun secret _ => ?_
    · simp [hnone] at hok
    · refine meets_pure (hmoves.trans ?_)
      rw [carrier_send_quiet rfl, carrier_setConn_site, carrier_log]
      exact Moves.single (.registered _ hconns) (hq _)
  -- refused, for whichever reason
  all_goals
    refine meets_pure (moves_closed hq ?_ now)
    rw [carrier_push rfl, carrier_send_quiet rfl, carrier_log]

/-! ## Attach -/

/-- A database in which the same subscribers are revoked. -/
theorem carrier_db {db : Db}
    (h : ∀ imsi : Str, (db.subs[imsi]?).map (·.revoked) = (core.db.subs[imsi]?).map (·.revoked)) :
    { core with db }.carrier = core.carrier := by
  ext1
  case revoked => exact funext h
  all_goals rfl

theorem revoked_modifySub (db : Db) (imsi : Str) {f : Subscriber → Subscriber}
    (hf : ∀ s, (f s).revoked = s.revoked) (imsi' : Str) :
    ((db.modifySub imsi f).subs[imsi']?).map (·.revoked) = (db.subs[imsi']?).map (·.revoked) := by
  unfold Db.modifySub
  rw [OrderedMap.getElem?_modify']
  split_ifs
  · rw [Option.map_map]
    exact congrArg (Option.map · _) (funext hf)
  · rfl

theorem revoked_addressFor (db : Db) (imsi imsi' : Str) :
    ((db.addressFor imsi).1.subs[imsi']?).map (·.revoked) = (db.subs[imsi']?).map (·.revoked) := by
  unfold Db.addressFor
  cases db.subs[imsi]? with
  | none => rfl
  | some sub =>
    dsimp only
    cases sub.ip with
    | some ip => rfl
    | none =>
      dsimp only
      split
      · refine revoked_modifySub db imsi ?_ imsi'
        exact fun _ => rfl
      · rfl

theorem revoked_imsAddressFor (db : Db) (imsi imsi' : Str) :
    ((db.imsAddressFor imsi).1.subs[imsi']?).map (·.revoked) = (db.subs[imsi']?).map
    (·.revoked) := by
  unfold Db.imsAddressFor
  split
  · split
    · rfl
    · dsimp only
      split
      · refine revoked_modifySub db imsi ?_ imsi'
        exact fun _ => rfl
      · rfl
  · rfl

/-- Who gets an address is a subscriber. -/
theorem sub_of_addressFor {db : Db} {imsi : Str} {ip : Ipv4Addr}
    (h : (db.addressFor imsi).2 = some ip) :
    db.subs[imsi]? ≠ none := by
  intro hnone
  rw [Db.addressFor, hnone] at h
  cases h

/-- The addresses that a subscriber who attaches gets: those on record, else free ones. -/
def attachAddrs (core : Core) (imsi : Str) : Option (Ipv4Addr × Option Ipv4Addr) :=
  let (db, ip) := core.db.addressFor imsi
  ip.map fun ip =>
    (ip, if (db.subs[imsi]?).any fun s => s.ims.msisdn ≠
      [] then (db.imsAddressFor imsi).2 else none)

/-- What is known of a session that begins: it is the subscriber's, with the addresses
that are due, once the sessions that the subscriber had are gone. -/
structure Attaches (core : Core) (imsi : Str) (v : Carrier) (a : Seat) : Prop where
  same : a.imsi = imsi
  addrs : core.attachAddrs imsi = some (a.ip, a.imsIp)
  sessions : v.sessions = fun id => (core.carrier.sessions id).filter (·.imsi ≠ imsi)
  revoked : v.revoked = core.carrier.revoked
  nextSession : v.nextSession = core.carrier.nextSession
  said : v.said = core.carrier.said

theorem carrier_reject (c : ConnId) (ue : UInt32) (imsi : Str) (cause : Cause) :
    (core.reject c ue imsi cause).carrier = core.carrier := by
  rw [reject, carrier_send_quiet rfl, carrier_log]

/-- A challenge is nothing to the network. -/
theorem meets_ueAttach (c : ConnId) (ue cell : UInt32) (imsi carrier : Str) (now : ℕ) :
    Meets safe (core.ueAttach c ue cell imsi carrier now) fun core' =>
      core'.carrier = core.carrier := by
  unfold ueAttach
  split_ifs
  · exact carrier_reject ..
  cases core.db.subs[imsi]? with
  | none => exact carrier_reject ..
  | some sub =>
    dsimp only
    split_ifs
    · exact carrier_reject ..
    · exact carrier_reject ..
    · refine Meets.bind meets_random ?_
      rintro ⟨core₁, rand⟩ ⟨entropy, rfl⟩
      exact meets_pure (carrier_send_quiet rfl)

theorem meets_drawTmsi (taken : UInt32 → Bool) (tape : List Byte) :
    Meets safe (drawTmsi taken tape) fun r => taken r.1 = false := by
  induction tape using drawTmsi.induct taken with
  | case1 a b c d rest t h =>
    rw [drawTmsi, if_pos h]
    rw [Bool.and_eq_true, Bool.not_eq_true'] at h
    exact h.2
  | case2 a b c d rest t h ih =>
    rw [drawTmsi, if_neg h]
    exact ih
  | case3 tape h =>
    rw [drawTmsi]
    · exact meets_starved
    · exact h

theorem meets_newTmsi :
    Meets safe core.newTmsi fun r => (∃ entropy, r.1 = { core with entropy }) ∧
      core.byTmsi[r.2]? = none := by
  refine Meets.bind (meets_drawTmsi _ _) ?_
  rintro ⟨t, rest⟩ ht
  refine meets_pure ⟨⟨rest, rfl⟩, ?_⟩
  rw [Std.ExtTreeMap.contains_eq_isSome_getElem?, Option.isSome_eq_false_iff,
    Option.isNone_iff_eq_none] at ht
  exact ht

/-- A context goes to the site with its session and its epoch. -/
theorem meets_sendAccept {id : UInt32} {s : Session} (hs : core.sessions[id]? = some s)
    (hc : core.carrier.conns c ≠ none) (ue cell : UInt32) :
    Meets safe (core.sendAccept id c ue cell) fun core' =>
      core'.carrier = core.carrier.say (.accept c id s.epoch) := by
  refine Meets.bind
    (meets_sessionAt fun _ => by rw [carrier_sessions hs]; exact Option.some_ne_none _)
    fun s₁ hs₁ => ?_
  obtain rfl := Option.some.inj (hs₁.symm.trans hs)
  have hself :
    (core.setSession id { s₁ with ulSeen := s₁.ulSeen.erase c }).carrier = core.carrier :=
    carrier_setSession_self hs rfl
  refine Meets.bind (meets_sessionAt fun _ => by
    rw [hself, carrier_sessions hs]; exact Option.some_ne_none _) fun s₂ hs₂ => ?_
  have hs₂' : some { s₁ with ulSeen := s₁.ulSeen.erase c } = some s₂ := by
    rw [← hs₂, setSession, OrderedMap.getElem?_insert', if_pos rfl]
  obtain rfl := Option.some.inj hs₂'
  refine meets_pure ?_
  rw [carrier_send_said (s := .accept c id s₁.epoch) ?_ rfl, hself]
  intro hnone
  apply hc
  change (core.conns[c]?).map (·.site) = none
  rw [show core.conns[c]? = none from hnone]
  rfl

/-- The state with a session more. -/
theorem carrier_createSession (id : UInt32) (c : ConnId) (ue : UInt32) (p : PendingAuth)
    (ip : Ipv4Addr) (imsIp : Option Ipv4Addr) (tmsi : UInt32) (now : ℕ) :
    (core.createSession id c ue p ip imsIp tmsi now).carrier =
      { core.carrier.created
          { id, imsi := p.imsi, ip, imsIp, tmsi, epoch := 1, serving := some ⟨c, ue, p.cell⟩,
            ho := none }
        with nextSession := core.carrier.nextSession } := by
  ext1
  case sessions =>
    funext id'
    simp only [carrier, createSession, OrderedMap.getElem?_insert', Carrier.created]
    by_cases h : id = id'
    · rw [if_pos h, ← h, Function.update_self]
      rfl
    · rw [if_neg h, Function.update_of_ne (Ne.symm h)]
  case byIp =>
    funext i
    simp only [carrier, createSession, Carrier.created, Seat.Holds]
    cases imsIp with
    | none =>
      rw [Option.elim_none, OrderedMap.getElem?_insert']
      simp only [reduceCtorEq, or_false]
    | some i' =>
      rw [Option.elim_some, OrderedMap.getElem?_insert', OrderedMap.getElem?_insert']
      simp only [Option.some.injEq]
      by_cases hi : i' = i
      · rw [if_pos hi, if_pos (.inr hi)]
      · rw [if_neg hi]
        simp only [hi, or_false]
  case byTmsi =>
    funext t
    simp only [carrier, createSession, OrderedMap.getElem?_insert', Carrier.created]
    by_cases h : tmsi = t
    · rw [if_pos h, ← h, Function.update_self]
    · rw [if_neg h, Function.update_of_ne (Ne.symm h)]
  all_goals rfl

theorem db_send (c : ConnId) (m : Ctl) : (core.send c m).db = core.db := by
  unfold send
  cases core.conns[c]? with
  | none => rfl
  | some conn =>
    dsimp only
    cases conn.bh <;> rfl

theorem db_endSession (id : UInt32) (cause : Cause) (notifySite : Bool) (now : ℕ) :
    (core.endSession id cause notifySite now).db = core.db := by
  unfold endSession
  cases core.sessions[id]? with
  | none => rfl
  | some s =>
    dsimp only
    have hsave : ∀ core : Core, (if core.dirty then core.save now else core).db = core.db := by
      intro core
      split_ifs <;> rfl
    rw [hsave, log, push]
    cases s.ho <;> cases notifySite <;> cases s.serving <;> dsimp only <;> simp only [db_send]

theorem db_foldl_endSession (core : Core) (ids : List UInt32) (cause : Cause)
    (notifySite : Bool) (now : ℕ) :
    (ids.foldl (fun core id => core.endSession id cause notifySite now) core).db = core.db := by
  induction ids generalizing core with
  | nil => rfl
  | cons id ids ih => rw [List.foldl_cons, ih, db_endSession]

/-- The sessions of a subscriber end. -/
theorem sessions_ended_of (core : Core) (imsi : Str) :
    ((core.sessionIds (·.imsi = imsi)).foldl Carrier.ended core.carrier).sessions
      = fun id => (core.carrier.sessions id).filter (·.imsi ≠ imsi) := by
  funext id
  rw [sessions_foldl_ended]
  change (if _ then _ else (core.sessions[id]?).map Session.seat) =
    ((core.sessions[id]?).map Session.seat).filter _
  cases hs : core.sessions[id]? with
  | none =>
    rw [Option.map_none, Option.filter_none, ite_self]
  | some s =>
    by_cases himsi : s.imsi = imsi
    · rw [if_pos (mem_sessionIds.mpr ⟨s, hs, decide_eq_true himsi⟩), Option.map_some,
        Option.filter_some_neg]
      simp [Session.seat, himsi]
    · rw [if_neg, Option.map_some, Option.filter_some_pos]
      · simp [Session.seat, himsi]
      · rw [mem_sessionIds]
        rintro ⟨s', hs', hp⟩
        rw [hs, Option.some.injEq] at hs'
        subst hs'
        exact himsi (of_decide_eq_true hp)

theorem said_foldl_ended (ids : List UInt32) (v : Carrier) :
    (ids.foldl Carrier.ended v).conns = v.conns ∧ (ids.foldl Carrier.ended v).revoked = v.revoked ∧
      (ids.foldl Carrier.ended v).nextSession = v.nextSession ∧
      (ids.foldl Carrier.ended v).said = v.said := by
  induction ids generalizing v with
  | nil => exact ⟨rfl, rfl, rfl, rfl⟩
  | cons id ids ih =>
    have hstep : (v.ended id).conns = v.conns ∧ (v.ended id).revoked = v.revoked ∧
        (v.ended id).nextSession = v.nextSession ∧ (v.ended id).said = v.said := by
      unfold Carrier.ended
      cases v.sessions id <;> exact ⟨rfl, rfl, rfl, rfl⟩
    obtain ⟨h₁, h₂, h₃, h₄⟩ := ih (v.ended id)
    exact ⟨h₁.trans hstep.1, h₂.trans hstep.2.1, h₃.trans hstep.2.2.1, h₄.trans hstep.2.2.2⟩

/-- **A session begins**, or there is no address for it. -/
theorem meets_beginSession (hc : core.carrier.Registered c) (ue : UInt32) {p : PendingAuth}
    (now : ℕ) (hnew : ∀ id a, core.carrier.sessions id = some a → a.imsi ≠ p.imsi)
    (hcreated : ∀ a : Seat, a.imsi = p.imsi → core.attachAddrs p.imsi = some (a.ip, a.imsIp) →
      allowed core.carrier (.created a)) :
    Meets safe (core.beginSession c ue p now) fun core' =>
      Moves allowed core.carrier core'.carrier := by
  have haddr := revoked_addressFor core.db p.imsi
  have hattach : core.attachAddrs p.imsi = ((core.db.addressFor p.imsi).2).map fun ip =>
      (ip, if ((core.db.addressFor p.imsi).1.subs[p.imsi]?).any fun s => s.ims.msisdn ≠ []
        then ((core.db.addressFor p.imsi).1.imsAddressFor p.imsi).2 else none) := rfl
  have hsub : ∀ ip, (core.db.addressFor p.imsi).2 = some ip → core.db.subs[p.imsi]? ≠ none :=
    fun ip => sub_of_addressFor
  unfold beginSession
  generalize core.db.addressFor p.imsi = answer at haddr hattach hsub ⊢
  obtain ⟨db₁, ip⟩ := answer
  cases ip with
  | none =>
    refine Moves.of_eq ?_
    dsimp only at haddr ⊢
    rw [carrier_reject, carrier_db haddr]
  | some ip =>
    have hims : ∃ db₂ imsIp, (if (db₁.subs[p.imsi]?).any fun s => s.ims.msisdn ≠ []
          then db₁.imsAddressFor p.imsi else (db₁, none)) = (db₂, imsIp) ∧
        (∀ imsi : Str, (db₂.subs[imsi]?).map (·.revoked) = (core.db.subs[imsi]?).map (·.revoked)) ∧
        core.attachAddrs p.imsi = some (ip, imsIp) := by
      rw [hattach, Option.map_some]
      by_cases hnumber : ((db₁.subs[p.imsi]?).any fun s => s.ims.msisdn ≠ []) = true
      · rw [if_pos hnumber, if_pos hnumber]
        refine ⟨_, _, rfl, fun imsi => ?_, rfl⟩
        exact (revoked_imsAddressFor db₁ p.imsi imsi).trans (haddr imsi)
      · rw [if_neg hnumber, if_neg hnumber]
        exact ⟨_, _, rfl, haddr, rfl⟩
    obtain ⟨db₂, imsIp, heq, hdb₂, haddrs⟩ := hims
    dsimp only
    rw [heq]
    dsimp only
    refine Meets.bind meets_newTmsi ?_
    rintro ⟨core₁, tmsi⟩ ⟨⟨entropy, rfl⟩, htmsi⟩
    set a : Seat := { id := core.nextSession, imsi := p.imsi, ip, imsIp, tmsi, epoch := 1,
                      serving := some ⟨c, ue, p.cell⟩, ho := none } with ha
    -- the one core with the session, before its site hears of it
    generalize hcore₁ : ({ core with
        db := db₂, nextSession := max (core.nextSession + 1) 1, entropy := entropy } : Core) = core₁
    have hcarrier₁ :
      core₁.carrier = { core.carrier with nextSession := max (core.nextSession + 1) 1 } := by
      rw [← hcore₁]
      ext1
      case revoked => exact funext hdb₂
      all_goals rfl
    generalize hcore₂ : ((core₁.createSession core.nextSession c ue p ip imsIp tmsi now).log
      _).save now = core₂
    have hcarrier₂ : core₂.carrier = core.carrier.created a := by
      rw [← hcore₂, carrier_save, carrier_log, carrier_createSession, hcarrier₁]
      rfl
    have hs : ∃ s, core₂.sessions[core.nextSession]? = some s ∧ s.epoch = 1 := by
      rw [← hcore₂]
      exact ⟨_, OrderedMap.getElem?_insert'.trans (if_pos rfl), rfl⟩
    obtain ⟨s, hs, hepoch⟩ := hs
    refine Meets.mono (meets_sendAccept hs ?_ ue p.cell) fun core' h => ?_
    · rw [hcarrier₂]
      obtain ⟨reg, hreg⟩ := hc
      exact fun hnone => Option.some_ne_none _ (hreg.symm.trans hnone)
    · rw [h, hcarrier₂, hepoch]
      have hmove :
        Move core.carrier (.created a) ((core.carrier.created a).say (.accept c a.id a.epoch)) :=
        .created (s := ⟨c, ue, p.cell⟩) rfl htmsi hnew
          (fun hnone => hsub ip rfl (Option.map_eq_none_iff.mp hnone)) rfl hc rfl
      exact Moves.single hmove (hcreated a rfl haddrs)

/-- **The answer to a challenge is moves**: the sessions that the subscriber had end, and
one begins. -/
theorem meets_ueAuthResponse (hq : ∀ v, allowed v .quiet) (hc : core.carrier.Registered c)
    {ue : UInt32} {res : List Byte} (now : ℕ)
    (hcreated : ∀ p v a, core.pending.lookup (c, ue) = some p → p.resp.res = res →
      core.Attaches p.imsi v a → allowed v (.created a)) :
    Meets safe (core.ueAuthResponse c ue res now) fun core' =>
      Moves allowed core.carrier core'.carrier := by
  unfold ueAuthResponse
  cases hp : core.pending.lookup (c, ue) with
  | none => exact Moves.refl
  | some p =>
    dsimp only
    split_ifs with hres
    · refine Moves.of_eq ?_
      rw [carrier_reject]
      rfl
    rw [not_not] at hres
    set core₁ : Core := { core with pending := core.pending.filter (·.1 ≠ (c, ue)) }
    have hcarrier₁ : core₁.carrier = core.carrier := rfl
    set ids := core₁.sessionIds (·.imsi = p.imsi) with hids
    have hended := moves_foldl_ended hq ids core.carrier
    have hsessions := sessions_ended_of core₁ p.imsi
    obtain ⟨hconns, hrevoked, hnext, hsaid⟩ := said_foldl_ended ids core.carrier
    have hcarrier := carrier_foldl_endSession core₁ ids .sessionLost true now
    have hdb := db_foldl_endSession core₁ ids .sessionLost true now
    rw [← hids, hcarrier₁] at hsessions
    rw [hcarrier₁] at hcarrier
    rw [← hcarrier] at hended hsessions hconns hrevoked hnext hsaid
    generalize ids.foldl (fun core id => core.endSession id .sessionLost true now) core₁ = core₂
      at hended hsessions hconns hrevoked hnext hsaid hdb ⊢
    have hbegin : Meets safe (core₂.beginSession c ue p now) _ := meets_beginSession
      (by rw [Registered, hconns]; exact hc) ue now
      (fun id a ha => by
        rw [hsessions] at ha
        exact of_decide_eq_true (Option.filter_eq_some_iff.mp ha).2)
      (fun a himsi haddrs => hcreated p _ a hp hres
        ⟨himsi, by rw [attachAddrs, hdb] at haddrs; exact haddrs, hsessions, hrevoked,
          hnext, hsaid⟩)
    exact hbegin.mono fun core' h => hended.trans h

/-- **A service request is moves**: one, where it is accepted. -/
theorem meets_ueService (hc : core.carrier.Registered c) (ue cell : UInt32) {tmsi count : UInt32}
    {mac : List Byte}
    (hsafe : safe → ∀ id, core.byTmsi[tmsi]? = some id → core.carrier.sessions id ≠ none)
    (hserved : ∀ id s, core.byTmsi[tmsi]? = some id → core.sessions[id]? = some s →
      s.srCount < count →
      core.prim.srMac s.resp.ksInt tmsi count = mac → allowed core.carrier (.served id)) :
    Meets safe (core.ueService c ue cell tmsi count mac) fun core' =>
      Moves allowed core.carrier core'.carrier := by
  unfold ueService
  cases hid : core.byTmsi[tmsi]? with
  | none => exact Moves.of_eq (carrier_send_quiet rfl).symm
  | some id =>
    refine Meets.bind (meets_sessionAt fun hs => hsafe hs id hid) fun s hs => ?_
    split_ifs with hbad
    · refine meets_pure (Moves.of_eq ?_)
      rw [carrier_send_quiet rfl, carrier_log]
    · rw [not_or, UInt32.not_le, not_not] at hbad
      generalize hs' : ({ s with
        srCount := count
        epoch := s.epoch + 1
        serving := some ⟨c, ue, cell⟩
        active := false
        idle := false
        bearers := [] } : Session) = s'
      have hseat :
        s'.seat = { s.seat with epoch := s.epoch + 1, serving := some ⟨c, ue, cell⟩ } := by
        rw [← hs']
        rfl
      dsimp only
      generalize hcore₁ : (core.setSession id s').log _ = core₁
      have hcarrier₁ : core₁.carrier = core.carrier.seat id s'.seat := by
        rw [← hcore₁, carrier_log, carrier_setSession]
      have hs₁ : core₁.sessions[id]? = some s' := by
        rw [← hcore₁]
        exact OrderedMap.getElem?_insert'.trans (if_pos rfl)
      obtain ⟨reg, hreg⟩ := hc
      refine Meets.mono (meets_sendAccept hs₁ ?_ ue cell) fun core' h => ?_
      · rw [hcarrier₁]
        exact fun hnone => Option.some_ne_none _ (hreg.symm.trans hnone)
      · rw [h, hcarrier₁, hseat, ← hs']
        have hmove := Move.served (s := ⟨c, ue, cell⟩) (carrier_sessions hs) ⟨reg, hreg⟩
        exact Moves.single hmove (hserved id s hid hs hbad.1 hbad.2)

/-! ## Handover -/

theorem connForCell_registered {cell : UInt32} {ci : CellInfo}
    (h : core.connForCell cell = some (c, ci)) : core.carrier.Registered c := by
  obtain ⟨⟨c', conn⟩, hmem, hfound⟩ := List.exists_of_findSome?_eq_some h
  obtain ⟨reg, hreg, hcell⟩ := Option.bind_eq_some_iff.mp hfound
  obtain ⟨ci', -, heq⟩ := Option.map_eq_some_iff.mp hcell
  obtain ⟨rfl, rfl⟩ := Prod.mk.injEq .. ▸ heq
  refine ⟨reg, ?_⟩
  rw [carrier_conns (Std.ExtTreeMap.mem_toList_iff_getElem?_eq_some.mp hmem)]
  exact congrArg some hreg

/-- **A handover request is moves**: one, where the handover begins. -/
theorem meets_hoRequired (hq : ∀ v, allowed v .quiet) (c : ConnId)
    (session targetCell : UInt32) (now : ℕ) :
    Meets safe (core.hoRequired c session targetCell now) fun core' =>
      Moves allowed core.carrier core'.carrier := by
  unfold hoRequired
  cases hs : core.sessions[session]? with
  | none => exact Moves.refl
  | some s =>
    dsimp only
    split_ifs with hserving hho htarget
    · exact Moves.refl
    · exact Moves.refl
    · refine Moves.of_eq ?_
      rw [carrier_send_quiet rfl, carrier_log]
    · obtain ⟨⟨tconn, ci⟩, hconn⟩ := Option.ne_none_iff_exists'.mp
        (mt Option.isNone_iff_eq_none.mpr htarget)
      obtain ⟨v, hv⟩ : ∃ v, s.serving = some v := by
        rw [not_or, not_not] at hserving
        obtain ⟨v, hv, -⟩ := Option.map_eq_some_iff.mp hserving.1
        exact ⟨v, hv⟩
      rw [hconn]
      refine Meets.bind (meets_expect (fun _ => Option.some_ne_none _) fun a h => h) ?_
      rintro ⟨tconn', ci'⟩ heq
      obtain ⟨rfl, rfl⟩ := Prod.mk.injEq .. ▸ Option.some.inj heq
      refine Meets.bind (Q := fun s' => s = s') (meets_expect ?_ ?_) ?_
      · exact fun _ hnone => Option.some_ne_none _ (hs.symm.trans hnone)
      · exact fun s' hs' => Option.some.inj (hs.symm.trans hs')
      rintro _ rfl
      rw [hv]
      refine Meets.bind (Q := fun v' => v = v') (meets_expect (fun _ => Option.some_ne_none _)
        fun v' h => Option.some.inj h) ?_
      rintro _ rfl
      refine meets_pure ?_
      have htconn := connForCell_registered hconn
      have hsite : core.carrier.Registered (Serving.conn ⟨tconn, v.ue, targetCell⟩) := htconn
      have hmove :=
        Move.prepared now (carrier_sessions hs) (Option.not_isSome_iff_eq_none.mp hho) hsite
      rw [carrier_send_said (s := .request tconn core.nextHo session targetCell (s.epoch + 1)) ?_
        rfl,
        carrier_setSession]
      · refine Moves.trans (Moves.single hmove (hq _)) (Moves.of_eq ?_)
        rw [show s.seat.serving = some v from hv]
        rfl
      · obtain ⟨reg, hreg⟩ := htconn
        obtain ⟨conn, hc, -⟩ := conns_of_carrier hreg
        exact fun hnone => Option.some_ne_none _ (hc.symm.trans hnone)

theorem isHo_iff {s : Session} {ho : UInt32} :
    isHo s ho c = true ↔ ∃ h, s.ho = some h ∧ h.id = ho ∧ h.target.conn = c := by
  unfold isHo
  rw [Option.any_eq_true]
  refine exists_congr fun h => ?_
  rw [Bool.and_eq_true, decide_eq_true_eq, decide_eq_true_eq]

theorem seat_acknowledge (ho : UInt32) (c : ConnId) (s : Session) :
    (acknowledge ho c s).seat = s.seat.acknowledged ho c := by
  unfold acknowledge
  cases hs : s.ho with
  | none =>
    rw [if_neg (by rw [isHo_iff, hs]; rintro ⟨h, hnone, -⟩; cases hnone)]
    unfold Seat.acknowledged Session.seat
    rw [hs]
    rfl
  | some h =>
    unfold Seat.acknowledged Session.seat
    by_cases hh : h.id = ho ∧ h.target.conn = c
    · rw [if_pos (isHo_iff.mpr ⟨h, hs, hh⟩)]
      dsimp only
      rw [hs, Option.map_some, Option.map_some, if_pos hh]
    · rw [if_neg (by
        rw [isHo_iff, hs]
        rintro ⟨h', heq, hh'⟩
        exact hh (Option.some.inj heq ▸ hh'))]
      dsimp only
      rw [hs, Option.map_some, if_neg hh]

/-- **The answer of a target is moves**: it is noted, and the serving site is told. -/
theorem moves_hoAck {ho : UInt32} (hacked : ∀ v, allowed v (.acked c ho)) (ueId : UInt16)
    (grant : Grant) : Moves allowed core.carrier (core.hoAck c ho ueId grant).carrier := by
  unfold hoAck
  dsimp only
  generalize hcore₁ :
    ({ core with sessions := core.sessions.map fun _ s => acknowledge ho c s } : Core)
    = core₁
  have hcarrier₁ : core₁.carrier = { core.carrier with
      sessions := fun id => (core.carrier.sessions id).map (Seat.acknowledged ho c) } := by
    rw [← hcore₁, carrier_mapSessions]
    ext1
    case sessions =>
      funext id
      change _ = ((core.sessions[id]?).map Session.seat).map _
      rw [Option.map_map]
      simp only [seat_acknowledge]
      rfl
    all_goals rfl
  have hmove : Moves allowed core.carrier core₁.carrier := by
    rw [hcarrier₁]
    exact Moves.single (.acked core.carrier c ho) (hacked _)
  cases hfound : (core.sessions.toList.filter fun x => isHo x.2 ho c).getLast? with
  | none => exact hmove
  | some x =>
    obtain ⟨id, s⟩ := x
    obtain ⟨hmem, hho⟩ := List.mem_filter.mp (List.mem_of_getLast? hfound)
    have hs := Std.ExtTreeMap.mem_toList_iff_getElem?_eq_some.mp hmem
    obtain ⟨h, hh, rfl, rfl⟩ := isHo_iff.mp hho
    dsimp only
    rw [hh]
    cases hv : s.serving with
    | none => exact hmove
    | some v =>
      dsimp only
      cases core₁.connForCell h.target.cell with
      | none => exact hmove
      | some x =>
        dsimp only
        rw [carrier_send]
        cases core₁.conns[v.conn]? with
        | none => exact hmove
        | some conn =>
          refine hmove.trans (Moves.single (l := .acked h.target.conn h.id) ?_ (hacked _))
          have hseat :
            core₁.carrier.sessions id = some (s.seat.acknowledged h.id h.target.conn) := by
            rw [hcarrier₁]
            dsimp only
            rw [carrier_sessions hs, Option.map_some]
          have hho' :
            (s.seat.acknowledged h.id h.target.conn).ho = some { h with acked := true } := by
            unfold Seat.acknowledged Session.seat
            dsimp only
            rw [hh, Option.map_some, if_pos ⟨rfl, rfl⟩]
          exact Move.commanded (h := { h with acked := true }) hseat hho' hv

/-- **A path switch is moves**: one, to the target. -/
theorem moves_pathSwitch {ho session : UInt32}
    (hswitched : ∀ v, allowed v (.switched c ho session)) :
    Moves allowed core.carrier (core.pathSwitch c ho session).carrier := by
  unfold pathSwitch
  cases hs : core.sessions[session]? with
  | none => exact Moves.refl
  | some s =>
    dsimp only
    cases hh : s.ho with
    | none => exact Moves.refl
    | some h =>
      dsimp only
      split_ifs with hne
      · exact Moves.refl
      · rw [not_or, not_not, not_not] at hne
        obtain ⟨rfl, rfl⟩ := hne
        refine Moves.trans (Moves.single (.switched (carrier_sessions hs) hh) (hswitched _))
          (Moves.of_eq ?_)
        rw [carrier_log, carrier_send_quiet rfl]
        cases s.serving with
        | none =>
          dsimp only
          rw [carrier_setSession]
          rfl
        | some v =>
          dsimp only
          rw [carrier_send_release, carrier_setSession]
          rfl

end EvansComputer.Cell.Core
