import EvansComputer.Cell.Carrier

/-!
# What the core does is moves

Every handler of the core, seen through `Core.carrier`, is a sequence of moves.  The
handlers are built from a few changes of the core: an output, a session that takes another
shape, a session that ends, a connection that goes.  Each has a lemma that says what it is
to the carrier, and most are nothing.

The assertions of a handler hold where the index it looks into is in step with the sessions;
`Meets` carries that beside the moves.
-/

namespace EvansComputer.Cell.Core

open Carrier Exec

variable {core : Core} {allowed : Carrier → Label → Prop}

variable {c : ConnId} {id : UInt32}

/-! ## Changes that the network does not see -/

theorem carrier_push {o : CoreOut} (h : o.said = none) : (core.push o).carrier = core.carrier := by
  ext1
  case said =>
    simp [carrier, push, h]
  all_goals rfl

theorem carrier_log (line : List Str) : (core.log line).carrier = core.carrier := carrier_push rfl

theorem carrier_save (now : ℕ) : (core.save now).carrier = core.carrier := carrier_push rfl

theorem carrier_pending (pending : List ((ConnId × UInt32) × PendingAuth)) :
    { core with pending }.carrier = core.carrier := rfl

/-- A connection whose registration stays as it is. -/
theorem carrier_setConn {conn : Conn} (h : (core.conns[c]?).map (·.site) = some conn.site) :
    (core.setConn c conn).carrier = core.carrier := by
  ext1
  case conns =>
    funext c'
    simp only [carrier, setConn, OrderedMap.getElem?_insert']
    by_cases hc : c = c'
    · rw [if_pos hc, ← hc, h]
      rfl
    · rw [if_neg hc]
  all_goals rfl

theorem carrier_send {m : Ctl} :
    (core.send c m).carrier =
      match core.conns[c]?, m.said c with
      | some _, some s => core.carrier.say s
      | _, _ => core.carrier := by
  have hpush : ∀ (core : Core) bytes, (core.push (.send c m bytes)).carrier =
      match m.said c with
      | some s => core.carrier.say s
      | none => core.carrier := by
    intro core bytes
    cases hm : m.said c with
    | none => exact carrier_push hm
    | some s =>
      ext1
      case said =>
        change (core.out ++ [CoreOut.send c m bytes]).filterMap CoreOut.said = _
        rw [List.filterMap_append, List.filterMap_cons]
        dsimp only [CoreOut.said]
        rw [hm]
        rfl
      all_goals rfl
  unfold send
  cases hc : core.conns[c]? with
  | none => rfl
  | some conn =>
    dsimp only
    cases conn.bh with
    | none =>
      rw [hpush]
      cases m.said c <;> rfl
    | some bh =>
      dsimp only
      rw [hpush, carrier_setConn (by rw [hc]; rfl)]
      cases m.said c <;> rfl

/-- Most messages say nothing. -/
theorem carrier_send_quiet {m : Ctl} (h : m.said c = none) :
    (core.send c m).carrier = core.carrier := by
  rw [carrier_send, h]
  cases core.conns[c]? <;> rfl

theorem carrier_send_release {cause : Cause} :
    (core.send c (.ueRelease id cause)).carrier = core.carrier := carrier_send_quiet rfl

theorem carrier_send_said {m : Ctl} {s : Said} (hc : core.conns[c]? ≠ none)
    (h : m.said c = some s) : (core.send c m).carrier = core.carrier.say s := by
  obtain ⟨conn, hconn⟩ := Option.ne_none_iff_exists'.mp hc
  rw [carrier_send, h, hconn]

/-! ## Sessions -/

theorem carrier_setSession (id : UInt32) (s : Session) :
    (core.setSession id s).carrier = core.carrier.seat id s.seat := by
  ext1
  case sessions =>
    funext id'
    simp only [carrier, setSession, OrderedMap.getElem?_insert', Carrier.seat]
    by_cases h : id = id'
    · rw [if_pos h, ← h, Function.update_self]
      rfl
    · rw [if_neg h, Function.update_of_ne (Ne.symm h)]
  all_goals rfl

theorem carrier_sessions {s : Session} (h : core.sessions[id]? = some s) :
    core.carrier.sessions id = some s.seat := by
  change (core.sessions[id]?).map Session.seat = _
  rw [h]
  rfl

/-- A session that the network sees as it was. -/
theorem carrier_setSession_self {s s' : Session} (h : core.sessions[id]? = some s)
    (hseat : s'.seat = s.seat) : (core.setSession id s').carrier = core.carrier := by
  rw [carrier_setSession, hseat]
  exact seat_self (carrier_sessions h)

/-- The messages about the end of a session say nothing. -/
theorem carrier_releases (s : Session) (id : UInt32) (cause : Cause) (notifySite : Bool)
    (core : Core) : (match s.ho with
      | some h => (match notifySite, s.serving with
          | true, some v => core.send v.conn (.ueRelease id cause)
          | _, _ => core).send h.target.conn (.ueRelease id .handoverFailed)
      | none => match notifySite, s.serving with
          | true, some v => core.send v.conn (.ueRelease id cause)
          | _, _ => core).carrier = core.carrier := by
  cases s.ho <;> cases notifySite <;> cases s.serving <;>
    simp only [carrier_send_release]

theorem carrier_endSession (id : UInt32) (cause : Cause) (notifySite : Bool) (now : ℕ) :
    (core.endSession id cause notifySite now).carrier = core.carrier.ended id := by
  unfold endSession
  cases hs : core.sessions[id]? with
  | none =>
    refine (ended_of_none ?_).symm
    change (core.sessions[id]?).map Session.seat = none
    rw [hs]
    rfl
  | some s =>
    dsimp only
    have hsave :
      ∀ core : Core, (if core.dirty then core.save now else core).carrier = core.carrier := by
      intro core
      split_ifs
      · exact carrier_save now
      · rfl
    rw [hsave, carrier_log]
    refine (carrier_releases s id cause notifySite _).trans ?_
    have hend : core.carrier.ended id = { core.carrier with
        sessions := Function.update core.carrier.sessions id none
        byIp := fun ip => if s.seat.Holds ip then none else core.carrier.byIp ip
        byTmsi := Function.update core.carrier.byTmsi s.tmsi none } := by
      rw [Carrier.ended, carrier_sessions hs]
      rfl
    rw [hend]
    ext1
    case sessions =>
      funext id'
      simp only [carrier, OrderedMap.getElem?_erase']
      by_cases h : id = id'
      · rw [if_pos h, ← h, Function.update_self]
        rfl
      · rw [if_neg h, Function.update_of_ne (Ne.symm h)]
    case byIp =>
      funext ip
      have hholds : s.seat.Holds ip ↔ s.ip = ip ∨ s.imsIp = some ip := Iff.rfl
      simp only [carrier, hholds]
      cases s.imsIp with
      | none =>
        rw [Option.elim_none, OrderedMap.getElem?_erase']
        by_cases h : s.ip = ip
        · rw [if_pos h, if_pos (.inl h)]
        · rw [if_neg h, if_neg (by rintro (h' | h'); exacts [h h', Option.some_ne_none _ h'.symm])]
      | some i =>
        rw [Option.elim_some, OrderedMap.getElem?_erase', OrderedMap.getElem?_erase']
        by_cases hi : i = ip
        · rw [if_pos hi, if_pos (.inr (congrArg some hi))]
        · rw [if_neg hi]
          by_cases h : s.ip = ip
          · rw [if_pos h, if_pos (.inl h)]
          · rw [if_neg h, if_neg (by
              rintro (h' | h')
              exacts [h h', hi (Option.some.inj h')])]
    case byTmsi =>
      funext t
      simp only [carrier, OrderedMap.getElem?_erase']
      by_cases h : s.tmsi = t
      · rw [if_pos h, ← h, Function.update_self]
      · rw [if_neg h, Function.update_of_ne (Ne.symm h)]
    all_goals rfl

/-- Sessions end one after another. -/
theorem carrier_foldl_endSession (core : Core) (ids : List UInt32) (cause : Cause)
    (notifySite : Bool) (now : ℕ) :
    (ids.foldl (fun core id => core.endSession id cause notifySite now) core).carrier
      = ids.foldl Carrier.ended core.carrier := by
  induction ids generalizing core with
  | nil => rfl
  | cons id ids ih => rw [List.foldl_cons, List.foldl_cons, ih, carrier_endSession]

theorem moves_foldl_ended (hq : ∀ v, allowed v .quiet) (ids : List UInt32) (v : Carrier) :
    Moves allowed v (ids.foldl Carrier.ended v) := by
  induction ids generalizing v with
  | nil => exact Moves.refl
  | cons id ids ih => exact (Moves.single (.ended v id) (hq v)).trans (ih _)

theorem sessions_foldl_ended (ids : List UInt32) (v : Carrier) (id : UInt32) :
    (ids.foldl Carrier.ended v).sessions id = if id ∈ ids then none else v.sessions id := by
  induction ids generalizing v with
  | nil => rfl
  | cons i ids ih =>
    rw [List.foldl_cons, ih, sessions_ended]
    by_cases hmem : id ∈ ids
    · rw [if_pos hmem, if_pos (List.mem_cons_of_mem _ hmem)]
    · rw [if_neg hmem]
      by_cases hi : id = i
      · subst hi
        rw [if_pos List.mem_cons_self, Function.update_self]
      · rw [if_neg (by rw [List.mem_cons, not_or]; exact ⟨hi, hmem⟩), Function.update_of_ne hi]

theorem foldl_ended_withConn (ids : List UInt32) (v : Carrier) (c : ConnId)
    (conn : Option (Option SiteReg)) :
    ids.foldl Carrier.ended (v.withConn c conn) = (ids.foldl Carrier.ended v).withConn c conn := by
  induction ids generalizing v with
  | nil => rfl
  | cons id ids ih => rw [List.foldl_cons, List.foldl_cons, ended_withConn, ih]

theorem mem_sessionIds {p : Session → Bool} :
    id ∈ core.sessionIds p ↔ ∃ s, core.sessions[id]? = some s ∧ p s = true := by
  simp only [sessionIds, List.mem_map, List.mem_filter]
  constructor
  · rintro ⟨⟨id', s⟩, ⟨hmem, hp⟩, rfl⟩
    exact ⟨s, Std.ExtTreeMap.mem_toList_iff_getElem?_eq_some.mp hmem, hp⟩
  · rintro ⟨s, hs, hp⟩
    exact ⟨(id, s), ⟨Std.ExtTreeMap.mem_toList_iff_getElem?_eq_some.mpr hs, hp⟩, rfl⟩

/-! ## Connections -/

theorem carrier_eraseConn (c : ConnId) :
    { core with conns := core.conns.erase c }.carrier = core.carrier.withConn c none := by
  ext1
  case conns =>
    funext c'
    simp only [carrier, OrderedMap.getElem?_erase', Carrier.withConn]
    by_cases h : c = c'
    · rw [if_pos h, ← h, Function.update_self]
      rfl
    · rw [if_neg h, Function.update_of_ne (Ne.symm h)]
  all_goals rfl

/-- Every session changed in the same way. -/
theorem carrier_mapSessions (f : Session → Session) :
    { core with sessions := core.sessions.map fun _ s => f s }.carrier =
      { core.carrier with sessions := fun id => (core.sessions[id]?).map fun s => (f s).seat } := by
  ext1
  case sessions =>
    funext id
    simp only [carrier, Std.ExtTreeMap.getElem?_map, Option.map_map]
    rfl
  all_goals rfl

/-- A seat whose handover towards a connection is dropped. -/
def dropSeat (c : ConnId) (a : Seat) : Seat :=
  if a.ho.any (·.target.conn = c) then { a with ho := none } else a

theorem seat_dropHo (c : ConnId) (s : Session) : (dropHo c s).seat = dropSeat c s.seat := by
  unfold dropHo dropSeat
  change _ = if s.ho.any (·.target.conn = c) then _ else _
  split_ifs <;> rfl

theorem keeps_dropSeat (c : ConnId) (a : Seat) : Seat.Keeps a (dropSeat c a) := by
  unfold dropSeat
  split_ifs
  · exact ⟨rfl, rfl, rfl, rfl, rfl, rfl, .inl rfl, .inr rfl⟩
  · exact Seat.Keeps.refl a

/-- A disconnect: the connection goes, then the sessions it served, then the handovers
towards it. -/
theorem onDisconnect_eq {conn : Conn} (hc : core.conns[c]? = some conn) (now : ℕ) :
    ∃ core₂ : Core, core₂.sessions = core.sessions ∧ core₂.carrier = core.carrier.withConn c none ∧
      core.onDisconnect c now =
        let core₃ := (core₂.sessionIds fun s => s.serving.map (·.conn) = some c).foldl
          (fun core id => core.endSession id .radioLost false now) core₂
        { core₃ with sessions := core₃.sessions.map fun _ s => dropHo c s } := by
  unfold onDisconnect
  rw [hc]
  dsimp only
  cases conn.site with
  | none =>
    refine ⟨_, ?_, ?_, rfl⟩
    · rfl
    · exact (carrier_pending _).trans (carrier_eraseConn c)
  | some s =>
    refine ⟨_, ?_, ?_, rfl⟩
    · rfl
    · exact ((carrier_pending _).trans (carrier_log _)).trans (carrier_eraseConn c)

theorem carrier_onDisconnect {conn : Conn} (hc : core.conns[c]? = some conn) (now : ℕ) :
    ∃ ids : List UInt32,
      (∀ id, id ∈ ids ↔ ∃ s, core.sessions[id]? = some s ∧ s.serving.map (·.conn) = some c) ∧
      (core.onDisconnect c now).carrier =
        { (ids.foldl Carrier.ended core.carrier).withConn c none with
          sessions := fun id => ((ids.foldl Carrier.ended core.carrier).sessions id).map
            (dropSeat c) } := by
  obtain ⟨core₂, hsessions, hcarrier, heq⟩ := onDisconnect_eq hc now
  refine ⟨core₂.sessionIds fun s => s.serving.map (·.conn) = some c, fun id => ?_, ?_⟩
  · simp only [mem_sessionIds, hsessions, decide_eq_true_eq]
  · rw [heq]
    dsimp only
    generalize core₂.sessionIds (fun s => s.serving.map (·.conn) = some c) = ids
    have hfold :
      (ids.foldl (fun core id => core.endSession id .radioLost false now) core₂).carrier =
        (ids.foldl Carrier.ended core.carrier).withConn c none := by
      rw [carrier_foldl_endSession, hcarrier, foldl_ended_withConn]
    generalize ids.foldl (fun core id => core.endSession id .radioLost false now) core₂ =
      core₃ at hfold ⊢
    rw [carrier_mapSessions, hfold]
    ext1
    case sessions =>
      funext id
      have hid : (core₃.sessions[id]?).map Session.seat
          = (ids.foldl Carrier.ended core.carrier).sessions id := by
        change core₃.carrier.sessions id = _
        rw [hfold]
        rfl
      dsimp only
      rw [← hid, Option.map_map]
      simp only [seat_dropHo]
      rfl
    all_goals rfl

/-- **A disconnect is moves**: the sessions the site served end, the handovers towards it
come to nothing, and nothing depends on it any more. -/
theorem moves_onDisconnect (hq : ∀ v, allowed v .quiet) (c : ConnId) (now : ℕ) :
    Moves allowed core.carrier (core.onDisconnect c now).carrier := by
  cases hc : core.conns[c]? with
  | none =>
    rw [onDisconnect, hc]
    exact Moves.refl
  | some conn =>
    obtain ⟨ids, hids, heq⟩ := carrier_onDisconnect hc now
    rw [heq]
    refine (moves_foldl_ended hq ids core.carrier).trans ?_
    set v := ids.foldl Carrier.ended core.carrier with hv
    refine (Moves.single (.kept (fun _ => dropSeat c) fun _ a _ => keeps_dropSeat c a) (hq v)).trans
      ?_
    refine Moves.single (.gone fun id a ha => ?_) (hq _)
    obtain ⟨b, hb, rfl⟩ := Option.map_eq_some_iff.mp ha
    rintro (hserving | hho)
    · have hsame : (dropSeat c b).serving = b.serving := by
        unfold dropSeat
        split_ifs <;> rfl
      rw [hsame] at hserving
      rw [hv, sessions_foldl_ended] at hb
      by_cases hmem : id ∈ ids
      · rw [if_pos hmem] at hb
        cases hb
      · rw [if_neg hmem] at hb
        obtain ⟨s, hs, rfl⟩ := Option.map_eq_some_iff.mp hb
        exact hmem ((hids id).mpr ⟨s, hs, hserving⟩)
    · unfold dropSeat at hho
      split_ifs at hho with hany
      · cases hho
      obtain ⟨h, hh, hconn⟩ := Option.map_eq_some_iff.mp hho
      rw [hh, Option.any_some, decide_eq_true_eq] at hany
      exact hany hconn

theorem conns_onDisconnect (c c' : ConnId) (now : ℕ) :
    (core.onDisconnect c now).carrier.conns c' = if c' = c then none
      else core.carrier.conns c' := by
  cases hc : core.conns[c]? with
  | none =>
    rw [onDisconnect, hc]
    dsimp only
    by_cases h : c' = c
    · rw [if_pos h, h]
      change (core.conns[c]?).map (·.site) = none
      rw [hc]
      rfl
    · rw [if_neg h]
  | some conn =>
    obtain ⟨ids, -, heq⟩ := carrier_onDisconnect hc now
    rw [heq]
    change Function.update (ids.foldl Carrier.ended core.carrier).conns c none c' = _
    have hconns : (ids.foldl Carrier.ended core.carrier).conns = core.carrier.conns := by
      clear heq
      generalize core.carrier = v
      induction ids generalizing v with
      | nil => rfl
      | cons id ids ih => rw [List.foldl_cons, ih, conns_ended]
    rw [hconns]
    by_cases h : c' = c
    · rw [if_pos h, h, Function.update_self]
    · rw [if_neg h, Function.update_of_ne h]

end EvansComputer.Cell.Core
