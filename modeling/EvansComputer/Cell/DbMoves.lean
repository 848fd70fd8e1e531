import EvansComputer.Cell.CoreRun
import EvansComputer.Cell.DbChanges

/-!
# What the core does to its database

Most of the core does not write to the database at all: the control messages, the handovers
and the traffic read it.  An attach hands out addresses, the traffic counts what is used, and
the operator's commands do the rest.  `Quiets` is what everything but a command comes to, and
`Db.Change` what a step comes to (`changes_step`), so that what a change keeps, a run keeps.
-/

namespace EvansComputer.Cell

open Text

namespace Db

variable {db : Db}

/-! ## The file with another `ims` line -/

theorem Valid.isPlain_domain (h : db.Valid) {i : ImsConf} (hi : db.ims = some i) :
    ∀ c ∈ i.domain, IsPlain c := by
  rcases (h.ims i hi).domain with hdefault | hdomain
  · rw [hdefault]
    exact isPlain_defaultDomain h.carrier
  · exact isPlain_of_validDomain hdomain.1

theorem lines_toText (h : db.Valid) : lines db.toText = db.textLines := by
  refine lines_flatMap fun l hl => ?_
  rw [textLines_eq] at hl
  rcases List.mem_append.mp hl with hl | hl
  · exact (accepts_headLines h).1 l hl
  rcases List.mem_append.mp hl with hl | hl
  · cases hi : db.ims with
    | none =>
      rw [hi] at hl
      exact absurd hl List.not_mem_nil
    | some i =>
      rw [hi] at hl
      rw [List.mem_singleton.mp hl, imsLine_eq]
      exact isLine_unwords fun w hw => (isName_imsWordsOf (h.isPlain_domain hi) w hw).1
  · exact (accepts_tailLines h none).1 l hl

/-- Only the `ims` line begins with its word. -/
theorem not_ims_headLines : ∀ l ∈ db.headLines, "ims ".toList.isPrefixOf l = false := by
  intro l hl
  simp only [headLines, List.mem_append, or_assoc] at hl
  rcases hl with hl | hl | hl | hl | hl | hl
  · simp only [List.mem_cons, List.not_mem_nil, or_false] at hl
    rcases hl with rfl | rfl | rfl | rfl | rfl <;> rfl
  · split_ifs at hl
    · rw [List.mem_singleton.mp hl]; rfl
    · exact absurd hl List.not_mem_nil
  · rw [List.mem_singleton.mp hl]; rfl
  · split_ifs at hl
    · rw [List.mem_singleton.mp hl]; rfl
    · exact absurd hl List.not_mem_nil
  · obtain ⟨b, -, rfl⟩ := List.mem_map.mp hl
    rfl
  · cases hk : db.enumKey with
    | none =>
      rw [hk] at hl
      exact absurd hl List.not_mem_nil
    | some k =>
      rw [hk] at hl
      rw [List.mem_singleton.mp hl]; rfl

theorem not_ims_tailLines : ∀ l ∈ db.tailLines, "ims ".toList.isPrefixOf l = false := by
  intro l hl
  rcases List.mem_append.mp hl with hl | hl
  · obtain ⟨x, -, rfl⟩ := List.mem_map.mp hl
    rfl
  · obtain ⟨x, -, rfl⟩ := List.mem_map.mp hl
    rw [subLine_eq, unwords_cons]
    rfl

theorem filter_textLines :
    (db.textLines.filter fun l => !"ims ".toList.isPrefixOf l) = db.headLines ++ db.tailLines := by
  have hkeep : ∀ ls : List Str, (∀ l ∈ ls, "ims ".toList.isPrefixOf l = false) →
      (ls.filter fun l => !"ims ".toList.isPrefixOf l) = ls :=
    fun ls hls => List.filter_eq_self.mpr fun l hl => by rw [hls l hl]; rfl
  have hdrop :
    (db.ims.elim [] fun i => [imsLine i]).filter (fun l => !"ims ".toList.isPrefixOf l) = [] := by
    cases db.ims with
    | none => rfl
    | some i => rfl
  rw [textLines_eq, List.filter_append, List.filter_append, hdrop, hkeep _ not_ims_headLines,
    hkeep _ not_ims_tailLines, List.nil_append]

/-- **A file with another `ims` line** is read as the database with another IMS bearer. -/
theorem parse_rebuilt (h : db.Valid) {y : Str} (hy : IsLine ("ims ".toList ++ y)) {db' : Db}
    (hparse : Db.parse
      (((lines db.toText).filter fun l => !"ims ".toList.isPrefixOf l).flatMap (· ++ ['\n']) ++
      "ims ".toList ++ y ++ ['\n']) = .ok db') : db' = { db with ims := db'.ims } := by
  obtain ⟨hlines, hread⟩ := (accepts_headLines h).append (accepts_tailLines h none)
  have htext :
    (db.headLines ++ db.tailLines).flatMap (· ++ ['\n']) ++ "ims ".toList ++ y ++ ['\n'] =
      (db.headLines ++ db.tailLines ++ ["ims ".toList ++ y]).flatMap (· ++ ['\n']) := by
    simp only [List.flatMap_append, List.flatMap_cons, List.flatMap_nil, List.append_nil,
      List.append_assoc]
  rw [lines_toText h, filter_textLines, htext] at hparse
  unfold Db.parse at hparse
  dsimp only at hparse
  have hall : ∀ l ∈ db.headLines ++ db.tailLines ++ ["ims ".toList ++ y], IsLine l := by
    intro l hl
    rcases List.mem_append.mp hl with hl | hl
    · exact hlines l hl
    · exact List.mem_singleton.mp hl ▸ hy
  rw [lines_flatMap hall, List.zipIdx_append, List.foldlM_append, hread] at hparse
  split at hparse
  · cases hparse
  rename_i st hst
  obtain ⟨st₀, hst₀, hst⟩ := exists_of_bind_eq_ok hst
  cases hst₀
  rw [List.zipIdx_singleton, List.foldlM_cons] at hst
  obtain ⟨st₁, hst₁, hst⟩ := exists_of_bind_eq_ok hst
  cases hst
  obtain ⟨p, l, rfl⟩ := ims_of_parseLine hst₁
  split at hparse
  · rename_i db₁ hfinish
    cases hparse
    obtain ⟨-, carrier, pool, gateway, hcarrier, hpool, hgateway, -, rfl, -⟩ :=
      finish_ok_iff.mp hfinish
    cases hcarrier
    cases hpool
    cases hgateway
    rfl
  · cases hparse

end Db

namespace Core

open Exec

variable {core : Core}

/-! ## What leaves the database -/

@[simp] theorem db_push (o : CoreOut) : (core.push o).db = core.db := rfl

@[simp] theorem db_log (line : List Str) : (core.log line).db = core.db := rfl

@[simp] theorem db_save (now : ℕ) : (core.save now).db = core.db := rfl

@[simp] theorem db_setConn (c : ConnId) (conn : Conn) : (core.setConn c conn).db = core.db := rfl

@[simp] theorem db_setSession (id : UInt32) (s : Session) : (core.setSession id s).db = core.db :=
  rfl

attribute [simp] db_send db_endSession

theorem db_foldl {α : Type} {f : Core → α → Core} (hf : ∀ core a, (f core a).db = core.db)
    (l : List α) (core : Core) : (l.foldl f core).db = core.db := by
  induction l generalizing core with
  | nil => rfl
  | cons a l ih => rw [List.foldl_cons, ih, hf]

@[simp] theorem db_onDisconnect (c : ConnId) (now : ℕ) :
    (core.onDisconnect c now).db = core.db := by
  unfold onDisconnect
  cases core.conns[c]? with
  | none => rfl
  | some conn =>
    dsimp only
    rw [db_foldl fun core id => db_endSession id .radioLost false now]
    cases conn.site <;> rfl

@[simp] theorem db_reject (c : ConnId) (ue : UInt32) (imsi : Str) (cause : Cause) :
    (core.reject c ue imsi cause).db = core.db := by
  simp [reject]

@[simp] theorem db_pageAll (tmsi : UInt32) : (core.pageAll tmsi).db = core.db :=
  db_foldl (fun _ _ => db_send _ _) _ _

@[simp] theorem db_sendTunnel (c : ConnId) (id : UInt32) (dst : SocketAddr) (d : List Byte) :
    (core.sendTunnel c id dst d).db = core.db := by
  unfold sendTunnel
  cases core.conns[c]? with
  | none => rfl
  | some conn =>
    dsimp only
    cases conn.bh <;> rfl

@[simp] theorem db_tunnelTo (id seq : UInt32) (pkt : List Byte) (c : ConnId) :
    (core.tunnelTo id seq pkt c).db = core.db := by
  unfold tunnelTo
  cases core.conns[c]? with
  | none => rfl
  | some conn =>
    dsimp only
    split
    · exact db_foldl (fun _ _ => db_sendTunnel _ _ _ _) _ _
    · rfl

@[simp] theorem db_openTunnel (c : ConnId) (bytes : List Byte) :
    (core.openTunnel c bytes).1.db = core.db := by
  unfold openTunnel
  cases core.conns[c]? with
  | none => rfl
  | some conn =>
    dsimp only
    cases conn.bh <;> rfl

@[simp] theorem db_rejectTunnel («from» : SocketAddr) (now : ℕ) :
    (core.rejectTunnel «from» now).db = core.db := by
  unfold rejectTunnel
  dsimp only
  split_ifs <;> rfl

@[simp] theorem db_hoAck (c : ConnId) (ho : UInt32) (ueId : UInt16) (grant : Grant) :
    (core.hoAck c ho ueId grant).db = core.db := by
  unfold hoAck
  dsimp only
  split
  · rfl
  · split
    · split
      · rfl
      · rw [db_send]
    · rfl

@[simp] theorem db_pathSwitch (c : ConnId) (ho session : UInt32) :
    (core.pathSwitch c ho session).db = core.db := by
  unfold pathSwitch
  cases core.sessions[session]? with
  | none => rfl
  | some s =>
    dsimp only
    cases s.ho with
    | none => rfl
    | some h =>
      dsimp only
      split_ifs
      · rfl
      · cases s.serving <;> simp

@[simp] theorem db_ueRelease (c : ConnId) (session : UInt32) (cause : Cause) (now : ℕ) :
    (core.ueRelease c session cause now).db = core.db := by
  unfold ueRelease
  split_ifs
  · rw [db_endSession]
  · rfl

@[simp] theorem db_ueIdle (c : ConnId) (session : UInt32) :
    (core.ueIdle c session).db = core.db := by
  unfold ueIdle
  cases core.sessions[session]? with
  | none => rfl
  | some s =>
    dsimp only
    split_ifs <;> rfl

@[simp] theorem db_hoFailure (c : ConnId) (ho session : UInt32) (cause : Cause) :
    (core.hoFailure c ho session cause).db = core.db := by
  unfold hoFailure
  cases core.sessions[session]? with
  | none => rfl
  | some s =>
    dsimp only
    split_ifs
    · cases s.serving <;> simp
    · rfl

@[simp] theorem db_bearerResult (session : UInt32) (id : Byte) (ok : Bool) :
    (core.bearerResult session id ok).db = core.db := by
  unfold bearerResult
  cases core.sessions[session]? with
  | none => rfl
  | some s =>
    dsimp only
    split_ifs <;> rfl

@[simp] theorem db_pushBytes (c : ConnId) (bytes : List Byte) (now : ℕ) :
    (core.pushBytes c bytes now).db = core.db := by
  unfold pushBytes
  cases core.conns[c]? <;> rfl

/-! ## Handlers that write nothing -/

/-- A computation that leaves the database. -/
def Reads (core : Core) (x : Exec Core) : Prop := Meets False x fun core' => core'.db = core.db

theorem reads_random {n : ℕ} : Meets False (core.random n) fun r => r.1.db = core.db := by
  unfold random
  cases splitOff n core.entropy with
  | none => exact meets_starved
  | some r => exact meets_ok rfl

theorem reads_onConnect (c : ConnId) (peer : Ipv4Addr) (now : ℕ) :
    core.Reads (core.onConnect c peer now) := by
  refine Meets.bind reads_random fun r hr => meets_pure ?_
  rw [db_send, db_setConn, hr]

theorem meets_assert {α : Type} (o : Option α) : Meets False (expect o) fun a => o = some a :=
  meets_expect False.elim fun _ ha => ha

theorem reads_siteAuth (c : ConnId) (ver : Byte) (siteId : Str) (cells : List CellInfo)
    (tunnelPort : UInt16) (siteNonce proof : List Byte) (now : ℕ) :
    core.Reads (core.siteAuth c ver siteId cells tunnelPort siteNonce proof now) := by
  refine Meets.bind (meets_assert _) fun conn _ => ?_
  dsimp only
  split_ifs
  · generalize hcore₁ :
      List.foldl (fun core s => (core.push (.close s)).onDisconnect s now) core _ = core₁
    have hdb₁ : core₁.db = core.db := by
      rw [← hcore₁]
      exact db_foldl (fun _ _ => by simp) _ _
    refine Meets.bind (meets_assert _) fun conn' _ => ?_
    refine Meets.bind (meets_assert _) fun secret _ => ?_
    refine meets_pure ?_
    rw [db_send, db_setConn, db_log, hdb₁]
  all_goals exact meets_pure (by simp)

theorem reads_ueAttach (c : ConnId) (ue cell : UInt32) (imsi carrier : Str) (now : ℕ) :
    core.Reads (core.ueAttach c ue cell imsi carrier now) := by
  unfold ueAttach
  split_ifs
  · exact meets_ok (db_reject _ _ _ _)
  cases core.db.subs[imsi]? with
  | none => exact meets_ok (db_reject _ _ _ _)
  | some sub =>
    dsimp only
    split_ifs
    · exact meets_ok (db_reject _ _ _ _)
    · exact meets_ok (db_reject _ _ _ _)
    · refine Meets.bind reads_random fun r hr => meets_pure ?_
      rw [db_send]
      exact hr

theorem reads_newTmsi : Meets False core.newTmsi fun r => r.1.db = core.db := by
  refine Meets.mono meets_newTmsi fun r h => ?_
  obtain ⟨⟨entropy, hr⟩, -⟩ := h
  rw [hr]

theorem reads_sendAccept (id : UInt32) (c : ConnId) (ue cell : UInt32) :
    core.Reads (core.sendAccept id c ue cell) := by
  refine Meets.bind (meets_assert _) fun s _ => ?_
  refine Meets.bind (meets_assert _) fun s' _ => ?_
  refine meets_pure ?_
  rw [db_send, db_setSession]

theorem reads_ueService (c : ConnId) (ue cell tmsi count : UInt32) (mac : List Byte) :
    core.Reads (core.ueService c ue cell tmsi count mac) := by
  unfold ueService
  cases core.byTmsi[tmsi]? with
  | none => exact meets_ok (db_send _ _)
  | some id =>
    refine Meets.bind (meets_assert _) fun s _ => ?_
    split_ifs
    · exact meets_pure (by simp)
    · refine Meets.mono (reads_sendAccept id c ue cell) fun core' h => ?_
      rw [h, db_log, db_setSession]

theorem reads_hoRequired (c : ConnId) (session targetCell : UInt32) (now : ℕ) :
    core.Reads (core.hoRequired c session targetCell now) := by
  unfold hoRequired
  cases core.sessions[session]? with
  | none => exact meets_ok rfl
  | some s =>
    dsimp only
    split_ifs
    · exact meets_ok rfl
    · exact meets_ok rfl
    · exact meets_ok (by simp)
    · refine Meets.bind (meets_assert _) fun t _ => ?_
      refine Meets.bind (meets_assert _) fun s' _ => ?_
      refine Meets.bind (meets_assert _) fun v _ => ?_
      refine meets_pure ?_
      rw [db_send]
      rfl

theorem reads_bearerSetup (ueIp : Ipv4Addr) (uePort : UInt16) (remote : Ipv4Addr)
    (remotePort : UInt16) :
    Meets False (core.bearerSetup ueIp uePort remote remotePort) fun r => r.1.db = core.db := by
  unfold bearerSetup
  cases core.byIp[ueIp]? with
  | none => exact meets_ok rfl
  | some id =>
    refine Meets.bind (meets_assert _) fun s _ => ?_
    -- the bearer is refused, is there already, or is one too many
    split
    · exact meets_pure rfl
    split
    · exact meets_pure rfl
    split
    · exact meets_pure rfl
    cases s.serving with
    | none => exact meets_pure rfl
    | some v =>
      cases s.ho <;> exact meets_pure (by simp)

theorem reads_bearerRelease (ueIp : Ipv4Addr) (bid : Byte) :
    Meets False (core.bearerRelease ueIp bid) fun r => r.1.db = core.db := by
  unfold bearerRelease
  cases core.byIp[ueIp]? with
  | none => exact meets_ok rfl
  | some id =>
    refine Meets.bind (meets_assert _) fun s _ => ?_
    dsimp only
    split_ifs
    · exact meets_pure rfl
    · cases s.serving <;> exact meets_pure (by simp)

theorem reads_tick (now : ℕ) : core.Reads (core.tick now) := by
  unfold tick
  dsimp only
  generalize hcore₁ : List.foldl (fun core c => onDisconnect _ c now) core _ = core₁
  have hdb₁ : core₁.db = core.db := by
    rw [← hcore₁]
    exact db_foldl (fun _ _ => by simp) _ _
  refine Meets.bind (Q := fun core₂ => core₂.db = core.db) ?_ fun core₂ hdb₂ => meets_pure ?_
  · refine meets_foldlM hdb₁ fun core₂ c _ h => Meets.bind (meets_assert _) fun conn _ =>
      meets_pure ?_
    rw [db_send, db_setConn, h]
  · have hsave : ∀ (core : Core) (p : Bool), (if p then core.save now else core).db = core.db := by
      intro core p
      split_ifs <;> rfl
    rw [hsave, db_foldl fun _ _ => db_pageAll _, db_foldl fun _ _ => db_send _ _,
      db_foldl fun _ _ => by simp]
    exact hdb₂

/-! ## Handlers that hand out or count -/

/-- A computation that hands out addresses and counts. -/
def Settles (core : Core) (x : Exec Core) : Prop :=
  Meets False x fun core' => Db.Quiets core.db core'.db

theorem Reads.settles {x : Exec Core} (h : core.Reads x) : core.Settles x := by
  refine Meets.mono h fun core' h' => ?_
  rw [h']

theorem settles_of_eq {core₁ : Core} {x : Exec Core} (hdb : core₁.db = core.db)
    (h : core₁.Settles x) :
    core.Settles x := by
  unfold Settles at h ⊢
  rwa [← hdb]

theorem quiets_addressFor (db : Db) (imsi : Str) : Db.Quiets db (db.addressFor imsi).1 := by
  rcases @Db.addressFor_eq db imsi with h | ⟨t, x, ht, h, hs⟩
  · rw [h]
  · rw [h]
    exact .single (.set ht ⟨rfl, rfl⟩ hs)

theorem quiets_imsAddressFor (db : Db) (imsi : Str) : Db.Quiets db (db.imsAddressFor imsi).1 := by
  rcases @Db.imsAddressFor_eq db imsi with h | ⟨t, x, ht, h, hs⟩
  · rw [h]
  · rw [h]
    exact .single (.set ht ⟨rfl, rfl⟩ hs)

theorem quiets_edit {db : Db} {imsi : Str} {s t : Subscriber} (ht : db.subs[imsi]? = some t)
    (he : Db.Edit t s) :
    Db.Quiets db (db.setSub imsi s) :=
  .single (.set ht ⟨he.msisdn, he.ported⟩ (he.sets ht))

theorem settles_beginSession (c : ConnId) (ue : UInt32) (p : PendingAuth) (now : ℕ) :
    core.Settles (core.beginSession c ue p now) := by
  have haddr := quiets_addressFor core.db p.imsi
  unfold beginSession
  generalize core.db.addressFor p.imsi = answer at haddr ⊢
  obtain ⟨db₁, ip⟩ := answer
  cases ip with
  | none =>
    refine meets_ok ?_
    rw [db_reject]
    exact haddr
  | some ip =>
    dsimp only
    have hims : Db.Quiets core.db (if (db₁.subs[p.imsi]?).any fun s => s.ims.msisdn ≠ []
          then db₁.imsAddressFor p.imsi else (db₁, none)).1 := by
      split_ifs
      · exact haddr.trans (quiets_imsAddressFor db₁ p.imsi)
      · exact haddr
    generalize (if (db₁.subs[p.imsi]?).any fun s => s.ims.msisdn ≠ []
          then db₁.imsAddressFor p.imsi else (db₁, none)) = answer at hims ⊢
    obtain ⟨db₂, imsIp⟩ := answer
    refine Meets.bind reads_newTmsi fun r hr => ?_
    refine Meets.mono (reads_sendAccept _ c ue p.cell) fun core' h => ?_
    rw [h, db_save, db_log]
    show Db.Quiets core.db r.1.db
    rw [hr]
    exact hims

theorem settles_ueAuthResponse (c : ConnId) (ue : UInt32) (res : List Byte) (now : ℕ) :
    core.Settles (core.ueAuthResponse c ue res now) := by
  unfold ueAuthResponse
  cases core.pending.lookup (c, ue) with
  | none => exact meets_ok .refl
  | some p =>
    dsimp only
    split_ifs
    · refine meets_ok ?_
      rw [db_reject]
    · refine settles_of_eq ?_ (settles_beginSession c ue p now)
      rw [db_foldl_endSession]

theorem settles_account (id : UInt32) (n now : ℕ) :
    Meets False (core.account id n now) fun r => Db.Quiets core.db r.1.db := by
  refine Meets.bind (meets_assert _) fun s _ => ?_
  cases hsub : core.db.subs[s.imsi]? with
  | none => exact meets_pure .refl
  | some sub =>
    dsimp only
    have hedit : Db.Quiets core.db
        (core.db.setSub s.imsi { sub with used := sub.used + UInt64.ofNat n }) :=
      quiets_edit hsub ⟨rfl, rfl, rfl, rfl, fun h => { h with }⟩
    split_ifs
    · exact meets_pure .refl
    · refine meets_pure ?_
      rw [db_endSession]
      exact hedit
    · exact meets_pure hedit

theorem settles_charge (free : Bool) (id : UInt32) (n now : ℕ) :
    Meets False (core.charge free id n now) fun r => Db.Quiets core.db r.1.db := by
  unfold charge
  split_ifs
  · exact meets_ok .refl
  · exact settles_account id n now

theorem settles_uplink (c : ConnId) (id seq : UInt32) (pkt : List Byte) (now : ℕ) :
    core.Settles (core.uplink c id seq pkt now) := by
  refine Meets.bind (meets_assert _) fun s _ => ?_
  dsimp only
  split_ifs
  all_goals try exact meets_pure .refl
  refine Meets.bind (settles_account id pkt.length now) fun r hr => meets_pure ?_
  split_ifs <;> exact hr

theorem settles_tunnelPacket (c : ConnId) (inner : List Byte) (now : ℕ) :
    core.Settles (core.tunnelPacket c inner now) := by
  unfold tunnelPacket
  cases TunnelPacket.decode inner with
  | error e => exact meets_ok .refl
  | ok p =>
    dsimp only
    cases core.sessions[p.session]? with
    | none => exact meets_ok .refl
    | some s =>
      dsimp only
      split_ifs
      · exact meets_ok .refl
      · generalize core.join.push p = answer
        obtain ⟨join, whole⟩ := answer
        cases whole with
        | none => exact meets_ok .refl
        | some w => exact settles_of_eq rfl (settles_uplink c w.1 w.2.1 w.2.2 now)

theorem settles_onTunnel («from» : SocketAddr) (bytes : List Byte) (now : ℕ) :
    core.Settles (core.onTunnel «from» bytes now) := by
  refine Meets.bind (meets_pickTunnel «from» bytes) fun found _ => ?_
  cases found with
  | none =>
    refine meets_pure ?_
    rw [db_rejectTunnel]
  | some c =>
    have hopen : (core.openTunnel c bytes).1.db = core.db := db_openTunnel c bytes
    dsimp only
    generalize core.openTunnel c bytes = answer at hopen ⊢
    obtain ⟨core₁, inner⟩ := answer
    cases inner with
    | none =>
      refine meets_pure ?_
      rw [db_rejectTunnel]
      exact hopen ▸ .refl
    | some inner => exact settles_of_eq hopen (settles_tunnelPacket c inner now)

theorem settles_downlink (id : UInt32) (pkt : List Byte) (now : ℕ) :
    core.Settles (core.downlink id pkt now) := by
  unfold downlink
  cases core.sessions[id]? with
  | none => exact meets_ok .refl
  | some s =>
    dsimp only
    split
    · refine meets_ok ?_
      have hdb : ∀ (core : Core) (p : Bool) (tmsi : UInt32),
        (if p then core.pageAll tmsi else core).db = core.db := by
        intro core p tmsi
        split_ifs <;> simp
      rw [hdb, db_setSession]
    split
    · exact meets_ok .refl
    · refine Meets.bind (settles_charge _ id pkt.length now) fun r hr => ?_
      split_ifs
      · exact meets_pure hr
      · refine Meets.bind (meets_assert _) fun s' _ => meets_pure ?_
        rw [db_foldl fun _ _ => db_tunnelTo _ _ _ _]
        exact hr

theorem settles_onLanPacket (pkt : List Byte) (now : ℕ) :
    core.Settles (core.onLanPacket pkt now) := by
  unfold onLanPacket
  split
  · exact meets_ok .refl
  · exact settles_downlink _ pkt now

theorem settles_ueActive (c : ConnId) (session : UInt32) (now : ℕ) :
    core.Settles (core.ueActive c session now) := by
  unfold ueActive
  cases core.sessions[session]? with
  | none => exact meets_ok .refl
  | some s =>
    dsimp only
    split_ifs
    · refine meets_foldlM .refl fun core₁ pkt _ h => ?_
      exact Meets.mono (settles_downlink session pkt now) fun core₂ h' => h.trans h'
    · exact meets_ok .refl

theorem settles_onCtl (c : ConnId) (m : Ctl) (now : ℕ) : core.Settles (core.onCtl c m now) := by
  unfold onCtl
  split
  · cases m with
    | siteAuth ver siteId cells tunnelPort nonce proof =>
      exact (reads_siteAuth c ver siteId cells tunnelPort nonce proof now).settles
    | _ =>
      refine meets_ok ?_
      rw [db_onDisconnect, db_push, db_log]
  · cases m with
    | heartbeat n => exact meets_ok .refl
    | ueAttach ue cellId imsi carrier => exact (reads_ueAttach c ue cellId imsi carrier now).settles
    | ueAuthResponse ue res => exact settles_ueAuthResponse c ue res now
    | ueService ue cellId tmsi count mac =>
      exact (reads_ueService c ue cellId tmsi count mac).settles
    | ueActive session => exact settles_ueActive c session now
    | ueRelease session cause => exact Reads.settles (db_ueRelease c session cause now)
    | ueIdle session => exact Reads.settles (db_ueIdle c session)
    | hoRequired session targetCell => exact (reads_hoRequired c session targetCell now).settles
    | hoRequestAck ho ueId grant => exact Reads.settles (db_hoAck c ho ueId grant)
    | hoFailure ho session cause => exact Reads.settles (db_hoFailure c ho session cause)
    | pathSwitch ho session => exact Reads.settles (db_pathSwitch c ho session)
    | bearerResult session id ok => exact Reads.settles (db_bearerResult session id ok)
    | _ => exact Reads.settles (db_log _)

theorem settles_bytesTurn (c : ConnId) (now : ℕ) :
    Meets False (core.bytesTurn c now) fun r => Db.Quiets core.db r.1.db := by
  unfold bytesTurn
  cases core.conns[c]? with
  | none => exact meets_ok .refl
  | some conn =>
    dsimp only
    generalize conn.framer.popBody = popped
    obtain ⟨framer, body⟩ := popped
    dsimp only
    split
    · refine meets_ok ?_
      rw [db_onDisconnect, db_push, db_log, db_setConn]
    cases body with
    | none => exact meets_ok .refl
    | some body =>
      dsimp only
      generalize openBody { conn with framer } body = opened
      obtain ⟨conn', m⟩ := opened
      cases m with
      | error why =>
        refine meets_ok ?_
        rw [db_onDisconnect, db_push, db_log, db_setConn, db_setConn]
      | ok m =>
        refine Meets.bind (settles_of_eq ?_ (settles_onCtl c m now)) fun core' h => meets_pure h
        rw [db_setConn, db_setConn]

/-! ## Commands -/

/-- What a command comes to, as a change. -/
def Changes (core : Core) (x : Exec Reply) : Prop := Meets False x fun r => Db.Change core.db r.1.db

@[simp] theorem db_done (now : ℕ) (answer : Str) : (core.done now answer).1.db = core.db := rfl

@[simp] theorem db_endSessionsOf (imsi : Str) (cause : Cause) (now : ℕ) :
    (core.endSessionsOf imsi cause now).db = core.db := db_foldl_endSession _ _ _ _ _

theorem changes_of_eq {core₁ : Core} {x : Exec Reply} (hdb : core₁.db = core.db)
    (h : core₁.Changes x) :
    core.Changes x := by
  unfold Changes at h ⊢
  rwa [← hdb]

theorem changes_refl {r : Reply} (h : r.1.db = core.db) : core.Changes (.ok r) := by
  refine meets_ok ?_
  rw [h]
  exact .quiet .refl

theorem changes_failed (why : Str) : core.Changes (.ok (core.failed why)) := changes_refl rfl

theorem changes_done {core' : Core} (h : Db.Change core.db core'.db) (now : ℕ) (answer : Str) :
    core.Changes (.ok (core'.done now answer)) := h

/-- A change of a subscriber that is there. -/
theorem changes_changeSub (imsi : Str) (f : Subscriber → Subscriber) :
    Meets False (core.changeSub imsi f) fun core' => ∃ t, core.db.subs[imsi]? = some t ∧
      core' = { core with db := core.db.setSub imsi (f t) } :=
  Meets.bind (meets_assert _) fun t ht => meets_pure ⟨t, ht, rfl⟩

/-- An edit of a subscriber, and an answer. -/
theorem changes_edit {imsi : Str} {f : Subscriber → Subscriber}
    (hf : ∀ t, core.db.subs[imsi]? = some t → Db.Edit t (f t)) (now : ℕ) (answer : Str) :
    core.Changes (do
      let core ← core.changeSub imsi f
      return core.done now answer) := by
  refine Meets.bind (changes_changeSub imsi f) ?_
  rintro _ ⟨t, ht, rfl⟩
  exact meets_pure (.quiet (quiets_edit ht (hf t ht)))

theorem changes_add (imsi key : Str) (quota label : Option Str) (now : ℕ) :
    core.Changes (.ok (core.add imsi key quota label now)) := by
  unfold add
  by_cases himsi : (!validImsi imsi) = true
  · rw [if_pos himsi]
    exact changes_failed _
  rw [if_neg himsi]
  cases hkey : unhex 16 key with
  | none => exact changes_failed _
  | some k =>
    dsimp only
    split
    · exact changes_failed _
    next q hq =>
      by_cases hlabel : (label.any fun l => !validLabel l) = true
      · rw [if_pos hlabel]
        exact changes_failed _
      rw [if_neg hlabel]
      split
      · exact changes_failed _
      have hvalid : label.getD [] = [] ∨ validLabel (label.getD []) = true := by
        cases label with
        | none => exact .inl rfl
        | some l => exact .inr (by simpa using hlabel)
      refine changes_done (.set (fun _ => ?_) fun _ hne => absurd rfl hne) now _
      exact
        { named := by simpa using himsi
          valid := ⟨length_of_unhex hkey, hvalid, .inl rfl, .inl rfl, .inl rfl, .inl rfl, .inl rfl,
            fun _ hn => absurd hn List.not_mem_nil, .inl rfl⟩
          ip := fun _ hx => nomatch hx
          imsIp := fun _ hx => nomatch hx
          msisdn := fun hne => absurd rfl hne }

theorem changes_siteAdd (id secret : Str) (now : ℕ) :
    core.Changes (.ok (core.siteAdd id secret now)) := by
  unfold siteAdd
  cases hsecret : unhex 16 secret with
  | none => exact changes_failed _
  | some k =>
    dsimp only
    split_ifs with hid
    · exact changes_failed _
    · refine changes_done (.siteAdded ?_ (length_of_unhex hsecret)) now _
      simpa using hid

theorem changes_siteRemove (id : Str) (now : ℕ) : core.Changes (.ok (core.siteRemove id now)) := by
  unfold siteRemove
  split_ifs
  · exact changes_failed _
  · refine changes_done ?_ now _
    rw [db_foldl fun _ _ => by simp]
    exact .siteRemoved id

theorem changes_remove (imsi : Str) (now : ℕ) : core.Changes (.ok (core.remove imsi now)) := by
  unfold remove
  split_ifs
  · exact changes_failed _
  · refine changes_done ?_ now _
    dsimp only
    rw [db_endSessionsOf]
    exact .removed imsi

theorem changes_setLabel (imsi l : Str) (now : ℕ) : core.Changes (core.setLabel imsi l now) := by
  unfold setLabel
  split_ifs with _ hl
  · exact changes_failed _
  · exact changes_failed _
  · refine changes_edit ?_ now _
    exact fun t _ => ⟨rfl, rfl, rfl, rfl, fun h => { h with label := .inr (by simpa using hl) }⟩

theorem changes_setRevoked (imsi : Str) (revoke : Bool) (now : ℕ) :
    core.Changes (core.setRevoked imsi revoke now) := by
  unfold setRevoked
  split
  · exact changes_failed _
  refine Meets.bind (changes_changeSub imsi _) ?_
  rintro _ ⟨t, ht, rfl⟩
  have hquiet : Db.Change core.db (core.db.setSub imsi { t with revoked := revoke }) :=
    .quiet (quiets_edit ht ⟨rfl, rfl, rfl, rfl, fun h => { h with }⟩)
  split
  · refine meets_pure ?_
    rw [db_done, db_endSessionsOf, db_foldl fun _ _ => db_send _ _]
    exact hquiet
  · exact meets_pure hquiet

theorem changes_setQuota (imsi q : Str) (now : ℕ) : core.Changes (core.setQuota imsi q now) := by
  unfold setQuota
  split
  · exact changes_failed _
  split
  · exact changes_failed _
  · refine changes_edit ?_ now _
    exact fun t _ => ⟨rfl, rfl, rfl, rfl, fun h => { h with }⟩

theorem changes_resetUsage (imsi : Str) (now : ℕ) : core.Changes (core.resetUsage imsi now) := by
  unfold resetUsage
  split
  · exact changes_failed _
  · refine changes_edit ?_ now _
    exact fun t _ => ⟨rfl, rfl, rfl, rfl, fun h => { h with }⟩

theorem changes_release (imsi : Str) (now : ℕ) : core.Changes (.ok (core.release imsi now)) := by
  unfold release
  split_ifs
  · exact changes_failed _
  · refine changes_refl ?_
    rw [db_done, db_endSessionsOf]

/-! ## Telephony commands -/

theorem changes_blockAdd (b : Str) (now : ℕ) : core.Changes (.ok (core.blockAdd b now)) := by
  unfold blockAdd
  split_ifs with hb hmem
  · exact changes_failed _
  · exact changes_failed _
  · exact changes_done (.blockAdded (by simpa using hb) hmem) now _

theorem changes_blockRemove (b : Str) (now : ℕ) : core.Changes (.ok (core.blockRemove b now)) := by
  unfold blockRemove
  split
  · exact changes_failed _
  split
  · exact changes_failed _
  · exact changes_done (.blockRemoved b) now _

/-- A number that is given is of a block, where it is not ported in and not its holder's already. -/
theorem changes_number (who : Str) (requested : Option Str) (ported : Bool) (now : ℕ) :
    core.Changes (.ok (core.number who requested ported now)) := by
  unfold number
  cases core.imsiOf who with
  | none => exact changes_failed _
  | some imsi =>
    dsimp only
    cases hassign : core.db.assignNumber imsi requested ported with
    | error why => exact changes_failed _
    | ok r =>
      obtain ⟨t, ht, hdb, hs, hin⟩ := Db.assignNumber_ok (n := r.2) hassign
      refine changes_done ?_ now _
      show Db.Change core.db r.1
      rw [hdb]
      exact .set hs fun hvalid hne hported _ hblocks => hin hvalid hported hblocks

theorem changes_numberRelease (who : Str) (now : ℕ) :
    core.Changes (core.numberRelease who now) := by
  unfold numberRelease
  cases core.imsiOf who with
  | none => exact changes_failed _
  | some imsi =>
    refine Meets.bind (meets_assert _) fun t _ => ?_
    refine Meets.bind (changes_changeSub imsi _) ?_
    rintro _ ⟨t', ht', rfl⟩
    have hset : Db.Change core.db (core.db.setSub imsi (Db.numbered t' [] false)) :=
      .set (fun hvalid => Db.sets_numbered hvalid ht' (.inl rfl) fun hne => absurd rfl hne)
        fun _ hne => absurd rfl hne
    split
    · exact meets_pure hset
    · exact meets_pure hset

theorem sub_of_byNumber_eq {db : Db} {num imsi : Str} (h : db.byNumber num = some imsi) :
    ∃ s, db.subs[imsi]? = some s ∧ s.ims.msisdn = num := by
  obtain ⟨⟨imsi', s⟩, hfound, rfl⟩ := Option.map_eq_some_iff.mp h
  refine ⟨s, Std.ExtTreeMap.mem_toList_iff_getElem?_eq_some.mp (List.mem_of_find?_eq_some hfound),
    ?_⟩
  simpa using List.find?_some hfound

theorem changes_numberMove {num : Str} (hne : num ≠ []) (target : Str) (now : ℕ) :
    core.Changes (core.numberMove num target now) := by
  unfold numberMove
  split
  · exact changes_failed _
  next source hsource =>
    split
    · exact changes_failed _
    next target htarget =>
      refine Meets.bind (meets_assert _) fun t ht => ?_
      dsimp only
      split_ifs with hheld
      · exact meets_pure (.quiet .refl)
      refine Meets.bind (meets_assert _) fun s hs => ?_
      refine Meets.bind (changes_changeSub source _) ?_
      rintro _ ⟨s', hs', rfl⟩
      refine Meets.bind (changes_changeSub target _) ?_
      rintro _ ⟨t', ht', rfl⟩
      obtain ⟨s₀, hs₀, hnum⟩ := sub_of_byNumber_eq hsource
      obtain rfl : s₀ = s := Option.some.inj (hs₀.symm.trans hs)
      obtain rfl : s₀ = s' := Option.some.inj (hs.symm.trans hs')
      have hdiff : source ≠ target := by
        rintro rfl
        obtain rfl : s₀ = t := Option.some.inj (hs.symm.trans ht)
        exact hheld (hnum ▸ hne)
      have htarget' : (core.db.setSub source (Db.numbered s₀ [] false)).subs[target]? = some t := by
        rw [Db.subs_setSub, if_neg hdiff, ht]
      obtain rfl : t = t' := Option.some.inj (htarget'.symm.trans ht')
      exact meets_pure (.moved hs hnum ht (not_not.mp hheld) hne)

/-- A value of a feature is a number, or takes the number away. -/
theorem forward_of_ok {value n : Str}
    (h : (if value ≠ [] ∧ ¬ validE164 value then Except.error (quoted "bad number" value)
      else Except.ok value) = .ok n) :
    n = [] ∨ validE164 n = true := by
  rcases ite_eq_iff.mp h with ⟨-, h⟩ | ⟨hbad, h⟩
  · cases h
  · cases h
    by_cases hnil : value = []
    · exact .inl hnil
    · exact .inr (by simpa [hnil] using hbad)

theorem edit_setFeature {key value : Str} {t : Subscriber} {p : ImsProfile}
    (h : setFeature key value t.ims = .ok p) :
    Db.Edit t { t with ims := p } := by
  unfold setFeature at h
  dsimp only at h
  generalize (if value = "off".toList ∨ value = ['-'] then [] else value) = number at h
  generalize (if value = "on".toList ∨ value = ['1'] then Except.ok true
    else if value = "off".toList ∨ value = ['0'] then Except.ok false
    else Except.error "value must be on or off".toList : Except Str Bool) = onOff at h
  rcases ite_eq_iff.mp h with ⟨-, h⟩ | ⟨-, h⟩
  · obtain ⟨n, hn, h⟩ := exists_of_bind_eq_ok h
    cases h
    exact ⟨rfl, rfl, rfl, rfl, fun hv => { hv with cfu := forward_of_ok hn }⟩
  rcases ite_eq_iff.mp h with ⟨-, h⟩ | ⟨-, h⟩
  · obtain ⟨n, hn, h⟩ := exists_of_bind_eq_ok h
    cases h
    exact ⟨rfl, rfl, rfl, rfl, fun hv => { hv with cfb := forward_of_ok hn }⟩
  rcases ite_eq_iff.mp h with ⟨-, h⟩ | ⟨-, h⟩
  · obtain ⟨n, hn, h⟩ := exists_of_bind_eq_ok h
    cases h
    exact ⟨rfl, rfl, rfl, rfl, fun hv => { hv with cfnr := forward_of_ok hn }⟩
  rcases ite_eq_iff.mp h with ⟨-, h⟩ | ⟨-, h⟩
  · obtain ⟨n, hn, h⟩ := exists_of_bind_eq_ok h
    cases h
    exact ⟨rfl, rfl, rfl, rfl, fun hv => { hv with cfnrc := forward_of_ok hn }⟩
  -- the four switches
  iterate 4
    rcases ite_eq_iff.mp h with ⟨-, h⟩ | ⟨-, h⟩
    · obtain ⟨on, -, h⟩ := exists_of_bind_eq_ok h
      cases h
      exact ⟨rfl, rfl, rfl, rfl, fun hv => { hv with }⟩
  rcases ite_eq_iff.mp h with ⟨-, h⟩ | ⟨-, h⟩
  · rcases ite_eq_iff.mp h with ⟨-, h⟩ | ⟨hvalue, h⟩
    · cases h
    · cases h
      refine ⟨rfl, rfl, rfl, rfl, fun hv => { hv with blocked := fun n hn => ?_ }⟩
      have hothers : ∀ n ∈ t.ims.blocked.filter (· ≠ value), validE164 n = true := fun n hn =>
        hv.blocked n (List.mem_filter.mp hn).1
      dsimp only at hn
      split_ifs at hn
      · rcases List.mem_append.mp hn with hn | hn
        · exact hothers n hn
        · rw [List.mem_singleton.mp hn]
          simpa using hvalue
      · exact hothers n hn
  · cases h

theorem changes_feature (who key value : Str) (now : ℕ) :
    core.Changes (core.feature who key value now) := by
  unfold feature
  cases core.imsiOf who with
  | none => exact changes_failed _
  | some imsi =>
    refine Meets.bind (meets_assert _) fun t ht => ?_
    cases hset : setFeature key value t.ims with
    | error why => exact meets_pure (.quiet .refl)
    | ok ims =>
      refine changes_edit ?_ now _
      intro t' ht'
      obtain rfl : t = t' := Option.some.inj (ht.symm.trans ht')
      exact edit_setFeature hset

theorem changes_setPortCode (who code : Str) (now : ℕ) :
    core.Changes (core.setPortCode who code now) := by
  unfold setPortCode
  cases core.imsiOf who with
  | none => exact changes_failed _
  | some imsi =>
    dsimp only
    split_ifs with hcode
    · exact changes_failed _
    · refine changes_edit ?_ now _
      exact fun t _ => ⟨rfl, rfl, rfl, rfl, fun h => { h with port := .inr (by simpa using hcode) }⟩

/-- A port-out code that the carrier issues is one that may be set. -/
theorem validPortCode_portCode (prim : Primitives) (key : List Byte) (number : Str)
    {nonce : List Byte} (h : nonce.length = 3) :
    validPortCode (portCode prim key number (hex nonce)) = true := by
  unfold portCode
  generalize prim.hmac key [ascii "ECM-PORT", toUtf8 number, toUtf8 (hex nonce)] = m
  have htake : (m.take 4).length ≤ 4 := List.length_take_le 4 m
  have hlen : (hex nonce ++ ['-'] ++ hex (m.take 4)).length = 7 + (m.take 4).length * 2 := by
    rw [List.length_append, List.length_append, length_hex, length_hex, h]
    rfl
  simp only [validPortCode, Bool.and_eq_true, decide_eq_true_eq, List.all_eq_true, Bool.or_eq_true]
  refine ⟨⟨by omega, by omega⟩, fun c hc => ?_⟩
  rcases List.mem_append.mp hc with hc | hc
  · rcases List.mem_append.mp hc with hc | hc
    · exact .inl (isAlphanum_hex _ c hc)
    · exact .inr (List.mem_singleton.mp hc)
  · exact .inl (isAlphanum_hex _ c hc)

theorem meets_random_length {n : ℕ} :
    Meets False (core.random n) fun r => r.1.db = core.db ∧ r.2.length = n := by
  unfold random
  cases hsplit : splitOff n core.entropy with
  | none => exact meets_starved
  | some r => exact meets_ok ⟨rfl, (splitOff_eq_some hsplit).2⟩

theorem changes_issuePortCode (who : Str) (now : ℕ) :
    core.Changes (core.issuePortCode who now) := by
  unfold issuePortCode
  cases core.imsiOf who with
  | none => exact changes_failed _
  | some imsi =>
    dsimp only
    cases core.db.enumKey with
    | none => exact changes_failed _
    | some key =>
      refine Meets.bind (meets_assert _) fun t ht => ?_
      split
      · exact meets_pure (.quiet .refl)
      split
      · exact meets_pure (.quiet .refl)
      refine Meets.bind meets_random_length ?_
      rintro ⟨core₁, nonce⟩ ⟨hdb, hlen⟩
      refine changes_of_eq hdb (changes_edit ?_ now _)
      exact fun t _ =>
        ⟨rfl, rfl, rfl, rfl, fun h => { h with port := .inr (validPortCode_portCode _ _ _ hlen) }⟩

theorem changes_setEnumKey (k : Str) (now : ℕ) : core.Changes (.ok (core.setEnumKey k now)) := by
  unfold setEnumKey
  cases hkey : unhex 16 k with
  | none => exact changes_failed _
  | some key => exact changes_done (.enumKey (length_of_unhex hkey)) now _

theorem changes_imsOff (now : ℕ) (answer : Str) :
    core.Changes (.ok ({ core with db := { core.db with ims := none } }.done now answer)) := by
  have hoff (h : core.db.Valid) : ({ core.db with ims := none } : Db).Valid :=
    { h with
      ims := fun _ hi => nomatch hi
      imsIp := fun _ _ _ _ _ _ hi => nomatch hi }
  show Db.Change core.db { core.db with ims := none }
  exact .ims hoff

-- the parser would be run on the rebuilt file wherever the type of a proof about it is looked at
attribute [local irreducible] Db.parse

/-- The database gets the bearer that the parser has judged. -/
theorem changes_setIms {rest : List Str} (hrest : ∀ w ∈ rest, IsWord w) (now : ℕ) :
    core.Changes (core.setIms rest now) := by
  unfold setIms
  dsimp only
  split
  · exact changes_failed _
  next db hparse =>
    refine Meets.bind (meets_assert _) fun i _ => meets_pure ?_
    rw [db_done]
    refine .ims fun hvalid => ?_
    have hims : IsLine "ims ".toList := ⟨by decide, by decide⟩
    have hline : IsLine ("ims ".toList ++ List.intercalate [' '] rest) :=
      hims.append (isLine_intercalate hrest)
    rw [← Db.parse_rebuilt hvalid hline hparse]
    exact Db.valid_of_parse hparse

/-- **An operator's line is a change.** -/
theorem changes_admin (line : Str) (now : ℕ) : core.Changes (core.admin line now) := by
  refine Arms.of_admin changes_failed fun name args hwords => ?_
  have hargs : ∀ w ∈ args, IsWord w := fun w hw =>
    isWord_of_mem_words (hwords ▸ List.mem_cons_of_mem _ hw)
  exact
    { shown := fun _ => changes_refl rfl
      blocks := fun _ _ => meets_blocks fun _ => changes_refl rfl
      imsOff := fun _ => changes_imsOff now _
      siteRemove := fun a _ => changes_siteRemove a now
      remove := fun a _ => changes_remove a now
      revoke := fun a _ => changes_setRevoked a true now
      unrevoke := fun a _ _ => changes_setRevoked a false now
      resetUsage := fun a _ => changes_resetUsage a now
      release := fun a _ => changes_release a now
      blockAdd := fun a _ => changes_blockAdd a now
      blockRemove := fun a _ => changes_blockRemove a now
      number := fun a _ requested ported => changes_number a requested ported now
      numberRelease := fun a _ _ => changes_numberRelease a now
      numberMove := fun a ha b => changes_numberMove (hargs a ha).1 b now
      ims := changes_setIms hargs now
      issuePortCode := fun a _ => changes_issuePortCode a now
      setPortCode := fun a _ b => changes_setPortCode a b now
      enumKey := fun a _ => changes_setEnumKey a now
      add := fun a _ _ _ key quota label => changes_add a key quota label now
      siteAdd := fun a _ b => changes_siteAdd a b now
      label := fun a _ b => changes_setLabel a b now
      quota := fun a _ b => changes_setQuota a b now
      feature := fun a _ b c => changes_feature a b c now }

/-! ## Steps and runs -/

/-- **A step is a change of the database.** -/
theorem changes_step (i : Input) (now : ℕ) :
    Meets False (core.step i now) fun core' => Db.Change core.db core'.db := by
  have hquiet {x : Exec Core} (h : core.Settles x) :
    Meets False x fun core' => Db.Change core.db core'.db :=
    Meets.mono h fun core' => .quiet
  cases i with
  | connect c peer => exact hquiet (reads_onConnect c peer now).settles
  | disconnect c => exact hquiet (Reads.settles (db_onDisconnect c now))
  | arrive c bytes => exact hquiet (Reads.settles (db_pushBytes c bytes now))
  | turn c => exact Meets.bind (settles_bytesTurn c now) fun r h => meets_pure (.quiet h)
  | tunnel src bytes => exact hquiet (settles_onTunnel src bytes now)
  | lan pkt => exact hquiet (settles_onLanPacket pkt now)
  | tick => exact hquiet (reads_tick now).settles
  | admin line => exact Meets.bind (changes_admin line now) fun r h => meets_pure h
  | bearerSetup ueIp uePort remote remotePort =>
    refine Meets.bind (reads_bearerSetup ueIp uePort remote remotePort) fun r h => meets_pure ?_
    rw [h]
    exact .quiet .refl
  | bearerRelease ueIp bid =>
    refine Meets.bind (reads_bearerRelease ueIp bid) fun r h => meets_pure ?_
    rw [h]
    exact .quiet .refl

theorem change_of_step {core' : Core} {i : Input} {now : ℕ} (h : core.step i now = .ok core') :
    Db.Change core.db core'.db := by
  have hc : Meets False (core.step i now) _ := changes_step i now
  exact hc.ok h

/-- A new core has given numbers, and done nothing else. -/
theorem db_new {prim : Primitives} {db : Db} {cfg : CoreConfig} {entropy : List Byte}
    (h : Core.new prim db cfg entropy = .ok core) : core.db = db.fillNumbers.1 := by
  unfold Core.new at h
  split at h
  · cases h
  · cases h
    dsimp only
    split_ifs <;> rfl

theorem writes_new {prim : Primitives} {db : Db} {cfg : CoreConfig} {entropy : List Byte}
    (h : Core.new prim db cfg entropy = .ok core) : Db.Writes db core.db := by
  rw [db_new h]
  exact Db.writes_fillNumbers db

/-- **What every change of a valid database keeps, a run keeps.** -/
theorem Run.db_induction {ok : Core → Input → Prop} {core₀ : Core} {n : ℕ} {P : Db → Prop}
    (h : Run ok core₀ n core) (hvalid : core₀.db.Valid) (hP : P core₀.db)
    (hchange : ∀ core i db, ok core i → core.db.Valid → P core.db → Db.Change core.db db → P db) :
    core.db.Valid ∧ P core.db := by
  induction h with
  | refl => exact ⟨hvalid, hP⟩
  | step _ _ hok hstep ih =>
    have hc := change_of_step hstep
    exact ⟨hc.valid ih.1, hchange _ _ _ hok ih.1 ih.2 hc⟩

end EvansComputer.Cell.Core
