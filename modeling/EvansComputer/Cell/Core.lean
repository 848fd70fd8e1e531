import EvansComputer.Cell.Backhaul
import EvansComputer.Cell.Db
import EvansComputer.Cell.Keys
import EvansComputer.Library.Halting

/-!
# The carrier core

Site registration, SIM challenges, sessions, phone addresses, tunnels, handovers, usage
and quotas, revocation and paging.  The core is a machine that is fed bytes, packets and
the time, and queues outputs.

An assertion of the source, an `expect` or an index into a map, is `Exec.expect` here, so
that a run can be seen to panic.  Randomness is the bytes that the entropy source is going
to give: a run that draws more than there are has not got to its end.  The output queue is
kept whole, as nothing in the core reads it.
-/

namespace EvansComputer.Cell

open Text

abbrev ConnId := UInt32

/-- An output.  Beside what the source puts in it, it carries what it is about: the
message that the bytes to a site are, and the session that a packet is forwarded for. -/
inductive CoreOut where
  /-- Bytes for a site connection (sealed once the site registered). -/
  | send (c : ConnId) (m : Ctl) (bytes : List Byte)
  /-- Close a site connection. -/
  | close (c : ConnId)
  /-- A UDP tunnel datagram (sealed) to a site. -/
  | tunnel (session : UInt32) (dst : SocketAddr) (bytes : List Byte)
  /-- A phone's packet for the LAN. -/
  | toLan (session : UInt32) (pkt : List Byte)
  /-- Write the database file. -/
  | saveDb (text : Str)
  /-- A line for the log. -/
  | log (line : Str)
  deriving DecidableEq

structure CoreConfig where
  heartbeatMs : UInt16 := 1000
  /-- Pending challenges and handovers expire after this. -/
  procedureTimeoutMs : ℕ := 5000
  /-- Write usage to the database at most this often. -/
  saveEveryMs : ℕ := 5000
  usageEveryMs : ℕ := 2000
  /-- Downlink packets held for an idle phone while it is paged. -/
  pageBuffer : ℕ := 32

/-- A registered site. -/
structure SiteReg where
  id : Str
  cells : List CellInfo
  tunnel : SocketAddr

structure Conn where
  peer : Ipv4Addr
  framer : Framer
  nonce : List Byte
  site : Option SiteReg
  lastRxMs : ℕ
  lastTxMs : ℕ
  hbSeq : UInt32
  /-- The backhaul keys, from the registration on. -/
  bh : Option Backhaul
  sinceMs : ℕ

/-- A challenge in flight (no session yet). -/
structure PendingAuth where
  imsi : Str
  cell : UInt32
  rand : List Byte
  resp : SimResponse
  startedMs : ℕ

structure Serving where
  conn : ConnId
  ue : UInt32
  cell : UInt32
  deriving DecidableEq

/-- A handover in preparation. -/
structure Ho where
  id : UInt32
  target : Serving
  acked : Bool
  startedMs : ℕ
  deriving DecidableEq

structure Session where
  id : UInt32
  imsi : Str
  ip : Ipv4Addr
  /-- The IMS bearer's address, when the carrier offers it. -/
  imsIp : Option Ipv4Addr
  /-- Dedicated bearers, and whether the serving site admitted each. -/
  bearers : List (Bearer × Bool)
  nextBearer : Byte
  tmsi : UInt32
  rand : List Byte
  resp : SimResponse
  epoch : UInt32
  serving : Option Serving
  active : Bool
  idle : Bool
  ho : Option Ho
  dlSeq : UInt32
  /-- Uplink tunnel sequence numbers seen, per sending site. -/
  ulSeen : OrderedMap ConnId ReplayWindow
  srCount : UInt32
  page : Option (ℕ × List (List Byte))
  usedSinceReport : UInt64
  lastUsageMs : ℕ

structure Core where
  prim : Primitives
  cfg : CoreConfig
  db : Db
  conns : OrderedMap ConnId Conn := ∅
  sessions : OrderedMap UInt32 Session := ∅
  byIp : OrderedMap Ipv4Addr UInt32 := ∅
  byTmsi : OrderedMap UInt32 UInt32 := ∅
  /-- Challenges, each under its connection and the phone's radio address. -/
  pending : List ((ConnId × UInt32) × PendingAuth) := []
  nextSession : UInt32
  nextHo : UInt32 := 1
  join : TunnelJoin := {}
  dirty : Bool := false
  lastSaveMs : ℕ := 0
  /-- Tunnel datagrams that matched no site's keys. -/
  tunnelRejects : ℕ := 0
  /-- IMS-bearer packets dropped for leaving the IMS core network. -/
  imsPolicyDrops : ℕ := 0
  lastRejectLogMs : Option ℕ := none
  out : List CoreOut := []
  /-- The bytes that the entropy source is going to give. -/
  entropy : List Byte

namespace Core

/-! ## Outputs -/

def push (core : Core) (o : CoreOut) : Core := { core with out := core.out ++ [o] }

def log (core : Core) (line : List Str) : Core := core.push (.log line.flatten)

/-- `self.conns[&c]` -/
def connAt (core : Core) (c : ConnId) : Exec Conn := Exec.expect (core.conns[c]? : Option Conn)

/-- A session that has to be live. -/
def sessionAt (core : Core) (id : UInt32) : Exec Session :=
  Exec.expect (core.sessions[id]? : Option Session)

def setConn (core : Core) (c : ConnId) (conn : Conn) : Core :=
  { core with conns := core.conns.insert c conn }

/-- Queue a control message, sealed once the connection has its keys. -/
def send (core : Core) (c : ConnId) (m : Ctl) : Core :=
  match core.conns[c]? with
  | none => core
  | some conn =>
    match conn.bh with
    | none => core.push (.send c m m.encode)
    | some bh =>
      let (ctl, bytes) := bh.ctl.sealCtl m.body
      (core.setConn c { conn with bh := some { bh with ctl } }).push (.send c m bytes)

/-- `n` bytes from the entropy source. -/
def random (core : Core) (n : ℕ) : Exec (Core × List Byte) :=
  match splitOff n core.entropy with
  | some (b, rest) => .ok ({ core with entropy := rest }, b)
  | none => .error .starved

def save (core : Core) (now : ℕ) : Core :=
  { core with dirty := false, lastSaveMs := now }.push (.saveDb core.db.toText)

def new (prim : Primitives) (db : Db) (cfg : CoreConfig) (entropy : List Byte) : Exec Core :=
  match splitOff 4 entropy with
  | none => .error .starved
  | some (b, entropy) =>
    -- session ids start somewhere random
    let first :=
      max (u32FromBe (b.getD 0 0) (b.getD 1 0) (b.getD 2 0) (b.getD 3 0) &&& 0x7fffffff) 1
    let (db, filled) := db.fillNumbers
    let core : Core := { prim, cfg, db, nextSession := first, entropy }
    .ok (if filled > 0 then
      (core.log ["gave ".toList, decimal filled, " subscriber(s) a number".toList]).save 0
    else core)

/-! ## Connections -/

def siteOf (core : Core) (c : ConnId) : Option SiteReg := (core.conns[c]?).bind (·.site)

/-- Whoever is at the other end, for the log. -/
def who (c : ConnId) (conn : Conn) : Str :=
  match conn.site with
  | some s => "site ".toList ++ s.id
  | none => "conn ".toList ++ decimal c.toNat

def sessionIds (core : Core) (p : Session → Bool) : List UInt32 :=
  (core.sessions.toList.filter fun x => p x.2).map (·.1)

def setSession (core : Core) (id : UInt32) (s : Session) : Core :=
  { core with sessions := core.sessions.insert id s }

/-- End a session: tell its serving site (unless it told us), forget the tunnel. -/
def endSession (core : Core) (id : UInt32) (cause : Cause) (notifySite : Bool) (now : ℕ) : Core :=
  match core.sessions[id]? with
  | none => core
  | some s =>
    let core := { core with
      sessions := core.sessions.erase id
      byIp := s.imsIp.elim (core.byIp.erase s.ip) fun i => (core.byIp.erase s.ip).erase i
      byTmsi := core.byTmsi.erase s.tmsi
      join := core.join.forget id }
    let core :=
      match notifySite, s.serving with
      | true, some v => core.send v.conn (.ueRelease id cause)
      | _, _ => core
    let core :=
      match s.ho with
      | some h => core.send h.target.conn (.ueRelease id .handoverFailed)
      | none => core
    let core :=
      core.log ["session ".toList, decimal id.toNat, " (".toList, s.imsi, ") ended: ".toList,
      cause.name]
    if core.dirty then core.save now else core

/-- A handover towards a site that is gone. -/
def dropHo (c : ConnId) (s : Session) : Session :=
  if s.ho.any (·.target.conn = c) then { s with ho := none } else s

/-- The connection closed (or the driver gave up on it). -/
def onDisconnect (core : Core) (c : ConnId) (now : ℕ) : Core :=
  match core.conns[c]? with
  | none => core
  | some conn =>
    let core := { core with conns := core.conns.erase c }
    let core :=
      match conn.site with
      | some s => core.log ["site ".toList, s.id, " disconnected".toList]
      | none => core
    let core := { core with pending := core.pending.filter (·.1.1 ≠ c) }
    let ids := core.sessionIds fun s => s.serving.map (·.conn) = some c
    let core := ids.foldl (fun core id => core.endSession id .radioLost false now) core
    -- handovers towards that site fail
    { core with sessions := core.sessions.map fun _ s => dropHo c s }

/-- A site connected from `peer`. -/
def onConnect (core : Core) (c : ConnId) (peer : Ipv4Addr) (now : ℕ) : Exec Core := do
  let (core, nonce) ← core.random 16
  let conn : Conn :=
    { peer, framer := {}, nonce, site := none, lastRxMs := now, lastTxMs := now,
      hbSeq := 0, bh := none,
      sinceMs := now }
  return (core.setConn c conn).send c (.coreHello version core.db.carrier nonce)

/-- The first site that serves a cell, and the cell. -/
def connForCell (core : Core) (cell : UInt32) : Option (ConnId × CellInfo) :=
  core.conns.toList.findSome? fun (id, conn) =>
    conn.site.bind fun s => (s.cells.find? (·.cellId = cell)).map fun ci => (id, ci)

def siteAuth (core : Core) (c : ConnId) (ver : Byte) (siteId : Str) (cells : List CellInfo)
    (tunnelPort : UInt16) (siteNonce proof : List Byte) (now : ℕ) : Exec Core := do
  let conn ← core.connAt c
  let secret := core.db.sites[siteId]?
  let hello := Ctl.coreHello version core.db.carrier conn.nonce
  let auth := Ctl.siteAuth ver siteId cells tunnelPort siteNonce proof
  let ok := ver = version ∧
    secret.any (fun secret => core.prim.siteProof secret (authTranscript hello auth) = proof) ∧
      cells ≠ []
  if ¬ ok then
    let why :=
      if ver ≠ version then
        "protocol version ".toList ++ decimal ver.toNat ++ " (this core speaks ".toList ++
          decimal version.toNat ++ [')']
      else if secret.isNone then "unknown site".toList
      else "bad credential".toList
    let core := core.log ["site '".toList, siteId, "' refused: ".toList, why]
    return ((core.send c (.siteReject .authFailed)).push (.close c)).onDisconnect c now
  else
    -- a site that reconnects (or another holding one of its cells) replaces the old connection
    let stale := (core.conns.toList.filter fun (id, k) =>
      id ≠ c && k.site.any fun s =>
        s.id = siteId || s.cells.any fun x => cells.any fun y => y.cellId = x.cellId).map (·.1)
    let core := stale.foldl (fun core s => (core.push (.close s)).onDisconnect s now) core
    let conn ← core.connAt c
    let core := core.log ["site ".toList, siteId, " registered from ".toList, conn.peer.display,
      " (cells ".toList, List.intercalate [','] (cells.map fun x => decimal x.cellId.toNat), [')']]
    let secret ← Exec.expect secret
    let core := core.setConn c { conn with
      bh := some (Backhaul.new core.prim secret conn.nonce siteNonce (toUtf8 siteId) false)
      site := some ⟨siteId, cells, ⟨conn.peer, tunnelPort⟩⟩
      sinceMs := now }
    let revoked := (core.db.subs.toList.filter (·.2.revoked)).map (·.1)
    return core.send c (.siteAccept core.cfg.heartbeatMs revoked)

/-! ## Attach -/

def reject (core : Core) (c : ConnId) (ue : UInt32) (imsi : Str) (cause : Cause) : Core :=
  (core.log ["attach ".toList, imsi, " rejected: ".toList, cause.name]).send c (.ueReject ue cause)

def ueAttach (core : Core) (c : ConnId) (ue cell : UInt32) (imsi carrier : Str) (now : ℕ) :
    Exec Core :=
  if carrier ≠ core.db.carrier then .ok (core.reject c ue imsi .wrongCarrier)
  else
    match core.db.subs[imsi]? with
    | none => .ok (core.reject c ue imsi .unknownSubscriber)
    | some sub =>
      if sub.revoked then .ok (core.reject c ue imsi .revoked)
      else if sub.overQuota then .ok (core.reject c ue imsi .quotaExhausted)
      else do
        let (core, rand) ← core.random 16
        let p : PendingAuth :=
          { imsi, cell, rand, resp := core.prim.simauthV1 sub.key rand, startedMs := now }
        let core := { core with pending := ((c, ue), p) :: core.pending.filter (·.1 ≠ (c, ue)) }
        return core.send c (.ueChallenge ue rand)

/-- Draw until a TMSI is neither zero nor taken. -/
def drawTmsi (taken : UInt32 → Bool) : List Byte → Exec (UInt32 × List Byte)
  | a :: b :: c :: d :: rest =>
    let t := u32FromBe a b c d
    if t ≠ 0 && !taken t then .ok (t, rest) else drawTmsi taken rest
  | _ => .error .starved

def newTmsi (core : Core) : Exec (Core × UInt32) := do
  let (t, rest) ← drawTmsi (fun t => core.byTmsi.contains t) core.entropy
  return ({ core with entropy := rest }, t)

def imsInfo (core : Core) (s : Session) : Option ImsInfo :=
  match core.db.ims, s.imsIp with
  | some conf, some ip =>
    some { ip, prefixLen := conf.prefixLen, pcscf := conf.pcscf, domain := conf.domain,
           msisdn := (core.db.subs[s.imsi]?).elim [] (·.ims.msisdn) }
  | _, _ => none

def ipConfig (core : Core) (ip : Ipv4Addr) : IpConfig where
  ip := ip
  prefixLen := core.db.prefixLen
  gateway := core.db.gateway
  dns := core.db.dns
  mtu := core.db.mtu

/-- A new radio context for a session at a site. -/
def sendAccept (core : Core) (id : UInt32) (c : ConnId) (ue cell : UInt32) : Exec Core := do
  -- its uplink sequence numbers start over
  let s ← core.sessionAt id
  let core := core.setSession id { s with ulSeen := s.ulSeen.erase c }
  let s ← core.sessionAt id
  let ctx : AsContext := { epoch := s.epoch, kAs := core.prim.asKey s.resp.ksEnc cell s.epoch }
  let mac := core.prim.smcMac s.resp.ksInt s.rand cell s.epoch ue
  return core.send c (.ueAccept ue id (core.ipConfig s.ip) s.tmsi ctx mac (core.imsInfo s))

/-- The session of a subscriber who has answered the challenge. -/
def createSession (core : Core) (id : UInt32) (c : ConnId) (ue : UInt32) (p : PendingAuth)
    (ip : Ipv4Addr) (imsIp : Option Ipv4Addr) (tmsi : UInt32) (now : ℕ) : Core :=
  let s : Session :=
    { id, imsi := p.imsi, ip, imsIp, bearers := [], nextBearer := 1, tmsi, rand := p.rand,
      resp := p.resp,
      epoch := 1, serving := some ⟨c, ue, p.cell⟩, active := false, idle := false, ho :=
        none, dlSeq := 0,
      ulSeen := ∅, srCount := 0, page := none, usedSinceReport := 0, lastUsageMs := now }
  { core with
    byIp := imsIp.elim (core.byIp.insert ip id) fun i => (core.byIp.insert ip id).insert i id
    byTmsi := core.byTmsi.insert tmsi id
    sessions := core.sessions.insert id s }

/-- A session for a subscriber who has answered the challenge and has no other. -/
def beginSession (core : Core) (c : ConnId) (ue : UInt32) (p : PendingAuth) (now : ℕ) : Exec Core :=
  let (db, ip) := core.db.addressFor p.imsi
  let core := { core with db }
  match ip with
  | none => .ok (core.reject c ue p.imsi .congestion)
  | some ip => do
    -- the IMS bearer: only for a carrier with IMS and a SIM with a number
    let hasNumber := (core.db.subs[p.imsi]?).any fun s => s.ims.msisdn ≠ []
    let (db, imsIp) := if hasNumber then core.db.imsAddressFor p.imsi else (core.db, none)
    let core := { core with db }
    let id := core.nextSession
    let (core, tmsi) ← { core with nextSession := max (id + 1) 1 }.newTmsi
    let core := core.createSession id c ue p ip imsIp tmsi now
    let site := (core.siteOf c).elim [] (·.id)
    let ims := imsIp.elim [] fun i => " ims ".toList ++ i.display
    let core := core.log ["attach ".toList, p.imsi, " at ".toList, site, " cell ".toList,
      decimal p.cell.toNat, ": ip ".toList, ip.display, ims, " session ".toList, decimal id.toNat]
    (core.save now).sendAccept id c ue p.cell

def ueAuthResponse (core : Core) (c : ConnId) (ue : UInt32) (res : List Byte) (now : ℕ) :
    Exec Core :=
  match core.pending.lookup (c, ue) with
  | none => .ok core
  | some p =>
    let core := { core with pending := core.pending.filter (·.1 ≠ (c, ue)) }
    if p.resp.res ≠ res then .ok (core.reject c ue p.imsi .authFailed)
    else
      -- a phone attaching again ends its old session
      let core := (core.sessionIds (·.imsi = p.imsi)).foldl
        (fun core id => core.endSession id .sessionLost true now) core
      core.beginSession c ue p now

def ueService (core : Core) (c : ConnId) (ue cell tmsi count : UInt32) (mac : List Byte) :
    Exec Core :=
  match core.byTmsi[tmsi]? with
  | none => .ok (core.send c (.ueReject ue .sessionLost))
  | some id => do
    let s ← core.sessionAt id
    if count ≤ s.srCount ∨ core.prim.srMac s.resp.ksInt tmsi count ≠ mac then
      let core := core.log ["service request for ".toList, s.imsi, " failed verification".toList]
      return core.send c (.ueReject ue .sessionLost)
    else
      let core := core.setSession id { s with
        srCount := count
        epoch := s.epoch + 1
        serving := some ⟨c, ue, cell⟩
        active := false
        idle := false
        bearers := [] }
      let core := core.log [s.imsi, " resumed at cell ".toList, decimal cell.toNat]
      core.sendAccept id c ue cell

/-! ## Handover -/

def hoRequired (core : Core) (c : ConnId) (session targetCell : UInt32) (now : ℕ) : Exec Core :=
  let target := core.connForCell targetCell
  match core.sessions[session]? with
  | none => .ok core
  | some s =>
    if s.serving.map (·.conn) ≠ some c ∨ !s.active then .ok core
    else if s.ho.isSome then .ok core
    else if target.isNone then
      let core := core.log ["handover of session ".toList, decimal session.toNat,
        " to unknown cell ".toList, decimal targetCell.toNat]
      .ok (core.send c (.hoFailure 0 session .handoverFailed))
    else do
      let ipc := core.ipConfig s.ip
      let (tconn, _) ← Exec.expect target
      let ho := core.nextHo
      let core := { core with nextHo := max (core.nextHo + 1) 1 }
      let s ← core.sessionAt session
      let ue := (← Exec.expect s.serving).ue
      let s := { s with
        epoch := s.epoch + 1
        ho := some { id := ho, target := ⟨tconn, ue, targetCell⟩, acked := false, startedMs := now }
        ulSeen := s.ulSeen.erase tconn }
      let core := core.setSession session s
      let ctx : AsContext :=
        { epoch := s.epoch, kAs := core.prim.asKey s.resp.ksEnc targetCell s.epoch }
      return core.send tconn
        (.hoRequest ho session ue targetCell ipc s.tmsi ctx (s.bearers.map (·.1)))

/-- Is a handover the one with that id, towards that site? -/
def isHo (s : Session) (ho : UInt32) (c : ConnId) : Bool :=
  s.ho.any fun h => h.id = ho && h.target.conn = c

/-- The target has prepared the handover. -/
def acknowledge (ho : UInt32) (c : ConnId) (s : Session) : Session :=
  if isHo s ho c then { s with ho := s.ho.map fun h => { h with acked := true } } else s

def hoAck (core : Core) (c : ConnId) (ho : UInt32) (ueId : UInt16) (grant : Grant) : Core :=
  -- the last session found wins, as in the loop over all of them
  let found := (core.sessions.toList.filter fun x => isHo x.2 ho c).getLast?
  let core := { core with sessions := core.sessions.map fun _ s => acknowledge ho c s }
  match found with
  | none => core
  | some (_, s) =>
    match s.serving, s.ho with
    | some v, some h =>
      match core.connForCell h.target.cell with
      | none => core
      | some (_, ci) =>
        core.send v.conn (.hoCommand ho s.id h.target.cell ci.addr ci.profile ci.channel s.epoch
          ueId grant)
    | _, _ => core

def pathSwitch (core : Core) (c : ConnId) (ho session : UInt32) : Core :=
  match core.sessions[session]? with
  | none => core
  | some s =>
    match s.ho with
    | none => core
    | some h =>
      if h.id ≠ ho ∨ h.target.conn ≠ c then core
      else
        let core := core.setSession session { s with
          ho := none
          serving := some h.target
          active := true
          ulSeen := s.ulSeen.filter fun k _ => k = h.target.conn }
        let core :=
          match s.serving with
          | some o => core.send o.conn (.ueRelease session .handoverDone)
          | none => core
        let core := core.send c (.pathSwitchAck session)
        let from' := s.serving.elim 0 (·.cell)
        core.log ["handover ".toList, s.imsi, " cell ".toList, decimal from'.toNat, " -> ".toList,
          decimal h.target.cell.toNat, " (ip ".toList, s.ip.display, " kept)".toList]

/-! ## User plane -/

/-- MMS traffic to or from the MMSC is not counted against the quota. -/
def zeroRated (core : Core) (pkt : List Byte) : Bool :=
  match core.db.ims.bind (·.mmsc) with
  | none => false
  | some m => ipv4Src pkt = some m || ipv4Dst pkt = some m

/-- Count `n` bytes; false (and the session released) once over quota. -/
def account (core : Core) (id : UInt32) (n : ℕ) (now : ℕ) : Exec (Core × Bool) := do
  let s ← core.sessionAt id
  match core.db.subs[s.imsi]? with
  | none => return (core, false)
  | some sub =>
    if sub.overQuota then return (core, false)
    else
      let sub := { sub with used := sub.used + UInt64.ofNat n }
      let core := { core.setSession id
          { s with usedSinceReport := s.usedSinceReport + UInt64.ofNat n } with
        db := { core.db with subs := core.db.subs.insert s.imsi sub }
        dirty := true }
      if sub.overQuota then
        let core := core.log [s.imsi, " quota exhausted (".toList, decimal sub.used.toNat,
          " of ".toList, decimal sub.quota.toNat, " bytes)".toList]
        return ((core.save now).endSession id .quotaExhausted true now, false)
      else return (core, true)

/-- Count what is not free. -/
def charge (core : Core) (free : Bool) (id : UInt32) (n : ℕ) (now : ℕ) : Exec (Core × Bool) :=
  if free then .ok (core, true) else core.account id n now

/-- The site connection whose tunnel key opens a datagram: normally the one site at that
address. -/
def pickTunnel (core : Core) («from» : SocketAddr) (bytes : List Byte) : Exec (Option ConnId) :=
  match (core.conns.toList.filter fun (_, k) =>
      k.site.any (fun s => s.tunnel = «from») && k.bh.isSome).map (·.1) with
  | [c] => .ok (some c)
  | cands =>
    cands.findM? fun id => do
      let conn ← core.connAt id
      return conn.bh.any fun b => b.tun.tunnelOpens bytes

/-- Open a datagram of a site: the channel moves on even where it does not open. -/
def openTunnel (core : Core) (c : ConnId) (bytes : List Byte) : Core × Option (List Byte) :=
  match core.conns[c]? with
  | none => (core, none)
  | some conn =>
    match conn.bh with
    | none => (core, none)
    | some bh =>
      let (tun, inner) := bh.tun.openTunnel bytes
      (core.setConn c { conn with bh := some { bh with tun } }, inner.toOption)

/-- A whole packet `seq` of session `id` that came through site `c`. -/
def uplink (core : Core) (c : ConnId) (id seq : UInt32) (pkt : List Byte) (now : ℕ) :
    Exec Core := do
  let s ← core.sessionAt id
  let w := (s.ulSeen[c]?).getD {}
  if !w.check seq.toUInt64 then
    return core.setSession id { s with ulSeen := s.ulSeen.insert c w }
  else
    let core := core.setSession id { s with ulSeen := s.ulSeen.insert c (w.accept seq.toUInt64) }
    let src := ipv4Src pkt
    if src.isSome ∧ src = s.imsIp then
      -- the IMS bearer reaches only the IMS core, never the internet; not counted
      let dst := (ipv4Dst pkt).getD .zero
      if core.db.ims.any fun i => inSubnet dst i.net i.netPrefix || dst = i.pcscf then
        return core.push (.toLan id pkt)
      else return { core with imsPolicyDrops := core.imsPolicyDrops + 1 }
    else if src ≠ some s.ip then return core
    else if core.zeroRated pkt then return core.push (.toLan id pkt)
    else
      let (core, counted) ← core.account id pkt.length now
      return if counted then core.push (.toLan id pkt) else core

/-- A datagram that matches no site's keys. -/
def rejectTunnel (core : Core) («from» : SocketAddr) (now : ℕ) : Core :=
  let core := { core with tunnelRejects := core.tunnelRejects + 1 }
  if core.lastRejectLogMs.all fun t => now - t ≥ 2000 then
    { core with lastRejectLogMs := some now }.log
      ["tunnel datagram from ".toList, «from».ip.display, [':'], decimal «from».port.toNat,
        " failed authentication, dropped (".toList, decimal core.tunnelRejects, " so far)".toList]
  else core

/-- What was in a datagram of site `c`. -/
def tunnelPacket (core : Core) (c : ConnId) (inner : List Byte) (now : ℕ) : Exec Core :=
  match TunnelPacket.decode inner with
  | .error _ => .ok core
  | .ok p =>
    match core.sessions[p.session]? with
    | none => .ok core
    | some s =>
      -- only the serving site (or the handover target) may send for a session
      if s.serving.map (·.conn) ≠ some c ∧ s.ho.map (·.target.conn) ≠ some c then .ok core
      else
        match core.join.push p with
        | (join, none) => .ok { core with join }
        | (join, some (id, seq, pkt)) => { core with join }.uplink c id seq pkt now

/-- A UDP datagram on the tunnel port. -/
def onTunnel (core : Core) («from» : SocketAddr) (bytes : List Byte) (now : ℕ) : Exec Core := do
  match ← core.pickTunnel «from» bytes with
  | none => return core.rejectTunnel «from» now
  | some c =>
    match core.openTunnel c bytes with
    | (core, none) => return core.rejectTunnel «from» now
    | (core, some inner) => core.tunnelPacket c inner now

def pageAll (core : Core) (tmsi : UInt32) : Core :=
  ((core.conns.toList.filter (·.2.site.isSome)).map (·.1)).foldl
    (fun core c => core.send c (.page tmsi)) core

/-- A datagram for a session, sealed, to a site. -/
def sendTunnel (core : Core) (c : ConnId) (id : UInt32) (dst : SocketAddr) (d : List Byte) : Core :=
  match core.conns[c]? with
  | none => core
  | some conn =>
    match conn.bh with
    | none => core
    | some bh =>
      let (tun, bytes) := bh.tun.sealTunnel d
      (core.setConn c { conn with bh := some { bh with tun } }).push (.tunnel id dst bytes)

/-- One packet to one site that serves the phone. -/
def tunnelTo (core : Core) (id seq : UInt32) (pkt : List Byte) (c : ConnId) : Core :=
  match core.conns[c]? with
  | none => core
  | some conn =>
    match conn.site, conn.bh with
    | some site, some _ =>
      (tunnelSplit id seq pkt).foldl (fun core d => core.sendTunnel c id site.tunnel d) core
    | _, _ => core

/-- The sites a packet goes to: make-before-break until the path switch. -/
def targets (s : Session) : List ConnId :=
  (s.serving.map (·.conn)).toList ++ ((s.ho.filter (·.acked)).map (·.target.conn)).toList

def downlink (core : Core) (id : UInt32) (pkt : List Byte) (now : ℕ) : Exec Core :=
  match core.sessions[id]? with
  | none => .ok core
  | some s =>
    if s.idle then
      let (t, q) := s.page.getD (now, [])
      let q := if q.length ≥ core.cfg.pageBuffer then q.tail else q
      let first := s.page.isNone
      let core := core.setSession id { s with page := some (t, q ++ [pkt]) }
      .ok (if first then core.pageAll s.tmsi else core)
    else if !s.active && s.ho.isNone then .ok core
    else do
      let free : Bool := s.imsIp.isSome && ipv4Dst pkt = s.imsIp
      let (core, counted) ← core.charge (free || core.zeroRated pkt) id pkt.length now
      if !counted then return core
      else
        let s ← core.sessionAt id
        let seq := max (s.dlSeq + 1) 1
        let core := core.setSession id { s with dlSeq := seq }
        return (targets s).foldl (fun core c => core.tunnelTo id seq pkt c) core

/-- An IP packet from the LAN for a phone. -/
def onLanPacket (core : Core) (pkt : List Byte) (now : ℕ) : Exec Core :=
  match (ipv4Dst pkt).bind fun dst => core.byIp[dst]? with
  | none => .ok core
  | some id => core.downlink id pkt now

/-! ## Control messages -/

def ueActive (core : Core) (c : ConnId) (session : UInt32) (now : ℕ) : Exec Core :=
  match core.sessions[session]? with
  | none => .ok core
  | some s =>
    if s.serving.map (·.conn) = some c then
      let core := core.setSession session { s with active := true, idle := false, page := none }
      (s.page.elim [] (·.2)).foldlM (fun core pkt => core.downlink session pkt now) core
    else .ok core

def ueRelease (core : Core) (c : ConnId) (session : UInt32) (cause : Cause) (now : ℕ) : Core :=
  if ((core.sessions[session]?).bind (·.serving)).map (·.conn) = some c then
    core.endSession session cause false now
  else core

def ueIdle (core : Core) (c : ConnId) (session : UInt32) : Core :=
  match core.sessions[session]? with
  | none => core
  | some s =>
    if s.serving.map (·.conn) = some c then
      (core.setSession session { s with
        serving := none
        active := false
        idle := true
        ho := none
        bearers := [] }).log [s.imsi, " idle".toList]
    else core

def hoFailure (core : Core) (c : ConnId) (ho session : UInt32) (cause : Cause) : Core :=
  match core.sessions[session]? with
  | none => core
  | some s =>
    if isHo s ho c then
      let core := core.setSession session { s with ho := none }
      match s.serving with
      | some v =>
        (core.log ["handover ".toList, decimal ho.toNat, " failed: ".toList, cause.name]).send
          v.conn
          (.hoFailure ho session cause)
      | none => core
    else core

/-- The first bearer with an id is answered for. -/
def setAdmitted (id : Byte) (ok : Bool) : List (Bearer × Bool) → List (Bearer × Bool)
  | [] => []
  | b :: bs => if b.1.id = id then (b.1, ok) :: bs else b :: setAdmitted id ok bs

def bearerResult (core : Core) (session : UInt32) (id : Byte) (ok : Bool) : Core :=
  match core.sessions[session]? with
  | none => core
  | some s =>
    let core := core.setSession session { s with bearers := setAdmitted id ok s.bearers }
    if ok then core
    else core.log [s.imsi, ": voice bearer ".toList, decimal id.toNat,
      " not admitted, the call runs best effort".toList]

def onCtl (core : Core) (c : ConnId) (m : Ctl) (now : ℕ) : Exec Core :=
  if (core.siteOf c).isNone then
    match m with
    | .siteAuth ver siteId cells tunnelPort nonce proof =>
      core.siteAuth c ver siteId cells tunnelPort nonce proof now
    | other =>
      .ok (((core.log ["conn ".toList, decimal c.toNat, [':', ' '], other.name,
        " before registration, closing".toList]).push (.close c)).onDisconnect c now)
  else
    match m with
    | .heartbeat _ => .ok core
    | .ueAttach ue cellId imsi carrier => core.ueAttach c ue cellId imsi carrier now
    | .ueAuthResponse ue res => core.ueAuthResponse c ue res now
    | .ueService ue cellId tmsi count mac => core.ueService c ue cellId tmsi count mac
    | .ueActive session => core.ueActive c session now
    | .ueRelease session cause => .ok (core.ueRelease c session cause now)
    | .ueIdle session => .ok (core.ueIdle c session)
    | .hoRequired session targetCell => core.hoRequired c session targetCell now
    | .hoRequestAck ho ueId grant => .ok (core.hoAck c ho ueId grant)
    | .hoFailure ho session cause => .ok (core.hoFailure c ho session cause)
    | .pathSwitch ho session => .ok (core.pathSwitch c ho session)
    | .bearerResult session id ok => .ok (core.bearerResult session id ok)
    | other =>
      .ok (core.log ["conn ".toList, decimal c.toNat, ": unexpected ".toList, other.name])

/-! ## Bytes -/

/-- A body that came off a connection's stream, opened once the site has registered. -/
def openBody (conn : Conn) (body : List Byte) : Conn × Except Str Ctl :=
  match conn.bh with
  | some bh =>
    let (ctl, plain) := bh.ctl.openCtl body
    ({ conn with bh := some { bh with ctl } },
      match plain with
      | .ok plain =>
        match Ctl.decode plain with
        | .ok m => .ok m
        | .error _ => .error "undecodable after opening".toList
      | .error _ => .error "failed authentication".toList)
  | none =>
    (conn,
      match Ctl.decode body with
      | .ok m => .ok m
      | .error _ => .error "undecodable".toList)

/-- One turn of the loop over a connection's stream, and whether there is another. -/
def bytesTurn (core : Core) (c : ConnId) (now : ℕ) : Exec (Core × Bool) :=
  match core.conns[c]? with
  | none => .ok (core, false)
  | some conn =>
    let (framer, body) := conn.framer.popBody
    let conn := { conn with framer }
    let core := core.setConn c conn
    if framer.broken then
      .ok (((core.log [who c conn, ": control stream broken (framing error), closing".toList]).push
        (.close c)).onDisconnect c now, false)
    else
      match body with
      | none => .ok (core, false)
      | some body =>
        let (conn, m) := openBody conn body
        let core := core.setConn c conn
        match m with
        | .ok m => do return (← core.onCtl c m now, true)
        | .error why =>
          .ok (((core.log [who c conn, ": control message ".toList, why, ", closing".toList]).push
            (.close c)).onDisconnect c now, false)

def bytesLoop (c : ConnId) (now : ℕ) : ℕ → Core → Exec Core
  | 0, core => .ok core
  | fuel + 1, core => do
    let (core, more) ← core.bytesTurn c now
    if more then bytesLoop c now fuel core else return core

/-- What arrives joins the stream. -/
def pushBytes (core : Core) (c : ConnId) (bytes : List Byte) (now : ℕ) : Core :=
  match core.conns[c]? with
  | none => core
  | some conn => core.setConn c { conn with framer := conn.framer.push bytes, lastRxMs := now }

/-- Bytes from a site connection.  Its turns are bounded by what the stream holds, which is
never what ends them (`onBytes_loops`). -/
def onBytes (core : Core) (c : ConnId) (bytes : List Byte) (now : ℕ) : Exec Core :=
  let core := core.pushBytes c bytes now
  bytesLoop c now ((core.conns[c]?).elim 0 fun conn => conn.framer.buf.length + 1) core

/-! ## Time -/

/-- Has a handover waited too long? -/
def hoExpired (core : Core) (now : ℕ) (s : Session) : Bool :=
  s.ho.any fun h => now - h.startedMs > core.cfg.procedureTimeoutMs

def usageDue (core : Core) (now : ℕ) (s : Session) : Bool :=
  s.usedSinceReport > 0 && now - s.lastUsageMs ≥ core.cfg.usageEveryMs

def repageDue (now : ℕ) (s : Session) : Bool := s.page.any fun p => now - p.1 ≥ 1000

/-- What the time does to a session. -/
def tickSession (core : Core) (now : ℕ) (s : Session) : Session :=
  let s := if core.hoExpired now s then { s with ho := none } else s
  let s := if core.usageDue now s then { s with usedSinceReport := 0, lastUsageMs := now } else s
  if repageDue now s then { s with page := s.page.map fun p => (now, p.2) } else s

def tick (core : Core) (now : ℕ) : Exec Core := do
  let hb := core.cfg.heartbeatMs.toNat
  let dead := (core.conns.toList.filter fun x => now - x.2.lastRxMs > 3 * hb + hb / 2).map (·.1)
  let core := dead.foldl (fun core c =>
    ((core.log ["conn ".toList, decimal c.toNat, ": heartbeat lost".toList]).push
      (.close c)).onDisconnect c now) core
  let due := (core.conns.toList.filter fun x =>
    x.2.site.isSome && now - x.2.lastTxMs ≥ hb).map (·.1)
  let core ← due.foldlM (fun core c => do
    let conn ← core.connAt c
    let seq := conn.hbSeq + 1
    return (core.setConn c { conn with hbSeq := seq, lastTxMs := now }).send c (.heartbeat seq))
      core
  let core := { core with
    pending := core.pending.filter fun x => now - x.2.startedMs < core.cfg.procedureTimeoutMs }
  let all := core.sessions.values
  let expired := all.filterMap fun s =>
    if core.hoExpired now s then s.ho.map fun h => (s.id, h.target.conn) else none
  let usage := all.filterMap fun s =>
    if core.usageDue now s then
      match s.serving, core.db.subs[s.imsi]? with
      | some v, some sub => some (v.conn, Ctl.usage s.id sub.used sub.quota)
      | _, _ => none
    else none
  let repage := (all.filter (repageDue now)).map (·.tmsi)
  let core := { core with sessions := core.sessions.map fun _ s => core.tickSession now s }
  let core := expired.foldl (fun core (id, tc) =>
    (core.log ["handover of session ".toList, decimal id.toNat, " timed out".toList]).send tc
      (.ueRelease id .handoverFailed)) core
  let core := usage.foldl (fun core (c, m) => core.send c m) core
  let core := repage.foldl (fun core t => core.pageAll t) core
  return if core.dirty && now - core.lastSaveMs ≥ core.cfg.saveEveryMs then core.save now else core

/-! ## Bearers -/

/-- A voice bearer for the phone at IMS address `ueIp`: its id, and whether it went to a
serving site. -/
def bearerSetup (core : Core) (ueIp : Ipv4Addr) (uePort : UInt16) (remote : Ipv4Addr)
    (remotePort : UInt16) : Exec (Core × Except Str (Byte × Bool)) :=
  match core.byIp[ueIp]? with
  | none => .ok (core, .error "no session at that IMS address".toList)
  | some id => do
    let s ← core.sessionAt id
    if s.imsIp ≠ some ueIp then return (core, .error "not an IMS address".toList)
    else
      match s.bearers.find? fun x =>
          x.1.uePort = uePort && x.1.remote = remote && x.1.remotePort = remotePort with
      | some x => return (core, .ok (x.1.id, true))
      | none =>
        if s.bearers.length ≥ 4 then return (core, .error "too many bearers".toList)
        else
          let bid := s.nextBearer
          let b : Bearer := { id := bid, qci := qciVoice, uePort, remote, remotePort }
          let core := core.setSession id { s with
            nextBearer := max (s.nextBearer + 1) 1
            bearers := s.bearers ++ [(b, false)] }
          let core := core.log [s.imsi, ": voice bearer ".toList, decimal bid.toNat, " udp ".toList,
            decimal uePort.toNat, " <-> ".toList, remote.display, [':'], decimal remotePort.toNat]
          match s.serving with
          | none => return (core, .ok (bid, false))
          | some v =>
            let core := core.send v.conn (.bearerSetup id b)
            let core :=
              match s.ho with
              | some h => core.send h.target.conn (.bearerSetup id b)
              | none => core
            return (core, .ok (bid, true))

/-- The call ended; release its bearer. -/
def bearerRelease (core : Core) (ueIp : Ipv4Addr) (bid : Byte) : Exec (Core × Except Str Unit) :=
  match core.byIp[ueIp]? with
  | none => .ok (core, .error "no session at that IMS address".toList)
  | some id => do
    let s ← core.sessionAt id
    let bearers := s.bearers.filter (·.1.id ≠ bid)
    let core := core.setSession id { s with bearers }
    if bearers.length = s.bearers.length then
      return (core, .error ("no bearer ".toList ++ decimal bid.toNat))
    else
      return (s.serving.elim core fun v => core.send v.conn (.bearerRelease id bid), .ok ())

end EvansComputer.Cell.Core
