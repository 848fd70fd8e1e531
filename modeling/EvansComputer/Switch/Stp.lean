import EvansComputer.Switch.Bridge

/-!
# Rapid spanning tree

Priority vectors, what is made of a received BPDU, the choice of the root port and of every
port's role, and the states of ports with the topology changes that they cause.  A BPDU that a
designated port sends has the body `designatedBody`; when one is sent is left out.
-/

namespace EvansComputer.Switch

/-- `u16::saturating_add`, `u32::saturating_add` -/
def addSat16 (a b : UInt16) : UInt16 := UInt16.ofNat (min (a.toNat + b.toNat) 65535)

def addSat32 (a b : UInt32) : UInt32 := UInt32.ofNat (min (a.toNat + b.toNat) 4294967295)

/-- The address in a bridge id. -/
def mac48 (id : UInt64) : UInt64 := id &&& 0x0000ffffffffffff

namespace PrioVec

/-- The four leading fields, in their order. -/
def key4 (v : PrioVec) : ℕ ×ₗ ℕ ×ₗ ℕ ×ₗ ℕ :=
  toLex (v.root.toNat, toLex (v.cost.toNat, toLex (v.dbridge.toNat, v.dport.toNat)))

/-- The derived order. -/
def key (v : PrioVec) : (ℕ ×ₗ ℕ ×ₗ ℕ ×ₗ ℕ) ×ₗ ℕ := toLex (v.key4, v.rport.toNat)

/-- Better, or from the same transmitter. -/
def superiorTo (v port : PrioVec) : Bool :=
  v.key4 < port.key4 ||
    (mac48 v.dbridge = mac48 port.dbridge && v.dport &&& 0x0fff = port.dport &&& 0x0fff)

end PrioVec

def secs256 (s : UInt32) : UInt16 := UInt16.ofNat (min s.toNat 255 * 256)

def clamp256 (v minS maxS : UInt16) : UInt16 := max (minS * 256) (min v (maxS * 256))

def Times.fromCfg (c : StpConfig) : Times where
  msgAge := 0
  maxAge := secs256 c.maxAgeSecs
  hello := secs256 c.helloSecs
  fwdDelay := secs256 c.forwardDelaySecs

/-- A bridge id: the priority before the address. -/
def makeBid (priority : UInt16) (mac : MacAddr) : UInt64 :=
  UInt64.ofNat (priority.toNat * 2 ^ 48 + macValue mac)

/-- Port number in a port id. -/
def portNumber : PortRef → UInt16
  | .eth n => (if UInt16.ofNat n = 65535 then 65535 else UInt16.ofNat n + 1) &&& 0x03ff
  | .lag id => 0x400 ||| (id &&& 0x03ff)
  | .cpu => 0

def StpBridge.new (cfg : StpConfig) (mac : MacAddr) : StpBridge :=
  let bid := makeBid cfg.priority mac
  { bridgeId := bid
    rootPrio := { root := bid, cost := 0, dbridge := bid, dport := 0, rport := 0 }
    rootPort := none
    rootTimes := .fromCfg cfg
    wasEnabled := false }

def StpPort.reset (p : StpPort) : StpPort := { portNum := p.portNum }

namespace Bridge

def fdMs (b : Bridge) : ℤ := b.stpCfg.forwardDelaySecs.toNat * 1000

def helloMs (b : Bridge) : ℤ := b.stpCfg.helloSecs.toNat * 1000

/-- A port id: the priority before the number. -/
def portId (b : Bridge) (bp : PortRef) (num : UInt16) : UInt16 :=
  let prio := ((b.bpStpCfg bp).map (·.priority)).getD 128
  ((prio.toUInt16 >>> 4) <<< 12) ||| (num &&& 0x0fff)

/-- What a path through the port costs. -/
def pathCost (b : Bridge) (bp : PortRef) : UInt32 :=
  ((b.bpStpCfg bp).map fun c => max c.cost 1).getD 20000

/-! ## Received BPDUs -/

/-- What a BPDU body says, as a vector of the port that has received it. -/
def msgOf (body : BpduBody) (portId : UInt16) : PrioVec where
  root := body.rootId
  cost := body.rootPathCost
  dbridge := body.bridgeId
  dport := body.portId
  rport := portId

def timesOf (body : BpduBody) : Times where
  msgAge := body.messageAge
  maxAge := clamp256 body.maxAge 6 40
  hello := clamp256 body.helloTime 1 10
  fwdDelay := clamp256 body.forwardDelay 4 30

def rcvdUntilOf (times : Times) (now : ℤ) : ℤ :=
  addSat now (3 * (times.hello.toNat * 1000 / 256 : ℕ))

/-- Information about a designated port, and whether it changes anything. -/
def recordInfo (p : StpPort) (msg : PrioVec) (times : Times) (now : ℤ) : StpPort × Bool :=
  if p.info = .received ∧ msg = p.prio ∧ times = p.times then
    ({ p with rcvdUntil := rcvdUntilOf times now }, false)
  else if msg.superiorTo p.prio ∨ (p.info ≠ .received ∧ p.info ≠ .mine) then
    -- information too old to use is discarded
    if times.msgAge.toNat + 256 >
      times.maxAge.toNat then ({ p with prio := msg, times, info := .aged }, true)
    else ({ p with prio := msg, times, info := .received, rcvdUntil := rcvdUntilOf times now },
      true)
  else (p, false)

/-- A configuration or RST BPDU at a port with the id `portId`. -/
def rxBody (p : StpPort) (bid : UInt64) (portId : UInt16) (tcnGuard isRst : Bool)
    (body : BpduBody) (now : ℤ) :
    StpPort × Bool :=
  let changed := p.sendRstp ≠ isRst
  let p := { p with sendRstp := isRst }
  -- our own BPDU looped back to the port that sent it
  if body.bridgeId = bid ∧ body.portId &&& 0x0fff = portId &&& 0x0fff then (p, changed)
  else
    let role := if isRst then body.role else .designated
    let (p, better) :=
      if role = .designated then recordInfo p (msgOf body portId) (timesOf body) now else (p, false)
    let tc := body.flags &&& flagTc ≠ 0 && !tcnGuard
    let p := if tc then { p with rcvdTc := true } else p
    let p :=
      if !isRst && body.flags &&& flagTcAck ≠ 0 && p.role =
        .root then { p with tcUntil := minInstant } else p
    (p, changed || better || tc)

/-- A BPDU at a port with the id `portId`. -/
def rxPort (p : StpPort) (bid : UInt64) (portId : UInt16) (tcnGuard : Bool)
    (bpdu : Bpdu) (now : ℤ) :
    StpPort × Bool :=
  -- a BPDU means there is a bridge on this segment
  let p := { p with operEdge := false }
  match bpdu with
  | .tcn =>
    let p := { p with sendRstp := false }
    if p.role = .designated && !tcnGuard then ({ p with rcvdTc := true }, true) else (p, false)
  | .config body => rxBody p bid portId tcnGuard false body now
  | .rst body => rxBody p bid portId tcnGuard true body now

/-- A BPDU on a bridge port; whether the machines must run. -/
def stpRx (b : Bridge) (bp : PortRef) (bpdu : Bpdu) (now : ℤ) : Bridge × Bool :=
  match b.bports[bp]? with
  | none => (b, false)
  | some x =>
    let tcnGuard := (b.bpStpCfg bp).any (·.tcnGuard)
    let r := rxPort x.stp b.stp.bridgeId (b.portId bp x.stp.portNum) tcnGuard bpdu now
    (b.modifyStp bp fun _ => r.1, x.stp.operEdge || r.2)

/-! ## Roles -/

/-- Port enable, disable, and expiry of information. -/
def enablePort (b : Bridge) (now : ℤ) (bp : PortRef) (x : BPort) : BPort :=
  let active := b.stpActive bp
  let adminEdge := (b.bpStpCfg bp).any (·.adminEdge)
  let p := x.stp
  if !(x.oper && active) then
    if p.wasOper || p.info ≠ .disabled then { x with stp := p.reset } else x
  else
    let p : StpPort :=
      if p.wasOper then p else { p with wasOper := true, info := .aged, operEdge := adminEdge }
    let p : StpPort := if adminEdge then p else { p with operEdge := false }
    let p : StpPort := { p with prio := { p.prio with rport := b.portId bp p.portNum } }
    let p : StpPort :=
      if p.info = .received ∧ now ≥ p.rcvdUntil then { p with info := .aged } else p
    { x with stp := p }

/-- The vector of a port as one for the whole bridge, where the port may lead to the root. -/
def candidate (b : Bridge) (bp : PortRef) (p : StpPort) : Option PrioVec :=
  if !p.wasOper || p.info ≠ .received || (b.bpStpCfg bp).any (·.rootGuard) ||
      mac48 p.prio.dbridge = mac48 b.stp.bridgeId then none
  else some { p.prio with cost := addSat32 p.prio.cost (b.pathCost bp) }

/-- What a bridge is to itself. -/
def ownVec (b : Bridge) : PrioVec :=
  { root := b.stp.bridgeId, cost := 0, dbridge := b.stp.bridgeId, dport := 0, rport := 0 }

/-- What the selection of roles comes to. -/
structure Choice where
  best : PrioVec
  port : Option PortRef
  times : Times

/-- One more port is looked at. -/
def better (b : Bridge) (c : Choice) (x : PortRef × BPort) : Choice :=
  match b.candidate x.1 x.2.stp with
  | none => c
  | some cand =>
    if cand.key < c.best.key then
      { best := cand, port := some x.1
        times := { x.2.stp.times with msgAge := addSat16 x.2.stp.times.msgAge 256 } }
    else c

/-- The best way to the root. -/
def choose (b : Bridge) : Choice :=
  b.bports.toList.foldl b.better { best := b.ownVec, port := none, times := .fromCfg b.stpCfg }

/-- The vector that a port would send as a designated one. -/
def designatedVec (b : Bridge) (bp : PortRef) (num : UInt16) (best : PrioVec) : PrioVec :=
  { root := best.root, cost := best.cost, dbridge := b.stp.bridgeId
    dport := b.portId bp num, rport := b.portId bp num }

/-- The role of a port, by the best way to the root. -/
def assignRole (b : Bridge) (c : Choice) (bp : PortRef) (x : BPort) : BPort :=
  let p := x.stp
  let rootGuard := (b.bpStpCfg bp).any (·.rootGuard)
  let designated := b.designatedVec bp p.portNum c.best
  let mine : StpPort :=
    { p with
        info := .mine, prio := designated, times := c.times, role := .designated,
        rootInconsistent := false }
  if !p.wasOper then { x with stp := { p with role := .disabled } }
  else if p.info ≠ .received then { x with stp := mine }
  else if some bp =
    c.port then { x with stp := { p with role := .root, rootInconsistent := false } }
  else if designated.key4 < p.prio.key4 then { x with stp := mine }
  else if rootGuard then { x with stp := { p with role := .alternate, rootInconsistent := true } }
  else if mac48 p.prio.dbridge = mac48 b.stp.bridgeId then
    { x with stp := { p with role := .backup, rootInconsistent := false } }
  else { x with stp := { p with role := .alternate, rootInconsistent := false } }

/-- The roles are selected again. -/
def stpReselect (b : Bridge) : Bridge :=
  let c := b.choose
  { b with
    stp := { b.stp with rootPrio := c.best, rootPort := c.port, rootTimes := c.times }
    bports := b.bports.map (b.assignRole c) }

/-! ## States -/

/-- The state of a port, by its role and the time. -/
def updateState (fd now : ℤ) (p : StpPort) : StpPort :=
  let advance : StpPort :=
    match p.state with
    | .discarding =>
      match p.fdUntil with
      | none => { p with fdUntil := some (addSat now fd) }
      | some t =>
        if now ≥ t then { p with state := .learning, fdUntil := some (addSat now fd) } else p
    | .learning =>
      if p.fdUntil.all (now ≥ ·) then { p with state := .forwarding, fdUntil := none } else p
    | .forwarding => p
  match p.role with
  | .root => advance
  | .designated => if p.operEdge then { p with state := .forwarding, fdUntil := none } else advance
  | _ => { p with state := .discarding, fdUntil := none }

/-- A topology change detected on (`includeOrigin`) or received on `origin`. -/
def stpTopologyChange (b : Bridge) (origin : PortRef) (includeOrigin : Bool) (now : ℤ) : Bridge :=
  let tcMs := 2 * b.helloMs
  { b with
    bports := b.bports.map fun bp x =>
      let p := x.stp
      if !p.wasOper || p.operEdge || !(p.role = .root || p.role = .designated) then x
      else if bp = origin && !includeOrigin then x
      else if p.tcUntil ≤ now then { x with stp := { p with tcUntil := addSat now tcMs } }
      else x
    fdb := b.fdb.flushExcept origin
    fastAgeUntil := addSat now b.fdMs }

/-- The state of one port, and what its change does to the others. -/
def stpUpdateState (now : ℤ) (b : Bridge) (bp : PortRef) : Bridge :=
  match b.bports[bp]? with
  | none => b
  | some x =>
    let p := updateState b.fdMs now x.stp
    let b := b.modifyStp bp fun _ => p
    if x.stp.state = p.state then b
    else
      let b := if p.state = .discarding then { b with fdb := b.fdb.flushPort bp } else b
      if p.state = .forwarding && !p.operEdge then b.stpTopologyChange bp true now else b

/-- A received topology change, once roles are known. -/
def stpReceivedTc (now : ℤ) (b : Bridge) (bp : PortRef) : Bridge :=
  match b.bports[bp]? with
  | none => b
  | some x =>
    let b := b.modifyStp bp fun p => { p with rcvdTc := false }
    if x.stp.rcvdTc && (x.stp.role = .root || x.stp.role = .designated) then b.stpTopologyChange
      bp false now
    else b

def resetPorts (b : Bridge) : Bridge :=
  { b with bports := b.bports.map fun _ x => { x with stp := x.stp.reset } }

/-- Spanning tree has been off. -/
def stpStop (b : Bridge) : Bridge :=
  if b.stp.wasEnabled then { b.resetPorts with stp := { b.stp with wasEnabled := false } } else b

/-- Spanning tree is on: the ports are as new if it was off, and the bridge has its id. -/
def stpStart (b : Bridge) : Bridge :=
  let b := if b.stp.wasEnabled then b else b.resetPorts
  { b with stp :=
    { b.stp with wasEnabled := true, bridgeId := makeBid b.stpCfg.priority b.bridgeMac } }

def enablePorts (b : Bridge) (now : ℤ) : Bridge :=
  { b with bports := b.bports.map (b.enablePort now) }

/-- The states of the ports, once roles are known. -/
def stpStates (b : Bridge) (now : ℤ) : Bridge :=
  b.bports.keys.foldl (stpReceivedTc now) (b.bports.keys.foldl (stpUpdateState now) b)

/-- Run all machines once. -/
def stpRun (b : Bridge) (now : ℤ) : Bridge :=
  if b.stpCfg.enabled then ((b.stpStart.enablePorts now).stpReselect).stpStates now else b.stpStop

/-- The body of the BPDU that a designated port sends. -/
def designatedBody (b : Bridge) (bp : PortRef) (flags : Byte) : Option BpduBody :=
  (b.bports[bp]?).map fun x =>
    ({ flags
       rootId := b.stp.rootPrio.root
       rootPathCost := b.stp.rootPrio.cost
       bridgeId := b.stp.bridgeId
       portId := b.portId bp x.stp.portNum
       messageAge := b.stp.rootTimes.msgAge
       maxAge := b.stp.rootTimes.maxAge
       helloTime := b.stp.rootTimes.hello
       forwardDelay := b.stp.rootTimes.fwdDelay } : BpduBody).withRole .designated

end EvansComputer.Switch.Bridge
