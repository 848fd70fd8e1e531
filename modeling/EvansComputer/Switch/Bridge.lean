import EvansComputer.Switch.Fdb
import EvansComputer.Switch.Pdus

/-!
# The bridge

The state of the switch: physical ports, aggregates of them, and the ports of the bridge, with
what spanning tree and link aggregation know about each.  Spanning tree, membership in VLANs,
learning and flooding are of bridge ports.

What the switch counts, logs and advertises about itself is not here, and neither are the
control frames that it sends: nothing below reads them back.
-/

namespace EvansComputer.Switch

/-! ## Spanning tree -/

/-- The role of a port. -/
inductive StpRole where
  | disabled
  | root
  | designated
  | alternate
  | backup
  deriving DecidableEq

/-- What a port does with frames. -/
inductive StpPortState where
  | discarding
  | learning
  | forwarding
  deriving DecidableEq

/-- Spanning tree priority vector.  Field order is comparison order. -/
structure PrioVec where
  root : UInt64
  cost : UInt32
  dbridge : UInt64
  dport : UInt16
  rport : UInt16
  deriving DecidableEq

/-- Timer values of a BPDU, in 1/256 s. -/
structure Times where
  msgAge : UInt16
  maxAge : UInt16
  hello : UInt16
  fwdDelay : UInt16
  deriving DecidableEq

/-- Whose the information of a port is. -/
inductive InfoIs where
  | disabled
  | aged
  | mine
  | received
  deriving DecidableEq

/-- The spanning tree at a port. -/
structure StpPort where
  portNum : UInt16
  role : StpRole := .disabled
  state : StpPortState := .discarding
  info : InfoIs := .disabled
  prio : PrioVec := ⟨0xffffffffffffffff, 0xffffffff, 0xffffffffffffffff, 0xffff, 0⟩
  times : Times := ⟨0, 20 * 256, 2 * 256, 15 * 256⟩
  rcvdUntil : ℤ := 0
  fdUntil : Option ℤ := none
  tcUntil : ℤ := minInstant
  operEdge : Bool := false
  sendRstp : Bool := true
  rootInconsistent : Bool := false
  rcvdTc : Bool := false
  wasOper : Bool := false

/-- Bridge-wide spanning tree state. -/
structure StpBridge where
  bridgeId : UInt64
  rootPrio : PrioVec
  rootPort : Option PortRef
  rootTimes : Times
  wasEnabled : Bool

/-! ## Link aggregation -/

/-- The receive machine. -/
inductive LacpRx where
  | disabled
  | expired
  | defaulted
  | current
  deriving DecidableEq

/-- The mux machine. -/
inductive LacpMux where
  | detached
  | waiting
  | attached
  | collectingDistributing
  deriving DecidableEq

/-- LACP at a port. -/
structure LacpPort where
  rx : LacpRx := .disabled
  currentUntil : ℤ := 0
  partner : LacpInfo := {}
  partnerSync : Bool := false
  selected : Bool := false
  mux : LacpMux := .detached
  waitUntil : ℤ := 0
  deriving DecidableEq

/-! ## Ports -/

/-- A physical port. -/
structure EthPort where
  mac : MacAddr
  linkUp : Bool := false
  cfg : EthConfig := {}
  errDisabled : Bool := false
  lacp : LacpPort := {}

/-- A link aggregate. -/
structure Lag where
  cfg : LagConfig := {}
  errDisabled : Bool := false
  /-- Member brought up alone by `lacp fallback` while no partner exists. -/
  fallbackMember : Option ℕ := none

/-- A port of the bridge. -/
structure BPort where
  oper : Bool
  stp : StpPort

/-- The whole switch. -/
structure Bridge where
  now : ℤ
  bridgeMac : MacAddr
  ports : List EthPort
  lags : OrderedMap UInt16 Lag := ∅
  /-- The VLANs, and whether each is active. -/
  vlans : OrderedMap UInt16 Bool
  fdb : Fdb := {}
  ageTimeSecs : UInt32 := 300
  fastAgeUntil : ℤ := minInstant
  svis : OrderedMap UInt16 (Ipv4Addr × UInt8) := ∅
  stpCfg : StpConfig := {}
  stp : StpBridge
  bports : OrderedMap PortRef BPort := ∅
  dirty : Bool := true

/-- Something the caller must do. -/
inductive Output where
  | tx (port : ℕ) (frame : Frame)
  | toLocal (vlan : UInt16) (frame : Frame)
  deriving DecidableEq

namespace Bridge

/-- A change of a physical port that is there. -/
def modifyPort (b : Bridge) (p : ℕ) (f : EthPort → EthPort) : Bridge :=
  { b with ports := b.ports.modify p f }

def modifyLacp (b : Bridge) (p : ℕ) (f : LacpPort → LacpPort) : Bridge :=
  b.modifyPort p fun ep => { ep with lacp := f ep.lacp }

def modifyLag (b : Bridge) (id : UInt16) (f : Lag → Lag) : Bridge :=
  { b with lags := b.lags.modify id f }

def modifyStp (b : Bridge) (bp : PortRef) (f : StpPort → StpPort) : Bridge :=
  { b with bports := b.bports.modify bp fun x => { x with stp := f x.stp } }

/-- Is it an address of the bridge? -/
def isOwnMac (b : Bridge) (mac : MacAddr) : Bool := mac = b.bridgeMac || b.ports.any (·.mac = mac)

/-- Does the VLAN forward? -/
def vlanActive (b : Bridge) (vid : UInt16) : Bool := (b.vlans[vid]?).getD false

/-- The age at which a learned address goes. -/
def currentAgeMs (b : Bridge) : ℤ :=
  if b.now < b.fastAgeUntil then b.stpCfg.forwardDelaySecs.toNat * 1000
    else b.ageTimeSecs.toNat * 1000

/-- The bridge port that carries a configured port. -/
def resolve (b : Bridge) (p : PortRef) : PortRef :=
  match p with
  | .eth n =>
    match (b.ports[n]?).bind (·.cfg.lag) with
    | some id => .lag id
    | none => p
  | _ => p

/-- The mode of a bridge port. -/
def bpMode (b : Bridge) : PortRef → Option PortMode
  | .eth n => (b.ports[n]?).map (·.cfg.mode)
  | .lag id => (b.lags[id]?).map (·.cfg.mode)
  | .cpu => none

def bpStpCfg (b : Bridge) : PortRef → Option StpPortConfig
  | .eth n => (b.ports[n]?).map (·.cfg.stp)
  | .lag id => (b.lags[id]?).map (·.cfg.stp)
  | .cpu => none

/-- Is a physical member collecting and distributing for its LAG? -/
def memberDistributing (b : Bridge) (p : ℕ) : Bool :=
  match b.ports[p]? with
  | none => false
  | some ep =>
    match ep.cfg.lag.bind fun id => b.lags[id]? with
    | none => false
    | some lag =>
      ep.linkUp && ep.cfg.adminUp &&
        (lag.cfg.lacpMode = .off || ep.lacp.mux = .collectingDistributing ||
          lag.fallbackMember = some p)

/-- Members configured into a LAG. -/
def lagMembers (b : Bridge) (id : UInt16) : List ℕ :=
  (List.range b.ports.length).filter fun m => (b.ports[m]?).any (·.cfg.lag = some id)

/-- Operational state (before STP) of a bridge port. -/
def computeOper (b : Bridge) : PortRef → Bool
  | .eth n => (b.ports[n]?).any fun p => p.linkUp && p.cfg.adminUp && !p.errDisabled
  | .lag id =>
    (b.lags[id]?).any fun l =>
      l.cfg.adminUp && !l.errDisabled && (b.lagMembers id).any b.memberDistributing
  | .cpu => true

/-- Is the bridge port up? -/
def bportOper (b : Bridge) (bp : PortRef) : Bool := (b.bports[bp]?).any (·.oper)

/-- Bridge port that carries data frames arriving on a physical port. -/
def ingressBport (b : Bridge) (port : ℕ) : Option PortRef :=
  match b.ports[port]? with
  | none => none
  | some ep =>
    match ep.cfg.lag with
    | some id =>
      match b.lags[id]? with
      | none => none
      | some lag =>
        if lag.cfg.mode.isRouted || !b.memberDistributing port then none else some (.lag id)
    | none => if ep.cfg.mode.isRouted then none else some (.eth port)

/-- Is STP controlling this bridge port? -/
def stpActive (b : Bridge) (bp : PortRef) : Bool :=
  b.stpCfg.enabled && (b.bpStpCfg bp).any (·.enabled)

/-- Data-plane forwarding gate for a bridge port. -/
def bpForwarding (b : Bridge) (bp : PortRef) : Bool :=
  (b.bports[bp]?).any fun x => x.oper && (!b.stpActive bp || x.stp.state = .forwarding)

/-- Learning allowed in Learning and Forwarding. -/
def bpLearning (b : Bridge) (bp : PortRef) : Bool :=
  (b.bports[bp]?).any fun x => x.oper && (!b.stpActive bp || x.stp.state ≠ .discarding)

end EvansComputer.Switch.Bridge
