import EvansComputer.Switch.Lacp
import EvansComputer.Switch.Stp

/-!
# The data plane

What the switch does with a frame.  A configuration call only marks the bridge dirty; the
machines run when it is next driven (`settle`), and a frame is handled in the state that they
leave.  The functions that handle frames return the bridge and what it has to be done, in
order; the bound of the output queue, which drops the last of it when full, is left out.
-/

namespace EvansComputer.Switch.Bridge

/-! ## The machines -/

/-- The ports that the configuration makes bridge ports. -/
def bridgePorts (b : Bridge) : List PortRef :=
  ((List.range b.ports.length).filter fun i =>
    (b.ports[i]?).any fun p => p.cfg.lag.isNone && !p.cfg.mode.isRouted).map .eth ++
  (b.lags.toList.filter fun x => !x.2.cfg.mode.isRouted).map fun x => .lag x.1

/-- A bridge port goes. -/
def removeBport (b : Bridge) (bp : PortRef) : Bridge :=
  { b with bports := b.bports.erase bp, fdb := b.fdb.flushPort bp }

def addBport (b : Bridge) (bp : PortRef) : Bridge :=
  if b.bports.contains bp then b
  else { b with
      bports := b.bports.insert bp { oper := false, stp := { portNum := portNumber bp } } }

/-- Keep the bridge ports in sync with the configuration. -/
def refreshBridgePorts (b : Bridge) : Bridge :=
  let want := b.bridgePorts
  let stale := b.bports.keys.filter fun k => !want.contains k
  want.foldl addBport (stale.foldl removeBport b)

def updateOperAt (b : Bridge) (bp : PortRef) : Bridge :=
  match b.bports[bp]? with
  | none => b
  | some x =>
    let new := b.computeOper bp
    let b := { b with bports := b.bports.insert bp { x with oper := new } }
    if x.oper && !new then { b with fdb := b.fdb.flushPort bp } else b

/-- Which bridge ports are up. -/
def updateOper (b : Bridge) : Bridge := b.bports.keys.foldl updateOperAt b

def fdbAge (b : Bridge) (now : ℤ) : Bridge := { b with fdb := b.fdb.age now b.currentAgeMs }

/-- What a call ends with: LACP, the ports, the tree. -/
def run (b : Bridge) (now : ℤ) : Bridge :=
  let b := { b with now, dirty := false }
  (((b.refreshBridgePorts.lacpRun now).updateOper).stpRun now).fdbAge now

/-- The machines run if something was configured. -/
def settle (b : Bridge) (now : ℤ) : Bridge :=
  let b := { b with now }
  if b.dirty then b.run now else b

/-! ## Control frames -/

/-- The port is shut down by BPDU guard. -/
def errDisable (b : Bridge) (bp : PortRef) : Bridge :=
  match bp with
  | .eth n => { b.modifyPort n fun p => { p with errDisabled := true } with dirty := true }
  | .lag id => { b.modifyLag id fun l => { l with errDisabled := true } with dirty := true }
  | .cpu => b

/-- A BPDU comes in. -/
def rxBpdu (b : Bridge) (port : ℕ) (bpdu : Bpdu) (now : ℤ) : Bridge × Bool :=
  match b.ingressBport port with
  | none => (b, false)
  | some bp =>
    match b.bpStpCfg bp with
    | none => (b, false)
    | some c =>
      if c.bpduGuard then
        if b.bportOper bp then (b.errDisable bp, true) else (b, false)
      else if !b.stpCfg.enabled || !c.enabled || !b.bportOper bp then (b, false)
      else b.stpRx bp bpdu now

/-- A frame addressed to 01:80:c2:00:00:0x; whether the machines must run. -/
def handleControl (b : Bridge) (port : ℕ) (e : EthInfo) (f : Frame) (now : ℤ) : Bridge × Bool :=
  if e.dst.f = 0x00 then
    match Bpdu.parseFrame f with
    | some bpdu => b.rxBpdu port bpdu now
    | none => (b, false)
  else if e.dst.f = 0x02 ∧ e.ethertype = ethertypeSlow then
    match Lacpdu.parseFrame f with
    | some pdu => b.lacpRx port pdu now
    | none => (b, false)
  -- LLDP is about neighbours only
  else (b, false)

/-! ## Frames -/

/-- The VLAN of an ingress frame, by the mode of the bridge port. -/
def ingressVlan (b : Bridge) (bp : PortRef) (e : EthInfo) : Option UInt16 :=
  match b.bpMode bp with
  | none | some .routed => none
  | some (.access vid) => if e.vid.isNone then some vid else none
  | some (.trunk native nativeTag allowed) =>
    match e.vid with
    | none => if nativeTag then none else if allowed.allows native then some native else none
    | some v => if allowed.allows v then some v else none

/-- Membership of a bridge port in a VLAN: tagged or not. -/
def membership (b : Bridge) (bp : PortRef) (vid : UInt16) : Option Bool :=
  match b.bpMode bp with
  | none | some .routed => none
  | some (.access a) => if a = vid then some false else none
  | some (.trunk native nativeTag allowed) =>
    if !allowed.allows vid then none
    else if allowed = .all && !b.vlans.contains vid then none
    else some !(vid = native && !nativeTag)

/-- A frame out of a physical port. -/
def tx (b : Bridge) (port : ℕ) (frame : Frame) : List Output :=
  if (b.ports[port]?).any (·.linkUp) then [.tx port frame] else []

/-- A frame out of a bridge port, tagged as its mode says. -/
def egress (b : Bridge) (bp : PortRef) (vlan : UInt16) (f : Frame) (pcp : Byte) : List Output :=
  match b.membership bp vlan with
  | none => []
  | some tagged =>
    if !b.bpForwarding bp then []
    else
      match if tagged then tag f vlan pcp else some (untag f) with
      | none => []
      | some out =>
        match bp with
        | .eth p => b.tx p out
        | .lag id =>
          match b.lagSelectMember id out with
          | some m => b.tx m out
          | none => []
        | .cpu => []

/-- A frame out of all ports but one. -/
def flood (b : Bridge) (vlan : UInt16) (except : PortRef) (f : Frame) (pcp : Byte) : List Output :=
  ((b.bports.toList.filter fun x => x.1 ≠ except && x.2.oper).map (·.1)).flatMap fun bp =>
    b.egress bp vlan f pcp

/-- The switch's own interface gets the frame. -/
def deliver (b : Bridge) (vlan : UInt16) (f : Frame) : List Output :=
  if b.svis.contains vlan then [.toLocal vlan (untag f)] else []

/-- Where a frame of a VLAN goes that came in on the bridge port `bp`. -/
def forward (b : Bridge) (bp : PortRef) (vlan : UInt16) (e : EthInfo) (f : Frame) : List Output :=
  if b.isOwnMac e.dst then b.deliver vlan f
  else if isMulticast e.dst then b.deliver vlan f ++ b.flood vlan bp f e.pcp
  else
    match (b.fdb.lookup e.dst vlan).map b.resolve with
    | some .cpu => b.deliver vlan f
    | some out => if out = bp then [] else b.egress out vlan f e.pcp
    | none => b.flood vlan bp f e.pcp

/-- A data frame is learned from and forwarded. -/
def forwardData (b : Bridge) (port : ℕ) (e : EthInfo) (f : Frame) : Bridge × List Output :=
  match (b.ingressBport port).filter b.bportOper with
  | none => (b, [])
  | some bp =>
    match (b.ingressVlan bp e).filter b.vlanActive with
    | none => (b, [])
    | some vlan =>
      -- our own frame looped back
      if b.isOwnMac e.src then (b, [])
      else
        let b :=
          if b.bpLearning bp && !isMulticast e.src && e.src ≠ .zero then
            { b with fdb := b.fdb.learn e.src vlan bp b.now }
          else b
        if !b.bpForwarding bp then (b, []) else (b, b.forward bp vlan e f)

/-- A frame received on a physical port. -/
def handleFrame (b : Bridge) (port : ℕ) (frame : Frame) (now : ℤ) : Bridge × List Output :=
  let b := b.settle now
  if !(b.ports[port]?).any (·.linkUp) then (b, [])
  else
    match parseEth frame with
    | none => (b, [])
    | some e =>
      if isReservedGroup e.dst then
        let (b, changed) := b.handleControl port e frame now
        (if changed then b.run now else b, [])
      -- slow protocols are never forwarded, whatever the destination
      else if e.ethertype = ethertypeSlow then (b, [])
      else b.forwardData port e frame

/-- Where a frame of the switch's own stack goes. -/
def forwardLocal (b : Bridge) (vlan : UInt16) (dst : MacAddr) (f : Frame) : List Output :=
  if b.isOwnMac dst then []
  else if isMulticast dst then b.flood vlan .cpu f 0
  else
    match (b.fdb.lookup dst vlan).map b.resolve with
    | some .cpu => []
    | some out => b.egress out vlan f 0
    | none => b.flood vlan .cpu f 0

/-- A frame from the switch's own stack, as if it had arrived on an internal port that is an
untagged member of the VLAN. -/
def sendLocal (b : Bridge) (vlan : UInt16) (frame : Frame) (now : ℤ) : Bridge × List Output :=
  let b := b.settle now
  match parseEth frame with
  | none => (b, [])
  | some e =>
    if !b.svis.contains vlan || !b.vlanActive vlan || isReservedGroup e.dst then (b, [])
    else
      let frame := if e.tci.isSome then untag frame else frame
      let b :=
        if !isMulticast e.src && e.src ≠
          .zero then { b with fdb := b.fdb.learn e.src vlan .cpu now } else b
      (b, b.forwardLocal vlan e.dst frame)

/-- Carrier change on a physical port. -/
def setLink (b : Bridge) (port : ℕ) (up : Bool) (now : ℤ) : Bridge :=
  let b := { b with now }
  match b.ports[port]? with
  | none => b
  | some ep =>
    if ep.linkUp = up then b
    else
      let b := b.modifyPort port fun ep =>
        -- a link flap clears an err-disable
        { ep with linkUp := up, errDisabled := if up then false else ep.errDisabled }
      let b :=
        match ep.cfg.lag with
        | some id => if up then b.modifyLag id fun l => { l with errDisabled := false } else b
        | none => b
      b.run now

end EvansComputer.Switch.Bridge
