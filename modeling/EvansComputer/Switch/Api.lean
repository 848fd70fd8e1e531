import EvansComputer.Switch.DataPlane

/-!
# Configuration

The calls that configure the bridge.  A setter validates, changes the configuration and marks
the bridge dirty; nothing runs before the bridge is next driven.  Calls that set what is not
modelled (names, LLDP, logging) are left out.
-/

namespace EvansComputer.Switch

inductive BridgeError where
  | badPort
  | badVlan
  | vlanNotFound (vid : UInt16)
  | vlanInUse (vid : UInt16) (port : PortRef)
  | vlanHasSvi (vid : UInt16)
  | defaultVlan
  | badLagId
  | lagNotFound (id : UInt16)
  | lagFull
  | fdbFull
  | noSuchEntry
  | outOfRange (what : String) (min max : ℕ)
  | invalid (why : String)
  deriving DecidableEq

/-- The bridge after a call, and how it went. -/
abbrev Configured := Bridge × Except BridgeError Unit

def checkVid (vid : UInt16) : Bool := minVid ≤ vid && vid ≤ maxVid

def checkMode : PortMode → Bool
  | .routed => true
  | .access vid => checkVid vid
  | .trunk native _ allowed =>
    checkVid native &&
      match allowed with
      | .all => true
      | .only s => s.all checkVid

namespace Bridge

/-- A bridge with one port for each address.  Every port starts routed, link down. -/
def new (portMacs : List MacAddr) (bridgeMac : MacAddr) (nowMs : ℤ) : Bridge where
  now := nowMs
  bridgeMac := bridgeMac
  ports := (portMacs.take maxPorts).map fun mac => { mac }
  vlans := (∅ : OrderedMap UInt16 Bool).insert defaultVid true
  stp := .new {} bridgeMac

def ok (b : Bridge) : Configured := (b, .ok ())

def fail (b : Bridge) (e : BridgeError) : Configured := (b, .error e)

def checkIface (b : Bridge) : PortRef → Option BridgeError
  | .eth n => if n < b.ports.length then none else some .badPort
  | .lag id => if b.lags.contains id then none else some (.lagNotFound id)
  | .cpu => some .badPort

/-- A change of the configuration of an interface. -/
def changeIface (b : Bridge) (iface : PortRef) (eth : EthPort → EthPort) (lag : Lag → Lag) :
    Bridge :=
  match iface with
  | .eth n => b.modifyPort n eth
  | .lag id => b.modifyLag id lag
  | .cpu => b

def setPortMode (b : Bridge) (iface : PortRef) (mode : PortMode) : Configured :=
  match b.checkIface iface with
  | some e => b.fail e
  | none =>
    if !checkMode mode then b.fail .badVlan
    else
      let b := b.changeIface iface (fun p => { p with cfg := { p.cfg with mode } })
        fun l => { l with cfg := { l.cfg with mode } }
      ok { b with fdb := b.fdb.flushPort iface, dirty := true }

/-- Administrative up or down.  Up also clears an err-disable. -/
def setAdminUp (b : Bridge) (iface : PortRef) (up : Bool) : Configured :=
  match b.checkIface iface with
  | some e => b.fail e
  | none =>
    let b := b.changeIface iface
      (fun p => { p with cfg := { p.cfg with adminUp := up }, errDisabled := p.errDisabled && !up })
      fun l => { l with cfg := { l.cfg with adminUp := up }, errDisabled := l.errDisabled && !up }
    ok { b with dirty := true }

def isErrDisabled (b : Bridge) : PortRef → Bool
  | .eth n => (b.ports[n]?).any (·.errDisabled)
  | .lag id => (b.lags[id]?).any (·.errDisabled)
  | .cpu => false

/-! ## VLANs -/

def createVlan (b : Bridge) (vid : UInt16) : Configured :=
  if !checkVid vid then b.fail .badVlan
  else if b.vlans.contains vid then b.ok
  else ok { b with vlans := b.vlans.insert vid false }

/-- Does a mode name the VLAN? -/
def usesVlan (vid : UInt16) : PortMode → Bool
  | .routed => false
  | .access a => a = vid
  | .trunk native _ allowed =>
    native = vid ||
      match allowed with
      | .all => false
      | .only s => s.contains vid

def vlanInUseOn (b : Bridge) (vid : UInt16) : Option PortRef :=
  (((List.range b.ports.length).find? fun i => (b.ports[i]?).any fun p =>
    usesVlan vid p.cfg.mode).map .eth).or
    ((b.lags.toList.find? fun x => usesVlan vid x.2.cfg.mode).map fun x => .lag x.1)

def deleteVlan (b : Bridge) (vid : UInt16) : Configured :=
  if vid = defaultVid then b.fail .defaultVlan
  else if !b.vlans.contains vid then b.fail (.vlanNotFound vid)
  else
    match b.vlanInUseOn vid with
    | some port => b.fail (.vlanInUse vid port)
    | none =>
      if b.svis.contains vid then b.fail (.vlanHasSvi vid)
      else ok { b with vlans := b.vlans.erase vid, fdb := b.fdb.removeAllWhere fun k _ =>
        k.vlan = vid }

def setVlanActive (b : Bridge) (vid : UInt16) (active : Bool) : Configured :=
  if vid = defaultVid ∧ !active then b.fail .defaultVlan
  else if !b.vlans.contains vid then b.fail (.vlanNotFound vid)
  else
    ok { b with
      vlans := b.vlans.insert vid active
      fdb := if active then b.fdb else b.fdb.removeDynamicWhere fun k _ => k.vlan = vid }

def setSvi (b : Bridge) (vlan : UInt16) (addr : Option (Ipv4Addr × UInt8)) : Configured :=
  if !checkVid vlan then b.fail .badVlan
  else
    match addr with
    | some (ip, len) =>
      if !b.vlans.contains vlan then b.fail (.vlanNotFound vlan)
      else if len > 32 then b.fail (.outOfRange "prefix" 0 32)
      else ok { b with svis := b.svis.insert vlan (ip, len) }
    | none =>
      ok { b with
        svis := b.svis.erase vlan
        fdb := b.fdb.removeDynamicWhere fun k e => k.vlan = vlan && e.port = .cpu }

/-! ## The filtering database -/

def setAgeTimeSecs (b : Bridge) (secs : UInt32) : Configured :=
  if secs < 15 ∨ secs > 1000000 then b.fail (.outOfRange "age-time" 15 1000000)
  else ok { b with ageTimeSecs := secs }

def checkStaticPort (b : Bridge) : PortRef → Bool
  | .eth n => n < b.ports.length
  | .lag id => minLagId ≤ id && id ≤ maxLagId
  | .cpu => false

def addStaticMac (b : Bridge) (mac : MacAddr) (vlan : UInt16) (port : PortRef) : Configured :=
  if !checkVid vlan then b.fail .badVlan
  else if !b.checkStaticPort port then b.fail .badPort
  else
    match b.fdb.addStatic mac vlan port b.now with
    | some fdb => ok { b with fdb }
    | none => b.fail .fdbFull

def removeStaticMac (b : Bridge) (mac : MacAddr) (vlan : UInt16) (port : PortRef) : Configured :=
  match b.fdb.removeStatic mac vlan port with
  | some fdb => ok { b with fdb }
  | none => b.fail .noSuchEntry

/-- Remove dynamic entries matching the filter. -/
def clearDynamic (b : Bridge) (vlan : Option UInt16) (port : Option PortRef)
    (mac : Option MacAddr) : Configured :=
  let matched (k : FdbKey) (e : FdbEntry) : Bool :=
    vlan.all (· = k.vlan) && port.all (· = e.port) && mac.all (· = k.mac)
  ok { b with fdb := b.fdb.removeDynamicWhere matched }

/-! ## LAGs -/

def createLag (b : Bridge) (id : UInt16) : Configured :=
  if id < minLagId ∨ id > maxLagId then b.fail .badLagId
  else if b.lags.contains id then b.ok
  else ok { b with lags := b.lags.insert id {}, dirty := true }

/-- Delete a LAG, releasing its members. -/
def deleteLag (b : Bridge) (id : UInt16) : Configured :=
  if !b.lags.contains id then b.fail (.lagNotFound id)
  else
    ok { b with
      lags := b.lags.erase id
      ports := b.ports.map fun p =>
        if p.cfg.lag = some id then { p with cfg := { p.cfg with lag := none }, lacp := {} } else p
      fdb := b.fdb.removeAllWhere fun _ e => e.port = .lag id
      dirty := true }

/-- Join a LAG (leaving any previous one), or leave. -/
def setLagMembership (b : Bridge) (port : ℕ) (lag : Option UInt16) : Configured :=
  let join (b : Bridge) : Configured :=
    let b := b.modifyPort port fun p => { p with cfg := { p.cfg with lag }, lacp := {} }
    ok { b with fdb := b.fdb.flushPort (.eth port), dirty := true }
  if port ≥ b.ports.length then b.fail .badPort
  else
    match lag with
    | none => join b
    | some id =>
      if !b.lags.contains id then b.fail (.lagNotFound id)
      else if (b.ports[port]?).any (·.cfg.lag = some id) then b.ok
      else if (b.lagMembers id).length ≥ maxLagMembers then b.fail .lagFull
      else join b

/-- A LAG is changed if it is there; the bridge is dirty even if it is not. -/
def changeLag (b : Bridge) (id : UInt16) (f : Lag → Lag) (member : EthPort → EthPort) :
    Configured :=
  let b := { b with dirty := true }
  if !b.lags.contains id then b.fail (.lagNotFound id)
  else
    ok { b.modifyLag id f with
        ports := b.ports.map fun p => if p.cfg.lag = some id then member p else p }

def setLacpMode (b : Bridge) (id : UInt16) (mode : LacpMode) : Configured :=
  b.changeLag id (fun l => { l with cfg := { l.cfg with lacpMode := mode } }) fun p =>
    { p with lacp := {} }

def setLacpRate (b : Bridge) (id : UInt16) (rate : LacpRate) : Configured :=
  b.changeLag id (fun l => { l with cfg := { l.cfg with lacpRate := rate } }) fun p => p

def setLagHash (b : Bridge) (id : UInt16) (hash : HashMode) : Configured :=
  b.changeLag id (fun l => { l with cfg := { l.cfg with hash } }) fun p => p

def setLagFallback (b : Bridge) (id : UInt16) (on : Bool) : Configured :=
  b.changeLag id (fun l => { l with cfg := { l.cfg with fallback := on } }) fun p => p

/-! ## Spanning tree -/

/-- A change of the spanning tree configuration. -/
def changeStp (b : Bridge) (f : StpConfig → StpConfig) : Configured :=
  ok { b with stpCfg := f b.stpCfg, dirty := true }

def setStpEnabled (b : Bridge) (on : Bool) : Configured :=
  b.changeStp fun c => { c with enabled := on }

def setStpPriority (b : Bridge) (prio : UInt16) : Configured :=
  if prio.toNat % 4096 ≠ 0 ∨ prio > 61440 then b.fail
    (.invalid "Priority must be 0..61440 in steps of 4096")
  else b.changeStp fun c => { c with priority := prio }

def setStpHello (b : Bridge) (s : UInt32) : Configured :=
  if s < 1 ∨ s > 10 then b.fail (.outOfRange "hello-time" 1 10) else b.changeStp fun c =>
    { c with helloSecs := s }

def setStpForwardDelay (b : Bridge) (s : UInt32) : Configured :=
  if s < 4 ∨ s > 30 then b.fail (.outOfRange "forward-delay" 4 30)
  else b.changeStp fun c => { c with forwardDelaySecs := s }

def setStpMaxAge (b : Bridge) (s : UInt32) : Configured :=
  if s < 6 ∨ s > 40 then b.fail (.outOfRange "max-age" 6 40) else b.changeStp fun c =>
    { c with maxAgeSecs := s }

def setPortStp (b : Bridge) (iface : PortRef) (c : StpPortConfig) : Configured :=
  match b.checkIface iface with
  | some e => b.fail e
  | none =>
    if c.priority.toNat % 16 ≠ 0 ∨ c.priority > 240 then
      b.fail (.invalid "Port-priority must be 0..240 in steps of 16")
    else if c.cost = 0 ∨ c.cost > 200000000 then b.fail (.outOfRange "cost" 1 200000000)
    else
      let b := b.changeIface iface (fun p => { p with cfg := { p.cfg with stp := c } })
        fun l => { l with cfg := { l.cfg with stp := c } }
      ok { b with dirty := true }

end Bridge

/-- What is done to a bridge. -/
inductive Call where
  | setPortMode (iface : PortRef) (mode : PortMode)
  | setAdminUp (iface : PortRef) (up : Bool)
  | createVlan (vid : UInt16)
  | deleteVlan (vid : UInt16)
  | setVlanActive (vid : UInt16) (active : Bool)
  | setSvi (vlan : UInt16) (addr : Option (Ipv4Addr × UInt8))
  | setAgeTimeSecs (secs : UInt32)
  | addStaticMac (mac : MacAddr) (vlan : UInt16) (port : PortRef)
  | removeStaticMac (mac : MacAddr) (vlan : UInt16) (port : PortRef)
  | clearDynamic (vlan : Option UInt16) (port : Option PortRef) (mac : Option MacAddr)
  | createLag (id : UInt16)
  | deleteLag (id : UInt16)
  | setLagMembership (port : ℕ) (lag : Option UInt16)
  | setLacpMode (id : UInt16) (mode : LacpMode)
  | setLacpRate (id : UInt16) (rate : LacpRate)
  | setLagHash (id : UInt16) (hash : HashMode)
  | setLagFallback (id : UInt16) (on : Bool)
  | setStpEnabled (on : Bool)
  | setStpPriority (prio : UInt16)
  | setStpHello (s : UInt32)
  | setStpForwardDelay (s : UInt32)
  | setStpMaxAge (s : UInt32)
  | setPortStp (iface : PortRef) (c : StpPortConfig)
  | setLink (port : ℕ) (up : Bool) (now : ℤ)
  | handleFrame (port : ℕ) (frame : Frame) (now : ℤ)
  | sendLocal (vlan : UInt16) (frame : Frame) (now : ℤ)
  | poll (now : ℤ)

namespace Bridge

def call (b : Bridge) : Call → Bridge
  | .setPortMode iface mode => (b.setPortMode iface mode).1
  | .setAdminUp iface up => (b.setAdminUp iface up).1
  | .createVlan vid => (b.createVlan vid).1
  | .deleteVlan vid => (b.deleteVlan vid).1
  | .setVlanActive vid active => (b.setVlanActive vid active).1
  | .setSvi vlan addr => (b.setSvi vlan addr).1
  | .setAgeTimeSecs secs => (b.setAgeTimeSecs secs).1
  | .addStaticMac mac vlan port => (b.addStaticMac mac vlan port).1
  | .removeStaticMac mac vlan port => (b.removeStaticMac mac vlan port).1
  | .clearDynamic vlan port mac => (b.clearDynamic vlan port mac).1
  | .createLag id => (b.createLag id).1
  | .deleteLag id => (b.deleteLag id).1
  | .setLagMembership port lag => (b.setLagMembership port lag).1
  | .setLacpMode id mode => (b.setLacpMode id mode).1
  | .setLacpRate id rate => (b.setLacpRate id rate).1
  | .setLagHash id hash => (b.setLagHash id hash).1
  | .setLagFallback id on => (b.setLagFallback id on).1
  | .setStpEnabled on => (b.setStpEnabled on).1
  | .setStpPriority prio => (b.setStpPriority prio).1
  | .setStpHello s => (b.setStpHello s).1
  | .setStpForwardDelay s => (b.setStpForwardDelay s).1
  | .setStpMaxAge s => (b.setStpMaxAge s).1
  | .setPortStp iface c => (b.setPortStp iface c).1
  | .setLink port up now => b.setLink port up now
  | .handleFrame port frame now => (b.handleFrame port frame now).1
  | .sendLocal vlan frame now => (b.sendLocal vlan frame now).1
  | .poll now => b.run now

end EvansComputer.Switch.Bridge
