import EvansComputer.Bgp.Engine
import EvansComputer.Net.AddrText
import EvansComputer.Router.Nat

/-!
# What a router is set to

`Config` of the router with everything that its command line can set, and the text that
`show running-config` writes of it: commands that set the same again.

Names are keys of ordered maps, so a section of the text comes in the order of its names.  A
number that is read may have a sign `+`; one that is written has none.
-/

namespace EvansComputer.Router

open Text

/-! ## BGP settings -/

/-- `neighbor X maximum-prefix MAX [threshold PCT] [restart SECS] [warning-only]`. -/
structure MaxPrefix extends Bgp.MaxPrefix where
  threshold : UInt8
  deriving DecidableEq

def MaxPrefix.new (max : UInt32) : MaxPrefix where
  max := max
  threshold := 75
  restart := none
  warningOnly := false

def MaxPrefix.render (m : MaxPrefix) : String :=
  "maximum-prefix " ++ toString m.max ++
    (if m.threshold ≠ 75 then " threshold " ++ toString m.threshold else "") ++
    (match m.restart with
      | some r => " restart " ++ toString r
      | none => "") ++
    if m.warningOnly then " warning-only" else ""

/-- A neighbor or a peer-group template, with the source of its connections. -/
structure Neighbor where
  remoteAs : Option Bgp.RemoteAs := none
  updateSource : Option String := none
  active : Bool := false
  defaultOriginate : Bool := false
  inbound : Option String := none
  outbound : Option String := none
  maximumPrefix : Option MaxPrefix := none
  peerGroup : Option String := none
  deriving DecidableEq

/-- `ecm_bgp::Config` -/
structure BgpConfig where
  asn : UInt32 := 0
  routerId : Ipv4Addr := Ipv4Addr.zero
  keepalive : UInt16 := 60
  hold : UInt16 := 180
  neighbors : OrderedMap Ipv4Addr Neighbor := ∅
  groups : OrderedMap String Neighbor := ∅
  listen : List Bgp.ListenRange := []
  listenLimit : Option UInt32 := none
  networks : List Bgp.Prefix := []
  connected : Bool := false
  staticRoutes : Bool := false

/-- `ecm_bgp::Policy` -/
structure Policy where
  lists : OrderedMap String (List Bgp.PrefixRule) := ∅
  maps : OrderedMap String (List Bgp.MapRule) := ∅

/-! ## Ports and pools -/

inductive NatRole where
  | inside
  | outside
  deriving DecidableEq

structure Port where
  address : Option (Ipv4Addr × UInt8) := none
  dhcp : Bool := false
  nat : Option NatRole := none
  deriving DecidableEq

/-- A pool of the DHCP server. -/
structure Pool where
  start : Ipv4Addr := Ipv4Addr.zero
  stop : Ipv4Addr := Ipv4Addr.zero
  router : Ipv4Addr := Ipv4Addr.zero
  dns : Ipv4Addr := Ipv4Addr.zero
  domain : String := ""
  leaseSecs : UInt32 := 86400
  enabled : Bool := false
  deriving DecidableEq

structure Config where
  routing : Bool := false
  ports : OrderedMap String Port := ∅
  routes : List (Ipv4Addr × UInt8 × Ipv4Addr × String) := []
  pools : OrderedMap String Pool := ∅
  forwards : List Forward := []
  bgp : BgpConfig := {}
  policy : Policy := {}

/-! ## Reading -/

def readU8 (w : String) : Option UInt8 := (readUnsigned 255 w.toList).map UInt8.ofNat

def readU16 (w : String) : Option UInt16 := (readUnsigned 65535 w.toList).map UInt16.ofNat

def readU32 (w : String) : Option UInt32 := (readUnsigned 4294967295 w.toList).map UInt32.ofNat

/-- `split_once` -/
def cut (sep : Char) (w : String) : Option (String × String) :=
  match w.toList.span (· ≠ sep) with
  | (a, _ :: b) => some (String.ofList a, String.ofList b)
  | (_, []) => none

def readAddr (w : String) : Option Ipv4Addr := Ipv4Addr.parse w.toList

/-- `Ipv4Addr::parse_cidr` -/
def parseCidr (w : String) : Option (Ipv4Addr × UInt8) := do
  let (ip, len) ← cut '/' w
  let ip ← readAddr ip
  if len.toList = [] ∨ len.toList.length > 2 ∨ !len.toList.all (·.isDigit) then none
  else
    let len ← readU8 len
    if len > 32 then none else some (ip, len)

/-- `RemoteAs::parse` -/
def parseRemoteAs (w : String) : Option Bgp.RemoteAs :=
  match w with
  | "external" => some .external
  | "internal" => some .internal
  | _ => ((readU32 w).filter (· > 0)).map .asn

/-- One interval of an AS range. -/
def parseAsInterval (part : String) : Option (UInt32 × UInt32) := do
  let (a, b) ←
    match cut '-' part with
    | some (a, b) => do
      let a ← readU32 a
      let b ← readU32 b
      some (a, b)
    | none => do
      let n ← readU32 part
      some (n, n)
  if a = 0 ∨ a > b then none else some (a, b)

/-- AS ranges such as `65001,65005,65100-65200`. -/
def parseAsRange (w : String) : Option (List (UInt32 × UInt32)) := do
  let out ← ((split (· == ',') w.toList).map String.ofList).mapM parseAsInterval
  if out ≠ [] then some out else none

/-! ## Writing -/

def showAddr (ip : Ipv4Addr) : String := String.ofList ip.display

def showCidr (ip : Ipv4Addr) (len : UInt8) : String := showAddr ip ++ "/" ++ toString len

/-- `RemoteAs::render` -/
def renderRemoteAs : Bgp.RemoteAs → String
  | .asn n => toString n
  | .external => "external"
  | .internal => "internal"

def renderAsRange (ranges : List (UInt32 × UInt32)) : String :=
  String.intercalate ","
    (ranges.map fun i => if i.1 = i.2 then toString i.1 else toString i.1 ++ "-" ++ toString i.2)

/-- A line for a setting that is there. -/
def lineOf {α : Type} (o : Option α) (f : α → String) : String := o.elim "" f

def renderPort (name : String) (p : Port) : String :=
  "interface " ++ name ++ "\nrouting\n" ++ (if p.dhcp then "ip dhcp\n" else "") ++
    lineOf p.address (fun a => "ip address " ++ showCidr a.1 a.2 ++ "\n") ++
    lineOf p.nat (fun role => if role = .inside then "ip nat inside\n" else "ip nat outside\n") ++
      "exit\n"

def renderPool (name : String) (p : Pool) : String :=
  "pool " ++ name ++ "\nrange " ++ showAddr p.start ++ " " ++ showAddr p.stop ++
    "\ndefault-router " ++
    showAddr p.router ++ "\ndns-server " ++ showAddr p.dns ++ "\nlease " ++
      toString p.leaseSecs ++ "\n" ++
    (if p.domain ≠ "" then "domain-name " ++ p.domain ++ "\n" else "") ++
    (if p.enabled then "enable\n" else "") ++ "exit\n"

def renderPrefixRule (name : String) (r : Bgp.PrefixRule) : String :=
  "ip prefix-list " ++ name ++ " seq " ++ toString r.seq ++ " " ++
    (if r.permit then "permit" else "deny") ++ " " ++
    showCidr r.pfx.address r.pfx.len ++ " ge " ++ toString r.min ++ " le " ++ toString r.max ++ "\n"

def renderMapRule (name : String) (r : Bgp.MapRule) : String :=
  "route-map " ++ name ++ " " ++ (if r.permit then "permit" else "deny") ++ " " ++
    toString r.seq ++ "\n" ++
    lineOf r.prefixList (fun n => "match ip address prefix-list " ++ n ++ "\n") ++
    lineOf r.localPref (fun n => "set local-preference " ++ toString n ++ "\n") ++
    lineOf r.med (fun n => "set metric " ++ toString n ++ "\n") ++
    lineOf r.community (fun n => "set community " ++ toString n ++ "\n") ++ "exit\n"

def renderListen (name : String) (r : Bgp.ListenRange) : String :=
  "neighbor " ++ name ++ " listen ip-range " ++ showCidr r.pfx.address r.pfx.len ++
    lineOf r.asRange (fun a => " as-range " ++ renderAsRange a) ++
      lineOf r.limit (fun l => " limit " ++ toString l) ++ "\n"

/-- The session settings of a peer group, and its listen ranges. -/
def renderGroup (bgp : BgpConfig) (name : String) (g : Neighbor) : String :=
  "neighbor " ++ name ++ " peer-group\n" ++
    lineOf g.remoteAs (fun r => "neighbor " ++ name ++ " remote-as " ++ renderRemoteAs r ++ "\n") ++
    lineOf g.updateSource
      (fun source => "neighbor " ++ name ++ " update-source " ++ source ++ "\n") ++
    String.join ((bgp.listen.filter (·.group = name)).map (renderListen name))

def renderNeighbor (ip : String) (n : Neighbor) : String :=
  lineOf n.remoteAs (fun r => "neighbor " ++ ip ++ " remote-as " ++ renderRemoteAs r ++ "\n") ++
    lineOf n.peerGroup (fun g => "neighbor " ++ ip ++ " peer-group " ++ g ++ "\n") ++
    lineOf n.updateSource (fun source => "neighbor " ++ ip ++ " update-source " ++ source ++ "\n")

/-- `family`: the settings of an address family. -/
def renderFamily (who : String) (n : Neighbor) : String :=
  (if n.active then "neighbor " ++ who ++ " activate\n" else "") ++
    (if n.defaultOriginate then "neighbor " ++ who ++ " default-originate\n" else "") ++
    lineOf n.inbound (fun map => "neighbor " ++ who ++ " route-map " ++ map ++ " in\n") ++
    lineOf n.outbound (fun map => "neighbor " ++ who ++ " route-map " ++ map ++ " out\n") ++
    lineOf n.maximumPrefix (fun m => "neighbor " ++ who ++ " " ++ m.render ++ "\n")

def renderBgp (bgp : BgpConfig) : String :=
  if bgp.asn ≠ 0 then
    "router bgp " ++ toString bgp.asn ++ "\nbgp router-id " ++ showAddr bgp.routerId ++
      "\ntimers bgp " ++
      toString bgp.keepalive ++ " " ++ toString bgp.hold ++ "\n" ++
      lineOf bgp.listenLimit (fun n => "bgp listen limit " ++ toString n ++ "\n") ++
      -- groups first: members and ranges refer to them
      String.join (bgp.groups.toList.map fun g => renderGroup bgp g.1 g.2) ++
      String.join (bgp.neighbors.toList.map fun n => renderNeighbor (showAddr n.1) n.2) ++
      "address-family ipv4 unicast\n" ++
      String.join (bgp.groups.toList.map fun g => renderFamily g.1 g.2) ++
      String.join (bgp.neighbors.toList.map fun n => renderFamily (showAddr n.1) n.2) ++
      String.join (bgp.networks.map fun p => "network " ++ showCidr p.address p.len ++ "\n") ++
      (if bgp.connected then "redistribute connected\n" else "") ++
      (if bgp.staticRoutes then "redistribute static\n" else "")
  else ""

/-- `Config::render` -/
def Config.render (c : Config) : String :=
  "configure terminal\n" ++ ((if c.routing then "ip routing\n" else "") ++
    String.join (c.ports.toList.map fun p => renderPort p.1 p.2) ++
    String.join (c.routes.map fun r =>
      "ip route " ++ showCidr r.1 r.2.1 ++ " " ++ showAddr r.2.2.1 ++ " " ++ r.2.2.2 ++ "\n") ++
    String.join (c.forwards.map fun f =>
      "ip nat inside source static " ++ (if f.protocol = 6 then "tcp" else "udp") ++ " " ++
        showAddr f.inside ++ " " ++
        toString f.insidePort ++ " " ++ toString f.outsidePort ++ "\n") ++
    "dhcp-server vrf default\n" ++ String.join (c.pools.toList.map fun p => renderPool p.1 p.2) ++
      "exit\n" ++
    String.join (c.policy.lists.toList.map fun l => String.join (l.2.map (renderPrefixRule l.1))) ++
    String.join (c.policy.maps.toList.map fun m => String.join (m.2.map (renderMapRule m.1))) ++
    renderBgp c.bgp ++ "end\n")

end EvansComputer.Router
