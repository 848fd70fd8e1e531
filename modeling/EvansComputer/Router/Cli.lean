import EvansComputer.Router.Settings

/-!
# The command line of the router

Contexts, commands and what they set (`Session::exec`).

A command comes with the configuration that it leaves behind, also where it is an error.  The
outer `Option` is `none` where the source would unwrap a port, a pool or a rule of a route map
that is not there.  A match of the source that no arm leaves goes on to the message behind it,
which is `invalid` below.
-/

namespace EvansComputer.Router

open Text

inductive Context where
  | exec
  | config
  | interface (name : String)
  | dhcp
  | pool (name : String)
  | bgp
  | family
  | routeMap (name : String) (seq : UInt32)
  deriving DecidableEq

structure Session where
  context : Context
  deriving DecidableEq

/-- `Session::new` -/
def Session.new : Session := ⟨.exec⟩

/-- What a line answers: its output, whether the command line is left, and whether the
configuration is saved. -/
structure Reply where
  output : String
  leave : Bool
  save : Bool
  deriving DecidableEq

abbrev Outcome := Reply × Config × Session

def ok (c : Config) (context : Context) : Option Outcome := some (⟨"", false, false⟩, c, ⟨context⟩)

def help : String := "configure terminal; interface ethN; ip routing; ip route PREFIX GATEWAY [ethN]; dhcp-server vrf default
router bgp ASN: bgp router-id IP; timers bgp KEEPALIVE HOLD
  neighbor IP remote-as ASN|external|internal; neighbor IP update-source ethN|IP
  neighbor GROUP peer-group; neighbor GROUP remote-as ASN|external|internal; neighbor IP
    peer-group GROUP
  neighbor GROUP listen ip-range PREFIX [as-range RANGE] [limit 1-512]; bgp listen limit N
  address-family ipv4 unicast: neighbor IP|GROUP activate | route-map NAME
    in|out | default-originate
    neighbor IP|GROUP maximum-prefix MAX [threshold PCT] [restart SECS]
      [warning-only]; network PREFIX
ip prefix-list NAME seq N permit|deny PREFIX [ge N] [le N]; route-map NAME permit|deny SEQ
show ip route; show arp; show ip nat translations; show dhcp-server leases
show bgp ipv4 unicast [summary | neighbors [IP]]; clear bgp * | IP
show running-config; write memory; end; exit
"

/-! ## Neighbors and peer groups -/

/-- What a command of BGP leaves, and whether it is an error. -/
abbrev Done := Config × Except String Unit

def fine (c : Config) : Done := (c, .ok ())

def wrong (c : Config) (e : String) : Done := (c, .error e)

def setBgp (c : Config) (f : BgpConfig → BgpConfig) : Config := { c with bgp := f c.bgp }

/-- A peer-group name: not an address, starts with a letter, `[A-Za-z0-9_-]`, at most 32. -/
def groupName (s : String) : Bool :=
  -- the source counts bytes; what passes has one for each character
  (readAddr s).isNone && s.toList.length ≤ 32 && (s.toList.head?.any fun c => c.isAlpha) &&
    s.toList.all fun c => c.isAlphanum || c = '-' || c = '_'

/-- `target`, and what is done with the neighbor or peer group that a line addresses. -/
def target (c : Config) (x : String) (f : Neighbor → Neighbor) : Done :=
  match readAddr x with
  | some ip =>
    match c.bgp.neighbors[ip]? with
    | some n => fine (setBgp c fun b => { b with neighbors := b.neighbors.insert ip (f n) })
    | none =>
      wrong c ("Neighbor " ++ x ++ " is not configured (use 'neighbor " ++ x ++
        " remote-as ASN' first)")
  | none =>
    if !groupName x then wrong c ("Invalid neighbor address or peer-group name: " ++ x)
    else
      match c.bgp.groups[x]? with
      | some g => fine (setBgp c fun b => { b with groups := b.groups.insert x (f g) })
      | none =>
        wrong c ("Peer group " ++ x ++ " does not exist (use 'neighbor " ++ x ++
          " peer-group' first)")

/-- `neighbors.entry(ip).or_default()`, with one change. -/
def entryNeighbor (c : Config) (ip : Ipv4Addr) (f : Neighbor → Neighbor) : Config :=
  setBgp c fun b => { b with neighbors := b.neighbors.insert ip (f (b.neighbors[ip]?.getD {})) }

def listenPrefix (s : String) : Except String Bgp.Prefix :=
  match parseCidr s with
  | none => .error ("Invalid prefix: " ++ s)
  | some (a, len) =>
    if len = 0 then .error "A listen range must be narrower than 0.0.0.0/0" else .ok (.new a len)

def addListen (c : Config) (r : Bgp.ListenRange) : Config :=
  setBgp c fun b => { b with listen := b.listen.filter (·.pfx ≠ r.pfx) ++ [r] }

/-- `parse_listen_options`, two words at a time. -/
def parseListenOptions (r : Bgp.ListenRange) : List String → Except String Bgp.ListenRange
  | [] => .ok r
  | "as-range" :: range :: rest =>
    match parseAsRange range with
    | some ranges => parseListenOptions { r with asRange := some ranges } rest
    | none => .error ("Invalid AS range: " ++ range)
  | "limit" :: n :: rest =>
    match (readU32 n).filter fun n => 1 ≤ n && n ≤ 512 with
    | some limit => parseListenOptions { r with limit := some limit } rest
    | none => .error ("Invalid limit " ++ n ++ " (1-512)")
  | _ => .error "Expected [as-range RANGE] [limit 1-512]"

/-- The loop of `parse_max_prefix`; only the first word may be a threshold by its place. -/
def maxPrefixOptions (m : MaxPrefix) (isFirst : Bool) : List String → Except String MaxPrefix
  | [] => .ok m
  | "warning-only" :: rest => maxPrefixOptions { m with warningOnly := true } false rest
  | "threshold" :: t :: rest =>
    match (readU8 t).filter fun t => 1 ≤ t && t ≤ 100 with
    | some threshold => maxPrefixOptions { m with threshold := threshold } false rest
    | none => .error ("Invalid threshold " ++ t ++ " (1-100)")
  | "restart" :: t :: rest =>
    match (readU16 t).filter (· ≥ 30) with
    | some restart => maxPrefixOptions { m with restart := some restart } false rest
    | none => .error ("Invalid restart interval " ++ t ++ " (30-65535)")
  | t :: rest =>
    match (readU8 t).filter fun t => isFirst && 1 ≤ t && t ≤ 100 with
    | some threshold => maxPrefixOptions { m with threshold := threshold } false rest
    | none => .error "Expected [threshold 1-100] [restart 30-65535] [warning-only]"

def parseMaxPrefix (max : String) (rest : List String) : Except String MaxPrefix :=
  match (readU32 max).filter fun n => 1 ≤ n && n ≤ 128000 with
  | some n => maxPrefixOptions (.new n) true rest
  | none => .error ("Invalid maximum " ++ max ++ " (1-128000)")

/-! ## `bgp_command` -/

def noSuchGroup (name : String) : String := "Peer group " ++ name ++ " does not exist"

/-- The commands of `router bgp`. -/
def bgpCommand (c : Config) : List String → Option Done
  | ["neighbor", name, "peer-group"] =>
    if !groupName name then wrong c ("Invalid peer-group name: " ++ name)
    else fine
      (setBgp c fun b => { b with groups := b.groups.insert name (b.groups[name]?.getD {}) })
  | ["neighbor", ip, "peer-group", name] =>
    match readAddr ip, c.bgp.groups.contains name with
    | none, _ => wrong c ("Invalid neighbor address: " ++ ip)
    | some _, false => wrong c (noSuchGroup name)
    | some ip, true => fine (entryNeighbor c ip fun n => { n with peerGroup := some name })
  | ["neighbor", x, "remote-as", asn] =>
    match parseRemoteAs asn with
    | none =>
      wrong c ("Invalid remote AS " ++ asn ++ " (expected 1-4294967295, external or internal)")
    | some rule =>
      match readAddr x with
      | some ip => fine (entryNeighbor c ip fun n => { n with remoteAs := some rule })
      | none => target c x fun n => { n with remoteAs := some rule }
  | ["neighbor", x, "update-source", source] =>
    target c x fun n => { n with updateSource := some source }
  | "no" :: "neighbor" :: x :: "update-source" :: _ =>
    target c x fun n => { n with updateSource := none }
  | "neighbor" :: x :: "listen" :: "ip-range" :: pfx :: rest =>
    if !c.bgp.groups.contains x then
      wrong c (if groupName x then noSuchGroup x
        else "Dynamic neighbors need a peer group: neighbor GROUP listen ip-range PREFIX")
    else
      match listenPrefix pfx with
      | .error e => wrong c e
      | .ok pfx =>
        match parseListenOptions { pfx := pfx, group := x, asRange := none, limit := none } rest with
        | .error e => wrong c e
        | .ok r => fine (addListen c r)
  | "no" :: "neighbor" :: x :: "listen" :: "ip-range" :: word :: _ =>
    match listenPrefix word with
    | .error e => wrong c e
    | .ok pfx =>
      -- the ranges are filtered before it is known whether there was one
      let after := setBgp c fun b =>
        { b with listen := b.listen.filter fun r => !(r.pfx = pfx && r.group = x) }
      if after.bgp.listen.length = c.bgp.listen.length then
        wrong after ("No listen range " ++ word ++ " for " ++ x)
      else fine after
  | ["bgp", "listen", "range", pfx, "peer-group", name] =>
    if !c.bgp.groups.contains name then wrong c (noSuchGroup name)
    else
      match listenPrefix pfx with
      | .error e => wrong c e
      | .ok pfx => fine (addListen c { pfx := pfx, group := name, asRange := none, limit := none })
  | ["no", "bgp", "listen", "range", pfx, "peer-group", name] =>
    match listenPrefix pfx with
    | .error e => wrong c e
    | .ok pfx =>
      fine (setBgp c fun b =>
        { b with listen := b.listen.filter fun r => !(r.pfx = pfx && r.group = name) })
  | ["bgp", "listen", "limit", n] =>
    match (readU32 n).filter fun n => 1 ≤ n && n ≤ 65535 with
    | some limit => fine (setBgp c fun b => { b with listenLimit := some limit })
    | none => wrong c ("Invalid listen limit " ++ n ++ " (1-65535)")
  | "no" :: "bgp" :: "listen" :: "limit" :: _ =>
    fine (setBgp c fun b => { b with listenLimit := none })
  | ["no", "neighbor", x] =>
    match readAddr x with
    | some ip =>
      let after := setBgp c fun b => { b with neighbors := b.neighbors.erase ip }
      if c.bgp.neighbors.contains ip then fine after
        else wrong after ("Neighbor " ++ x ++ " is not configured")
    | none =>
      let after := setBgp c fun b => { b with groups := b.groups.erase x }
      if c.bgp.groups.contains x then
        -- deleting a group deletes its ranges and members
        fine (setBgp after fun b =>
          { b with
            listen := b.listen.filter (·.group ≠ x)
            neighbors := b.neighbors.filter fun _ n => n.peerGroup ≠ some x })
      else wrong after (noSuchGroup x)
  | _ => none

/-- The commands of the IPv4 unicast address family. -/
def familyCommand (c : Config) : List String → Option Done
  | ["neighbor", x, "activate"] => target c x fun n => { n with active := true }
  | ["no", "neighbor", x, "activate"] => target c x fun n => { n with active := false }
  | ["neighbor", x, "default-originate"] => target c x fun n => { n with defaultOriginate := true }
  | ["no", "neighbor", x, "default-originate"] =>
    target c x fun n => { n with defaultOriginate := false }
  | ["neighbor", x, "route-map", name, dir] =>
    match dir with
    | "in" => target c x fun n => { n with inbound := some name }
    | "out" => target c x fun n => { n with outbound := some name }
    | _ => wrong c "Expected in or out"
  | ["no", "neighbor", x, "route-map", _, dir] =>
    match dir with
    | "in" => target c x fun n => { n with inbound := none }
    | "out" => target c x fun n => { n with outbound := none }
    | _ => wrong c "Expected in or out"
  | "neighbor" :: x :: "maximum-prefix" :: max :: rest =>
    match parseMaxPrefix max rest with
    | .error e => wrong c e
    | .ok m => target c x fun n => { n with maximumPrefix := some m }
  | "no" :: "neighbor" :: x :: "maximum-prefix" :: _ =>
    target c x fun n => { n with maximumPrefix := none }
  | _ => none

/-! ## The other commands -/

/-- The bounds of a rule of a prefix list, from its length on. -/
def prefixBounds (min max : UInt8) : List String → Option (UInt8 × UInt8)
  | [] => some (min, max)
  | [_] => none
  | key :: n :: rest =>
    match key, readU8 n with
    | "ge", some n => prefixBounds n 32 rest
    | "le", some n => prefixBounds min n rest
    | _, _ => none

def permitOrDeny (mode : String) : Bool := mode = "permit" || mode = "deny"

/-- The first rule of a sequence number, changed. -/
def updateRule (seq : UInt32) (f : Bgp.MapRule → Bgp.MapRule) :
    List Bgp.MapRule → Option (List Bgp.MapRule)
  | [] => none
  | r :: rules => if r.seq = seq then some (f r :: rules) else (updateRule seq f rules).map (r :: ·)

def setMaps (c : Config) (name : String) (rules : List Bgp.MapRule) : Config :=
  { c with policy := { c.policy with maps := c.policy.maps.insert name rules } }

/-- The current rule of a route map, changed. -/
def withRule (c : Config) (name : String) (seq : UInt32) (f : Bgp.MapRule → Bgp.MapRule) :
    Option Config := do
  let rules ← c.policy.maps[name]?
  let rules ← updateRule seq f rules
  some (setMaps c name rules)

/-- The current port, changed. -/
def withPort (c : Config) (name : String) (f : Port → Port) : Option Config := do
  let p ← c.ports[name]?
  some { c with ports := c.ports.insert name (f p) }

/-- The current pool, changed. -/
def withPool (c : Config) (name : String) (f : Pool → Pool) : Option Config := do
  let p ← c.pools[name]?
  some { c with pools := c.pools.insert name (f p) }

/-- The number of a community: one, or two halves. -/
def readCommunity (value : String) : Option UInt32 :=
  match (split (· == ':') value.toList).map String.ofList with
  | [a, b] => do
    let a ← readU16 a
    let b ← readU16 b
    some ((a.toUInt32 <<< 16) ||| b.toUInt32)
  | _ => readU32 value

def execBgp (c : Config) (invalid : Option Outcome) : List String → Option Outcome
  | ["bgp", "router-id", ip] =>
    match readAddr ip with
    | some ip =>
      if !ip.isUnspecified && !ip.isMulticast then ok
        (setBgp c fun b => { b with routerId := ip }) .bgp
      else invalid
    | none => invalid
  | ["timers", "bgp", keep, hold] =>
    match readU16 keep, readU16 hold with
    | some k, some h =>
      if k > 0 ∧ (h = 0 ∨ h ≥ 3) then ok
        (setBgp c fun b => { b with keepalive := k, hold := h }) .bgp
      else invalid
    | _, _ => invalid
  | ["address-family", "ipv4", "unicast"] => ok c .family
  | _ => invalid

def execFamily (c : Config) (invalid : Option Outcome) : List String → Option Outcome
  | ["network", cidr] =>
    match parseCidr cidr with
    | some (a, p) =>
      let p := Bgp.Prefix.new a p
      ok (if c.bgp.networks.contains p then c else setBgp c fun b =>
        { b with networks := b.networks ++ [p] }) .family
    | none => invalid
  | ["redistribute", source] =>
    match source with
    | "connected" => ok (setBgp c fun b => { b with connected := true }) .family
    | "static" => ok (setBgp c fun b => { b with staticRoutes := true }) .family
    | _ => some (⟨"% Expected connected or static\n", false, false⟩, c, ⟨.family⟩)
  | _ => invalid

/-- `ip prefix-list`: the rule takes the place of one with its number. -/
def execPrefixList (c : Config) (invalid : Option Outcome) (name seq mode cidr : String)
    (rest : List String) : Option Outcome :=
  match readU32 seq, parseCidr cidr with
  | some seq, some (a, p) =>
    if permitOrDeny mode then
      match prefixBounds p p rest with
      | some (min, max) =>
        if p ≤ min ∧ min ≤ max ∧ max ≤ 32 then
          let list := (c.policy.lists[name]?.getD []).filter (·.seq ≠ seq)
          let rule : Bgp.PrefixRule :=
            { seq := seq, permit := mode = "permit", pfx := .new a p, min := min, max := max }
          ok { c with policy :=
            { c.policy with lists := c.policy.lists.insert name (list ++ [rule]) } } .config
        else invalid
      | none => invalid
    else invalid
  | _, _ => invalid

/-- `route-map`: the rule of that number is there afterwards. -/
def execRouteMap (c : Config) (invalid : Option Outcome) (name mode seq : String) :
    Option Outcome :=
  match readU32 seq with
  | some seq =>
    let rules := c.policy.maps[name]?.getD []
    let rules :=
      match updateRule seq (fun r => { r with permit := mode = "permit" }) rules with
      | some rules => rules
      | none =>
        rules ++ [{ seq := seq, permit := mode = "permit", prefixList := none, localPref := none,
                    med := none,
                    community := none }]
    ok (setMaps c name rules) (.routeMap name seq)
  | none => invalid

/-- `ip route`: the route takes the place of one to the same network. -/
def execRoute (c : Config) (invalid : Option Outcome) (cidr gw dev : String) : Option Outcome :=
  match parseCidr cidr, readAddr gw with
  | some (d, p), some g =>
    let routes := c.routes.filter fun r => !(r.1 = d.networkAddr p && r.2.1 = p)
    ok { c with routes := routes ++ [(d.networkAddr p, p, g, dev)] } .config
  | _, _ => invalid

/-- The protocols that can be forwarded. -/
def forwardProtocol (proto : String) : Byte :=
  match proto with
  | "tcp" => 6
  | "udp" => 17
  | _ => 0

def execForward (c : Config) (invalid : Option Outcome) (proto ip inner outer : String) :
    Option Outcome :=
  match readAddr ip, readU16 inner, readU16 outer with
  | some ip, some inner, some outer =>
    let protocol := forwardProtocol proto
    if protocol ≠ 0 ∧ inner ≠ 0 ∧ outer ≠ 0 then
      let forwards := c.forwards.filter fun f => !(f.protocol = protocol && f.outsidePort = outer)
      ok { c with forwards := forwards ++ [⟨protocol, ip, inner, outer⟩] } .config
    else invalid
  | _, _, _ => invalid

def execConfig (c : Config) (invalid : Option Outcome) : List String → Option Outcome
  | ["router", "bgp", asn] =>
    match (readU32 asn).filter (· > 0) with
    | some asn => ok (setBgp c fun b => { b with asn := asn }) .bgp
    | none => invalid
  | "ip" :: "prefix-list" :: name :: "seq" :: seq :: mode :: cidr :: rest =>
    execPrefixList c invalid name seq mode cidr rest
  | ["route-map", name, mode, seq] =>
    if permitOrDeny mode then execRouteMap c invalid name mode seq else invalid
  | ["ip", "routing"] => ok { c with routing := true } .config
  | ["no", "ip", "routing"] => ok { c with routing := false } .config
  | ["interface", name] =>
    if "eth".toList <+: name.toList ∨ "vlan".toList <+: name.toList then
      ok { c with ports := c.ports.insert name (c.ports[name]?.getD {}) } (.interface name)
    else invalid
  | ["ip", "route", cidr, gw] => execRoute c invalid cidr gw ""
  | ["ip", "route", cidr, gw, dev] => execRoute c invalid cidr gw dev
  | ["ip", "nat", "inside", "source", "static", proto, ip, inner, outer] =>
    execForward c invalid proto ip inner outer
  | ["dhcp-server", "vrf", "default"] => ok c .dhcp
  | _ => invalid

def execRule (c : Config) (invalid : Option Outcome) (name : String) (seq : UInt32) :
    List String → Option Outcome
  | ["match", "ip", "address", "prefix-list", list] => do
    let c ← withRule c name seq fun r => { r with prefixList := some list }
    ok c (.routeMap name seq)
  | ["set", field, value] =>
    match if field = "community" then readCommunity value else readU32 value with
    | some value => do
      -- the rule is unwrapped before the field is looked at
      let _ ← withRule c name seq id
      match field with
      | "local-preference" => do
        let c ← withRule c name seq fun r => { r with localPref := some value }
        ok c (.routeMap name seq)
      | "metric" => do
        let c ← withRule c name seq fun r => { r with med := some value }
        ok c (.routeMap name seq)
      | "community" => do
        let c ← withRule c name seq fun r => { r with community := some value }
        ok c (.routeMap name seq)
      | _ => some (⟨"% Unsupported set\n", false, false⟩, c, ⟨.routeMap name seq⟩)
    | none => invalid
  | _ => invalid

def execInterface (c : Config) (invalid : Option Outcome) (name : String) :
    List String → Option Outcome
  | ["routing"] => ok c (.interface name)
  | ["ip", "address", cidr] =>
    match parseCidr cidr with
    | some addr => do
      let c ← withPort c name fun p => { p with address := some addr, dhcp := false }
      ok c (.interface name)
    | none => invalid
  | ["ip", "dhcp"] => do
    let c ← withPort c name fun p => { p with dhcp := true, address := none }
    ok c (.interface name)
  | ["ip", "nat", role] =>
    let role : Option NatRole :=
      match role with
      | "inside" => some .inside
      | "outside" => some .outside
      | _ => none
    match role with
    | some role => do
      let c ← withPort c name fun p => { p with nat := some role }
      ok c (.interface name)
    | none => invalid
  | _ => invalid

def execDhcp (c : Config) (invalid : Option Outcome) : List String → Option Outcome
  | ["pool", name] => ok { c with pools := c.pools.insert name (c.pools[name]?.getD {}) }
    (.pool name)
  | _ => invalid

def execPool (c : Config) (invalid : Option Outcome) (name : String) : List String → Option Outcome
  | ["range", start, stop] =>
    match readAddr start, readAddr stop with
    | some a, some b =>
      if a ≤ b ∧ a.sameSubnetPrefix b 24 then do
        let c ← withPool c name fun p => { p with start := a, stop := b }
        ok c (.pool name)
      else invalid
    | _, _ => invalid
  | ["default-router", ip] =>
    match readAddr ip with
    | some ip => do
      let c ← withPool c name fun p => { p with router := ip }
      ok c (.pool name)
    | none => invalid
  | ["dns-server", ip] =>
    match readAddr ip with
    | some ip => do
      let c ← withPool c name fun p => { p with dns := ip }
      ok c (.pool name)
    | none => invalid
  | ["domain-name", d] =>
    let d := (d.toList.rdropWhile (· = '.')).map Char.toLower
    if d ≠ [] ∧ d.length < 254 ∧ d.all (fun c => c.isAlphanum || c = '-' || c = '.') then do
      let c ← withPool c name fun p => { p with domain := String.ofList d }
      ok c (.pool name)
    else invalid
  | ["no", "domain-name"] => do
    let c ← withPool c name fun p => { p with domain := "" }
    ok c (.pool name)
  | ["lease", secs] =>
    match (readU32 secs).filter fun n => 4 ≤ n && n ≤ 31536000 with
    | some n => do
      let c ← withPool c name fun p => { p with leaseSecs := n }
      ok c (.pool name)
    | none => invalid
  | ["enable"] => do
    let c ← withPool c name fun p => { p with enabled := true }
    ok c (.pool name)
  | ["disable"] => do
    let c ← withPool c name fun p => { p with enabled := false }
    ok c (.pool name)
  | _ => invalid

/-! ## A line -/

/-- What a command of BGP answers; a line that is not one goes on. -/
def answer (context : Context) (r : Option Done) (next : Option Outcome) : Option Outcome :=
  match r with
  | some (c, .ok ()) => ok c context
  | some (c, .error e) => some (⟨"% " ++ e ++ "\n", false, false⟩, c, ⟨context⟩)
  | none => next

/-- The commands of the current context. -/
def execContext (c : Config) (context : Context) (invalid : Option Outcome) (v : List String) :
    Option Outcome :=
  match context with
  | .config => execConfig c invalid v
  | .interface name => execInterface c invalid name v
  | .dhcp => execDhcp c invalid v
  | .pool name => execPool c invalid name v
  | .bgp => answer .bgp (bgpCommand c v) (execBgp c invalid v)
  | .family => answer .family (familyCommand c v) (execFamily c invalid v)
  | .routeMap name seq => execRule c invalid name seq v
  | .exec => invalid

/-- `exit`: the context behind the current one. -/
def exitFrom : Context → Context
  | .exec => .exec
  | .config => .exec
  | .interface _ | .dhcp | .bgp | .routeMap _ _ => .config
  | .pool _ => .dhcp
  | .family => .bgp

/-- `Session::exec` -/
def Session.exec (s : Session) (c : Config) (line : String) : Option Outcome :=
  let v := (words line.toList).map String.ofList
  if v = [] ∨ v.head?.any (fun w => w.toList.head? = some '#') then ok c s.context
  else
    match v with
    | ["configure", "terminal"] | ["conf", "t"] => ok c .config
    | ["end"] => ok c .exec
    | ["exit"] =>
      if s.context = .exec then some (⟨"", true, false⟩, c, s) else ok c (exitFrom s.context)
    | ["write", "memory"] | ["copy", "running-config", "startup-config"] =>
      some (⟨"Configuration saved.\n", false, true⟩, c, s)
    | ["show", "running-config"] => some (⟨c.render, false, false⟩, c, s)
    | ["help"] | ["?"] => some (⟨help, false, false⟩, c, s)
    | v =>
      execContext c s.context
        (some (⟨"% Invalid command in this context: " ++ line ++ "\n", false, false⟩, c, s)) v

end EvansComputer.Router
