import EvansComputer.Library.OrderedMap
import EvansComputer.Bgp.Wire
import EvansComputer.Net.Masks
import Mathlib.Data.List.Sort

/-!
# The BGP engine

The engine of the router's BGP speaker, with virtual time and explicit transport
events: configuration and policy, the state machine of each session, the tables
of routes received and sent for each peer, and the route chosen for each prefix.

Each method of the engine is a function from engine to engine.  The maps of the
source are ordered by their keys and iterated in that order.  An action that
sends bytes also holds the message they encode; nothing in the engine reads it.
Time is milliseconds as an integer, and `never` is the largest 64-bit instant.
-/

namespace EvansComputer.Bgp

def maxPrefixes : ℕ := 512

/-- The deadline that does not come. -/
def never : ℤ := 2 ^ 63 - 1

theorem Prefix.key_injective :
    Function.Injective fun p : Prefix => p.address.word * 256 + p.len.toNat := by
  intro p q h
  have hp := p.len.toNat_lt
  have hq := q.len.toNat_lt
  dsimp only at h
  have haddr : p.address = q.address := Ipv4Addr.word_injective (by omega)
  have hlen : p.len = q.len := UInt8.toNat_inj.mp (by omega)
  obtain ⟨pa, pl⟩ := p
  obtain ⟨qa, ql⟩ := q
  simp only at haddr hlen
  rw [haddr, hlen]

/-- The derived order: the address, then the length. -/
instance : LinearOrder Prefix :=
  LinearOrder.lift' (fun p => p.address.word * 256 + p.len.toNat) Prefix.key_injective

instance : LawfulBEq Prefix := instLawfulBEq
instance : Std.TransOrd Prefix := OrderedMap.transOrd
instance : Std.LawfulEqOrd Prefix := OrderedMap.lawfulEqOrd
instance : Std.TransOrd Ipv4Addr := OrderedMap.transOrd
instance : Std.LawfulEqOrd Ipv4Addr := OrderedMap.lawfulEqOrd

/-! ## Attributes and routes -/

namespace Attributes

/-- Each set counts as one hop. -/
def pathLength (a : Attributes) : ℕ := a.path.length - (a.pathSets.map fun s => s.2 - 1).sum

def prepend (a : Attributes) (asn : UInt32) : Attributes :=
  { a with path := asn :: a.path, pathSets := a.pathSets.map fun s => (s.1 + 1, s.2) }

end Attributes

structure Route where
  pfx : Prefix
  attributes : Attributes
  peer : Option Ipv4Addr
  external : Bool
  routerId : Ipv4Addr
  deriving DecidableEq

/-- The order of the last tie-break: the router identifier, then the peer's
address, a local route before all others. -/
def tieBreak (r s : Route) : Bool :=
  if r.routerId ≠ s.routerId then r.routerId < s.routerId
  else
    match r.peer, s.peer with
    | none, some _ => true
    | some p, some q => p < q
    | _, none => false

/-- The decision process on two routes for one prefix. -/
def better (a b : Route) : Bool :=
  if a.peer.isNone ≠ b.peer.isNone then a.peer.isNone
  else if a.attributes.localPref ≠ b.attributes.localPref then
    b.attributes.localPref < a.attributes.localPref
  else if a.attributes.pathLength ≠ b.attributes.pathLength then
    a.attributes.pathLength < b.attributes.pathLength
  else if a.attributes.origin ≠ b.attributes.origin then
    a.attributes.origin < b.attributes.origin
  else if a.attributes.path.head? = b.attributes.path.head? ∧ a.attributes.med ≠ b.attributes.med
    then a.attributes.med < b.attributes.med
  else if a.external ≠ b.external then a.external
  else tieBreak a b

/-! ## Configuration and policy -/

/-- How the remote AS of a neighbor or peer group is specified. -/
inductive RemoteAs where
  | asn (n : UInt32)
  | external
  | internal
  deriving DecidableEq

def RemoteAs.accepts (rule : RemoteAs) (asn here : UInt32) : Bool :=
  match rule with
  | .asn n => asn == n
  | .external => asn != here
  | .internal => asn == here

/-- `neighbor X maximum-prefix`. -/
structure MaxPrefix where
  max : UInt32
  restart : Option UInt16
  warningOnly : Bool
  deriving DecidableEq

/-- A neighbor, or a peer-group template. -/
structure Neighbor where
  remoteAs : Option RemoteAs
  active : Bool
  defaultOriginate : Bool
  inbound : Option String
  outbound : Option String
  maximumPrefix : Option MaxPrefix
  peerGroup : Option String
  deriving DecidableEq

/-- The neighbor's own settings over its group's. -/
def Neighbor.merged (n : Neighbor) (group : Option Neighbor) : Neighbor :=
  match group with
  | none => n
  | some g =>
    { remoteAs := n.remoteAs.or g.remoteAs
      active := n.active || g.active
      defaultOriginate := n.defaultOriginate || g.defaultOriginate
      inbound := n.inbound.or g.inbound
      outbound := n.outbound.or g.outbound
      maximumPrefix := n.maximumPrefix.or g.maximumPrefix
      peerGroup := n.peerGroup }

/-- A range of addresses from which dynamic peers may connect. -/
structure ListenRange where
  pfx : Prefix
  group : String
  asRange : Option (List (UInt32 × UInt32))
  limit : Option UInt32
  deriving DecidableEq

namespace ListenRange

def contains (r : ListenRange) (ip : Ipv4Addr) : Bool :=
  ip.sameSubnetPrefix r.pfx.address r.pfx.len

def asAllowed (r : ListenRange) (asn : UInt32) : Bool :=
  match r.asRange with
  | none => true
  | some ranges => ranges.any fun i => i.1 ≤ asn && asn ≤ i.2

end ListenRange

def defaultListenLimit : UInt32 := 100

structure Config where
  asn : UInt32
  routerId : Ipv4Addr
  keepalive : UInt16
  hold : UInt16
  neighbors : OrderedMap Ipv4Addr Neighbor
  groups : String → Option Neighbor
  listen : List ListenRange
  listenLimit : Option UInt32

namespace Config

/-- A configured neighbor with its peer group's settings applied. -/
def effective (c : Config) (n : Neighbor) : Neighbor := n.merged (n.peerGroup.bind c.groups)

/-- The listen range with the longest prefix that contains the address; of equal
ones the last. -/
def listenRange (c : Config) (ip : Ipv4Addr) : Option ListenRange :=
  (c.listen.filter fun r => r.contains ip && (c.groups r.group).isSome).foldl
    (fun best r =>
      match best with
      | none => some r
      | some b => if b.pfx.len ≤ r.pfx.len then some r else some b) none

end Config

structure PrefixRule where
  seq : UInt32
  permit : Bool
  pfx : Prefix
  min : UInt8
  max : UInt8

structure MapRule where
  seq : UInt32
  permit : Bool
  prefixList : Option String
  localPref : Option UInt32
  med : Option UInt32
  community : Option UInt32

structure Policy where
  lists : String → Option (List PrefixRule)
  maps : String → Option (List MapRule)

namespace Policy

/-- The rules of a prefix list decide by the first that matches. -/
def permits (rules : List PrefixRule) (p : Prefix) : Bool :=
  let rules := rules.insertionSort fun r s => r.seq ≤ s.seq
  match rules.find? fun r =>
    p.address.sameSubnetPrefix r.pfx.address r.pfx.len && r.min ≤ p.len && p.len ≤ r.max with
  | some r => r.permit
  | none => false

def isMatch (policy : Policy) (p : Prefix) (r : MapRule) : Bool :=
  match r.prefixList with
  | none => true
  | some name =>
    match policy.lists name with
    | none => false
    | some rules => permits rules p

/-- `Policy::apply`: the attributes as a route map leaves them, or nothing where
it refuses the route. -/
def apply (policy : Policy) (name : Option String) (p : Prefix) (a : Attributes) :
    Option Attributes :=
  match name with
  | none => some a
  | some name =>
    match policy.maps name with
    | none => none
    | some rules =>
      let rules := rules.insertionSort fun r s => r.seq ≤ s.seq
      match rules.find? (policy.isMatch p) with
      | none => none
      | some r =>
        if r.permit then
          some { a with
            localPref := r.localPref.getD a.localPref
            med := r.med.getD a.med
            communities := a.communities ++ r.community.toList }
        else none

end Policy

/-! ## Peers and the engine -/

inductive State where
  | idle
  | connect
  | active
  | openSent
  | openConfirm
  | established
  deriving DecidableEq

/-- The last NOTIFICATION exchanged with a peer. -/
structure LastError where
  sent : Bool
  code : Byte
  subcode : Byte
  time : ℤ
  deriving DecidableEq

structure Peer where
  config : Neighbor
  remoteAs : UInt32
  dynamic : Option String
  state : State
  routerId : Ipv4Addr
  as4 : Bool
  refresh : Bool
  adjIn : OrderedMap Prefix Attributes
  adjOut : OrderedMap Prefix Attributes
  retry : ℤ
  holdDeadline : ℤ
  keepaliveDeadline : ℤ
  negotiatedHold : UInt16
  msgsIn : ℕ
  msgsOut : ℕ
  since : ℤ
  lastError : Option LastError
  prefixBlock : Option ℤ
  input : List Byte
  here : Ipv4Addr

namespace Peer

def new (config : Neighbor) (remoteAs : UInt32) (dynamic : Option String) (hold : UInt16)
    (now : ℤ) : Peer where
  config := config
  remoteAs := remoteAs
  dynamic := dynamic
  state := .idle
  routerId := Ipv4Addr.zero
  as4 := false
  refresh := false
  adjIn := ∅
  adjOut := ∅
  retry := now
  holdDeadline := never
  keepaliveDeadline := never
  negotiatedHold := hold
  msgsIn := 0
  msgsOut := 0
  since := now
  lastError := none
  prefixBlock := none
  input := []
  here := Ipv4Addr.zero

def isDynamic (p : Peer) : Bool := p.dynamic.isSome

/-- Dynamic peers wait for the remote side to connect. -/
def passive (p : Peer) : Bool := p.dynamic.isSome

end Peer

/-- What the engine asks its transport to do.  The message of a `send` is the one
its bytes encode. -/
inductive Action where
  | connect (ip : Ipv4Addr)
  | send (ip : Ipv4Addr) (b : List Byte) (m : Message)
  | close (ip : Ipv4Addr)
  | routesChanged
  deriving DecidableEq

/-- Why `accept` refused an incoming connection. -/
inductive Reject where
  | unknown
  | inactive
  | limit
  | prefixLimit
  deriving DecidableEq

structure Engine where
  config : Config
  policy : Policy
  peers : OrderedMap Ipv4Addr Peer
  rib : OrderedMap Prefix Route
  blocked : OrderedMap Ipv4Addr ℤ
  origins : OrderedMap Prefix Attributes
  actions : List Action

/-- The AS of a peer before its OPEN: `0` where only the OPEN can tell. -/
def startingAs (rule : Option RemoteAs) (here : UInt32) : UInt32 :=
  match rule with
  | some (.asn n) => n
  | some .internal => here
  | _ => 0

namespace Engine

def new (config : Config) (policy : Policy) (now : ℤ) : Engine where
  config := config
  policy := policy
  peers := config.neighbors.filterMap fun _ n =>
    let c := config.effective n
    c.remoteAs.map fun rule => Peer.new c (startingAs (some rule) config.asn) none config.hold now
  rib := ∅
  blocked := ∅
  origins := ∅
  actions := []

def setPeer (e : Engine) (ip : Ipv4Addr) (p : Peer) : Engine :=
  { e with peers := e.peers.insert ip p }

def push (e : Engine) (a : Action) : Engine := { e with actions := e.actions ++ [a] }

/-- A NOTIFICATION is recorded when it is sent. -/
def Peer.noteSent (p : Peer) (m : Message) : Peer :=
  match m with
  | .notification code subcode => { p with lastError := some ⟨true, code, subcode, p.since⟩ }
  | _ => p

/-- Queue a message for a peer.  One that is too long for a frame is dropped. -/
def send (e : Engine) (ip : Ipv4Addr) (m : Message) : Engine :=
  match e.peers[ip]? with
  | none => e
  | some p =>
    let p := Peer.noteSent p m
    let b := m.encodeForPeer p.as4 (p.remoteAs == e.config.asn)
    if b.length ≤ maxMessage then
      (e.setPeer ip { p with msgsOut := p.msgsOut + 1 }).push (.send ip b m)
    else e.setPeer ip p

/-! ## Choosing and announcing routes -/

/-- A candidate for its prefix takes the place of a worse one, or a free place. -/
def consider (rib : OrderedMap Prefix Route) (r : Route) : OrderedMap Prefix Route :=
  if (match rib[r.pfx]? with
      | none => true
      | some old => better r old) && (rib.size < maxPrefixes || rib.contains r.pfx) then
    rib.insert r.pfx r
  else rib

/-- The routes that a peer offers. -/
def offers (here : UInt32) (ip : Ipv4Addr) (p : Peer) : List Route :=
  if p.state ≠ .established then []
  else p.adjIn.toList.map fun (pfx, a) =>
    { pfx := pfx
      attributes := a
      peer := some ip
      external := p.remoteAs != here
      routerId := p.routerId }

/-- The table that `recompute` builds: local origins first, then each peer's
routes in order. -/
def bestRoutes (e : Engine) : OrderedMap Prefix Route :=
  let rib : OrderedMap Prefix Route := e.origins.map fun pfx a =>
    { pfx := pfx
      attributes := a
      peer := none
      external := false
      routerId := e.config.routerId }
  e.peers.toList.foldl
    (fun rib (ip, p) => (offers e.config.asn ip p).foldl consider rib) rib

/-- The attributes with which a route goes to a peer, if it does. -/
def exportRoute (e : Engine) (ip : Ipv4Addr) (p : Peer) (pfx : Prefix) (r : Route) :
    Option Attributes :=
  let ibgp := p.remoteAs == e.config.asn
  if r.peer == some ip || r.attributes.path.contains p.remoteAs ||
      r.attributes.communities.contains 0xffffff02 ||
      (!ibgp && r.attributes.communities.contains 0xffffff01) ||
      (ibgp && r.peer.isSome && !r.external) then none
  else
    let a := r.attributes
    let a :=
      if !ibgp then { a.prepend e.config.asn with nextHop := p.here }
      else if r.peer.isNone then { a with nextHop := p.here }
      else a
    e.policy.apply p.config.outbound pfx a

/-- The default route that is originated to a peer, if it is. -/
def exportDefault (e : Engine) (p : Peer) : Option Attributes :=
  if p.config.defaultOriginate then
    let a := Attributes.default
    let a := if p.remoteAs == e.config.asn then a else a.prepend e.config.asn
    e.policy.apply p.config.outbound (Prefix.new Ipv4Addr.zero 0) { a with nextHop := p.here }
  else none

/-- What a peer should have been told. -/
def desired (e : Engine) (ip : Ipv4Addr) (p : Peer) : OrderedMap Prefix Attributes :=
  let routes := e.rib.filterMap fun pfx r => e.exportRoute ip p pfx r
  match e.exportDefault p with
  | some a => routes.insert (Prefix.new Ipv4Addr.zero 0) a
  | none => routes

/-- The messages that tell a peer what has changed for it, or everything: one
withdrawal of what it should no longer have, then an UPDATE for each route. -/
def announcements (e : Engine) (ip : Ipv4Addr) (p : Peer) (force : Bool) : List Message :=
  let desired := e.desired ip p
  let withdrawn := p.adjOut.keys.filter fun pfx => !desired.contains pfx
  let updates := desired.toList.filter fun (pfx, a) => force || p.adjOut[pfx]? != some a
  (if withdrawn ≠ [] then [.update withdrawn Attributes.default []] else []) ++
    updates.map fun (pfx, a) => .update [] a [pfx]

def advertise (e : Engine) (ip : Ipv4Addr) (force : Bool) : Engine :=
  match e.peers[ip]? with
  | none => e
  | some p =>
    if p.state ≠ .established then e
    else
      let desired := e.desired ip p
      let e := (e.announcements ip p force).foldl (fun e m => e.send ip m) e
      { e with peers := e.peers.modify ip fun p => { p with adjOut := desired } }

/-- Choose routes again, and announce what has changed. -/
def recompute (e : Engine) : Engine :=
  let rib := e.bestRoutes
  if rib ≠ e.rib then
    let e := ({ e with rib := rib }).push .routesChanged
    e.peers.keys.foldl (fun e ip => e.advertise ip false) e
  else e

/-! ## Sessions -/

/-- The number of dynamic peers, in total or inside a range. -/
def dynamicCount (e : Engine) (range : Option ListenRange) : ℕ :=
  (e.peers.toList.filter fun (ip, p) =>
    p.isDynamic && (match range with
      | none => true
      | some r => r.contains ip)).length

/-- The time of a block has not come. -/
def isBlocked (block : Option ℤ) (now : ℤ) : Bool :=
  match block with
  | none => false
  | some t => now < t

/-- An incoming connection: whether a session may run on it.  A dynamic peer is
created for an address in a listen range. -/
def accept (e : Engine) (ip : Ipv4Addr) (now : ℤ) : Engine × Except Reject Unit :=
  match e.peers[ip]? with
  | some p =>
    if isBlocked p.prefixBlock now then (e, .error .prefixLimit)
    else if p.config.active then (e, .ok ())
    else (e, .error .inactive)
  | none =>
    if isBlocked e.blocked[ip]? now then (e, .error .prefixLimit)
    else
      let e := { e with blocked := e.blocked.erase ip }
      match e.config.listenRange ip with
      | none => (e, .error .unknown)
      | some range =>
        match e.config.groups range.group with
        | none => (e, .error .unknown)
        | some group =>
          if !group.active then (e, .error .inactive)
          else if (match range.limit with
              | none => false
              | some l => l.toNat ≤ e.dynamicCount (some range)) ||
              (e.config.listenLimit.getD defaultListenLimit).toNat ≤ e.dynamicCount none then
            (e, .error .limit)
          else
            let c := { group with peerGroup := some range.group }
            (e.setPeer ip (Peer.new c (startingAs group.remoteAs e.config.asn)
              (some range.group) e.config.hold now), .ok ())

/-- Whether the AS of an OPEN is acceptable for a peer. -/
def asAcceptable (e : Engine) (ip : Ipv4Addr) (p : Peer) (asn : UInt32) : Bool :=
  let ruleOk :=
    match p.config.remoteAs with
    | some rule => rule.accepts asn e.config.asn
    | none => p.isDynamic
  let rangeOk := !p.isDynamic ||
    (match e.config.listenRange ip with
      | none => false
      | some r => r.asAllowed asn)
  ruleOk && rangeOk

/-- A transport connection for a peer is up. -/
def connected (e : Engine) (ip here : Ipv4Addr) (now : ℤ) : Engine :=
  match e.peers[ip]? with
  | none => e
  | some p =>
    if !p.config.active || isBlocked p.prefixBlock now then e.push (.close ip)
    else
      let p := { p with
        prefixBlock := none
        here := here
        state := .openSent
        input := []
        holdDeadline := now + 240000 }
      (e.setPeer ip p).send ip
        (.open e.config.asn e.config.hold e.config.routerId true true)

/-- A peer that has lost its connection. -/
def Peer.down (p : Peer) (now : ℤ) : Peer :=
  { p with
    since := if p.state = .established then now else p.since
    state := if p.prefixBlock.isSome then .idle else .active
    retry := now + 5000
    input := []
    adjIn := ∅
    adjOut := ∅
    holdDeadline := never
    keepaliveDeadline := never }

/-- A transport connection is gone.  A dynamic neighbor exists only while its
connection does. -/
def disconnected (e : Engine) (ip : Ipv4Addr) (now : ℤ) : Engine :=
  let e :=
    match e.peers[ip]? with
    | none => e
    | some p =>
      if p.isDynamic then
        { e with
          blocked := match p.prefixBlock with
            | some t => e.blocked.insert ip t
            | none => e.blocked
          peers := e.peers.erase ip }
      else e.setPeer ip (Peer.down p now)
  e.recompute

def fail (e : Engine) (ip : Ipv4Addr) (code subcode : Byte) (now : ℤ) : Engine :=
  ((e.send ip (.notification code subcode)).push (.close ip)).disconnected ip now

/-- The body of the loop of `clear`. -/
def clearPeer (now : ℤ) (e : Engine) (ip : Ipv4Addr) : Engine :=
  match e.peers[ip]? with
  | none => e
  | some p =>
    let e := e.setPeer ip { p with prefixBlock := none }
    let e :=
      if p.state ≠ .idle ∧ p.state ≠ .active ∧ p.state ≠ .connect then
        e.send ip (.notification 6 4)
      else e
    let e := (e.push (.close ip)).disconnected ip now
    { e with peers := e.peers.modify ip fun p => { p with retry := now } }

/-- Reset one session, or all, and lift maximum-prefix blocks. -/
def clear (e : Engine) (ip : Option Ipv4Addr) (now : ℤ) : Engine :=
  let ips := e.peers.keys.filter fun p =>
    match ip with
    | none => true
    | some ip => ip == p
  let e := { e with blocked := match ip with
    | some ip => e.blocked.erase ip
    | none => ∅ }
  ips.foldl (clearPeer now) e

/-- The interval between keepalives of a session. -/
def keepaliveInterval (keepalive negotiatedHold : UInt16) : ℤ :=
  (min keepalive.toNat (max (negotiatedHold.toNat / 3) 1) : ℕ) * 1000

/-- The next deadline of a peer. -/
def Peer.deadline (p : Peer) : ℤ :=
  match p.state with
  | .idle | .active => if p.passive then never else p.retry
  | .connect => p.retry
  | _ => min p.holdDeadline p.keepaliveDeadline

/-- What `poll` does with a peer that no block holds back.  The flag says that the
session failed, after which the loop goes on with the next peer. -/
def pollState (e : Engine) (ip : Ipv4Addr) (p : Peer) (now : ℤ) : Engine × Bool :=
  match p.state with
  | .idle | .active =>
    if !p.passive && p.retry ≤ now then
      ((e.setPeer ip { p with state := .connect, retry := now + 5000 }).push (.connect ip), false)
    else (e, false)
  | .connect =>
    if p.retry ≤ now then
      ((e.push (.close ip)).setPeer ip { p with state := .active, retry := now + 5000 }, false)
    else (e, false)
  | .openSent | .openConfirm =>
    if p.holdDeadline ≤ now then (e.fail ip 4 0 now, true) else (e, false)
  | .established =>
    if p.holdDeadline ≤ now then (e.fail ip 4 0 now, true)
    else if p.keepaliveDeadline ≤ now then
      ((e.setPeer ip { p with
        keepaliveDeadline := now + keepaliveInterval e.config.keepalive p.negotiatedHold }).send
          ip .keepalive, false)
    else (e, false)

/-- A peer after the time of its block, if it had one. -/
def Peer.unblocked (p : Peer) (now : ℤ) : Peer :=
  match p.prefixBlock with
  | some _ => { p with prefixBlock := none, retry := now }
  | none => p

/-- The body of the loop of `poll`. -/
def pollPeer (now : ℤ) (s : Engine × ℤ) (ip : Ipv4Addr) : Engine × ℤ :=
  let (e, deadline) := s
  match e.peers[ip]? with
  | none => s
  | some p =>
    if !p.config.active then s
    else if isBlocked p.prefixBlock now then
      (e, match p.prefixBlock with
        | some t => if t ≠ never then min deadline t else deadline
        | none => deadline)
    else
      let p := Peer.unblocked p now
      let (e, failed) := (e.setPeer ip p).pollState ip p now
      if failed then (e, deadline)
      else
        match e.peers[ip]? with
        | none => (e, deadline)
        | some p => (e, min deadline (Peer.deadline p))

/-- Run the timers; the result is the next deadline. -/
def poll (e : Engine) (now : ℤ) : Engine × Option ℤ :=
  let (e, deadline) := e.peers.keys.foldl (pollPeer now) (e, never)
  (e, if deadline ≠ never then some deadline else none)

/-! ## Messages -/

/-- The routes of an UPDATE that a peer's table takes, one after the other.  The
flag says that there was no place for one. -/
def install (e : Engine) (p : Peer) (a : Attributes) :
    List Prefix → OrderedMap Prefix Attributes → OrderedMap Prefix Attributes × Bool
  | [], adjIn => (adjIn, false)
  | pfx :: nlri, adjIn =>
    let external := p.remoteAs != e.config.asn
    let accepted :=
      if a.path.contains e.config.asn || (external && a.path.head? != some p.remoteAs) then none
      else e.policy.apply p.config.inbound pfx a
    match accepted with
    | none => install e p a nlri (adjIn.erase pfx)
    | some attrs =>
      if adjIn.size < maxPrefixes || adjIn.contains pfx then
        install e p a nlri (adjIn.insert pfx attrs)
      else (adjIn, true)

/-- The maximum-prefix limit of a peer is exceeded. -/
def overLimit (p : Peer) : Option MaxPrefix :=
  match p.config.maximumPrefix with
  | some m => if m.max.toNat < p.adjIn.size && !m.warningOnly then some m else none
  | none => none

/-- An UPDATE on an established session. -/
def update (e : Engine) (ip : Ipv4Addr) (p : Peer) (withdrawn : List Prefix) (a : Attributes)
    (nlri : List Prefix) (now : ℤ) : Engine :=
  let adjIn := withdrawn.foldl (fun adjIn pfx => adjIn.erase pfx) p.adjIn
  let a := if p.remoteAs != e.config.asn then { a with localPref := 100 } else a
  let (adjIn, full) := e.install p a nlri adjIn
  let p := { p with adjIn := adjIn }
  if full then (e.setPeer ip p).fail ip 6 1 now
  else
    match overLimit p with
    | some m =>
      let block := match m.restart with
        | some secs => now + secs.toNat * 1000
        | none => never
      (e.setPeer ip { p with prefixBlock := some block }).fail ip 6 1 now
    | none => (e.setPeer ip p).recompute

/-- An OPEN while one is awaited. -/
def opened (e : Engine) (ip : Ipv4Addr) (p : Peer) (asn : UInt32) (hold : UInt16)
    (id : Ipv4Addr) (as4 refresh : Bool) (now : ℤ) : Engine :=
  if !e.asAcceptable ip p asn then e.fail ip 2 2 now
  else if id = e.config.routerId then e.fail ip 2 3 now
  else
    let negotiated := min hold e.config.hold
    (e.setPeer ip { p with
      remoteAs := asn
      routerId := id
      as4 := as4
      refresh := refresh
      negotiatedHold := negotiated
      holdDeadline := if negotiated = 0 then never else now + negotiated.toNat * 1000
      state := .openConfirm }).send ip .keepalive

/-- The KEEPALIVE that establishes a session. -/
def establish (e : Engine) (ip : Ipv4Addr) (p : Peer) (now : ℤ) : Engine :=
  (e.setPeer ip { p with
    state := .established
    since := now
    keepaliveDeadline :=
      if p.negotiatedHold = 0 then never
      else now + keepaliveInterval e.config.keepalive p.negotiatedHold }).advertise ip true

/-- A message from a peer puts the end of its hold time off. -/
def Peer.heard (p : Peer) (now : ℤ) : Peer :=
  if 0 < p.negotiatedHold then { p with holdDeadline := now + p.negotiatedHold.toNat * 1000 }
  else p

/-- What a message does in the state of its session. -/
def answer (e : Engine) (ip : Ipv4Addr) (p : Peer) (m : Message) (now : ℤ) : Engine :=
  match p.state, m with
  | .openSent, .open asn hold id as4 refresh => e.opened ip p asn hold id as4 refresh now
  | .openConfirm, .keepalive => e.establish ip p now
  | .established, .keepalive => e
  | .established, .update withdrawn a nlri => e.update ip p withdrawn a nlri now
  | .established, .refresh => if p.refresh then e.advertise ip true else e.fail ip 5 0 now
  | _, .notification code subcode =>
    ((e.setPeer ip { p with lastError := some ⟨false, code, subcode, now⟩ }).push
      (.close ip)).disconnected ip now
  | _, _ => e.fail ip 5 0 now

/-- One message from a peer. -/
def message (e : Engine) (ip : Ipv4Addr) (m : Message) (now : ℤ) : Engine :=
  match e.peers[ip]? with
  | none => e
  | some p =>
    let p := Peer.heard p now
    (e.setPeer ip p).answer ip p m now

def alive (e : Engine) (ip : Ipv4Addr) : Bool :=
  match e.peers[ip]? with
  | none => false
  | some p => p.state ≠ .idle && p.state ≠ .active

/-- The next message of a peer, a malformed UPDATE on an established session
being treated as a withdrawal where that is possible. -/
def nextMessage (p : Peer) : Except WireError (Option (Message × ℕ)) :=
  match Message.decode p.input p.as4 with
  | .ok r => .ok r
  | .error err =>
    if err.code = 3 ∧ p.state = .established then
      match withdrawMalformedUpdate p.input with
      | some r => .ok (some r)
      | none => .error err
    else .error err

/-- One turn of the loop of `receive`: the engine, and whether the loop goes
on. -/
def receiveTurn (e : Engine) (ip : Ipv4Addr) (now : ℤ) : Engine × Bool :=
  match e.peers[ip]? with
  | none => (e, false)
  | some p =>
    match nextMessage p with
    | .ok none => (e, false)
    | .error err => (e.fail ip err.code err.subcode now, false)
    | .ok (some (m, n)) =>
      let e := e.setPeer ip { p with input := p.input.drop n, msgsIn := p.msgsIn + 1 }
      let e := e.message ip m now
      (e, e.alive ip)

/-- The loop of `receive`; no result where the fuel does not last. -/
def receiveLoop (ip : Ipv4Addr) (now : ℤ) : ℕ → Engine → Option Engine
  | 0, _ => none
  | fuel + 1, e =>
    match e.receiveTurn ip now with
    | (e, true) => receiveLoop ip now fuel e
    | (e, false) => some e

/-- Bytes from a peer.  Every message takes some of them, so that their number
bounds the turns of the loop. -/
def receive (e : Engine) (ip : Ipv4Addr) (data : List Byte) (now : ℤ) : Engine :=
  match e.peers[ip]? with
  | none => e
  | some p =>
    if 65536 < p.input.length + data.length then (e.push (.close ip)).disconnected ip now
    else
      let input := p.input ++ data
      let e := e.setPeer ip { p with input := input }
      (receiveLoop ip now (input.length + 1) e).getD e

/-- Announce local networks. -/
def setOrigins (e : Engine) (prefixes : List Prefix) : Engine :=
  let origins := (prefixes.take maxPrefixes).foldl
    (fun origins pfx => origins.insert pfx Attributes.default) (∅ : OrderedMap Prefix Attributes)
  if e.origins ≠ origins then ({ e with origins := origins }).recompute else e

end EvansComputer.Bgp.Engine
