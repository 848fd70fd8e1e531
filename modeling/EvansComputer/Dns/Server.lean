import EvansComputer.Dns.Message
import Mathlib

/-!
# The name server

Authoritative zones, primary from a file and secondary by transfer; recursion through a
resolver for allowed clients; NOTIFY out when a primary zone changes, and checks of the SOA for
secondaries.  What the server logs and counts is left out, and so is the text of the files that
it reads: a file holds a zone, or nothing that parses.

The resolver is whatever answers to `ResolverOps`: the server hands it questions and datagrams,
and takes what it has to send and what it is done with.
-/

namespace EvansComputer.Dns

def notifyRetryMs : ℤ := 2000
def notifyTries : UInt8 := 4
def minRefresh : UInt32 := 15
def maxRefresh : UInt32 := 3600
def unloadedRetryMs : ℤ := 3000
def maxRecursiveClients : ℕ := 256

/-! ## Configuration -/

inductive ZoneKind where
  | primary (file : List Char) (notify : List Ipv4Addr)
  | secondary (primary : Ipv4Addr) (file : List Char)

structure ZoneConf where
  name : Name
  kind : ZoneKind

structure NamedConf where
  recursion : Bool := false
  allow : List (Ipv4Addr × UInt8) := []
  rootHints : Option (List Char) := none
  fallback : List Ipv4Addr := []
  zones : List ZoneConf := []
  /-- A zone that is named twice is rejected. -/
  distinct : (zones.map (·.name)).Nodup := by decide

def ipToNat (ip : Ipv4Addr) : ℕ :=
  ((ip.a.toNat * 256 + ip.b.toNat) * 256 + ip.c.toNat) * 256 + ip.d.toNat

def inCidr (ip : Ipv4Addr) (net : Ipv4Addr × UInt8) : Bool :=
  ipToNat ip / 2 ^ (32 - net.2.toNat) = ipToNat net.1 / 2 ^ (32 - net.2.toNat)

def NamedConf.mayRecurse (c : NamedConf) (client : Ipv4Addr) : Bool :=
  c.recursion && c.allow.any (inCidr client)

/-- What the files on the disk hold: nothing to read, something that does not parse, or what was
asked for. -/
structure Disk where
  /-- The zone in a file, read with the name that it is configured under. -/
  zone : List Char → Name → Option (Option Zone)
  hints : List Char → Option (Option (List (Name × Ipv4Addr)))
  /-- A zone has the name that it was read with. -/
  zone_origin : ∀ file name z, zone file name = some (some z) → z.origin = name

/-! ## The resolver -/

structure ResolverConfig where
  /-- Root servers: name and address. -/
  hints : List (Name × Ipv4Addr) := []
  /-- Forwarders for names the root says do not exist. -/
  fallback : List Ipv4Addr := []
  timeoutMs : ℤ := 1000

structure Resolution where
  qname : Name
  qtype : UInt16
  rcode : Byte
  /-- Aliases followed, then the records asked for. -/
  answers : List Record
  /-- The SOA of a negative answer. -/
  authority : List Record
  deriving DecidableEq

/-- A datagram: the message that it decodes to, or an id that can be answered, or neither. -/
inductive Datagram where
  | message (m : Message)
  | malformed (id : Option UInt16)

/-- What the server asks of its resolver. -/
class ResolverOps (ρ : Type) where
  new : ResolverConfig → UInt32 → ρ
  /-- The new resolver takes over the cache of the old one. -/
  takeCache : ρ → ρ → ρ
  resolve : ρ → Name → UInt16 → ℤ → UInt32 × ρ
  onPacket : ρ → Ipv4Addr → Datagram → ℤ → ρ
  tick : ρ → ℤ → ρ
  takeSends : ρ → List (Ipv4Addr × Message) × ρ
  takeDone : ρ → List (UInt32 × Resolution) × ρ

/-! ## State -/

inductive Out where
  /-- A datagram from the port-53 socket. -/
  | udp (to_ : Ipv4Addr) (port : UInt16) (data : Message)
  /-- A datagram from the resolver's socket. -/
  | resolver (to_ : Ipv4Addr) (data : Message)
  /-- Fetch `zone` from `primary`, and call `onTransfer`. -/
  | transfer (zone : Name) (primary : Ipv4Addr)
  /-- Write a secondary's copy of a zone. -/
  | save (file : List Char) (zone : Zone)

structure Secondary where
  zone : Name
  primary : Ipv4Addr
  file : List Char
  nextCheck : ℤ
  soaQuery : Option (UInt16 × ℤ) := none
  transferring : Bool := false
  deriving DecidableEq

structure Notify where
  zone : Name
  to_ : Ipv4Addr
  id : UInt16
  tries : UInt8
  next : ℤ

structure Client where
  q : UInt32
  from_ : Ipv4Addr
  port : UInt16
  query : Message

structure Server (ρ : Type) where
  conf : NamedConf
  auth : Authority := {}
  resolver : Option ρ := none
  own : List Ipv4Addr
  secondaries : List Secondary := []
  notifies : List Notify := []
  clients : List Client := []
  out : List Out := []
  rng : UInt32

/-- A step of the generator, and the number that it gives. -/
def rand16 (rng : UInt32) : UInt32 × UInt16 :=
  let rng := rng ^^^ (rng <<< 13)
  let rng := rng ^^^ (rng >>> 17)
  let rng := rng ^^^ (rng <<< 5)
  (rng, (rng >>> 8).toUInt16)

/-- A NOTIFY for `zone`. -/
def notifyMessage (zone : Zone) (id : UInt16) : Message :=
  let m := Message.query id zone.origin typeSoa false
  { m with header := { m.header with opcode := opNotify, aa := true }, answers := [zone.soaRecord] }

/-- The acknowledgement a secondary sends back for a NOTIFY. -/
def notifyAck (q : Message) : Message :=
  let r := q.responseTo noerror
  { r with header.aa := true }

namespace Server

variable {ρ : Type} [ResolverOps ρ]

/-! ## Loading -/

/-- Who is told of a change of a primary zone. -/
def notifyTargets (own : List Ipv4Addr) (notify : List Ipv4Addr) (z : Zone) : List Ipv4Addr :=
  let servers := (z.get z.origin typeNs).filterMap (·.data.target)
  let targets := notify ++ servers.flatMap fun t => (z.get t typeA).filterMap (·.a)
  ((targets.filter fun t => !own.contains t).mergeSort fun x y => ipToNat x ≤ ipToNat y).dedup

def addNotify (zone : Name) (now : ℤ) (s : Server ρ) (to_ : Ipv4Addr) : Server ρ :=
  let (rng, id) := rand16 s.rng
  { s with
    rng
    notifies := s.notifies.filter (fun n => !(n.zone = zone && n.to_ = to_)) ++
      [{ zone, to_, id, tries := 0, next := now }] }

/-- Load one zone.  On a reload a zone file that does not parse keeps its old copy, and only zones
whose serial changed are notified. -/
def loadZone (disk : Disk) (now : ℤ) (old : Option (List Zone)) (s : Server ρ) (zc : ZoneConf) :
    Server ρ :=
  let oldZone := old.bind fun o => o.find? (·.origin = zc.name)
  match zc.kind with
  | .primary file notify =>
    match disk.zone file zc.name with
    | none => s
    | some (some z) =>
      let changed := old.isNone || oldZone.map (·.serial) ≠ some z.serial
      let s := { s with auth := s.auth.put z }
      if changed then (notifyTargets s.own notify z).foldl (addNotify zc.name now) s else s
    | some none =>
      match oldZone with
      | some z => { s with auth := s.auth.put z }
      | none => s
  | .secondary primary file =>
    -- the copy in memory is at least as new as the one on disk
    let copy := oldZone.or (disk.zone file zc.name).join
    let s :=
      match copy with
      | some z => { s with auth := s.auth.put z }
      | none => s
    { s with secondaries := s.secondaries ++
      [{ zone := zc.name, primary, file, nextCheck := now }] }

/-- Load the zones of `conf`, and start a resolver. -/
def apply (conf : NamedConf) (disk : Disk) (now : ℤ) (old : Option (List Zone)) (s : Server ρ) :
    Server ρ :=
  let s := conf.zones.foldl (loadZone disk now old) s
  { s with
    resolver :=
      if conf.recursion then
        match conf.rootHints.bind disk.hints with
        | some (some hints) =>
          some (ResolverOps.new { hints, fallback := conf.fallback } (s.rng ^^^ 0x5eed))
        | _ => none
      else none }

/-- Build from a configuration. -/
def load (conf : NamedConf) (disk : Disk) (own : List Ipv4Addr) (seed : UInt32) (now : ℤ) :
    Server ρ :=
  apply conf disk now none { conf, own, rng := seed ||| 1 }

/-- Read the configuration and the zones again, and keep the cache. -/
def reload (conf : NamedConf) (disk : Disk) (now : ℤ) (s : Server ρ) : Server ρ :=
  let s' := apply conf disk now (some s.auth.zones)
    { s with resolver := none, auth := {}, secondaries := [], conf }
  match s'.resolver, s.resolver with
  | some r, some old => { s' with resolver := some (ResolverOps.takeCache r old) }
  | _, _ => s'

/-! ## Recursion -/

/-- A resolution that is done goes to the client that waits for it. -/
def finishClient (s : Server ρ) (done : UInt32 × Resolution) : Server ρ :=
  match s.clients.findIdx? (·.q = done.1) with
  | none => s
  | some pos =>
    match s.clients[pos]? with
    | none => s
    | some c =>
      let m := c.query.responseTo done.2.rcode
      let m :=
        { m with header.ra := true, answers := done.2.answers, authority := done.2.authority }
      { s with clients := s.clients.eraseIdx pos, out := s.out ++ [.udp c.from_ c.port m] }

def pumpResolver (s : Server ρ) : Server ρ :=
  match s.resolver with
  | none => s
  | some r =>
    let (sends, r) := ResolverOps.takeSends r
    let (done, r) := ResolverOps.takeDone r
    done.foldl finishClient
      { s with resolver := some r, out := s.out ++ sends.map fun x => .resolver x.1 x.2 }

/-! ## Time -/

/-- How long to wait before a zone is checked again. -/
def refreshMs (s : Server ρ) (zone : Name) (retry : Bool) : ℤ :=
  match s.auth.zone? zone with
  | some z =>
    ((max minRefresh (min maxRefresh (if retry then z.soa.retry else z.soa.refresh))).toNat : ℤ) *
      1000
  | none => unloadedRetryMs

def tickNotifies (now : ℤ) (s : Server ρ) : Server ρ :=
  let late := s.notifies.filter fun n => now ≥ n.next
  let notifies := s.notifies.map fun n =>
    if now ≥ n.next then { n with tries := n.tries + 1, next := now + notifyRetryMs } else n
  let sends := late.filterMap fun n =>
    if n.tries + 1 > notifyTries then none
    else (s.auth.zone? n.zone).map fun z => Out.udp n.to_ 53 (notifyMessage z n.id)
  { s with notifies := notifies.filter fun n => n.tries ≤ notifyTries, out := s.out ++ sends }

/-- The check of the SOA of one secondary zone: what becomes of it, what is sent, and the
generator. -/
def checkSecondary (s : Server ρ) (now : ℤ) (c : Secondary) (rng : UInt32) :
    Secondary × List Out × UInt32 :=
  if c.transferring then (c, [], rng)
  else
    match c.soaQuery with
    | some (_, deadline) =>
      if now ≥
        deadline then ({ c with soaQuery := none, nextCheck := now + s.refreshMs c.zone true }, [],
        rng)
      else (c, [], rng)
    | none =>
      if now ≥ c.nextCheck then
        let (rng, id) := rand16 rng
        ({ c with soaQuery := some (id, now + 3000) },
          [.udp c.primary 53 (Message.query id c.zone typeSoa false)], rng)
      else (c, [], rng)

/-- The checks of all of them, one after another. -/
def checkSecondaries (s : Server ρ) (now : ℤ) :
    List Secondary → UInt32 → List Secondary × List Out × UInt32
  | [], rng => ([], [], rng)
  | c :: cs, rng =>
    let (c, out, rng) := s.checkSecondary now c rng
    let (cs, outs, rng) := s.checkSecondaries now cs rng
    (c :: cs, out ++ outs, rng)

def tickSecondaries (now : ℤ) (s : Server ρ) : Server ρ :=
  let (secondaries, out, rng) := s.checkSecondaries now s.secondaries s.rng
  { s with secondaries, out := s.out ++ out, rng }

def tick (now : ℤ) (s : Server ρ) : Server ρ :=
  let s := { s with resolver := s.resolver.map fun r => ResolverOps.tick r now }
  (s.pumpResolver.tickNotifies now).tickSecondaries now

/-! ## Datagrams -/

def send (s : Server ρ) (to_ : Ipv4Addr) (port : UInt16) (m : Message) : Server ρ :=
  { s with out := s.out ++ [.udp to_ port m] }

def onNotify (s : Server ρ) (from_ : Ipv4Addr) (port : UInt16) (m : Message) (now : ℤ) : Server ρ :=
  let zone := (m.question.map (·.name)).getD []
  match s.secondaries.findIdx? fun c => c.zone = zone && c.primary = from_ with
  | none => s.send from_ port (m.responseTo notauth)
  | some i =>
    let s :=
      { s with secondaries := s.secondaries.modify i fun c =>
      { c with nextCheck := now, soaQuery := none } }
    (s.send from_ port (notifyAck m)).tick now

def onReply (s : Server ρ) (from_ : Ipv4Addr) (m : Message) (now : ℤ) : Server ρ :=
  if m.header.opcode = opNotify then
    { s with notifies := s.notifies.filter fun n => !(n.to_ = from_ && n.id = m.header.id) }
  else
    match s.secondaries.findIdx? fun c => c.primary =
      from_ && c.soaQuery.any (·.1 = m.header.id) with
    | none => s
    | some i =>
      match s.secondaries[i]? with
      | none => s
      | some c =>
        let c := { c with soaQuery := none }
        let ours := (s.auth.zone? c.zone).map (·.serial)
        let again (ms : ℤ) : Server ρ :=
          { s with secondaries := s.secondaries.set i { c with nextCheck := now + ms } }
        match m.answerSerial with
        | some t =>
          if ours.any fun o => !serialNewer t o then again (s.refreshMs c.zone false)
          else
            { s with
              secondaries := s.secondaries.set i { c with transferring := true }
              out := s.out ++ [.transfer c.zone from_] }
        | none => again (s.refreshMs c.zone true)

/-- Answer a query; nothing when it went to the resolver. -/
def answer (s : Server ρ) (from_ : Ipv4Addr) (port : UInt16) (m : Message) (now : ℤ) (udp : Bool) :
    Server ρ × Option Message :=
  match m.question with
  | none => (s, some (m.responseTo formerr))
  | some q =>
    if m.questions.length ≠ 1 ∨ q.qclass ≠ classIn ∧
      q.qclass ≠ 255 then (s, some (m.responseTo formerr))
    else if q.qtype = typeAxfr then (s, some (m.responseTo (if udp then formerr else refused)))
    else
      let allowed := s.resolver.isSome && s.conf.mayRecurse from_
      let mayRecurse := udp && m.header.rd && allowed
      -- a referral is not good enough for a client that may have recursion
      match (s.auth.respond m).filter fun r =>
          !(!r.header.aa && r.answers.isEmpty && r.authority.any (·.rtype = typeNs) &&
            mayRecurse) with
      | some r => (s, some { r with header.ra := allowed })
      | none =>
        match s.resolver with
        | some r =>
          if mayRecurse then
            if s.clients.length ≥ maxRecursiveClients then (s, some (m.responseTo servfail))
            else
              let (id, r) := ResolverOps.resolve r q.name q.qtype now
              let client : Client := { q := id, from_, port, query := m }
              ({ s with resolver := some r, clients := s.clients ++ [client] }.pumpResolver, none)
          else (s, some (m.responseTo refused))
        | none => (s, some (m.responseTo refused))

/-- A datagram on the port-53 socket. -/
def onUdp (s : Server ρ) (from_ : Ipv4Addr) (port : UInt16) (data : Datagram) (now : ℤ) :
    Server ρ :=
  match data with
  | .malformed none => s
  | .malformed (some id) => s.send from_ port { header := { id, qr := true, rcode := formerr } }
  | .message m =>
    if m.header.qr then s.onReply from_ m now
    else if m.header.opcode = opNotify then s.onNotify from_ port m now
    else if m.header.opcode = opQuery then
      match s.answer from_ port m now true with
      | (s, some r) => s.send from_ port r
      | (s, none) => s
    else s.send from_ port (m.responseTo notimp)

/-- A datagram on the resolver's socket. -/
def onResolverUdp (s : Server ρ) (from_ : Ipv4Addr) (data : Datagram) (now : ℤ) : Server ρ :=
  { s with resolver := s.resolver.map fun r => ResolverOps.onPacket r from_ data now }.pumpResolver

/-! ## Transfers -/

/-- The result of a transfer asked for. -/
def onTransfer (s : Server ρ) (zone : Name) (result : Option Zone) (now : ℤ) : Server ρ :=
  match s.secondaries.findIdx? (·.zone = zone) with
  | none => s
  | some i =>
    match s.secondaries[i]? with
    | none => s
    | some c =>
      let c := { c with transferring := false }
      match result with
      | some z =>
        let s := { s with out := s.out ++ [Out.save c.file z], auth := s.auth.put z }
        { s with
          secondaries := s.secondaries.set i { c with nextCheck := now + s.refreshMs zone false } }
      | none =>
        { s with
            secondaries := s.secondaries.set i { c with nextCheck := now + s.refreshMs zone true } }

/-- Check the primary now. -/
def retransfer (s : Server ρ) (zone : Name) (now : ℤ) : Server ρ :=
  match s.secondaries.findIdx? (·.zone = zone) with
  | some i =>
    { s with secondaries := s.secondaries.modify i fun c =>
      { c with nextCheck := now, soaQuery := none } }
  | none => s

def takeOut (s : Server ρ) : List Out × Server ρ := (s.out, { s with out := [] })

end Server

/-- What is done to a server. -/
inductive ServerCall where
  | reload (conf : NamedConf) (disk : Disk) (now : ℤ)
  | tick (now : ℤ)
  | onUdp (from_ : Ipv4Addr) (port : UInt16) (data : Datagram) (now : ℤ)
  | onResolverUdp (from_ : Ipv4Addr) (data : Datagram) (now : ℤ)
  | onTransfer (zone : Name) (result : Option Zone) (now : ℤ)
  | retransfer (zone : Name) (now : ℤ)
  | takeOut

def Server.call {ρ : Type} [ResolverOps ρ] (s : Server ρ) : ServerCall → Server ρ
  | .reload conf disk now => s.reload conf disk now
  | .tick now => s.tick now
  | .onUdp from_ port data now => s.onUdp from_ port data now
  | .onResolverUdp from_ data now => s.onResolverUdp from_ data now
  | .onTransfer zone result now => s.onTransfer zone result now
  | .retransfer zone now => s.retransfer zone now
  | .takeOut => s.takeOut.2

end EvansComputer.Dns
