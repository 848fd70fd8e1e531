import EvansComputer.Dns.Server

/-!
# The iterative resolver

Start at the root hints, follow referrals down the tree, chase aliases, look up the addresses of
name servers that came without glue, move on to the next server after a timeout or a bad answer,
and cache what is learned.

A lookup is a task, and the lookup of a server's address is a task with a parent.  Tasks go on,
start others and finish re-entrantly, but every such call is the last thing that its caller does:
what a task does next is a value (`Next`), and the calls that one event causes are a loop over it.
The trace that `dig` prints is left out, and why a lookup failed.
-/

namespace EvansComputer.Dns

/-! ## The cache -/

def maxEntries : ℕ := 4096

def defaultNegativeTtl : UInt32 := 60

/-- The key type used for "the whole name does not exist". -/
def typeNx : UInt16 := 0

inductive Entry where
  | records (rs : List Record)
  | noData (soa : Option Record)
  | nxDomain (soa : Option Record)
  deriving DecidableEq

structure Slot where
  entry : Entry
  stored : ℤ
  expires : ℤ
  deriving DecidableEq

/-- Record sets and negative answers, by name and type; the order of the entries means nothing. -/
structure Cache where
  map : List ((Name × UInt16) × Slot) := []

/-- The record with the TTL that is left of it. -/
def left (now stored : ℤ) (r : Record) : Record :=
  { r with ttl := r.ttl - min r.ttl (UInt32.ofNat ((max (now - stored) 0) / 1000).toNat) }

def Entry.left (now stored : ℤ) : Entry → Entry
  | records rs => records (rs.map (Dns.left now stored))
  | noData soa => noData (soa.map (Dns.left now stored))
  | nxDomain soa => nxDomain (soa.map (Dns.left now stored))

namespace Cache

def flush (_ : Cache) : Cache := {}

/-- Drop one name, of all types. -/
def flushName (c : Cache) (name : Name) : Cache := { map := c.map.filter fun e => e.1.1 ≠ name }

/-- Remove expired entries. -/
def expire (c : Cache) (now : ℤ) : Cache := { map := c.map.filter fun e => e.2.expires > now }

/-- Drop an entry that expires first. -/
def dropFirst (c : Cache) : Cache where
  map :=
    match c.map.find? fun e => c.map.all fun e' => e.2.expires ≤ e'.2.expires with
    | some e => c.map.filter fun e' => e'.1 ≠ e.1
    | none => c.map

def insert (c : Cache) (key : Name × UInt16) (entry : Entry) (ttl : UInt32) (now : ℤ) : Cache :=
  if ttl = 0 then c
  else
    let c :=
      if c.map.length ≥ maxEntries ∧ ¬ c.map.any (·.1 = key) then
        let c := c.expire now
        if c.map.length ≥ maxEntries then c.dropFirst else c
      else c
    let slot : Slot := { entry, stored := now, expires := now + (ttl.toNat : ℤ) * 1000 }
    { map := (key, slot) :: c.map.filter fun e => e.1 ≠ key }

/-- Store a record set; its TTL is the lowest of them. -/
def put (c : Cache) (records : List Record) (now : ℤ) : Cache :=
  match records with
  | [] => c
  | r :: rs =>
    c.insert (r.name, r.rtype) (.records (r :: rs))
      (rs.foldl (fun ttl r => min ttl r.ttl) r.ttl) now

/-- The record sets of `records`, by name and type. -/
def groups (records : List Record) : List (List Record) :=
  records.foldl (fun gs r =>
    match gs.findIdx? fun g => g.head?.any fun h => h.name = r.name && h.rtype = r.rtype with
    | some i => gs.modify i fun g => if g.contains r then g else g ++ [r]
    | none => gs ++ [[r]]) []

/-- Store every record set of `records`. -/
def putAll (c : Cache) (records : List Record) (now : ℤ) : Cache :=
  (groups records).foldl (fun c g => c.put g now) c

def negativeTtl : Option Record → UInt32
  | some r => (r.soa.map fun s => min r.ttl s.minimum).getD r.ttl
  | none => defaultNegativeTtl

def putNoData (c : Cache) (name : Name) (rtype : UInt16) (soa : Option Record) (now : ℤ) : Cache :=
  c.insert (name, rtype) (.noData soa) (negativeTtl soa) now

def putNxDomain (c : Cache) (name : Name) (soa : Option Record) (now : ℤ) : Cache :=
  c.insert (name, typeNx) (.nxDomain soa) (negativeTtl soa) now

def live (c : Cache) (key : Name × UInt16) (now : ℤ) : Option Slot :=
  ((c.map.find? (·.1 = key)).map (·.2)).filter fun s => s.expires > now

/-- What the cache knows about `name` and `rtype`. -/
def get (c : Cache) (name : Name) (rtype : UInt16) (now : ℤ) : Option Entry :=
  let nx := (c.live (name, typeNx) now).bind fun s =>
    match s.entry with
    | .nxDomain _ => some (s.entry.left now s.stored)
    | _ => none
  nx.or ((c.live (name, rtype) now).map fun s => s.entry.left now s.stored)

/-- Records only. -/
def records (c : Cache) (name : Name) (rtype : UInt16) (now : ℤ) : Option (List Record) :=
  match c.get name rtype now with
  | some (.records rs) => some rs
  | _ => none

end Cache

/-! ## Tasks -/

def maxReferrals : ℕ := 16
def maxCnames : ℕ := 8
/-- Nested lookups of the addresses of name servers. -/
def maxDepth : ℕ := 4
/-- Datagrams that one client query may cause, everything included. -/
def maxSends : ℕ := 48

inductive SrvState where
  | untried
  | lookingUp (id : UInt32)
  /-- Timed out once: asked again after every other server. -/
  | timedOut
  | failed
  deriving DecidableEq

/-- A server of the zone that a task asks. -/
structure NameServer where
  name : Name
  addrs : List Ipv4Addr
  /-- Index of the next address to try. -/
  next : ℕ := 0
  state : SrvState := .untried
  timeouts : ℕ := 0
  deriving DecidableEq

structure Inflight where
  txid : UInt16
  to_ : Ipv4Addr
  srv : ℕ
  sent : ℤ
  deadline : ℤ
  deriving DecidableEq

structure Task where
  id : UInt32
  parent : Option UInt32
  depth : ℕ
  qname : Name
  qtype : UInt16
  orig : Name
  chain : List Record := []
  referrals : ℕ := 0
  zone : Option Name := none
  servers : List NameServer := []
  inflight : Option Inflight := none
  waiting : Bool := false
  fallback : Bool := false
  noCache : Bool := false
  deriving DecidableEq

/-- What a call does last. -/
inductive Next where
  | stop
  | advance (id : UInt32) (now : ℤ)
  | finish (id : UInt32) (rcode : Byte) (authority : List Record)

structure Resolver where
  cfg : ResolverConfig
  cache : Cache := {}
  tasks : List Task := []
  /-- Lookups started, of which the next id is made. -/
  started : ℕ := 0
  rng : UInt32
  sends : List (Ipv4Addr × Message) := []
  done : List (UInt32 × Resolution) := []
  /-- Datagrams sent, by top-level query. -/
  budget : UInt32 → Option ℕ := fun _ => none
  lastNow : ℤ := 0

def hasRrset (records : List Record) (name : Name) (rtype : UInt16) : List Record :=
  records.filter fun r => r.name = name && (r.rtype = rtype || rtype = typeAny)

/-- Is it a name that the fallback is never asked about? -/
def neverForward (name : Name) : Bool :=
  ["test", "example", "invalid", "localhost", "local", "internal", "arpa", "ring", "ecm"].any
    fun t => tld name = t.toList

namespace Resolver

def new (cfg : ResolverConfig) (seed : UInt32) : Resolver := { cfg, rng := seed ||| 1 }

/-- Ids go round from `2 ^ 32 - 1` to 1. -/
def idOf (started : ℕ) : UInt32 := UInt32.ofNat (1 + started % (2 ^ 32 - 1))

def nextId (r : Resolver) : UInt32 := idOf r.started

def task? (r : Resolver) (id : UInt32) : Option Task := r.tasks.find? (·.id = id)

/-- Write a task back. -/
def setTask (r : Resolver) (t : Task) : Resolver :=
  match r.tasks.findIdx? (·.id = t.id) with
  | some i => { r with tasks := r.tasks.set i t }
  | none => r

/-- Start a lookup. -/
def start (r : Resolver) (qname : Name) (qtype : UInt16) (parent : Option UInt32) (depth : ℕ)
    (noCache : Bool) (now : ℤ) :
    Resolver × Next :=
  let id := r.nextId
  ({ r with
      lastNow := now
      started := r.started + 1
      tasks := r.tasks ++ [{ id, parent, depth, qname, qtype, orig := qname, noCache }] },
    .advance id now)

/-- Drop the tasks of `kill`, and what they started. -/
def cancelTasks : ℕ → List UInt32 → List Task → List Task
  | 0, _, tasks => tasks
  | _ + 1, [], tasks => tasks
  | fuel + 1, id :: kill, tasks =>
    let tasks := tasks.filter (·.id ≠ id)
    cancelTasks fuel (((tasks.filter (·.parent = some id)).map (·.id)).reverse ++ kill) tasks

def cancel (r : Resolver) (q : UInt32) : Resolver :=
  { r with tasks := cancelTasks (2 * r.tasks.length + 1) [q] r.tasks }

/-- The top-level query that a task belongs to. -/
def rootOf (r : Resolver) : ℕ → UInt32 → UInt32
  | 0, id => id
  | fuel + 1, id =>
    match (r.task? id).bind (·.parent) with
    | some p => rootOf r fuel p
    | none => id

/-! ### Choosing whom to ask -/

/-- The zone to ask, from the cache or the hints. -/
def findZoneFrom (r : Resolver) (now : ℤ) : ℕ → Name → Option (Name × List NameServer)
  | 0, _ => none
  | fuel + 1, z =>
    let up := (parent z).bind (findZoneFrom r now fuel)
    match r.cache.records z typeNs now with
    | some ns =>
      let servers := (ns.filterMap (·.data.target)).map fun t =>
        { name := t, addrs := ((r.cache.records t typeA now).getD []).filterMap (·.a) : NameServer }
      if z = [] then
        -- the addresses of the root come from the hints when not cached
        let servers := servers.map fun s =>
          if s.addrs = [] then { s with addrs := (r.cfg.hints.filter (·.1 = s.name)).map (·.2) }
            else s
        if servers.all (·.addrs = []) then none else some (z, servers)
      else some (z, servers)
    | none => up

def hintServers (hints : List (Name × Ipv4Addr)) : List NameServer :=
  hints.foldl (fun servers h =>
    match servers.findIdx? (·.name = h.1) with
    | some i => servers.modify i fun s => { s with addrs := s.addrs ++ [h.2] }
    | none => servers ++ [{ name := h.1, addrs := [h.2] }]) []

def findZone (r : Resolver) (qname : Name) (now : ℤ) : Name × List NameServer :=
  (r.findZoneFrom now (qname.length + 2) qname).getD ([], hintServers r.cfg.hints)

/-- The cache first: aliases that it knows are followed, and what it knows of the name ends the
lookup. -/
def followCache (cache : Cache) (now : ℤ) : ℕ → Task → Task × Option (Byte × List Record)
  | 0, t => (t, none)
  | fuel + 1, t =>
    if t.fallback || (t.noCache && t.parent.isNone) then (t, none)
    else
      match if t.qtype ≠ typeCname ∧ t.qtype ≠ typeAny
        then cache.records t.qname typeCname now else none with
      | some c =>
        let t :=
  { t with qname := (c.head?.bind (·.data.target)).getD [], chain := t.chain ++ c, zone := none }
        if t.chain.length > maxCnames then (t, some (servfail, []))
          else followCache cache now fuel t
      | none =>
        match cache.get t.qname t.qtype now with
        | some (.records rs) => ({ t with chain := t.chain ++ rs }, some (noerror, []))
        | some (.noData soa) => (t, some (noerror, soa.toList))
        | some (.nxDomain soa) => (t, some (nxdomain, soa.toList))
        | none => (t, none)

/-- A task that asks a zone; none when there is no zone to ask. -/
def enterZone (r : Resolver) (now : ℤ) (t : Task) : Option Task :=
  if t.zone.isSome then some t
  else
    let (zone, servers) := r.findZone t.qname now
    if servers = [] then none else some { t with zone := some zone, servers }

end Resolver

namespace Task

def modifyServer (t : Task) (i : ℕ) (f : NameServer → NameServer) : Task :=
  { t with servers := t.servers.modify i f }

/-- A server with an address left to try; else one that only timed out. -/
def pick (t : Task) : Option (ℕ × Task) :=
  match t.servers.findIdx? fun s => s.state = .untried && s.next < s.addrs.length with
  | some i => some (i, t)
  | none =>
    if t.servers.any fun s =>
      match s.state with | .untried | .lookingUp _ => true | _ => false then none
    else
      (t.servers.findIdx? (·.state = .timedOut)).map fun i =>
        (i, t.modifyServer i fun s => { s with next := 0, state := .untried })

/-- A server that came without glue. -/
def lookup (t : Task) : Option ℕ :=
  t.servers.findIdx? fun s => s.state = .untried && s.addrs = [] &&
    !(isSub s.name (t.zone.getD []) && t.zone.getD [] ≠ [])

/-- A server that failed, with no address left. -/
def markFailed (t : Task) (i : ℕ) : Task :=
  t.modifyServer i fun s => if s.next ≥ s.addrs.length then { s with state := .failed } else s

end Task

namespace Resolver

/-- Is an ancestor of `id` looking for the address of `name`? -/
def isLooping (r : Resolver) (name : Name) : ℕ → Option UInt32 → Bool
  | 0, _ => false
  | _ + 1, none => false
  | fuel + 1, some p =>
    match r.task? p with
    | none => false
    | some t => t.qname = name || isLooping r name fuel t.parent

/-- Ask the server `i` at its next address. -/
def sendTo (r : Resolver) (t : Task) (i : ℕ) (root : UInt32) (now : ℤ) : Resolver :=
  let (rng, txid) := rand16 r.rng
  match t.servers[i]?.bind fun s => s.addrs[s.next]? with
  | none => r
  | some ip =>
    let t := { t.modifyServer i fun s => { s with next := s.next + 1 } with
      inflight :=
        some { txid, to_ := ip, srv := i, sent := now, deadline := now + r.cfg.timeoutMs } }
    let r := { r with rng }.setTask t
    { r with
      sends := r.sends ++ [(ip, Message.query txid t.qname t.qtype t.fallback)]
      budget := Function.update r.budget root (some ((r.budget root).getD 0 + 1)) }

def advanceOnce (r : Resolver) (id : UInt32) (now : ℤ) : Resolver × Next :=
  match r.task? id with
  | none => (r, .stop)
  | some t =>
    if t.inflight.isSome || t.waiting then (r, .stop)
    else
      match followCache r.cache now (maxCnames + 1) t with
      | (t, some (rcode, authority)) => (r.setTask t, .finish id rcode authority)
      | (t, none) =>
        match r.enterZone now t with
        | none => (r.setTask t, .finish id servfail [])
        | some t =>
          let root := r.rootOf (r.tasks.length + 1) id
          if (r.budget root).getD 0 ≥ maxSends then (r.setTask t, .finish id servfail [])
          else
            match t.pick with
            | some (i, t) => (r.sendTo t i root now, .stop)
            | none =>
              match t.lookup with
              | none => (r.setTask t, .finish id servfail [])
              | some i =>
                let failed := t.modifyServer i fun s => { s with state := .failed }
                if t.depth < maxDepth then
                  let name := ((t.servers[i]?).map (·.name)).getD []
                  if r.isLooping name (r.tasks.length + 1)
                    t.parent then (r.setTask failed, .advance id now)
                  else
                    let t :=
                      { t.modifyServer i fun s => { s with state := .lookingUp r.nextId } with
                      waiting := true }
                    (r.setTask t).start name typeA (some id) (t.depth + 1) false now
                else (r.setTask failed, .finish id servfail [])

/-- Take out the task at `i`; the lookups that it started are moot. -/
def takeTask (r : Resolver) (i : ℕ) (id : UInt32) : Resolver :=
  let r := { r with tasks := r.tasks.eraseIdx i }
  ((r.tasks.filter (·.parent = some id)).map (·.id)).foldl cancel r

/-- The task ends, and its parent goes on. -/
def finishOnce (r : Resolver) (id : UInt32) (rcode : Byte) (authority : List Record) :
    Resolver × Next :=
  match r.tasks.findIdx? (·.id = id) with
  | none => (r, .stop)
  | some i =>
    match r.tasks[i]? with
    | none => (r, .stop)
    | some t =>
      let r := r.takeTask i id
      match t.parent with
      | none =>
        ({ r with
            budget := Function.update r.budget id none
            done := r.done ++
              [(id, { qname := t.orig, qtype := t.qtype, rcode, answers := t.chain, authority })] },
          .stop)
      | some p =>
        match r.task? p with
        | none => (r, .stop)
        | some pt =>
          let addrs := t.chain.filterMap (·.a)
          let pt := { pt with waiting := false }
          let pt :=
            match pt.servers.findIdx? (·.state = .lookingUp id) with
            | some j =>
              pt.modifyServer j fun s =>
                if addrs = [] then { s with state := .failed }
                  else { s with addrs, next := 0, state := .untried }
            | none => pt
          (r.setTask pt, .advance p r.lastNow)

def next (r : Resolver) : Next → Resolver × Next
  | .stop => (r, .stop)
  | .advance id now => r.advanceOnce id now
  | .finish id rcode authority => r.finishOnce id rcode authority

/-- The calls that one event causes. -/
def loop : ℕ → Resolver → Next → Resolver
  | 0, r, _ => r
  | _ + 1, r, .stop => r
  | fuel + 1, r, n => loop fuel (r.next n).1 (r.next n).2

/-- A bound on the turns of one event, from the tasks that there are and the servers that each
can come to ask, at every depth. -/
def turns (r : Resolver) : ℕ :=
  let width :=
    (r.cache.map.map fun e => match e.2.entry with | .records rs => rs.length | _ => 0).sum +
    r.cfg.hints.length + (r.tasks.map (·.servers.length)).sum
  2 * (r.tasks.length + 1) * (width + 2) ^ (maxDepth + 2)

def run (p : Resolver × Next) : Resolver := loop p.1.turns p.1 p.2

/-! ### What is asked of a resolver -/

def resolve (r : Resolver) (qname : Name) (qtype : UInt16) (now : ℤ) : UInt32 × Resolver :=
  (r.nextId, run (r.start qname qtype none 0 false now))

/-- Resolve without reading the cache. -/
def resolveFresh (r : Resolver) (qname : Name) (qtype : UInt16) (now : ℤ) : UInt32 × Resolver :=
  (r.nextId, run (r.start qname qtype none 0 true now))

/-- A task whose server did not answer in time. -/
def timeOut (t : Task) : Task :=
  match t.inflight with
  | none => t
  | some f =>
    { t.modifyServer f.srv fun s =>
        let s := { s with timeouts := s.timeouts + 1 }
        if s.next ≥ s.addrs.length then { s with state := if s.timeouts ≥ 2 then .failed
          else .timedOut } else s with
      inflight := none }

def tick (r : Resolver) (now : ℤ) : Resolver :=
  let r := { r with lastNow := now }
  let late := (r.tasks.filter fun t => t.inflight.any fun f => now ≥ f.deadline).map (·.id)
  late.foldl (fun r id =>
    match r.task? id with
    | none => r
    | some t => run (r.setTask (timeOut t), .advance id now)) r

/-- The records of an answer that are about the name, and about the names that it is an alias of. -/
structure Gathered where
  cache : Cache
  chain : List Record := []
  name : Name
  moved : Bool := false
  gotFinal : Bool := false

/-- Data for the name, only what the server is an authority for. -/
def gather (m : Message) (zone : Name) (qtype : UInt16) (now : ℤ) : ℕ → Gathered → Gathered
  | 0, g => g
  | fuel + 1, g =>
    if !isSub g.name zone then g
    else
      let hits := hasRrset m.answers g.name qtype
      if hits ≠ [] then
        let cache := g.cache.putAll hits now
        let cache :=
          if qtype = typeNs then cache.putAll
            (m.additional.filter fun r => r.rtype = typeA && isSub r.name zone) now
          else cache
        { g with cache, chain := g.chain ++ hits, gotFinal := true }
      else
        match (hasRrset m.answers g.name typeCname).head? with
        | some c =>
          if qtype ≠ typeCname then
            gather m zone qtype now fuel
              { g with
                cache := g.cache.put [c] now
                chain := g.chain ++ [c]
                name := c.targetName
                moved := true }
          else g
        | none => g

/-- The closest zone to the name that an answer refers to. -/
def cutOf (m : Message) (qname zone : Name) : Option Name :=
  ((m.authority.filter fun r => r.rtype = typeNs && isSub qname r.name && isSub r.name zone &&
    r.name ≠ zone).map
    (·.name)).foldl (fun best n =>
      match best with
      | some b => if b.length > n.length then some b else some n
      | none => some n) none

/-- An answer from the server `srv` of `zone`, for a task that waited for it. -/
def handle (r : Resolver) (t : Task) (srv : ℕ) (zone : Name) (m : Message) (now : ℤ) :
    Resolver × Next :=
  let rcode := m.header.rcode
  let bad := (r.setTask (t.markFailed srv), Next.advance t.id now)
  if t.fallback then
    if rcode ≠ noerror ∧ rcode ≠ nxdomain then bad
    else
      ({ r with cache := r.cache.putAll m.answers now }.setTask
        { t with chain := t.chain ++ m.answers },
        .finish t.id rcode (m.authority.filter (·.rtype = typeSoa)))
  else if (rcode ≠ noerror ∧ rcode ≠ nxdomain) ∨
    (m.header.tc && m.answers.isEmpty && m.authority.isEmpty) then bad
  else
    let soa :=
      m.authority.find? fun s => s.rtype = typeSoa && isSub t.qname s.name && isSub s.name zone
    let g := gather m zone t.qtype now (maxCnames + 1) { cache := r.cache, name := t.qname }
    let r := { r with cache := g.cache }
    if g.gotFinal || g.moved then
      let t := { t with chain := t.chain ++ g.chain }
      if (t.chain.filter (·.rtype = typeCname)).length >
        maxCnames then (r.setTask t, .finish t.id servfail [])
      else if g.gotFinal then (r.setTask t, .finish t.id noerror [])
      else if rcode = nxdomain ∧ isSub g.name zone ∧ m.header.aa then
        ({ r with cache := r.cache.putNxDomain g.name soa now }.setTask t,
          .finish t.id nxdomain soa.toList)
      else (r.setTask { t with qname := g.name, zone := none }, .advance t.id now)
    else if rcode = nxdomain then
      -- the root denies a top-level domain
      if zone = [] ∧ r.cfg.fallback ≠ [] ∧ ¬ neverForward t.qname then
        (r.setTask { t with
            fallback := true
            zone := some []
            servers := [{ name := "fallback".toList, addrs := r.cfg.fallback }] },
          .advance t.id now)
      else ({ r with cache := r.cache.putNxDomain t.qname soa now }.setTask t,
        .finish t.id nxdomain soa.toList)
    else
      match (cutOf m t.qname zone).filter fun _ => !m.header.aa || m.answers.isEmpty with
      | some cut =>
        let cache := r.cache.put (m.authority.filter fun s => s.rtype = typeNs && s.name = cut) now
        -- glue only from inside the zone that the server answers for
        let cache :=
          cache.putAll (m.additional.filter fun s => s.rtype = typeA && isSub s.name zone) now
        let r := { r with cache }
        let t := { t with referrals := t.referrals + 1 }
        if t.referrals > maxReferrals then (r.setTask t, .finish t.id servfail [])
        else (r.setTask { t with zone := none }, .advance t.id now)
      | none =>
        if m.header.aa || soa.isSome then
          ({ r with cache := r.cache.putNoData t.qname t.qtype soa now }.setTask t,
            .finish t.id noerror soa.toList)
        else (r.setTask (t.markFailed srv), .advance t.id now)

/-- Does the message answer what the task asked? -/
def answers (t : Task) (from_ : Ipv4Addr) (m : Message) : Bool :=
  t.inflight.any (fun f => f.txid = m.header.id && f.to_ = from_) &&
    m.question.any fun q => q.name = t.qname && q.qtype = t.qtype

/-- A datagram on the resolver's socket. -/
def onPacket (r : Resolver) (from_ : Ipv4Addr) (data : Datagram) (now : ℤ) : Resolver :=
  let r := { r with lastNow := now }
  match data with
  | .malformed _ => r
  | .message m =>
    if !m.header.qr then r
    else
      match r.tasks.findIdx? fun t => answers t from_ m with
      | none => r
      | some i =>
        match r.tasks[i]? with
        | none => r
        | some t =>
          match t.inflight with
          | none => r
          | some f =>
            let r := { r with tasks := r.tasks.set i { t with inflight := none } }
            match r.task? t.id with
            | none => r
            | some t' => run (r.handle t' f.srv (t.zone.getD []) m now)

def takeSends (r : Resolver) : List (Ipv4Addr × Message) × Resolver :=
  (r.sends, { r with sends := [] })

def takeDone (r : Resolver) : List (UInt32 × Resolution) × Resolver :=
  (r.done, { r with done := [] })

end Resolver

/-- What is done to a resolver. -/
inductive ResolverCall where
  | resolve (qname : Name) (qtype : UInt16) (now : ℤ)
  | resolveFresh (qname : Name) (qtype : UInt16) (now : ℤ)
  | cancel (q : UInt32)
  | onPacket (from_ : Ipv4Addr) (data : Datagram) (now : ℤ)
  | tick (now : ℤ)
  | takeSends
  | takeDone

def Resolver.call (r : Resolver) : ResolverCall → Resolver
  | .resolve qname qtype now => (r.resolve qname qtype now).2
  | .resolveFresh qname qtype now => (r.resolveFresh qname qtype now).2
  | .cancel q => r.cancel q
  | .onPacket from_ data now => r.onPacket from_ data now
  | .tick now => r.tick now
  | .takeSends => r.takeSends.2
  | .takeDone => r.takeDone.2

instance : ResolverOps Resolver where
  new := Resolver.new
  takeCache r old := { r with cache := old.cache }
  resolve := Resolver.resolve
  onPacket := Resolver.onPacket
  tick := Resolver.tick
  takeSends := Resolver.takeSends
  takeDone := Resolver.takeDone

end EvansComputer.Dns
