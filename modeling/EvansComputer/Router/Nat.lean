import EvansComputer.Net.Packet

/-!
# The router's address translator

`Nat` of the router: a table of endpoint-independent mappings, bounded at 4096
entries, and the functions that rewrite packets as they cross the outside
interface.

The source rewrites the packet in place and returns `Ok(())` or `Err(())`.  A
function that does so is modelled by one that returns the packet as it is
afterwards together with whether the result is `Ok`.  The outer `Option` is
`none` where the source would index out of bounds.  Time is milliseconds since
an arbitrary instant; an expiry saturates at the largest 64-bit instant.
-/

namespace EvansComputer.Router

def udpTimeout : ℤ := 300000
def tcpEstablishedTimeout : ℤ := 7440000
def tcpTransitoryTimeout : ℤ := 240000
def icmpTimeout : ℤ := 60000
def maxMappings : ℕ := 4096

/-- A static forward of an outside port to an inside endpoint. -/
structure Forward where
  protocol : Byte
  inside : Ipv4Addr
  insidePort : UInt16
  outsidePort : UInt16
  deriving DecidableEq

/-- An inside endpoint and the outside endpoint that stands for it. -/
structure Mapping where
  protocol : Byte
  inside : Ipv4Addr
  port : UInt16
  outside : Ipv4Addr
  external : UInt16
  expires : ℤ
  established : Bool
  closing : Bool
  deriving DecidableEq

/-- `Nat`: the mappings, in order of creation, and the port the next scan starts
at. -/
structure NatTable where
  mappings : List Mapping
  next : UInt16
  deriving DecidableEq

/-! ## Transport checks -/

def validateTransport (h : Ipv4Header) (seg : List Byte) : Bool :=
  if h.protocol = 6 then
    (Tcp.WireHeader.parse seg).isSome && Tcp.verifyChecksum h.src h.dst seg
  else if h.protocol = 17 then
    (Udp.UdpHeader.parse seg).isSome && Udp.verifyChecksum h.src h.dst seg
  else if h.protocol = 1 then
    8 ≤ seg.length && internetChecksum seg == 0
  else false

/-- The ICMP types that quote another packet. -/
def isIcmpError (h : Ipv4Header) (seg : List Byte) : Bool :=
  h.protocol == 1 && (seg.head? == some 3 || seg.head? == some 11 || seg.head? == some 12)

/-- Where the port, or the echo identifier, stands in a segment. -/
def identifierPos (proto : Byte) (seg : List Byte) (source : Bool) : Option ℕ :=
  if proto = 6 ∧ 20 ≤ seg.length then some (if source then 0 else 2)
  else if proto = 17 ∧ 8 ≤ seg.length then some (if source then 0 else 2)
  else if proto = 1 ∧ 8 ≤ seg.length ∧ (seg.head? = some 0 ∨ seg.head? = some 8) then some 4
  else none

/-- The inner result is `none` where the source returns `Err`. -/
def identifier (proto : Byte) (seg : List Byte) (source : Bool) : Option (Option UInt16) :=
  match identifierPos proto seg source with
  | none => some none
  | some pos => do
    let a ← seg[pos]?
    let b ← seg[pos + 1]?
    return some (u16FromBe a b)

/-- Refresh a mapping: the flags of the segment decide which timeout a TCP
mapping has. -/
def touch (m : Mapping) (seg : List Byte) (now : ℤ) : Mapping :=
  let flags := seg.getD 13 0
  let m :=
    if m.protocol = 6 then
      let m := if flags &&& 0x02 != 0 then { m with closing := false, established := false } else m
      let m :=
        if !m.closing && flags &&& 0x10 != 0 && flags &&& 0x02 == 0 then
          { m with established := true }
        else m
      if flags &&& 0x05 != 0 then { m with established := false, closing := true } else m
    else m
  let timeout :=
    if m.protocol = 17 then udpTimeout
    else if m.protocol = 1 then icmpTimeout
    else if m.protocol = 6 then
      if m.established then tcpEstablishedTimeout else tcpTransitoryTimeout
    else 0
  { m with expires := min (now + timeout) (2 ^ 63 - 1) }

/-! ## Rewriting -/

/-- Where a segment of this protocol has its port or identifier. -/
def portPos (protocol : Byte) (source : Bool) : ℕ :=
  if protocol = 1 then 4 else if source then 0 else 2

/-- Where a segment of this protocol has its checksum. -/
def checksumPos (protocol : Byte) : Option ℕ :=
  if protocol = 6 then some 16
  else if protocol = 17 then some 6
  else if protocol = 1 then some 2
  else none

/-- The checksum of a segment whose checksum field is zero.  A UDP checksum of
zero would say that none was computed, and is sent as its complement. -/
def segmentChecksum (seg : List Byte) (protocol : Byte) (s d : Ipv4Addr) : UInt16 :=
  let sum :=
    if protocol = 1 then internetChecksum seg else pseudoHeaderChecksum s d protocol seg
  if sum = 0 ∧ protocol = 17 then 65535 else sum

/-- The part of `rewrite` that writes into the segment: the port, and the
checksum that covers it and the addresses. -/
def rewriteSegment (seg : List Byte) (protocol : Byte) (source : Bool) (s d : Ipv4Addr)
    (port : UInt16) : Option (List Byte × Bool) := do
  let pos := portPos protocol source
  let seg ← copyInto seg pos (pos + 2) (u16ToBe port)
  match checksumPos protocol with
  | none => return (seg, false)
  | some ck =>
    let seg ← copyInto seg ck (ck + 2) [0, 0]
    let sum := segmentChecksum seg protocol s d
    let seg ← copyInto seg ck (ck + 2) (u16ToBe sum)
    return (seg, true)

/-- Write a new source or destination endpoint, and the checksums that cover
it. -/
def rewrite (p : List Byte) (source : Bool) (ip : Ipv4Addr) (port : UInt16) :
    Option (List Byte × Bool) :=
  match Ipv4Header.parse p with
  | none => some (p, false)
  | some (h, _) => do
    let hl := h.headerLen
    let total := h.totalLength.toNat
    let pos := if source then 12 else 16
    let p ← copyInto p pos (pos + 4) ip.bytes
    let s := Ipv4Addr.fromBytes (← slice p 12 16)
    let d := Ipv4Addr.fromBytes (← slice p 16 20)
    let (seg, ok) ← rewriteSegment (← slice p hl total) h.protocol source s d port
    let p ← copyInto p hl total seg
    if ok then
      let p ← copyInto p 10 12 [0, 0]
      let sum := internetChecksum (← slice p 0 hl)
      return (← copyInto p 10 12 (u16ToBe sum), true)
    else return (p, false)

/-- Replace one word under a checksum. -/
def adjust (checksum old new : UInt16) : UInt16 :=
  ~~~ (UInt16.ofNat (foldLoop 2 ((~~~ checksum).toNat + (~~~ old).toNat + new.toNat)))

/-- The endpoint that a quoted packet is translated to, mappings before
forwards. -/
def quotedEndpoint (n : NatTable) (outside : Ipv4Addr) (forwards : List Forward)
    (outbound : Bool) (proto : Byte) (ip : Ipv4Addr) (id : UInt16) :
    Option (Ipv4Addr × UInt16) :=
  let mapped := n.mappings.find? fun m =>
    m.protocol == proto && m.outside == outside &&
      (if outbound then m.inside == ip && m.port == id
        else m.outside == ip && m.external == id)
  match mapped with
  | some m => some (if outbound then (outside, m.external) else (m.inside, m.port))
  | none =>
    let forwarded := forwards.find? fun f =>
      f.protocol == proto &&
        (if outbound then f.inside == ip && f.insidePort == id
          else ip == outside && f.outsidePort == id)
    forwarded.map fun f => if outbound then (outside, f.outsidePort) else (f.inside, f.insidePort)

/-- The new transport checksum of a quoted packet, where one is quoted and in
use. -/
def quotedChecksum (q : List Byte) (hl : ℕ) (proto : Byte) (ip inside : Ipv4Addr)
    (id port : UInt16) : Option (List Byte) :=
  let ck : Option ℕ :=
    if proto = 17 then some (hl + 6)
    else if proto = 6 ∧ hl + 18 ≤ q.length then some (hl + 16)
    else if proto = 1 then some (hl + 2)
    else none
  match ck with
  | none => some q
  | some ck => do
    let original := u16FromBe (← q[ck]?) (← q[ck + 1]?)
    if proto ≠ 17 ∨ original ≠ 0 then
      let sum :=
        if proto ≠ 1 then
          let sum := adjust original (u16FromBe ip.a ip.b) (u16FromBe inside.a inside.b)
          adjust sum (u16FromBe ip.c ip.d) (u16FromBe inside.c inside.d)
        else original
      let sum := adjust sum id port
      let sum := if proto = 17 ∧ sum = 0 then 65535 else sum
      copyInto q ck (ck + 2) (u16ToBe sum)
    else return q

/-- Write the translated endpoint into the outer header and the quoted packet,
and the four checksums. -/
def rewriteQuoted (p : List Byte) (h : Ipv4Header) (outbound : Bool) (hl : ℕ) (proto : Byte)
    (ip inside : Ipv4Addr) (id port : UInt16) : Option (List Byte) := do
  let addressPos := if outbound then 16 else 12
  let offset := h.headerLen
  let outerPos := if outbound then 12 else 16
  let p ← copyInto p outerPos (outerPos + 4) inside.bytes
  let q ← slice p (offset + 8) p.length
  let q ← quotedChecksum q hl proto ip inside id port
  let q ← copyInto q addressPos (addressPos + 4) inside.bytes
  let pos := if proto = 1 then hl + 4 else hl + (if outbound then 2 else 0)
  let q ← copyInto q pos (pos + 2) (u16ToBe port)
  let q ← copyInto q 10 12 [0, 0]
  let sum := internetChecksum (← slice q 0 hl)
  let q ← copyInto q 10 12 (u16ToBe sum)
  let p ← copyInto p (offset + 8) p.length q
  let p ← copyInto p (offset + 2) (offset + 4) [0, 0]
  let sum := internetChecksum (← slice p offset h.totalLength.toNat)
  let p ← copyInto p (offset + 2) (offset + 4) (u16ToBe sum)
  let p ← copyInto p 10 12 [0, 0]
  let sum := internetChecksum (← slice p 0 offset)
  copyInto p 10 12 (u16ToBe sum)

/-- Translate an ICMP error by the packet it quotes. -/
def translateError (n : NatTable) (p : List Byte) (outside : Ipv4Addr) (forwards : List Forward)
    (outbound : Bool) : Option (List Byte × Bool) :=
  match Ipv4Header.parse p with
  | none => some (p, false)
  | some (h, seg) =>
    if seg.length < 36 then some (p, false)
    else do
      let quote := seg.drop 8
      let first : Byte ← quote[0]?
      let hl := (first &&& 15).toNat * 4
      if first >>> 4 ≠ 4 ∨ hl < 20 ∨ quote.length < hl + 8 ∨
          internetChecksum (quote.take hl) ≠ 0 then
        return (p, false)
      let proto : Byte ← quote[9]?
      let addressPos := if outbound then 16 else 12
      let ip := Ipv4Addr.fromBytes (← slice quote addressPos (addressPos + 4))
      let id ←
        if proto = 6 ∨ proto = 17 then do
          let portPos := hl + (if outbound then 2 else 0)
          let a ← quote[portPos]?
          let b ← quote[portPos + 1]?
          pure (some (u16FromBe a b))
        else identifier proto (quote.drop hl) true
      match id with
      | none => return (p, false)
      | some id =>
        match quotedEndpoint n outside forwards outbound proto ip id with
        | none => return (p, false)
        | some (inside, port) =>
          return (← rewriteQuoted p h outbound hl proto ip inside id port, true)

namespace NatTable

/-! ## The table -/

def new : NatTable := ⟨[], 49152⟩

def expire (n : NatTable) (now : ℤ) : NatTable :=
  { n with mappings := n.mappings.filter fun m => now < m.expires }

/-- The port after `n` in the dynamic range, which wraps. -/
def nextPort (n : UInt16) : UInt16 := if n = 65535 then 49152 else n + 1

/-- Neither a mapping on this outside address nor a forward holds the port. -/
def isFree (ms : List Mapping) (forwards : List Forward) (protocol : Byte) (outside : Ipv4Addr)
    (port : UInt16) : Bool :=
  !ms.any (fun m => m.protocol == protocol && m.external == port && m.outside == outside) &&
    !forwards.any (fun f => f.protocol == protocol && f.outsidePort == port)

/-- The scan for a free port, for at most `tries` turns: the cursor it leaves and
the port it found. -/
def scan (free : UInt16 → Bool) : ℕ → UInt16 → UInt16 × Option UInt16
  | 0, next => (next, none)
  | tries + 1, next =>
    if free next then (nextPort next, some next) else scan free tries (nextPort next)

/-- The index of the mapping of an inside endpoint, which is created where there
is none; no index where the source returns `Err`. -/
def mappingFor (n : NatTable) (protocol : Byte) (src : Ipv4Addr) (port : UInt16)
    (outside : Ipv4Addr) (forwards : List Forward) (now : ℤ) : NatTable × Option ℕ :=
  let found := n.mappings.findIdx? fun m =>
    m.protocol == protocol && m.inside == src && m.port == port && m.outside == outside
  match found with
  | some i => (n, some i)
  | none =>
    if maxMappings ≤ n.mappings.length then (n, none)
    else
      let scanned := scan (isFree n.mappings forwards protocol outside) 16384 n.next
      let n := { n with next := scanned.1 }
      match scanned.2 with
      | none => (n, none)
      | some external =>
        let m : Mapping :=
          { protocol := protocol
            inside := src
            port := port
            outside := outside
            external := external
            expires := now
            established := false
            closing := false }
        let n := { n with mappings := n.mappings ++ [m] }
        (n, some (n.mappings.length - 1))

/-! ## Packets crossing the interface -/

/-- What `outbound` does with the port of a packet it can translate. -/
def outboundPort (n : NatTable) (p : List Byte) (h : Ipv4Header) (seg : List Byte)
    (port : UInt16) (outside : Ipv4Addr) (forwards : List Forward) (now : ℤ) :
    Option (NatTable × List Byte × Bool) :=
  let forwarded := forwards.find? fun f =>
    f.protocol == h.protocol && f.inside == h.src && f.insidePort == port
  match forwarded with
  | some f => do return (n, ← rewrite p true outside f.outsidePort)
  | none =>
    match n.mappingFor h.protocol h.src port outside forwards now with
    | (n, none) => some (n, p, false)
    | (n, some idx) => do
      let m ← n.mappings[idx]?
      let m := touch m seg now
      let n := { n with mappings := n.mappings.set idx m }
      return (n, ← rewrite p true outside m.external)

def outbound (n : NatTable) (p : List Byte) (outside : Ipv4Addr) (forwards : List Forward)
    (now : ℤ) : Option (NatTable × List Byte × Bool) :=
  let n := n.expire now
  match Ipv4Header.parse p with
  | none => some (n, p, false)
  | some (h, seg) =>
    if h.isFragment || outside.isUnspecified then some (n, p, false)
    else if !validateTransport h seg then some (n, p, false)
    else if isIcmpError h seg then do return (n, ← translateError n p outside forwards true)
    else do
      match ← identifier h.protocol seg true with
      | none => return (n, p, false)
      | some port => n.outboundPort p h seg port outside forwards now

/-- What `inbound` does with the port of a packet it can translate. -/
def inboundPort (n : NatTable) (p : List Byte) (h : Ipv4Header) (seg : List Byte)
    (port : UInt16) (outside : Ipv4Addr) (forwards : List Forward) (now : ℤ) :
    Option (NatTable × List Byte × Bool) :=
  let forwarded := forwards.find? fun f => f.protocol == h.protocol && f.outsidePort == port
  match forwarded with
  | some f => do return (n, ← rewrite p false f.inside f.insidePort)
  | none =>
    let found := n.mappings.findIdx? fun m =>
      m.protocol == h.protocol && m.outside == outside && m.external == port
    match found with
    | none => some (n, p, false)
    | some idx => do
      let m ← n.mappings[idx]?
      let m := touch m seg now
      let n := { n with mappings := n.mappings.set idx m }
      return (n, ← rewrite p false m.inside m.port)

def inbound (n : NatTable) (p : List Byte) (outside : Ipv4Addr) (forwards : List Forward)
    (now : ℤ) : Option (NatTable × List Byte × Bool) :=
  let n := n.expire now
  match Ipv4Header.parse p with
  | none => some (n, p, false)
  | some (h, seg) =>
    if h.isFragment || h.dst != outside then some (n, p, false)
    else if !validateTransport h seg then some (n, p, false)
    else if isIcmpError h seg then do return (n, ← translateError n p outside forwards false)
    else do
      match ← identifier h.protocol seg false with
      | none => return (n, p, false)
      | some port => n.inboundPort p h seg port outside forwards now

end EvansComputer.Router.NatTable
