import EvansComputer.Cell.Air
import EvansComputer.Library.OrderedMap

/-!
# Site and core

The control messages between a cell site and the core, the framing of the byte stream
that carries them, and the tunnel datagrams of the user plane.

A connection starts with two plain messages; what follows is sealed, so a body that
comes out of the framer is decoded only after the channel has opened it.
-/

namespace EvansComputer.Cell

/-- The version both sides have to speak. -/
def version : Byte := 2

def maxControl : ℕ := 65536

/-- A cell a site serves. -/
structure CellInfo where
  cellId : UInt32
  profile : Byte
  channel : Byte
  area : UInt16
  /-- The cell's radio address. -/
  addr : UInt32
  deriving DecidableEq

/-- Addressing a phone's session gets at attach. -/
structure IpConfig where
  ip : Ipv4Addr
  prefixLen : Byte
  gateway : Ipv4Addr
  dns : Ipv4Addr
  mtu : UInt16
  deriving DecidableEq

namespace IpConfig

def write (c : IpConfig) : List Byte :=
  c.ip.bytes ++ [c.prefixLen] ++ c.gateway.bytes ++ c.dns.bytes ++ u16ToBe c.mtu

def read : Reader IpConfig := do
  let ip ← Reader.ip
  let prefixLen ← Reader.u8
  let gateway ← Reader.ip
  let dns ← Reader.ip
  let mtu ← Reader.u16
  if prefixLen > 32 then throw (.value "prefix")
  return { ip, prefixLen, gateway, dns, mtu }

end IpConfig

/-- The key the core gives a site for one phone in one cell, and its epoch. -/
structure AsContext where
  epoch : UInt32
  kAs : List Byte
  deriving DecidableEq

namespace AsContext

def write (ctx : AsContext) : List Byte := u32ToBe ctx.epoch ++ ctx.kAs

def read : Reader AsContext := do
  let epoch ← Reader.u32
  let kAs ← Reader.take 32
  return { epoch, kAs }

end AsContext

inductive Ctl where
  /-- core -> site, first on a new connection -/
  | coreHello (version : Byte) (carrier : Str) (nonce : List Byte)
  /-- site -> core -/
  | siteAuth (version : Byte) (siteId : Str) (cells : List CellInfo) (tunnelPort : UInt16)
      (nonce proof : List Byte)
  /-- core -> site -/
  | siteAccept (heartbeatMs : UInt16) (refused : List Str)
  /-- core -> site, then the core closes -/
  | siteReject (cause : Cause)
  | heartbeat (seq : UInt32)
  /-- site -> core: a phone asks to attach -/
  | ueAttach (ue cellId : UInt32) (imsi carrier : Str)
  /-- site -> core: an idle phone resumes -/
  | ueService (ue cellId tmsi count : UInt32) (mac : List Byte)
  /-- core -> site -/
  | ueChallenge (ue : UInt32) (rand : List Byte)
  /-- site -> core -/
  | ueAuthResponse (ue : UInt32) (res : List Byte)
  /-- core -> site: authenticated -/
  | ueAccept (ue session : UInt32) (ip : IpConfig) (tmsi : UInt32) (ctx : AsContext)
      (smcMac : List Byte) (ims : Option ImsInfo)
  /-- core -> site -/
  | ueReject (ue : UInt32) (cause : Cause)
  /-- site -> core: attach complete -/
  | ueActive (session : UInt32)
  /-- either way: end the phone's radio context at this site -/
  | ueRelease (session : UInt32) (cause : Cause)
  /-- site -> core: the phone went idle at this site -/
  | ueIdle (session : UInt32)
  /-- source site -> core -/
  | hoRequired (session targetCell : UInt32)
  /-- core -> target site -/
  | hoRequest (ho session ue targetCell : UInt32) (ip : IpConfig) (tmsi : UInt32) (ctx : AsContext)
      (bearers : List Bearer)
  /-- target -> core -/
  | hoRequestAck (ho : UInt32) (ueId : UInt16) (grant : Grant)
  /-- target -> core or core -> source -/
  | hoFailure (ho session : UInt32) (cause : Cause)
  /-- core -> source: send this to the phone -/
  | hoCommand (ho session cellId addr : UInt32) (profile channel : Byte) (epoch : UInt32)
      (ueId : UInt16) (grant : Grant)
  /-- target -> core: the phone arrived -/
  | pathSwitch (ho session : UInt32)
  /-- core -> target -/
  | pathSwitchAck (session : UInt32)
  /-- core -> site: page an idle phone -/
  | page (tmsi : UInt32)
  /-- core -> site -/
  | usage (session : UInt32) (used quota : UInt64)
  /-- core -> site: refuse this IMSI from now on -/
  | revoked (imsi : Str)
  /-- core -> site -/
  | bearerSetup (session : UInt32) (bearer : Bearer)
  /-- core -> site -/
  | bearerRelease (session : UInt32) (id : Byte)
  /-- site -> core -/
  | bearerResult (session : UInt32) (id : Byte) (ok : Bool)
  deriving DecidableEq

namespace Ctl

/-- The type byte of a message and its fields. -/
def body : Ctl → List Byte
  | coreHello version carrier nonce => 0x01 :: version :: putStr8 carrier ++ nonce
  | siteAuth version siteId cells tunnelPort nonce proof =>
    0x02 :: version :: putStr8 siteId ++ UInt8.ofNat (min cells.length 16) ::
      (cells.take 16).flatMap (fun c =>
        u32ToBe c.cellId ++ [c.profile, c.channel] ++ u16ToBe c.area ++ u32ToBe c.addr) ++
      u16ToBe tunnelPort ++ nonce ++ proof
  | siteAccept heartbeatMs refused =>
    0x03 :: u16ToBe heartbeatMs ++ u16ToBe (UInt16.ofNat (min refused.length 4096)) ++
      (refused.take 4096).flatMap putStr8
  | siteReject cause => [0x04, cause.code]
  | heartbeat seq => 0x05 :: u32ToBe seq
  | ueAttach ue cellId imsi carrier =>
    0x10 :: u32ToBe ue ++ u32ToBe cellId ++ putStr8 imsi ++ putStr8 carrier
  | ueService ue cellId tmsi count mac =>
    0x11 :: u32ToBe ue ++ u32ToBe cellId ++ u32ToBe tmsi ++ u32ToBe count ++ mac
  | ueChallenge ue rand => 0x12 :: u32ToBe ue ++ rand
  | ueAuthResponse ue res => 0x13 :: u32ToBe ue ++ res
  | ueAccept ue session ip tmsi ctx smcMac ims =>
    0x14 :: u32ToBe ue ++ u32ToBe session ++ ip.write ++ u32ToBe tmsi ++ ctx.write ++ smcMac ++
      match ims with
      | some i => 1 :: i.write
      | none => [0]
  | ueReject ue cause => 0x15 :: u32ToBe ue ++ [cause.code]
  | ueActive session => 0x16 :: u32ToBe session
  | ueRelease session cause => 0x17 :: u32ToBe session ++ [cause.code]
  | ueIdle session => 0x18 :: u32ToBe session
  | hoRequired session targetCell => 0x20 :: u32ToBe session ++ u32ToBe targetCell
  | hoRequest ho session ue targetCell ip tmsi ctx bearers =>
    0x21 :: u32ToBe ho ++ u32ToBe session ++ u32ToBe ue ++ u32ToBe targetCell ++ ip.write ++
      u32ToBe tmsi ++ ctx.write ++ UInt8.ofNat (min bearers.length 8) ::
      (bearers.take 8).flatMap Bearer.write
  | hoRequestAck ho ueId grant => 0x22 :: u32ToBe ho ++ u16ToBe ueId ++ grant.write
  | hoFailure ho session cause => 0x23 :: u32ToBe ho ++ u32ToBe session ++ [cause.code]
  | hoCommand ho session cellId addr profile channel epoch ueId grant =>
    0x24 :: u32ToBe ho ++ u32ToBe session ++ u32ToBe cellId ++ u32ToBe addr ++ [profile, channel] ++
      u32ToBe epoch ++ u16ToBe ueId ++ grant.write
  | pathSwitch ho session => 0x25 :: u32ToBe ho ++ u32ToBe session
  | pathSwitchAck session => 0x26 :: u32ToBe session
  | page tmsi => 0x30 :: u32ToBe tmsi
  | usage session used quota => 0x31 :: u32ToBe session ++ u64ToBe used ++ u64ToBe quota
  | revoked imsi => 0x32 :: putStr8 imsi
  | bearerSetup session bearer => 0x40 :: u32ToBe session ++ bearer.write
  | bearerRelease session id => 0x41 :: u32ToBe session ++ [id]
  | bearerResult session id ok => 0x42 :: u32ToBe session ++ [id, if ok then 1 else 0]

/-- The message with its `u32` length before it. -/
def encode (m : Ctl) : List Byte := u32ToBe (UInt32.ofNat m.body.length) ++ m.body

/-- The fields of a message of type `t`. -/
def fields (t : Byte) : Reader Ctl := do
  match t.toNat with
  | 0x01 => return coreHello (← Reader.u8) (← Reader.str8) (← Reader.take 16)
  | 0x02 => do
    let version ← Reader.u8
    let siteId ← Reader.str8
    let n ← Reader.count8 12
    let cells ← Reader.many (do
      return { cellId := ← Reader.u32, profile := ← Reader.u8, channel := ← Reader.u8,
               area := ← Reader.u16, addr := ← Reader.u32 : CellInfo }) n
    return siteAuth version siteId cells (← Reader.u16) (← Reader.take 16) (← Reader.take 32)
  | 0x03 => do
    let heartbeatMs ← Reader.u16
    let n ← Reader.count16 1
    return siteAccept heartbeatMs (← Reader.many Reader.str8 n)
  | 0x04 => return siteReject (← Cause.read)
  | 0x05 => return heartbeat (← Reader.u32)
  | 0x10 => return ueAttach (← Reader.u32) (← Reader.u32) (← Reader.str8) (← Reader.str8)
  | 0x11 =>
    return ueService (← Reader.u32) (← Reader.u32) (← Reader.u32) (← Reader.u32) (← Reader.take 16)
  | 0x12 => return ueChallenge (← Reader.u32) (← Reader.take 16)
  | 0x13 => return ueAuthResponse (← Reader.u32) (← Reader.take 16)
  | 0x14 => do
    let ue ← Reader.u32
    let session ← Reader.u32
    let ip ← IpConfig.read
    let tmsi ← Reader.u32
    let ctx ← AsContext.read
    let smcMac ← Reader.take 16
    let flag ← Reader.u8
    let ims ← if flag = 0 then pure none else if flag = 1 then some <$> ImsInfo.read
      else throw (.value "ims flag")
    return ueAccept ue session ip tmsi ctx smcMac ims
  | 0x15 => return ueReject (← Reader.u32) (← Cause.read)
  | 0x16 => return ueActive (← Reader.u32)
  | 0x17 => return ueRelease (← Reader.u32) (← Cause.read)
  | 0x18 => return ueIdle (← Reader.u32)
  | 0x20 => return hoRequired (← Reader.u32) (← Reader.u32)
  | 0x21 => do
    let ho ← Reader.u32
    let session ← Reader.u32
    let ue ← Reader.u32
    let targetCell ← Reader.u32
    let ip ← IpConfig.read
    let tmsi ← Reader.u32
    let ctx ← AsContext.read
    let n ← Reader.count8 10
    return hoRequest ho session ue targetCell ip tmsi ctx (← Reader.many Bearer.read n)
  | 0x22 => return hoRequestAck (← Reader.u32) (← Reader.u16) (← Grant.read)
  | 0x23 => return hoFailure (← Reader.u32) (← Reader.u32) (← Cause.read)
  | 0x24 =>
    return hoCommand (← Reader.u32) (← Reader.u32) (← Reader.u32) (← Reader.u32) (← Reader.u8)
      (← Reader.u8) (← Reader.u32) (← Reader.u16) (← Grant.read)
  | 0x25 => return pathSwitch (← Reader.u32) (← Reader.u32)
  | 0x26 => return pathSwitchAck (← Reader.u32)
  | 0x30 => return page (← Reader.u32)
  | 0x31 => return usage (← Reader.u32) (← Reader.u64) (← Reader.u64)
  | 0x32 => return revoked (← Reader.str8)
  | 0x40 => return bearerSetup (← Reader.u32) (← Bearer.read)
  | 0x41 => return bearerRelease (← Reader.u32) (← Reader.u8)
  | 0x42 => do
    let session ← Reader.u32
    let id ← Reader.u8
    let ok ← Reader.u8
    if ok > 1 then throw (.value "bearer result")
    return bearerResult session id (ok = 1)
  | _ => throw (.type t)

/-- Decode one message body (type and fields, no length before it). -/
def decode (b : List Byte) : Except DecodeError Ctl :=
  Reader.run (do
    let t ← Reader.u8
    let m ← fields t
    Reader.end
    return m) b

/-- What a message is called in a log. -/
def name : Ctl → Str
  | coreHello .. => "CoreHello".toList
  | siteAuth .. => "SiteAuth".toList
  | siteAccept .. => "SiteAccept".toList
  | siteReject .. => "SiteReject".toList
  | heartbeat .. => "Heartbeat".toList
  | ueAttach .. => "UeAttach".toList
  | ueService .. => "UeService".toList
  | ueChallenge .. => "UeChallenge".toList
  | ueAuthResponse .. => "UeAuthResponse".toList
  | ueAccept .. => "UeAccept".toList
  | ueReject .. => "UeReject".toList
  | ueActive .. => "UeActive".toList
  | ueRelease .. => "UeRelease".toList
  | ueIdle .. => "UeIdle".toList
  | hoRequired .. => "HoRequired".toList
  | hoRequest .. => "HoRequest".toList
  | hoRequestAck .. => "HoRequestAck".toList
  | hoFailure .. => "HoFailure".toList
  | hoCommand .. => "HoCommand".toList
  | pathSwitch .. => "PathSwitch".toList
  | pathSwitchAck .. => "PathSwitchAck".toList
  | page .. => "Page".toList
  | usage .. => "Usage".toList
  | revoked .. => "Revoked".toList
  | bearerSetup .. => "BearerSetup".toList
  | bearerRelease .. => "BearerRelease".toList
  | bearerResult .. => "BearerResult".toList

end Ctl

/-- What the site's registration proof covers: both bodies, less the proof. -/
def authTranscript (hello auth : Ctl) : List Byte :=
  hello.body ++ auth.body.take (auth.body.length - 32)

/-! ## The control stream -/

/-- Splits a TCP byte stream into control messages. -/
structure Framer where
  buf : List Byte := []
  /-- A framing error: close the connection. -/
  broken : Bool := false

namespace Framer

def push (f : Framer) (bytes : List Byte) : Framer :=
  if f.broken then f else { f with buf := f.buf ++ bytes }

/-- The next complete message body (type and fields, or a sealed body). -/
def popBody (f : Framer) : Framer × Option (List Byte) :=
  match f.broken, f.buf with
  | false, a :: b :: c :: d :: rest =>
    let n := (u32FromBe a b c d).toNat
    if n = 0 ∨ n > maxControl then ({ f with broken := true }, none)
    else if rest.length < n then (f, none)
    else ({ f with buf := rest.drop n }, some (rest.take n))
  | _, _ => (f, none)

/-- The next complete plain message. -/
def pop (f : Framer) : Framer × Option Ctl :=
  match f.popBody with
  | (f, none) => (f, none)
  | (f, some b) =>
    match Ctl.decode b with
    | .ok m => (f, some m)
    | .error _ => ({ f with broken := true }, none)

end Framer

/-! ## The user plane -/

def tunnelMagic : Byte := 0xE1

/-- Bytes before the packet in a datagram. -/
def tunnelHeader : ℕ := 12

/-- Bytes sealing adds to a datagram. -/
def sealedTunnelOverhead : ℕ := 12 + 16

/-- Largest IP payload one datagram carries. -/
def maxTunnelPayload : ℕ := 1500 - 20 - 8 - sealedTunnelOverhead - tunnelHeader

/-- First of two. -/
def tfFirst : Byte := 1

/-- Second of two. -/
def tfSecond : Byte := 2

structure TunnelPacket where
  session : UInt32
  seq : UInt32
  flags : Byte
  payload : List Byte
  deriving DecidableEq

namespace TunnelPacket

def encode (p : TunnelPacket) : List Byte :=
  tunnelMagic :: p.flags :: u16ToBe 0 ++ u32ToBe p.session ++ u32ToBe p.seq ++ p.payload

def decode (b : List Byte) : Except DecodeError TunnelPacket :=
  Reader.run (do
    if (← Reader.u8) ≠ tunnelMagic then throw (.value "tunnel magic")
    let flags ← Reader.u8
    if flags &&& ~~~(tfFirst ||| tfSecond) ≠ 0 ∨ flags = tfFirst ||| tfSecond then
      throw (.value "tunnel flags")
    if (← Reader.u16) ≠ 0 then throw (.value "tunnel reserved")
    let session ← Reader.u32
    let seq ← Reader.u32
    let payload ← Reader.rest
    if payload = [] then throw .short
    return { session, seq, flags, payload }) b

end TunnelPacket

/-- One IP packet as one or two datagrams. -/
def tunnelSplit (session seq : UInt32) (ip : List Byte) : List (List Byte) :=
  if ip.length ≤ maxTunnelPayload then
    [TunnelPacket.encode { session := session, seq := seq, flags := 0, payload := ip }]
  else
    let h := (ip.length + 1) / 2
    [TunnelPacket.encode { session := session, seq := seq, flags := tfFirst, payload := ip.take h },
      TunnelPacket.encode { session := session, seq := seq, flags := tfSecond,
                            payload := ip.drop h }]

/-- Rejoins two-part packets: the first half that waits, for each session. -/
structure TunnelJoin where
  pending : OrderedMap UInt32 (UInt32 × List Byte) := ∅

namespace TunnelJoin

/-- A whole packet `(session, seq, bytes)` once complete. -/
def push (j : TunnelJoin) (p : TunnelPacket) :
    TunnelJoin × Option (UInt32 × UInt32 × List Byte) :=
  if p.flags = 0 then (j, some (p.session, p.seq, p.payload))
  else if p.flags = tfFirst then
    (⟨j.pending.insert p.session (p.seq, p.payload)⟩, none)
  else
    match j.pending[p.session]? with
    | some (seq, first) =>
      (⟨j.pending.erase p.session⟩,
        if seq = p.seq then some (p.session, seq, first ++ p.payload) else none)
    | none => (j, none)

def forget (j : TunnelJoin) (session : UInt32) : TunnelJoin := ⟨j.pending.erase session⟩

/-- A packet that comes out belongs to the session of the datagram. -/
theorem session_of_push {j j' : TunnelJoin} {p : TunnelPacket} {id seq : UInt32} {pkt : List Byte}
    (h : j.push p = (j', some (id, seq, pkt))) : id = p.session := by
  unfold push at h
  split_ifs at h with h0 h1
  · obtain ⟨-, h⟩ := Prod.mk.inj h
    obtain ⟨rfl, -⟩ := Prod.mk.inj (Option.some.inj h)
    rfl
  · cases (Prod.mk.inj h).2
  · split at h
    · obtain ⟨-, h⟩ := Prod.mk.inj h
      split_ifs at h
      obtain ⟨rfl, -⟩ := Prod.mk.inj (Option.some.inj h)
      rfl
    · cases (Prod.mk.inj h).2

end EvansComputer.Cell.TunnelJoin
