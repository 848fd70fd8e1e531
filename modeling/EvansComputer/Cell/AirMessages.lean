import EvansComputer.Cell.Air

/-!
# The messages of the air interface

A frame's payload is one plain message, or the list of items of a protected frame, each
with its type and its length before it, so that a frame can carry data and control
together.  A list of items is read strictly: an item that is malformed fails the whole list.
-/

namespace EvansComputer.Cell

/-- Air protocol version (in the system information). -/
def airVersion : Byte := 1

/-- `w.i8` -/
def i8ToBe (x : Int8) : List Byte := [x.toUInt8]

/-- `w.i16` -/
def i16ToBe (x : Int16) : List Byte := u16ToBe x.toUInt16

namespace Reader

def i8 : Reader Int8 := do return (← u8).toInt8

def i16 : Reader Int16 := do return (← u16).toInt16

end Reader

/-- A neighbour cell in the system information. -/
structure Neighbour where
  cellId : UInt32
  profile : Byte
  channel : Byte
  /-- Uplink sub-channels that cell uses (bit 0 is sub-channel 1), as last heard. -/
  ulMask : Byte
  deriving DecidableEq

namespace Neighbour

def write (n : Neighbour) : List Byte := u32ToBe n.cellId ++ [n.profile, n.channel, n.ulMask]

def read : Reader Neighbour := do
  return { cellId := ← Reader.u32, profile := ← Reader.u8, channel := ← Reader.u8,
           ulMask := ← Reader.u8 }

end Neighbour

/-- System information, broadcast with beacon offload. -/
structure SysInfo where
  version : Byte
  carrier : Str
  cellId : UInt32
  area : UInt16
  flags : Byte
  profile : Byte
  channel : Byte
  txPowerDbm : Int8
  /-- Uplink data sub-channels in use here. -/
  ulMask : Byte
  /-- The sub-channel random access uses (1 to 4). -/
  rachSub : Byte
  neighbours : List Neighbour
  deriving DecidableEq

inductive RachCause where
  | attach
  | service
  deriving DecidableEq

namespace RachCause

/-- `cause as u8` -/
def code : RachCause → Byte
  | attach => 0
  | service => 1

def read : Reader RachCause := do
  let c ← Reader.u8
  match c.toNat with
  | 0 => return attach
  | 1 => return service
  | _ => throw (.value "rach cause")

end RachCause

/-! ## Plain messages -/

/-- Plain (unprotected) messages. -/
inductive Plain where
  /-- Broadcast by beacon offload. -/
  | sysInfo (s : SysInfo)
  /-- Phone to site, on the random access sub-channel. -/
  | rachRequest (nonce : UInt32) (cause : RachCause)
  | rachResponse (nonce : UInt32) (ueId : UInt16) (grant : Grant)
  | attachRequest (imsi carrier : Str)
  | authChallenge (rand : List Byte)
  | authResponse (res : List Byte)
  | attachReject (cause : Cause)
  | securityModeCommand (epoch : UInt32) (mac : List Byte)
  /-- Idle phones that have downlink waiting. -/
  | paging (tmsis : List UInt32)
  | serviceRequest (tmsi count : UInt32) (mac : List Byte)
  deriving DecidableEq

namespace Plain

def encode : Plain → List Byte
  | sysInfo s =>
    0x01 :: s.version :: putStr8 s.carrier ++ u32ToBe s.cellId ++ u16ToBe s.area ++
      [s.flags, s.profile, s.channel] ++ i8ToBe s.txPowerDbm ++ [s.ulMask, s.rachSub] ++
      UInt8.ofNat (min s.neighbours.length 16) :: (s.neighbours.take 16).flatMap Neighbour.write
  | rachRequest nonce cause => 0x02 :: u32ToBe nonce ++ [cause.code]
  | rachResponse nonce ueId grant => 0x03 :: u32ToBe nonce ++ u16ToBe ueId ++ grant.write
  | attachRequest imsi carrier => 0x04 :: putStr8 imsi ++ putStr8 carrier
  | authChallenge rand => 0x05 :: rand
  | authResponse res => 0x06 :: res
  | attachReject cause => [0x07, cause.code]
  | securityModeCommand epoch mac => 0x08 :: u32ToBe epoch ++ mac
  | paging tmsis => 0x09 :: UInt8.ofNat (min tmsis.length 32) :: (tmsis.take 32).flatMap u32ToBe
  | serviceRequest tmsi count mac => 0x0A :: u32ToBe tmsi ++ u32ToBe count ++ mac

/-- The fields of a message of type `t`. -/
def fields (t : Byte) : Reader Plain := do
  match t.toNat with
  | 0x01 => do
    let version ← Reader.u8
    if version ≠ airVersion then throw (.value "version")
    let carrier ← Reader.str8
    let cellId ← Reader.u32
    let area ← Reader.u16
    let flags ← Reader.u8
    let profile ← Reader.u8
    let channel ← Reader.u8
    let txPowerDbm ← Reader.i8
    let ulMask ← Reader.u8
    let rachSub ← Reader.u8
    if ¬ (1 ≤ rachSub ∧ rachSub ≤ 4) then throw (.value "rach sub-channel")
    let n ← Reader.count8 7
    let neighbours ← Reader.many Neighbour.read n
    return sysInfo { version, carrier, cellId, area, flags, profile, channel, txPowerDbm, ulMask,
                     rachSub,
                     neighbours }
  | 0x02 => return rachRequest (← Reader.u32) (← RachCause.read)
  | 0x03 => return rachResponse (← Reader.u32) (← Reader.u16) (← Grant.read)
  | 0x04 => return attachRequest (← Reader.str8) (← Reader.str8)
  | 0x05 => return authChallenge (← Reader.take 16)
  | 0x06 => return authResponse (← Reader.take 16)
  | 0x07 => return attachReject (← Cause.read)
  | 0x08 => return securityModeCommand (← Reader.u32) (← Reader.take 16)
  | 0x09 => do
    let n ← Reader.count8 4
    return paging (← Reader.many Reader.u32 n)
  | 0x0A => return serviceRequest (← Reader.u32) (← Reader.u32) (← Reader.take 16)
  | _ => throw (.type t)

def decode (b : List Byte) : Except DecodeError Plain :=
  Reader.run (do
    let t ← Reader.u8
    let m ← fields t
    Reader.end
    return m) b

end Plain

/-! ## Items -/

/-- A measured cell in a measurement report. -/
structure Measurement where
  cellId : UInt32
  profile : Byte
  channel : Byte
  /-- dBm x10. -/
  rssiX10 : Int16
  /-- dB x10. -/
  sinrX10 : Int16
  ulMask : Byte
  deriving DecidableEq

namespace Measurement

def write (m : Measurement) : List Byte :=
  u32ToBe m.cellId ++ [m.profile, m.channel] ++ i16ToBe m.rssiX10 ++ i16ToBe m.sinrX10 ++ [m.ulMask]

def read : Reader Measurement := do
  return { cellId := ← Reader.u32, profile := ← Reader.u8, channel := ← Reader.u8,
           rssiX10 := ← Reader.i16,
           sinrX10 := ← Reader.i16, ulMask := ← Reader.u8 }

end Measurement

/-- Items inside a protected frame. -/
inductive Item where
  | securityModeComplete
  | attachAccept (ip : Ipv4Addr) (prefixLen : Byte) (gateway dns : Ipv4Addr) (mtu : UInt16)
      (tmsi session : UInt32)
  | attachComplete
  /-- Uplink resources (replaces the previous grant). -/
  | grant (g : Grant)
  /-- Bytes waiting to go up. -/
  | bufferStatus (bytes : UInt32)
  /-- The serving cell first, then neighbours. -/
  | measurementReport (cells : List Measurement)
  | handoverCommand (cellId addr : UInt32) (profile channel : Byte) (epoch : UInt32) (ueId : UInt16)
      (grant : Grant)
  | handoverConfirm
  | detach (cause : Cause)
  | detachAccept
  /-- The network ends the session. -/
  | release (cause : Cause)
  /-- One segment of an IP packet: a packet is `count` segments with the same `seq`. -/
  | data (seq : UInt32) (idx count : Byte) (bytes : List Byte)
  /-- The phone is away measuring other channels for these slots. -/
  | measGap (fromSlot toSlot : UInt64)
  | keepalive
  /-- After `attachAccept`: the IMS bearer. -/
  | ims (i : ImsInfo)
  | bearerSetup (b : Bearer)
  | bearerRelease (id : Byte)
  | idleRequest
  deriving DecidableEq

/-- Item framing overhead. -/
def itemHeader : ℕ := 3

/-- Bytes a data item adds to its segment. -/
def dataOverhead : ℕ := itemHeader + 4 + 1 + 1

namespace Item

/-- The type of an item, and its fields. -/
def body : Item → Byte × List Byte
  | securityModeComplete => (0x20, [])
  | attachAccept ip prefixLen gateway dns mtu tmsi session =>
    (0x21, ip.bytes ++ [prefixLen] ++ gateway.bytes ++ dns.bytes ++ u16ToBe mtu ++ u32ToBe tmsi ++
      u32ToBe session)
  | attachComplete => (0x22, [])
  | grant g => (0x23, g.write)
  | bufferStatus bytes => (0x24, u32ToBe bytes)
  | measurementReport cells =>
    (0x25, UInt8.ofNat (min cells.length 16) :: (cells.take 16).flatMap Measurement.write)
  | handoverCommand cellId addr profile channel epoch ueId g =>
    (0x26, u32ToBe cellId ++ u32ToBe addr ++ [profile, channel] ++ u32ToBe epoch ++
      u16ToBe ueId ++ g.write)
  | handoverConfirm => (0x27, [])
  | detach cause => (0x28, [cause.code])
  | detachAccept => (0x29, [])
  | release cause => (0x2A, [cause.code])
  | data seq idx count bytes => (0x2B, u32ToBe seq ++ [idx, count] ++ bytes)
  | measGap fromSlot toSlot => (0x2C, u64ToBe fromSlot ++ u64ToBe toSlot)
  | keepalive => (0x2D, [])
  | ims i => (0x2E, i.write)
  | bearerSetup b => (0x2F, b.write)
  | bearerRelease id => (0x30, [id])
  | idleRequest => (0x31, [])

/-- An item behind its type and the `u16` length of its body. -/
def write (it : Item) : List Byte :=
  it.body.1 :: u16ToBe (UInt16.ofNat it.body.2.length) ++ it.body.2

def encodedLen (it : Item) : ℕ := it.write.length

/-- The fields of an item of type `t`. -/
def fields (t : Byte) : Reader Item := do
  match t.toNat with
  | 0x20 => return securityModeComplete
  | 0x21 => do
    let ip ← Reader.ip
    let prefixLen ← Reader.u8
    if prefixLen > 32 then throw (.value "prefix")
    return attachAccept ip prefixLen (← Reader.ip) (← Reader.ip) (← Reader.u16) (← Reader.u32)
      (← Reader.u32)
  | 0x22 => return attachComplete
  | 0x23 => return grant (← Grant.read)
  | 0x24 => return bufferStatus (← Reader.u32)
  | 0x25 => do
    let n ← Reader.count8 11
    return measurementReport (← Reader.many Measurement.read n)
  | 0x26 =>
    return handoverCommand (← Reader.u32) (← Reader.u32) (← Reader.u8) (← Reader.u8) (← Reader.u32)
      (← Reader.u16) (← Grant.read)
  | 0x27 => return handoverConfirm
  | 0x28 => return detach (← Cause.read)
  | 0x29 => return detachAccept
  | 0x2A => return release (← Cause.read)
  | 0x2B => do
    let seq ← Reader.u32
    let idx ← Reader.u8
    let count ← Reader.u8
    if count = 0 ∨ idx ≥ count then throw (.value "segment")
    return data seq idx count (← Reader.rest)
  | 0x2C => do
    let fromSlot ← Reader.u64
    let toSlot ← Reader.u64
    if toSlot < fromSlot then throw (.value "gap")
    return measGap fromSlot toSlot
  | 0x2D => return keepalive
  | 0x2E => return ims (← ImsInfo.read)
  | 0x2F => return bearerSetup (← Bearer.read)
  | 0x30 => return bearerRelease (← Reader.u8)
  | 0x31 => return idleRequest
  | _ => throw (.type t)

def read (t : Byte) (b : List Byte) : Except DecodeError Item :=
  Reader.run (do
    let it ← fields t
    Reader.end
    return it) b

end Item

def encodeItems (items : List Item) : List Byte := items.flatMap Item.write

/-- The next item of a list, behind those already read. -/
def nextItem (out : List Item) (b : List Byte) : Except DecodeError (List Item × List Byte) := do
  let ((t, body), rest) ← (do return (← Reader.u8, ← Reader.blob16) : Reader (Byte × List Byte)) b
  let it ← Item.read t body
  return (out ++ [it], rest)

/-- Strict: any malformed item fails the whole list. -/
def decodeItems (b : List Byte) : Except DecodeError (List Item) := do
  let out ← readAll nextItem [] b
  if out = [] then throw (.value "empty item list")
  return out

end EvansComputer.Cell
