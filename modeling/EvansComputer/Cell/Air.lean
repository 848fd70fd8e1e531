import EvansComputer.Cell.Codec

/-!
# Air-interface messages

What a phone and a cell site say to each other: plain messages before protection
starts, and lists of items inside protected frames.  The core uses the parts that
travel through it: causes, grants, bearers and the IMS bearer's addresses.
-/

namespace EvansComputer.Cell

/-- Why something was refused or torn down. -/
inductive Cause where
  | unknownSubscriber
  | wrongCarrier
  | authFailed
  | revoked
  | quotaExhausted
  | coreUnavailable
  | congestion
  | userDetach
  | radioLost
  | siteShutdown
  | handoverDone
  | admin
  | sessionLost
  | inactivity
  | handoverFailed
  | protocol
  deriving DecidableEq

namespace Cause

/-- `cause as u8` -/
def code : Cause → Byte
  | unknownSubscriber => 1
  | wrongCarrier => 2
  | authFailed => 3
  | revoked => 4
  | quotaExhausted => 5
  | coreUnavailable => 6
  | congestion => 7
  | userDetach => 8
  | radioLost => 9
  | siteShutdown => 10
  | handoverDone => 11
  | admin => 12
  | sessionLost => 13
  | inactivity => 14
  | handoverFailed => 15
  | protocol => 16

/-- Every cause, in the order of the codes. -/
def all : List Cause :=
  [unknownSubscriber, wrongCarrier, authFailed, revoked, quotaExhausted,
    coreUnavailable, congestion,
    userDetach, radioLost, siteShutdown, handoverDone, admin, sessionLost, inactivity,
      handoverFailed,
    protocol]

/-- `from_code` -/
def read : Reader Cause := do
  let c ← Reader.u8
  match all.find? (·.code = c) with
  | some cause => return cause
  | none => throw (.value "cause")

def name : Cause → Str
  | unknownSubscriber => "unknown subscriber".toList
  | wrongCarrier => "wrong carrier".toList
  | authFailed => "authentication failed".toList
  | revoked => "SIM revoked".toList
  | quotaExhausted => "quota exhausted".toList
  | coreUnavailable => "core unavailable".toList
  | congestion => "congestion".toList
  | userDetach => "detached".toList
  | radioLost => "radio link lost".toList
  | siteShutdown => "site shut down".toList
  | handoverDone => "handed over".toList
  | admin => "released by the operator".toList
  | sessionLost => "session lost".toList
  | inactivity => "inactivity".toList
  | handoverFailed => "handover failed".toList
  | protocol => "protocol error".toList

/-- A cause after which the phone must not try again on its own. -/
def isPermanent : Cause → Bool
  | unknownSubscriber | authFailed | revoked | wrongCarrier => true
  | _ => false

end Cause

/-- Uplink resources granted to one phone. -/
structure Grant where
  fromSlot : UInt64
  toSlot : UInt64
  period : UInt16
  offset : UInt16
  len : UInt16
  subchannel : Byte
  cqi : Byte
  deriving DecidableEq

namespace Grant

def write (g : Grant) : List Byte :=
  u64ToBe g.fromSlot ++ u64ToBe g.toSlot ++ u16ToBe g.period ++ u16ToBe g.offset ++ u16ToBe g.len ++
    [g.subchannel, g.cqi]

def read : Reader Grant := do
  let fromSlot ← Reader.u64
  let toSlot ← Reader.u64
  let period ← Reader.u16
  let offset ← Reader.u16
  let len ← Reader.u16
  let subchannel ← Reader.u8
  let cqi ← Reader.u8
  if period = 0 ∨ len = 0 ∨ len > period ∨ offset ≥ period ∨ subchannel > 4 ∨ toSlot < fromSlot then
    throw (.value "grant")
  return { fromSlot, toSlot, period, offset, len, subchannel, cqi }

end Grant

/-- The IMS bearer a phone gets beside its default one. -/
structure ImsInfo where
  ip : Ipv4Addr
  prefixLen : Byte
  pcscf : Ipv4Addr
  domain : Str
  /-- E.164 (may be empty: no number yet). -/
  msisdn : Str
  deriving DecidableEq

namespace ImsInfo

def write (i : ImsInfo) : List Byte :=
  i.ip.bytes ++ [i.prefixLen] ++ i.pcscf.bytes ++ putStr8 i.domain ++ putStr8 i.msisdn

def read : Reader ImsInfo := do
  let ip ← Reader.ip
  let prefixLen ← Reader.u8
  let pcscf ← Reader.ip
  let domain ← Reader.str8
  let msisdn ← Reader.str8
  if prefixLen > 32 then throw (.value "prefix")
  return { ip, prefixLen, pcscf, domain, msisdn }

end ImsInfo

/-- QCI 1: conversational voice. -/
def qciVoice : Byte := 1

/-- A dedicated bearer: one UDP flow on the IMS address, with its QoS class. -/
structure Bearer where
  id : Byte
  qci : Byte
  uePort : UInt16
  remote : Ipv4Addr
  remotePort : UInt16
  deriving DecidableEq

namespace Bearer

def write (b : Bearer) : List Byte :=
  [b.id, b.qci] ++ u16ToBe b.uePort ++ b.remote.bytes ++ u16ToBe b.remotePort

def read : Reader Bearer := do
  let id ← Reader.u8
  let qci ← Reader.u8
  let uePort ← Reader.u16
  let remote ← Reader.ip
  let remotePort ← Reader.u16
  return { id, qci, uePort, remote, remotePort }

end Bearer

end EvansComputer.Cell
