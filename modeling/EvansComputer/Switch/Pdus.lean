import EvansComputer.Switch.Frame

/-!
# Control frames

What a spanning-tree frame and a link-aggregation frame say.  Both travel to a reserved group
address; the first in an 802.3 frame with a length and the STP LLC header, the second under
the slow-protocols EtherType.
-/

namespace EvansComputer.Switch

/-! ## BPDUs -/

def flagTc : Byte := 0x01
def flagTcAck : Byte := 0x80

/-- Port role in the flags of a BPDU. -/
inductive BpduRole where
  | unknown
  | alternateOrBackup
  | root
  | designated
  deriving DecidableEq

def BpduRole.bits : BpduRole → Byte
  | unknown => 0
  | alternateOrBackup => 1
  | root => 2
  | designated => 3

def BpduRole.fromBits (b : Byte) : BpduRole :=
  if b &&& 3 = 1 then alternateOrBackup
  else if b &&& 3 = 2 then root
  else if b &&& 3 = 3 then designated
  else unknown

/-- Body of a BPDU.  Times are in 1/256 s. -/
structure BpduBody where
  flags : Byte
  rootId : UInt64
  rootPathCost : UInt32
  bridgeId : UInt64
  portId : UInt16
  messageAge : UInt16
  maxAge : UInt16
  helloTime : UInt16
  forwardDelay : UInt16
  deriving DecidableEq

namespace BpduBody

/-- The role in the flags. -/
def role (b : BpduBody) : BpduRole := .fromBits (b.flags >>> 2)

def withRole (b : BpduBody) (r : BpduRole) : BpduBody :=
  { b with flags := (b.flags &&& ~~~(0x0c : Byte)) ||| (r.bits <<< 2) }

end BpduBody

/-- A BPDU of one of its kinds. -/
inductive Bpdu where
  | config (body : BpduBody)
  | tcn
  | rst (body : BpduBody)
  deriving DecidableEq

def u64At (b : List Byte) (off : ℕ) : Option UInt64 := do
  let hi ← be32 b off
  let lo ← be32 b (off + 4)
  return UInt64.ofNat (hi.toNat * 4294967296 + lo.toNat)

def bpduBody (b : List Byte) : Option BpduBody := do
  return {
    flags := ← b[4]?
    rootId := ← u64At b 5
    rootPathCost := ← be32 b 13
    bridgeId := ← u64At b 17
    portId := ← be16 b 25
    messageAge := ← be16 b 27
    maxAge := ← be16 b 29
    helloTime := ← be16 b 31
    forwardDelay := ← be16 b 33 }

/-- The octets that follow the LLC header. -/
def Bpdu.decode (b : List Byte) : Option Bpdu := do
  let protocol ← be16 b 0
  let version ← b[2]?
  let ty ← b[3]?
  if protocol ≠ 0 then none
  else if ty = 0x80 ∧ b.length ≥ 4 then some .tcn
  else if ty = 0x00 ∧ b.length ≥ 35 then (bpduBody b).map .config
  -- RST BPDUs from future versions too
  else if ty = 0x02 ∧ version ≥ 2 ∧ b.length ≥ 36 then (bpduBody b).map .rst
  else none

/-- A frame as a BPDU. -/
def Bpdu.parseFrame (f : Frame) : Option Bpdu := do
  let e ← parseEth f
  if e.dst ≠ stpGroup ∨ e.ethertype > 1500 then none
  else do
    let llc ← bytesAt f e.payloadOff e.ethertype.toNat
    if llc.take 3 ≠ [0x42, 0x42, 0x03] then none
    else Bpdu.decode (llc.drop 3)

/-! ## LACPDUs -/

def stActivity : Byte := 0x01
def stTimeout : Byte := 0x02
def stAggregation : Byte := 0x04
def stSync : Byte := 0x08
def stCollecting : Byte := 0x10
def stDistributing : Byte := 0x20
def stDefaulted : Byte := 0x40
def stExpired : Byte := 0x80

/-- Actor or partner information. -/
structure LacpInfo where
  systemPriority : UInt16 := 0
  system : MacAddr := .zero
  key : UInt16 := 0
  portPriority : UInt16 := 0
  port : UInt16 := 0
  state : Byte := 0
  deriving DecidableEq

/-- Everything except the state byte. -/
def LacpInfo.sameIdentity (i o : LacpInfo) : Bool :=
  i.systemPriority = o.systemPriority && i.system = o.system && i.key = o.key &&
    i.portPriority = o.portPriority && i.port = o.port

/-- An LACPDU. -/
structure Lacpdu where
  actor : LacpInfo
  partner : LacpInfo

def getInfo (b : List Byte) (off : ℕ) (ty : Byte) : Option LacpInfo := do
  let t ← b[off]?
  let n ← b[off + 1]?
  if t ≠ ty ∨ n ≠ 20 then none
  else do
    return {
      systemPriority := ← be16 b (off + 2)
      system := ← macAt b (off + 4)
      key := ← be16 b (off + 10)
      portPriority := ← be16 b (off + 12)
      port := ← be16 b (off + 14)
      state := ← b[off + 16]? }

/-- A payload, from the subtype octet on. -/
def Lacpdu.decode (b : List Byte) : Option Lacpdu :=
  if b.length < 60 ∨ b[0]? ≠ some 0x01 ∨ b[1]? = some 0 then none
  else do
    let actor ← getInfo b 2 0x01
    let partner ← getInfo b 22 0x02
    if b[42]? ≠ some 0x03 ∨ b[43]? ≠ some 16 ∨ b[58]? ≠ some 0x00 ∨ b[59]? ≠ some 0x00 then none
    else return { actor, partner }

/-- A slow-protocols frame as an LACPDU. -/
def Lacpdu.parseFrame (f : Frame) : Option Lacpdu := do
  let e ← parseEth f
  if e.ethertype ≠ ethertypeSlow ∨ e.dst ≠ slowProtocolsGroup then none
  else Lacpdu.decode (f.drop e.payloadOff)

end EvansComputer.Switch
