import Mathlib.Order.Defs.LinearOrder
import Mathlib.Order.Basic
import Mathlib.Data.Nat.Basic

/-!
# Addresses and errors

The types every other module shares: IPv4 addresses as the four bytes they are
on the wire, socket addresses, and the error codes of the network stack.

An address is read as a big-endian word for masks and for comparison.  The
derived order of a byte array is the lexicographic one, which is the order of
those words, so `Ipv4Addr` is ordered through `toU32`.
-/

namespace EvansComputer

/-- A byte of a buffer, a segment or a message. -/
abbrev Byte := UInt8

/-- A big-endian 16-bit word. -/
def u16FromBe (a b : Byte) : UInt16 := UInt16.ofNat (a.toNat * 256 + b.toNat)

/-- A big-endian 32-bit word. -/
def u32FromBe (a b c d : Byte) : UInt32 :=
  UInt32.ofNat (((a.toNat * 256 + b.toNat) * 256 + c.toNat) * 256 + d.toNat)

/-- The bytes of a 16-bit word, most significant first. -/
def u16ToBe (n : UInt16) : List Byte :=
  [UInt8.ofNat (n.toNat / 256), UInt8.ofNat n.toNat]

/-- The bytes of a 32-bit word, most significant first. -/
def u32ToBe (n : UInt32) : List Byte :=
  [UInt8.ofNat (n.toNat / 16777216), UInt8.ofNat (n.toNat / 65536),
    UInt8.ofNat (n.toNat / 256), UInt8.ofNat n.toNat]

@[simp] theorem length_u16ToBe (n : UInt16) : (u16ToBe n).length = 2 := rfl

@[simp] theorem length_u32ToBe (n : UInt32) : (u32ToBe n).length = 4 := rfl

/-- A word survives its two bytes. -/
theorem u16FromBe_u16ToBe (n : UInt16) :
    u16FromBe (UInt8.ofNat (n.toNat / 256)) (UInt8.ofNat n.toNat) = n := by
  have hn : n.toNat < 65536 := n.toNat_lt
  apply UInt16.toNat_inj.mp
  simp only [u16FromBe, UInt16.toNat_ofNat', UInt8.toNat_ofNat']
  omega

/-- A word survives its four bytes. -/
theorem u32FromBe_u32ToBe (n : UInt32) :
    u32FromBe (UInt8.ofNat (n.toNat / 16777216)) (UInt8.ofNat (n.toNat / 65536))
      (UInt8.ofNat (n.toNat / 256)) (UInt8.ofNat n.toNat) = n := by
  have hn : n.toNat < 4294967296 := n.toNat_lt
  apply UInt32.toNat_inj.mp
  simp only [u32FromBe, UInt32.toNat_ofNat', UInt8.toNat_ofNat']
  omega

/-- An IPv4 address: its four bytes in wire order. -/
structure Ipv4Addr where
  a : Byte
  b : Byte
  c : Byte
  d : Byte
  deriving DecidableEq

namespace Ipv4Addr

def zero : Ipv4Addr := ⟨0, 0, 0, 0⟩
def broadcast : Ipv4Addr := ⟨255, 255, 255, 255⟩

def bytes (ip : Ipv4Addr) : List Byte := [ip.a, ip.b, ip.c, ip.d]

/-- Missing bytes are zero. -/
def fromBytes (l : List Byte) : Ipv4Addr :=
  ⟨l.getD 0 0, l.getD 1 0, l.getD 2 0, l.getD 3 0⟩

def toU32 (ip : Ipv4Addr) : UInt32 := u32FromBe ip.a ip.b ip.c ip.d

def fromU32 (v : UInt32) : Ipv4Addr := fromBytes (u32ToBe v)

def isUnspecified (ip : Ipv4Addr) : Bool := ip == zero
def isBroadcast (ip : Ipv4Addr) : Bool := ip == broadcast

/-- 224.0.0.0/4 -/
def isMulticast (ip : Ipv4Addr) : Bool := ip.a &&& 0xf0 == 0xe0

def maskFromPrefix (len : UInt8) : Ipv4Addr :=
  if len = 0 then zero
  else if 32 ≤ len then broadcast
  else fromU32 (0xffffffff <<< (32 - len).toUInt32)

def sameSubnet (ip other mask : Ipv4Addr) : Bool :=
  ip.toU32 &&& mask.toU32 == other.toU32 &&& mask.toU32

def sameSubnetPrefix (ip other : Ipv4Addr) (len : UInt8) : Bool :=
  ip.sameSubnet other (maskFromPrefix len)

def networkAddr (ip : Ipv4Addr) (len : UInt8) : Ipv4Addr :=
  fromU32 (ip.toU32 &&& (maskFromPrefix len).toU32)

def broadcastAddr (ip : Ipv4Addr) (len : UInt8) : Ipv4Addr :=
  fromU32 (ip.toU32 ||| ~~~(maskFromPrefix len).toU32)

theorem toU32_injective : Function.Injective toU32 := by
  intro x y h
  have hx := x.a.toNat_lt; have hx2 := x.b.toNat_lt
  have hx3 := x.c.toNat_lt; have hx4 := x.d.toNat_lt
  have hy := y.a.toNat_lt; have hy2 := y.b.toNat_lt
  have hy3 := y.c.toNat_lt; have hy4 := y.d.toNat_lt
  have h' := congrArg UInt32.toNat h
  simp only [toU32, u32FromBe, UInt32.toNat_ofNat'] at h'
  obtain ⟨xa, xb, xc, xd⟩ := x
  obtain ⟨ya, yb, yc, yd⟩ := y
  simp only [mk.injEq, ← UInt8.toNat_inj]
  simp only at *
  omega

/-- The derived lexicographic order, as the order of the big-endian words. -/
instance : LinearOrder Ipv4Addr :=
  LinearOrder.lift' (fun ip => ip.toU32.toNat)
    (fun _ _ h => toU32_injective (UInt32.toNat_inj.mp h))

end Ipv4Addr

/-- A hardware address: its six bytes. -/
structure MacAddr where
  a : Byte
  b : Byte
  c : Byte
  d : Byte
  e : Byte
  f : Byte
  deriving DecidableEq

/-- `MacAddr::ZERO` -/
def MacAddr.zero : MacAddr := ⟨0, 0, 0, 0, 0, 0⟩

/-- An address and a port. -/
structure SocketAddr where
  ip : Ipv4Addr
  port : UInt16
  deriving DecidableEq

/-- `SocketAddr::default()`. -/
def SocketAddr.default : SocketAddr := ⟨Ipv4Addr.zero, 0⟩

/-- Network errors. -/
inductive NetError where
  | notConfigured
  | noRoute
  | arpTimeout
  | connectionRefused
  | connectionReset
  | timedOut
  | wouldBlock
  | bufferFull
  | notConnected
  | addrInUse
  | invalidPacket
  | noSockets
  | badHandle
  | hostUnreachable
  | messageTooLong
  | invalidInput
  | notFound
  | connectionAborted
  deriving DecidableEq

end EvansComputer
