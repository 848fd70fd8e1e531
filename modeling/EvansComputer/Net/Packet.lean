import EvansComputer.Net.Types
import EvansComputer.Library.Buffer
import Mathlib

/-!
# Checksums and packet headers

The Internet checksum, and the parsers of the IPv4, UDP and TCP headers.

The sum is a 32-bit word in the source.  It is a natural number here, for it
never overflows: it is folded as soon as it passes `0xffff0000`, one addition
before the end of the range.  The fold to sixteen bits is a loop that runs while
there is a carry; `foldLoop` bounds it by two turns, and `foldLoop_lt` says that
these are enough for every 32-bit sum.
-/

namespace EvansComputer

/-! ## The Internet checksum -/

/-- One turn of the carry: the low sixteen bits plus the high ones. -/
def foldOnce (sum : ℕ) : ℕ := sum % 65536 + sum / 65536

/-- `sum_words`: the sum of the big-endian words of the data, a last odd byte
counting as the high half of a word. -/
def sumWords : ℕ → List Byte → ℕ
  | sum, a :: b :: rest =>
    let sum := sum + (u16FromBe a b).toNat
    sumWords (if 0xffff0000 < sum then foldOnce sum else sum) rest
  | sum, [b] => sum + b.toNat * 256
  | sum, [] => sum

/-- The loop of `fold`: at most `fuel` turns, while the sum has a carry. -/
def foldLoop : ℕ → ℕ → ℕ
  | 0, sum => sum
  | fuel + 1, sum => if sum / 65536 ≠ 0 then foldLoop fuel (foldOnce sum) else sum

def fold (sum : ℕ) : UInt16 := ~~~ (UInt16.ofNat (foldLoop 2 sum))

theorem foldLoop_lt {sum : ℕ} (h : sum < 2 ^ 32) : foldLoop 2 sum < 65536 := by
  have hone : foldOnce sum ≤ 131070 := by
    unfold foldOnce
    omega
  rw [foldLoop]
  split
  · generalize foldOnce sum = s at hone
    rw [foldLoop]
    split
    · rw [foldLoop, foldOnce]
      omega
    · omega
  · omega

/-- Compute the one's complement checksum over the given data.  Over data that
already contains a correct checksum, the result is `0`. -/
def internetChecksum (data : List Byte) : UInt16 := fold (sumWords 0 data)

/-- The TCP and UDP checksum, with the IPv4 pseudo-header. -/
def pseudoHeaderChecksum (src dst : Ipv4Addr) (protocol : Byte) (segment : List Byte) : UInt16 :=
  let sum := sumWords (sumWords 0 src.bytes) dst.bytes
  fold (sumWords (sum + protocol.toNat + segment.length % 65536) segment)

/-! ## IPv4 -/

def protoIcmp : Byte := 1
def protoTcp : Byte := 6
def protoUdp : Byte := 17

/-- Why a packet was rejected by `Ipv4Header.parseChecked`. -/
inductive Ipv4Error where
  | truncated
  | badVersion
  | badHeaderLength
  | badTotalLength
  | badChecksum
  deriving DecidableEq

/-- IPv4 header.  Options are skipped, not interpreted. -/
structure Ipv4Header where
  versionIhl : Byte
  dscpEcn : Byte
  totalLength : UInt16
  identification : UInt16
  flagsFragment : UInt16
  ttl : Byte
  protocol : Byte
  checksum : UInt16
  src : Ipv4Addr
  dst : Ipv4Addr
  deriving DecidableEq

namespace Ipv4Header

def headerLen (h : Ipv4Header) : ℕ := (h.versionIhl &&& 0x0f).toNat * 4

/-- More-fragments set or non-zero fragment offset. -/
def isFragment (h : Ipv4Header) : Bool :=
  h.flagsFragment &&& 0x2000 != 0 || h.flagsFragment &&& 0x1fff != 0

/-- The header fields of a buffer of at least twenty bytes. -/
def read (d : List Byte) : Ipv4Header where
  versionIhl := d.getD 0 0
  dscpEcn := d.getD 1 0
  totalLength := u16FromBe (d.getD 2 0) (d.getD 3 0)
  identification := u16FromBe (d.getD 4 0) (d.getD 5 0)
  flagsFragment := u16FromBe (d.getD 6 0) (d.getD 7 0)
  ttl := d.getD 8 0
  protocol := d.getD 9 0
  checksum := u16FromBe (d.getD 10 0) (d.getD 11 0)
  src := ⟨d.getD 12 0, d.getD 13 0, d.getD 14 0, d.getD 15 0⟩
  dst := ⟨d.getD 16 0, d.getD 17 0, d.getD 18 0, d.getD 19 0⟩

/-- Parse and validate (version, IHL, total length, header checksum).  The
payload is trimmed to `totalLength`, so that link padding is removed. -/
def parseChecked (data : List Byte) : Except Ipv4Error (Ipv4Header × List Byte) :=
  if data.length < 20 then .error .truncated
  else
    let hdr := read data
    if hdr.versionIhl >>> 4 ≠ 4 then .error .badVersion
    else if hdr.headerLen < 20 then .error .badHeaderLength
    else if data.length < hdr.headerLen then .error .truncated
    else if hdr.totalLength.toNat < hdr.headerLen ∨ data.length < hdr.totalLength.toNat then
      .error .badTotalLength
    else if internetChecksum (data.take hdr.headerLen) ≠ 0 then .error .badChecksum
    else .ok (hdr, (data.take hdr.totalLength.toNat).drop hdr.headerLen)

def parse (data : List Byte) : Option (Ipv4Header × List Byte) := (parseChecked data).toOption

/-- **What a parsed packet is**: its header fields stand in its first twenty
bytes, and its payload is what lies between the two lengths. -/
theorem parse_eq_some {p seg : List Byte} {h : Ipv4Header} (hp : parse p = some (h, seg)) :
    h = read p ∧ 20 ≤ h.headerLen ∧ h.headerLen ≤ h.totalLength.toNat ∧
      h.totalLength.toNat ≤ p.length ∧ seg = (p.take h.totalLength.toNat).drop h.headerLen := by
  unfold parse parseChecked at hp
  simp only at hp
  split_ifs at hp with h1 h2 h3 h4 h5 h6
  all_goals simp only [Except.toOption, Option.some.injEq, Prod.mk.injEq, reduceCtorEq] at hp
  obtain ⟨rfl, rfl⟩ := hp
  exact ⟨rfl, by omega, by omega, by omega, rfl⟩

end Ipv4Header

/-! ## UDP -/

namespace Udp

structure UdpHeader where
  srcPort : UInt16
  dstPort : UInt16
  length : UInt16
  checksum : UInt16
  deriving DecidableEq

/-- Parse; validates `8 ≤ length ≤ data.len()`.  The payload is trimmed to
`length`. -/
def UdpHeader.parse (data : List Byte) : Option (UdpHeader × List Byte) :=
  if data.length < 8 then none
  else
    let length := u16FromBe (data.getD 4 0) (data.getD 5 0)
    if length.toNat < 8 then none
    else if data.length < length.toNat then none
    else some
      ({ srcPort := u16FromBe (data.getD 0 0) (data.getD 1 0)
         dstPort := u16FromBe (data.getD 2 0) (data.getD 3 0)
         length := length
         checksum := u16FromBe (data.getD 6 0) (data.getD 7 0) },
        (data.take length.toNat).drop 8)

/-- A zero checksum field means "not computed" and is accepted. -/
def verifyChecksum (src dst : Ipv4Addr) (datagram : List Byte) : Bool :=
  match slice datagram 6 8 with
  | some [0, 0] => true
  | some _ => pseudoHeaderChecksum src dst protoUdp datagram == 0
  | none => false

theorem UdpHeader.length_of_parse {data : List Byte} (h : (UdpHeader.parse data).isSome) :
    8 ≤ data.length := by
  unfold UdpHeader.parse at h
  by_contra hlt
  rw [if_pos (by omega)] at h
  exact absurd h (by simp)

end Udp

/-! ## TCP -/

namespace Tcp

/-- `parse_mss`: the options are walked until the end marker; `none` ends the
walk and drops what it had found.  Every turn shortens the options, so their
length bounds the turns. -/
def parseMssLoop : ℕ → List Byte → Option UInt16 → Option UInt16
  | 0, _, mss => mss
  | _ + 1, [], mss => mss
  | fuel + 1, kind :: rest, mss =>
    if kind = 0 then mss
    else if kind = 1 then parseMssLoop fuel rest mss
    else
      match rest with
      | [] => none
      | len :: _ =>
        if len.toNat < 2 then mss
        else
          match slice (kind :: rest) 2 len.toNat with
          | none => none
          | some body =>
            parseMssLoop fuel ((kind :: rest).drop len.toNat)
              (match kind, body with
                | 2, [a, b] => some (u16FromBe a b)
                | _, _ => mss)

def parseMss (opts : List Byte) : Option UInt16 := parseMssLoop (opts.length + 1) opts none

/-- A parsed TCP header as it stands on the wire, with the MSS option. -/
structure WireHeader where
  srcPort : UInt16
  dstPort : UInt16
  seqNum : UInt32
  ackNum : UInt32
  dataOffset : Byte
  flags : Byte
  window : UInt16
  checksum : UInt16
  urgentPtr : UInt16
  mss : Option UInt16
  deriving DecidableEq

/-- `TcpHeader::parse`; validates the data offset.  Malformed options end option
parsing but do not reject the segment. -/
def WireHeader.parse (data : List Byte) : Option (WireHeader × List Byte) :=
  if data.length < 20 then none
  else
    let dataOffset := data.getD 12 0 >>> 4
    let headerLen := dataOffset.toNat * 4
    if headerLen < 20 then none
    else if data.length < headerLen then none
    else some
      ({ srcPort := u16FromBe (data.getD 0 0) (data.getD 1 0)
         dstPort := u16FromBe (data.getD 2 0) (data.getD 3 0)
         seqNum := u32FromBe (data.getD 4 0) (data.getD 5 0) (data.getD 6 0) (data.getD 7 0)
         ackNum := u32FromBe (data.getD 8 0) (data.getD 9 0) (data.getD 10 0) (data.getD 11 0)
         dataOffset := dataOffset
         flags := data.getD 13 0
         window := u16FromBe (data.getD 14 0) (data.getD 15 0)
         checksum := u16FromBe (data.getD 16 0) (data.getD 17 0)
         urgentPtr := u16FromBe (data.getD 18 0) (data.getD 19 0)
         mss := parseMss ((data.take headerLen).drop 20) },
        data.drop headerLen)

def verifyChecksum (src dst : Ipv4Addr) (segment : List Byte) : Bool :=
  20 ≤ segment.length && pseudoHeaderChecksum src dst protoTcp segment == 0

theorem WireHeader.length_of_parse {data : List Byte} (h : (WireHeader.parse data).isSome) :
    20 ≤ data.length := by
  unfold WireHeader.parse at h
  by_contra hlt
  rw [if_pos (by omega)] at h
  exact absurd h (by simp)

end EvansComputer.Tcp
