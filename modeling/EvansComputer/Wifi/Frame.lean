import EvansComputer.Net.Types

/-!
# 802.11 frames

The MAC header of data frames, and the conversion between data frames and Ethernet.  A frame is
the bytes on the air without the checksum; a field is read at its offset once the header is known
to be there.
-/

namespace EvansComputer.Wifi

abbrev Bytes := List Byte

/-- The byte at an offset that is known to be there. -/
def byteAt (f : Bytes) (i : ℕ) : Byte := f.getD i 0

/-- The bytes from `i` to `j`. -/
def slice (f : Bytes) (i j : ℕ) : Bytes := (f.take j).drop i

def typeMgmt : Byte := 0
def typeData : Byte := 2

def stData : Byte := 0

def flToDs : Byte := 0x01
def flFromDs : Byte := 0x02
def flRetry : Byte := 0x08
def flProtected : Byte := 0x40
def flOrder : Byte := 0x80

def ethertypeEapol : UInt16 := 0x888e

def llcSnap : Bytes := [0xaa, 0xaa, 0x03, 0x00, 0x00, 0x00]

def isMulticast (a : MacAddr) : Bool := a.a &&& 1 ≠ 0

/-- The address at an offset. -/
def macAt (f : Bytes) (o : ℕ) : MacAddr :=
  ⟨byteAt f o, byteAt f (o + 1), byteAt f (o + 2), byteAt f (o + 3), byteAt f (o + 4),
    byteAt f (o + 5)⟩

def macBytes (m : MacAddr) : Bytes := [m.a, m.b, m.c, m.d, m.e, m.f]

/-- A little-endian word. -/
def rd16 (f : Bytes) (o : ℕ) : UInt16 :=
  UInt16.ofNat ((byteAt f o).toNat + (byteAt f (o + 1)).toNat * 256)

def frameType (f : Bytes) : Byte := (byteAt f 0 >>> 2) &&& 3

def frameSubtype (f : Bytes) : Byte := byteAt f 0 >>> 4

/-- A data frame with four addresses. -/
def hasAddr4 (f : Bytes) : Bool := f.length ≥ 2 && frameType f = typeData && byteAt f 1 &&& 3 = 3

/-- Length of the header of a management or data frame. -/
def headerLen (f : Bytes) : Option ℕ :=
  if f.length < 2 then none
  else if byteAt f 0 &&& 3 ≠ 0 then none
  else
    let len : Option ℕ :=
      if frameType f = typeMgmt then some (24 + if byteAt f 1 &&& flOrder ≠ 0 then 4 else 0)
      else if frameType f = typeData then
        some (24 + (if hasAddr4 f then 6 else 0) +
          if frameSubtype f &&& 0x08 ≠ 0 then 2 + (if byteAt f 1 &&& flOrder ≠ 0 then 4 else 0)
            else 0)
      else none
    len.filter (· ≤ f.length)

/-- The QoS control field of a QoS data frame. -/
def qosControl (f : Bytes) : Option UInt16 :=
  if f.length < 26 ∨ frameType f ≠ typeData ∨ frameSubtype f &&& 0x08 = 0 then none
  else
    let off := if hasAddr4 f then 30 else 24
    if f.length < off + 2 then none else some (rd16 f off)

/-- The traffic identifier: that of a QoS frame, else 0. -/
def tid (f : Bytes) : ℕ := ((qosControl f).map fun q => (q &&& 0x0f).toNat).getD 0

/-- The header of a frame. -/
structure Header where
  ftype : Byte
  subtype : Byte
  flags : Byte
  addr1 : MacAddr
  addr2 : MacAddr
  addr3 : MacAddr
  /-- Sequence number (12 bits). -/
  seq : UInt16
  /-- Fragment number (4 bits). -/
  frag : Byte
  addr4 : Option MacAddr
  deriving DecidableEq

namespace Header

/-- The header of a frame, and its length. -/
def parse (f : Bytes) : Option (Header × ℕ) :=
  (headerLen f).map fun hlen =>
    let sc := rd16 f 22
    ({ ftype := frameType f
       subtype := frameSubtype f
       flags := byteAt f 1
       addr1 := macAt f 4
       addr2 := macAt f 10
       addr3 := macAt f 16
       seq := sc >>> 4
       frag := (sc &&& 0x0f).toUInt8
       addr4 := if hasAddr4 f then some (macAt f 24) else none },
     hlen)

def toDs (h : Header) : Bool := h.flags &&& flToDs ≠ 0
def fromDs (h : Header) : Bool := h.flags &&& flFromDs ≠ 0
def isProtected (h : Header) : Bool := h.flags &&& flProtected ≠ 0
def retry (h : Header) : Bool := h.flags &&& flRetry ≠ 0

end Header

/-- The sequence number of a frame that is to be sent. -/
def setSeq (f : Bytes) (seq : UInt16) : Bytes :=
  if f.length ≥ 24 then
    let sc := ((seq &&& 0x0fff) <<< 4) ||| (byteAt f 22 &&& 0x0f).toUInt16
    (f.set 22 sc.toUInt8).set 23 (sc >>> 8).toUInt8
  else f

/-! ## Ethernet -/

/-- An Ethernet frame as a data frame from a station to its access point. -/
def ethernetToDataTods (eth : Bytes) (bssid : MacAddr) : Option Bytes :=
  if eth.length < 14 then none
  else some ([(typeData <<< 2) ||| (stData <<< 4), flToDs, 0, 0] ++ macBytes bssid ++
    slice eth 6 12 ++ slice eth 0 6 ++ [0, 0] ++
    llcSnap ++ eth.drop 12)

/-- A data frame as an Ethernet frame. -/
def dataToEthernet (mpdu : Bytes) : Option Bytes :=
  match Header.parse mpdu with
  | none => none
  | some (h, hlen) =>
    if h.ftype ≠ typeData ∨ h.subtype &&& 0x04 ≠ 0 then none
    else
      let addrs : Option (MacAddr × MacAddr) :=
        match h.toDs, h.fromDs with
        | false, false => some (h.addr1, h.addr2)
        | false, true => some (h.addr1, h.addr3)
        | true, false => some (h.addr3, h.addr2)
        | true, true => h.addr4.map fun a => (h.addr3, a)
      addrs.map fun (da, sa) =>
        let body := mpdu.drop hlen
        if body.length ≥ 8 ∧ slice body 0 3 = slice llcSnap 0 3 ∧
          (slice body 3 6 = [0, 0, 0] ∨ slice body 3 6 = [0, 0, 0xf8]) then
          macBytes da ++ macBytes sa ++ body.drop 6
        else macBytes da ++ macBytes sa ++ u16ToBe (UInt16.ofNat body.length) ++ body

/-- What kind of packet an Ethernet frame carries. -/
def ethertype (eth : Bytes) : Option UInt16 :=
  if eth.length < 14 then none else some (u16FromBe (byteAt eth 12) (byteAt eth 13))

end EvansComputer.Wifi
