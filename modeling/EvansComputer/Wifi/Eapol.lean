import EvansComputer.Wifi.Frame

/-!
# Key frames of the handshakes

EAPOL-Key frames as the 4-way and the group key handshake use them, the pairwise key that both ends
derive, and the key data that comes wrapped in message 3.

HMAC-SHA1 and the AES key wrap are not part of the repository; they are the parameter `WpaCrypto`.
-/

namespace EvansComputer.Wifi

/-- The primitives of the handshake. -/
structure WpaCrypto where
  hmacSha1 : (key message : Bytes) → Bytes
  aesUnwrap : (kek data : Bytes) → Option Bytes

/-- The number that big-endian bytes stand for. -/
def beNat (l : Bytes) : ℕ := l.foldl (fun n b => n * 256 + b.toNat) 0

/-- The last `n` bytes of a number, most significant first. -/
def beBytes : ℕ → ℕ → Bytes
  | 0, _ => []
  | n + 1, v => beBytes n (v / 256) ++ [UInt8.ofNat v]

/-! ## The pairwise key -/

/-- Confirmation, encryption and temporal key. -/
structure Ptk where
  kck : Bytes
  kek : Bytes
  tk : Bytes
  deriving DecidableEq

/-- The 802.11 PRF, to `len` bytes at least. -/
def prfFrom (c : WpaCrypto) (key label data : Bytes) (len : ℕ) : ℕ → Byte → Bytes → Bytes
  | 0, _, out => out
  | fuel + 1, i, out =>
    if out.length < len then prfFrom c key label data len fuel (i + 1)
      (out ++ c.hmacSha1 key (label ++ [0] ++ data ++ [i]))
    else out

/-- The pseudo random function of 802.11i. -/
def prf (c : WpaCrypto) (key label data : Bytes) (len : ℕ) : Bytes :=
  (prfFrom c key label data len len 0 []).take len

/-- `Pairwise key expansion` -/
def pairwiseLabel : Bytes :=
  [0x50, 0x61, 0x69, 0x72, 0x77, 0x69, 0x73, 0x65, 0x20, 0x6b, 0x65, 0x79, 0x20, 0x65, 0x78, 0x70,
    0x61, 0x6e, 0x73, 0x69, 0x6f,
    0x6e]

/-- Both addresses and both nonces, the smaller one first. -/
def ptkData (aa spa : MacAddr) (anonce snonce : Bytes) : Bytes :=
  (if macBytes aa ≤ macBytes spa then macBytes aa ++ macBytes spa
    else macBytes spa ++ macBytes aa) ++
    if anonce ≤ snonce then anonce ++ snonce else snonce ++ anonce

/-- The pairwise key of two nonces. -/
def derivePtk (c : WpaCrypto) (pmk : Bytes) (aa spa : MacAddr) (anonce snonce : Bytes) : Ptk :=
  let b := prf c pmk pairwiseLabel (ptkData aa spa anonce snonce) 48
  ⟨slice b 0 16, slice b 16 32, slice b 32 48⟩

/-- The check of an EAPOL frame. -/
def eapolMic (c : WpaCrypto) (kck frame : Bytes) : Bytes := (c.hmacSha1 kck frame).take 16

/-! ## Key frames -/

def kiVersionAesSha1 : UInt16 := 0x0002
def kiPairwise : UInt16 := 0x0008
def kiInstall : UInt16 := 0x0040
def kiAck : UInt16 := 0x0080
def kiMic : UInt16 := 0x0100
def kiSecure : UInt16 := 0x0200
def kiRequest : UInt16 := 0x0800
def kiEncKeyData : UInt16 := 0x1000

def keyFrameMin : ℕ := 99
def micOffset : ℕ := 81

/-- An EAPOL-Key frame. -/
structure KeyFrame where
  version : Byte
  keyInfo : UInt16
  keyLen : UInt16 := 0
  replayCounter : ℕ := 0
  nonce : Bytes := List.replicate 32 0
  iv : Bytes := List.replicate 16 0
  rsc : ℕ := 0
  mic : Bytes := List.replicate 16 0
  keyData : Bytes := []
  deriving DecidableEq

namespace KeyFrame

/-- Is this bit of the key information set? -/
def has (k : KeyFrame) (bit : UInt16) : Bool := k.keyInfo &&& bit ≠ 0

def descriptorVersion (k : KeyFrame) : UInt16 := k.keyInfo &&& 0x0007

/-- A whole EAPOL frame; what is after its body is ignored. -/
def parse (b : Bytes) : Option KeyFrame :=
  if b.length < keyFrameMin ∨ byteAt b 1 ≠ 3 ∨ byteAt b 4 ≠ 2 then none
  else
    let bodyLen := (u16FromBe (byteAt b 2) (byteAt b 3)).toNat
    if b.length < 4 + bodyLen ∨ bodyLen < keyFrameMin - 4 then none
    else
      let kdLen := (u16FromBe (byteAt b 97) (byteAt b 98)).toNat
      if 99 + kdLen > 4 + bodyLen then none
      else
        some
          { version := byteAt b 0
            keyInfo := u16FromBe (byteAt b 5) (byteAt b 6)
            keyLen := u16FromBe (byteAt b 7) (byteAt b 8)
            replayCounter := beNat (slice b 9 17)
            nonce := slice b 17 49
            iv := slice b 49 65
            rsc := beNat (slice b 65 73).reverse
            mic := slice b 81 97
            keyData := slice b 99 (99 + kdLen) }

def toBytes (k : KeyFrame) : Bytes :=
  [k.version, 3] ++ u16ToBe (UInt16.ofNat (95 + k.keyData.length)) ++ [2] ++ u16ToBe k.keyInfo ++
    u16ToBe k.keyLen ++
    beBytes 8 k.replayCounter ++ k.nonce ++ k.iv ++ (beBytes 8 k.rsc).reverse ++
      List.replicate 8 0 ++ k.mic ++
    u16ToBe (UInt16.ofNat k.keyData.length) ++ k.keyData

/-- The frame with its MIC. -/
def toSignedBytes (c : WpaCrypto) (k : KeyFrame) (kck : Bytes) : Bytes :=
  let k := { k with mic := List.replicate 16 0 }
  { k with mic := eapolMic c kck k.toBytes }.toBytes

end KeyFrame

/-- Is the MIC of a received frame right? -/
def verifyMicRaw (c : WpaCrypto) (kck eapol : Bytes) : Bool :=
  if eapol.length < keyFrameMin then false
  else
    let z := eapol.take (min (4 + (u16FromBe (byteAt eapol 2) (byteAt eapol 3)).toNat) eapol.length)
    let cleared := z.take micOffset ++ List.replicate 16 0 ++ z.drop (micOffset + 16)
    eapolMic c kck cleared = slice z micOffset (micOffset + 16)

/-! ## Key data -/

/-- A group key in the key data. -/
structure GtkKde where
  keyId : Byte
  gtk : Bytes
  deriving DecidableEq

/-- The RSN element, with its id and length, and the group key. -/
structure KeyData where
  rsnIe : Option Bytes := none
  gtk : Option GtkKde := none
  deriving DecidableEq

/-- The elements of the key data, up to the padding. -/
def parseKeyDataFrom (b : Bytes) : ℕ → ℕ → KeyData → KeyData
  | 0, _, kd => kd
  | fuel + 1, p, kd =>
    if p + 2 > b.length then kd
    else
      let id := byteAt b p
      let len := (byteAt b (p + 1)).toNat
      if id = 0xdd ∧ len = 0 then kd
      else if p + 2 + len > b.length then kd
      else
        let d := slice b (p + 2) (p + 2 + len)
        let kd :=
          if id = 0x30 ∧ kd.rsnIe.isNone then { kd with rsnIe := some (slice b p (p + 2 + len)) }
          else if id = 0xdd ∧ len ≥ 6 ∧ slice d 0 3 = [0x00, 0x0f, 0xac] ∧ byteAt d 3 = 1 then
            { kd with gtk := some ⟨byteAt d 4 &&& 3, d.drop 6⟩ }
          else kd
        parseKeyDataFrom b fuel (p + 2 + len) kd

/-- The elements of the key data. -/
def parseKeyData (b : Bytes) : KeyData := parseKeyDataFrom b (b.length + 1) 0 {}

end EvansComputer.Wifi
