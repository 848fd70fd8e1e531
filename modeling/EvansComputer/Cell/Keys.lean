import EvansComputer.Cell.Crypto

/-!
# Key derivation

Every key and every MAC of the cell network is an HMAC-SHA256 under an ASCII label.
The hash and the cipher are not part of the repository; `Primitives` takes them as they
come, and what a theorem needs of them it says.

A subscriber's key never leaves the SIM and the core.  From it and a challenge come the
answer to the challenge and a key with two halves: one for the keys of the air, one for
the MACs.
-/

namespace EvansComputer.Cell

/-- The third-party primitives. -/
structure Primitives where
  hmac : (key : List Byte) → (parts : List (List Byte)) → List Byte
  /-- `ChaCha20Poly1305::new` -/
  cipher : (key : List Byte) → Aead

/-- Primitives for runs on fixed inputs: the beginning of what is hashed, and a cipher that
hides nothing. -/
def Primitives.plain : Primitives where
  hmac key parts := ((key ++ parts.flatten) ++ List.replicate 32 0).take 32
  cipher _ := Aead.plain

/-- A label without a terminator. -/
def ascii (s : String) : List Byte := s.toList.map fun c => UInt8.ofNat c.toNat

def trunc16 (h : List Byte) : List Byte := h.take 16

/-- A SIM's answer to a challenge. -/
structure SimResponse where
  res : List Byte
  ks : List Byte
  deriving DecidableEq

namespace SimResponse

/-- The encryption half. -/
def ksEnc (r : SimResponse) : List Byte := r.ks.take 16

/-- The integrity half. -/
def ksInt (r : SimResponse) : List Byte := r.ks.drop 16

end SimResponse

namespace Primitives

variable (prim : Primitives)

/-- `simauth_v1` -/
def simauthV1 (k rand : List Byte) : SimResponse where
  res := (prim.hmac k [ascii "ECM-SIM-RES", rand]).take 16
  ks := prim.hmac k [ascii "ECM-SIM-KS", rand]

def asKey (ksEnc : List Byte) (cellId epoch : UInt32) : List Byte :=
  prim.hmac ksEnc [ascii "ECM-CELL-AS", u32ToBe cellId, u32ToBe epoch]

def smcMac (ksInt rand : List Byte) (cellId epoch ueAddr : UInt32) : List Byte :=
  trunc16 (prim.hmac ksInt
    [ascii "ECM-CELL-SMC", rand, u32ToBe cellId, u32ToBe epoch, u32ToBe ueAddr])

def srMac (ksInt : List Byte) (tmsi count : UInt32) : List Byte :=
  trunc16 (prim.hmac ksInt [ascii "ECM-CELL-SR", u32ToBe tmsi, u32ToBe count])

/-- The site's registration proof. -/
def siteProof (secret transcript : List Byte) : List Byte :=
  prim.hmac secret [ascii "ECM-SITE-AUTH", transcript]

/-- The control key and the tunnel key of one site connection. -/
def backhaulKeys (secret coreNonce siteNonce siteId : List Byte) : List Byte × List Byte :=
  let k := prim.hmac secret [ascii "ECM-BH-KEY", coreNonce, siteNonce, siteId]
  (prim.hmac k [ascii "ECM-BH-CTL"], prim.hmac k [ascii "ECM-BH-TUN"])

end Primitives

/-- Whether a sealed tunnel datagram would open (no state changes). -/
def BhChannel.tunnelOpens (ch : BhChannel) (d : List Byte) : Bool :=
  match (ch.openTunnel d).2 with
  | .ok _ => true
  | .error _ => false

/-- Both backhaul channels of a site connection. -/
structure Backhaul where
  ctl : BhChannel
  tun : BhChannel

/-- `site`: this side is the cell site. -/
def Backhaul.new (prim : Primitives) (secret coreNonce siteNonce siteId : List Byte) (site : Bool) :
    Backhaul :=
  let (c, t) := prim.backhaulKeys secret coreNonce siteNonce siteId
  { ctl := .new (prim.cipher c) site true
    tun := .new (prim.cipher t) site false }

end EvansComputer.Cell
