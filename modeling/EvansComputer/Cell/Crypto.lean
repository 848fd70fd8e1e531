import EvansComputer.Net.Types
import Mathlib.Data.Nat.Bitwise
import Mathlib.Tactic.Common

/-!
# Air and backhaul protection

The sealed channels of the cell network: the control and tunnel channels between
a site and the core (`BhChannel`), and the frames between a phone and a base
station (`AirCipher`).  Both put a counter on the wire, seal under a nonce made of
that counter and a direction, and refuse a counter they have opened before.

The cipher is ChaCha20-Poly1305, which is not part of the repository.  It is a
parameter: `Aead` is a cipher with its key inside, and `Aead.Lawful` says what the
channels rely on.  Counters are the source's `u64`, whose addition wraps in a
release build.
-/

namespace EvansComputer.Cell

/-! ## Words and bytes -/

/-- The bytes of a 64-bit word, most significant first. -/
def u64ToBe (n : UInt64) : List Byte :=
  [UInt8.ofNat (n.toNat / 72057594037927936), UInt8.ofNat (n.toNat / 281474976710656),
    UInt8.ofNat (n.toNat / 1099511627776), UInt8.ofNat (n.toNat / 4294967296),
    UInt8.ofNat (n.toNat / 16777216), UInt8.ofNat (n.toNat / 65536),
    UInt8.ofNat (n.toNat / 256), UInt8.ofNat n.toNat]

/-- A big-endian 64-bit word. -/
def u64FromBe (l : List Byte) : UInt64 :=
  UInt64.ofNat (l.foldl (fun n b => n * 256 + b.toNat) 0)

@[simp] theorem length_u64ToBe (n : UInt64) : (u64ToBe n).length = 8 := rfl

theorem u64FromBe_u64ToBe (n : UInt64) : u64FromBe (u64ToBe n) = n := by
  have hn : n.toNat < 18446744073709551616 := n.toNat_lt
  apply UInt64.toNat_inj.mp
  simp only [u64FromBe, u64ToBe, List.foldl_cons, List.foldl_nil, UInt64.toNat_ofNat',
    UInt8.toNat_ofNat']
  omega

theorem u64ToBe_injective {m n : UInt64} (h : u64ToBe m = u64ToBe n) : m = n := by
  rw [← u64FromBe_u64ToBe m, h, u64FromBe_u64ToBe]

/-! ## The cipher -/

/-- The arguments of one call of `encrypt`. -/
structure Sealing where
  nonce : List Byte
  msg : List Byte
  aad : List Byte
  deriving DecidableEq

/-- An authenticated cipher and its key. -/
structure Aead where
  encrypt : Sealing → List Byte
  decrypt : (nonce ct aad : List Byte) → Option (List Byte)

/-- What a cipher with a tag of 16 bytes promises to whoever holds the key. -/
structure Aead.Lawful (aead : Aead) : Prop where
  length_encrypt : ∀ s, (aead.encrypt s).length = s.msg.length + 16
  decrypt_encrypt : ∀ s, aead.decrypt s.nonce (aead.encrypt s) s.aad = some s.msg

/-- A cipher for runs on fixed inputs: the message, and the nonce as its tag. -/
def Aead.plain : Aead where
  encrypt s := s.msg ++ (s.nonce ++ List.replicate 16 0).take 16
  decrypt nonce ct _ :=
    if ct.drop (ct.length - 16) = (nonce ++ List.replicate 16 0).take 16 then
      some (ct.take (ct.length - 16))
    else none

theorem Aead.plain_lawful : Aead.plain.Lawful where
  length_encrypt s := by
    simp [Aead.plain]
  decrypt_encrypt s := by
    have hlen : (s.msg ++ (s.nonce ++ List.replicate 16 0).take 16).length - 16 = s.msg.length := by
      simp
    simp only [Aead.plain, hlen, List.drop_left, List.take_left, if_true]

inductive Dir where
  | up
  | down
  deriving DecidableEq

namespace Dir

/-- `dir as u8`. -/
def byte : Dir → Byte
  | up => 1
  | down => 2

/-- The direction the other side sends in. -/
def other : Dir → Dir
  | up => down
  | down => up

@[simp] theorem other_other (d : Dir) : d.other.other = d := by cases d <;> rfl

theorem other_inj {d d' : Dir} (h : d.other = d'.other) : d = d' := by
  rw [← other_other d, h, other_other]

theorem byte_injective {d d' : Dir} (h : d.byte = d'.byte) : d = d' := by
  cases d <;> cases d' <;> first | rfl | exact absurd h (by decide)

end Dir

inductive CryptoError where
  | malformed
  /-- The frame names a key epoch we don't hold. -/
  | epoch
  /-- Authentication tag mismatch. -/
  | tag
  /-- Counter already seen or too old. -/
  | replay
  deriving DecidableEq

/-- The nonce of both channels: `dir u8 || 0 0 0 || counter u64`. -/
def nonce (dir : Dir) (counter : UInt64) : List Byte :=
  dir.byte :: 0 :: 0 :: 0 :: u64ToBe counter

theorem nonce_inj {d d' : Dir} {c c' : UInt64} (h : nonce d c = nonce d' c') : d = d' ∧ c = c' := by
  simp only [nonce, List.cons.injEq, true_and] at h
  exact ⟨Dir.byte_injective h.1, u64ToBe_injective h.2⟩

/-! ## The replay window -/

/-- Sliding 64-frame replay window. -/
structure ReplayWindow where
  /-- Highest counter accepted + 1 (0 = none yet). -/
  top : UInt64 := 0
  bits : UInt64 := 0
  deriving DecidableEq

namespace ReplayWindow

/-- Would `c` be accepted? -/
def check (w : ReplayWindow) (c : UInt64) : Bool :=
  if w.top = 0 ∨ w.top ≤ c then true
  else
    let back := w.top - 1 - c
    back < 64 ∧ w.bits &&& (1 <<< back) = 0

def accept (w : ReplayWindow) (c : UInt64) : ReplayWindow :=
  if w.top = 0 ∨ w.top ≤ c then
    let shift := if w.top = 0 then 64 else c + 1 - w.top
    let bits := if 64 ≤ shift then 0 else w.bits <<< shift
    { bits := bits ||| 1, top := c + 1 }
  else
    let back := w.top - 1 - c
    if back < 64 then { w with bits := w.bits ||| (1 <<< back) } else w

end ReplayWindow

/-! ## The backhaul channels -/

/-- First byte of a sealed control message body. -/
def sealedCtl : Byte := 0x7F

/-- First byte of a sealed tunnel datagram. -/
def sealedTunnel : Byte := 0xE2

/-- One direction pair of a backhaul channel.  `strict` is the control channel,
where a received counter has to be exactly the next one. -/
structure BhChannel where
  aead : Aead
  txDir : Dir
  txCounter : UInt64
  strict : Bool
  rxNext : UInt64
  rx : ReplayWindow
  /-- Messages that failed to open. -/
  rejected : UInt64

namespace BhChannel

/-- `site`: this side is the cell site. -/
def new (aead : Aead) (site strict : Bool) : BhChannel where
  aead := aead
  txDir := if site then .up else .down
  txCounter := 0
  strict := strict
  rxNext := 0
  rx := {}
  rejected := 0

def rxDir (ch : BhChannel) : Dir :=
  if ch.txDir = .up then .down else .up

/-- What `seal_with` gives the cipher. -/
def sealing (ch : BhChannel) (head plain : List Byte) : Sealing where
  nonce := nonce ch.txDir ch.txCounter
  msg := plain
  aad := head ++ u64ToBe ch.txCounter ++ [ch.txDir.byte]

/-- Seal a header-less plaintext behind `head`. -/
def sealWith (ch : BhChannel) (head plain : List Byte) : BhChannel × List Byte :=
  ({ ch with txCounter := ch.txCounter + 1 },
    head ++ u64ToBe ch.txCounter ++ ch.aead.encrypt (ch.sealing head plain))

/-- The counter a sealed message names behind a head of that length. -/
def counterOf (headLen : ℕ) (b : List Byte) : UInt64 :=
  u64FromBe ((b.drop headLen).take 8)

/-- The associated data `open_with` gives the cipher. -/
def openAad (ch : BhChannel) (headLen : ℕ) (b : List Byte) : List Byte :=
  b.take (headLen + 8) ++ [ch.rxDir.byte]

/-- A message that did not open is counted. -/
def reject (ch : BhChannel) (err : CryptoError) : BhChannel × Except CryptoError (List Byte) :=
  ({ ch with rejected := ch.rejected + 1 }, .error err)

def openWith (ch : BhChannel) (headLen : ℕ) (b : List Byte) :
    BhChannel × Except CryptoError (List Byte) :=
  if b.length < headLen + 8 + 16 then ch.reject .malformed
  else
    let c := counterOf headLen b
    let fresh : Bool := if ch.strict then c = ch.rxNext else ch.rx.check c
    if !fresh then ch.reject .replay
    else
      match ch.aead.decrypt (nonce ch.rxDir c) (b.drop (headLen + 8)) (ch.openAad headLen b) with
      | none => ch.reject .tag
      | some pt =>
        if ch.strict then ({ ch with rxNext := c + 1 }, .ok pt)
        else ({ ch with rx := ch.rx.accept c }, .ok pt)

/-- A control message body to the sealed message with its `u32` length prefix. -/
def sealCtl (ch : BhChannel) (body : List Byte) : BhChannel × List Byte :=
  let (ch', sealed) := ch.sealWith [sealedCtl] body
  (ch', u32ToBe (UInt32.ofNat sealed.length) ++ sealed)

/-- A sealed control body (no length prefix) to the plain body. -/
def openCtl (ch : BhChannel) (body : List Byte) : BhChannel × Except CryptoError (List Byte) :=
  if body.head? ≠ some sealedCtl then ch.reject .malformed else ch.openWith 1 body

/-- A tunnel packet to a sealed datagram. -/
def sealTunnel (ch : BhChannel) (inner : List Byte) : BhChannel × List Byte :=
  ch.sealWith [sealedTunnel, 0, 0, 0] inner

/-- A sealed datagram to the tunnel packet inside. -/
def openTunnel (ch : BhChannel) (d : List Byte) : BhChannel × Except CryptoError (List Byte) :=
  if d.take 4 ≠ [sealedTunnel, 0, 0, 0] then ch.reject .malformed else ch.openWith 4 d

end BhChannel

/-! ## The air cipher -/

/-- First byte of a protected frame. -/
def «protected» : Byte := 0x10

/-- One direction pair of an air security context. -/
structure AirCipher where
  aead : Aead
  epoch : UInt32
  txDir : Dir
  txCounter : UInt64
  rx : ReplayWindow

namespace AirCipher

/-- `ue`: this side is the phone. -/
def new (aead : Aead) (epoch : UInt32) (ue : Bool) : AirCipher where
  aead := aead
  epoch := epoch
  txDir := if ue then .up else .down
  txCounter := 0
  rx := {}

def rxDir (ch : AirCipher) : Dir :=
  if ch.txDir = .up then .down else .up

def aad (epoch counter src dst : UInt32) (dir : Dir) : List Byte :=
  «protected» :: (u32ToBe epoch ++ u32ToBe counter ++ u32ToBe src ++ u32ToBe dst ++ [dir.byte])

/-- `c as u32`, the counter that goes on the wire and into the nonce. -/
def wireCounter (ch : AirCipher) : UInt32 := ch.txCounter.toUInt32

/-- What `seal` gives the cipher. -/
def sealing (ch : AirCipher) (src dst : UInt32) (items : List Byte) : Sealing where
  nonce := nonce ch.txDir ch.wireCounter.toUInt64
  msg := items
  aad := aad ch.epoch ch.wireCounter src dst ch.txDir

/-- Protect an encoded item list sent from radio `src` to `dst`. -/
def «seal» (ch : AirCipher) (src dst : UInt32) (items : List Byte) : AirCipher × List Byte :=
  ({ ch with txCounter := ch.txCounter + 1 },
    «protected» :: (u32ToBe ch.epoch ++ u32ToBe ch.wireCounter ++
      ch.aead.encrypt (ch.sealing src dst items)))

/-- A frame's type, epoch and counter, and the rest of it. -/
def parse : List Byte → Option (Byte × UInt32 × UInt32 × List Byte)
  | t :: e₀ :: e₁ :: e₂ :: e₃ :: c₀ :: c₁ :: c₂ :: c₃ :: rest =>
    some (t, u32FromBe e₀ e₁ e₂ e₃, u32FromBe c₀ c₁ c₂ c₃, rest)
  | _ => none

/-- Verify and decrypt a protected frame from `src` to `dst`. -/
def «open» (ch : AirCipher) (src dst : UInt32) (frame : List Byte) :
    AirCipher × Except CryptoError (List Byte) :=
  match parse frame with
  | none => (ch, .error .malformed)
  | some (t, epoch, c, rest) =>
    if t ≠ «protected» ∨ rest.length < 16 then (ch, .error .malformed)
    else if epoch ≠ ch.epoch then (ch, .error .epoch)
    else if ¬ ch.rx.check c.toUInt64 then (ch, .error .replay)
    else
      match ch.aead.decrypt (nonce ch.rxDir c.toUInt64) rest (aad epoch c src dst ch.rxDir) with
      | none => (ch, .error .tag)
      | some pt => ({ ch with rx := ch.rx.accept c.toUInt64 }, .ok pt)

end EvansComputer.Cell.AirCipher
