import EvansComputer.Wifi.Frame
import Mathlib

/-!
# CCMP

The protection of data frames: the packet number that goes with each frame, the nonce and the
authenticated data that are made of the header, and the counters that refuse a packet number which
is not new.

AES-CCM itself is not part of the repository.  It is a parameter, `Ccm`: what it makes of a message
under a key, and what it makes of that again.
-/

namespace EvansComputer.Wifi

/-- AES-CCM with a tag of 8 bytes and a nonce of 13. -/
structure Ccm where
  /-- The ciphertext and the tag. -/
  encrypt : (tk nonce aad body : Bytes) → Bytes × Bytes
  decrypt : (tk nonce aad body tag : Bytes) → Option Bytes

def ccmpHdrLen : ℕ := 8
def ccmpMicLen : ℕ := 8

/-- Byte `i` of a packet number, the least significant first. -/
def pnByte (pn i : ℕ) : Byte := UInt8.ofNat (pn / 256 ^ i)

/-- The CCMP header of a packet number. -/
def ccmpHeader (pn : ℕ) (keyId : Byte) : Bytes :=
  [pnByte pn 0, pnByte pn 1, 0, (0x20 : Byte) ||| ((keyId &&& 3) <<< 6), pnByte pn 2, pnByte pn 3,
    pnByte pn 4, pnByte pn 5]

/-- The packet number and the key id of a CCMP header. -/
def parseCcmpHeader (h : Bytes) : Option (ℕ × Byte) :=
  if h.length < 8 ∨ byteAt h 3 &&& 0x20 = 0 then none
  else
    some ((byteAt h 0).toNat + (byteAt h 1).toNat * 256 + (byteAt h 4).toNat * 256 ^ 2 +
      (byteAt h 5).toNat * 256 ^ 3 +
        (byteAt h 6).toNat * 256 ^ 4 + (byteAt h 7).toNat * 256 ^ 5,
      byteAt h 3 >>> 6)

/-- The nonce of a packet. -/
def ccmpNonce (hdr : Bytes) (pn : ℕ) : Bytes :=
  let flags : Byte :=
    if frameType hdr = typeMgmt then 0x10
    else ((qosControl hdr).map fun qc => (qc &&& 0x0f).toUInt8).getD 0
  [flags] ++ slice hdr 10 16 ++
    [pnByte pn 5, pnByte pn 4, pnByte pn 3, pnByte pn 2, pnByte pn 1, pnByte pn 0]

/-- What of the header is authenticated. -/
def ccmpAad (hdr : Bytes) : Bytes :=
  let hlen := min ((headerLen hdr).getD 24) hdr.length
  let isQos := (qosControl hdr).isSome
  let fc0 := if frameType hdr = typeData then byteAt hdr 0 &&& ~~~0x70 else byteAt hdr 0
  -- Retry, PwrMgt and MoreData may change on the way
  let fc1 := (byteAt hdr 1 &&& ~~~(0x08 ||| 0x10 ||| 0x20)) ||| flProtected
  let fc1 := if isQos then fc1 &&& ~~~flOrder else fc1
  let off := if hasAddr4 hdr then 30 else 24
  [fc0, fc1] ++ slice hdr 4 22 ++ [byteAt hdr 22 &&& 0x0f, 0] ++
    (if hasAddr4 hdr then slice hdr 24 30 else []) ++
    (if isQos && hlen ≥ off + 2 then [byteAt hdr off &&& 0x8f, 0] else [])

/-- A frame with its Protected bit set, the CCMP header, the ciphertext and the tag. -/
def ccmpEncrypt (c : Ccm) (tk mpdu : Bytes) (pn : ℕ) (keyId : Byte) : Option Bytes :=
  (headerLen mpdu).map fun hlen =>
    let hdr := mpdu.take hlen
    let hdr := hdr.set 1 (byteAt hdr 1 ||| flProtected)
    let (body, tag) := c.encrypt tk (ccmpNonce hdr pn) (ccmpAad hdr) (mpdu.drop hlen)
    hdr ++ ccmpHeader pn keyId ++ body ++ tag

/-- The packet number and the key id of a protected frame, read before it is decrypted. -/
def ccmpPeek (mpdu : Bytes) : Option (ℕ × Byte) :=
  (headerLen mpdu).bind fun hlen =>
    if mpdu.length < hlen + 8 then none else parseCcmpHeader (slice mpdu hlen (hlen + 8))

/-- The frame in the clear, with its Protected bit cleared. -/
def ccmpDecrypt (c : Ccm) (tk mpdu : Bytes) : Option Bytes :=
  (headerLen mpdu).bind fun hlen =>
    if mpdu.length < hlen + ccmpHdrLen + ccmpMicLen ∨ byteAt mpdu 1 &&& flProtected = 0 then none
    else
      let hdr := mpdu.take hlen
      (parseCcmpHeader (slice mpdu hlen (hlen + 8))).bind fun (pn, _) =>
        let bodyEnd := mpdu.length - ccmpMicLen
        (c.decrypt tk (ccmpNonce hdr pn) (ccmpAad hdr) (slice mpdu (hlen + 8) bodyEnd)
          (mpdu.drop bodyEnd)).map fun body =>
          hdr.set 1 (byteAt hdr 1 &&& ~~~flProtected) ++ body

/-! ## Counters -/

/-- The last packet number accepted, by TID. -/
structure ReplayCounters where
  last : ℕ → Option ℕ := fun _ => none

namespace ReplayCounters

/-- Every counter starts at `rsc`. -/
def withStart (rsc : ℕ) : ReplayCounters :=
  { last := fun idx => if idx < 17 then some rsc else none }

/-- Would `pn` be accepted on the counter `idx`? -/
def check (r : ReplayCounters) (idx pn : ℕ) : Bool :=
  match r.last (min idx 16) with
  | some l => pn > l
  | none => true

def update (r : ReplayCounters) (idx pn : ℕ) : ReplayCounters :=
  { last := fun i => if i = min idx 16 then some pn else r.last i }

variable {r : ReplayCounters} {idx pn : ℕ}

theorem check_update (idx' pn' : ℕ) : (r.update idx pn).check idx' pn' = if min idx' 16 =
    min idx 16 then decide (pn' > pn) else r.check idx' pn' := by
  unfold check update
  dsimp only
  by_cases h : min idx' 16 = min idx 16
  · rw [if_pos h, if_pos h]
  · rw [if_neg h, if_neg h]

/-- A packet number that was refused stays refused. -/
theorem check_update_of_check {idx' pn' : ℕ} (h : r.check idx' pn' = false)
    (hnew : r.check idx pn = true) : (r.update idx pn).check idx' pn' = false := by
  rw [check_update]
  split
  · rename_i heq
    unfold check at h hnew
    rw [heq] at h
    cases hl : r.last (min idx 16) with
    | none => rw [hl] at h; cases h
    | some l =>
      rw [hl] at h hnew
      simp only [decide_eq_false_iff_not, decide_eq_true_eq] at *
      omega
  · exact h

end ReplayCounters

/-- The packet number of the last frame sent under a key. -/
structure TxPn where
  pn : ℕ := 0
  deriving DecidableEq

/-- The next packet number; none is left after `2 ^ 48 - 1`. -/
def TxPn.next (p : TxPn) : Option (ℕ × TxPn) :=
  if p.pn ≥ 2 ^ 48 - 1 then none else some (p.pn + 1, ⟨p.pn + 1⟩)

end EvansComputer.Wifi
