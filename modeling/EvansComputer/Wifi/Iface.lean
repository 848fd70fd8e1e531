import EvansComputer.Wifi.Ccmp

/-!
# The station interface

`Wlan` between the network stack and the air: it encrypts what the stack sends, and decrypts, checks
and converts what the access point sends.  The association is kept by the MLME, of which the
interface only asks what `MlmeOps` lists; the interface is the same over any MLME.

Statistics, link quality and the choice of a rate are left out: nothing that is sent or delivered
depends on them.
-/

namespace EvansComputer.Wifi

/-- What the interface asks of the MLME. -/
class MlmeOps (M : Type) where
  ownMac : M → MacAddr
  /-- A number that is new for each association. -/
  generation : M → UInt64
  /-- The BSSID of the associated BSS, if connected. -/
  currentBss : M → Option MacAddr
  /-- The BSSID of the BSS that is associated with, or authenticated or associated to. -/
  activeBssid : M → Option MacAddr
  /-- Was a connection with WPA2 asked for? -/
  secured : M → Bool
  nextSeq : M → UInt16 × M
  noteTx : M → ℤ → M

/-- Is it a message of the 4-way handshake? -/
def isPairwiseKeyFrame (eapol : Bytes) : Bool :=
  eapol.length ≥ 7 && byteAt eapol 1 = 3 && u16FromBe (byteAt eapol 5)
    (byteAt eapol 6) &&& 0x0008 ≠ 0

/-- The pairwise key, with its packet numbers. -/
structure PairwiseKey where
  bssid : MacAddr
  tk : Bytes
  txPn : TxPn := {}
  rx : ReplayCounters := {}

/-- A group key. -/
structure GroupKey where
  gtk : Bytes
  rx : ReplayCounters

/-- The data path of an interface over its MLME. -/
structure Wlan (M : Type) where
  mlme : M
  gen : UInt64 := 0
  ptk : Option PairwiseKey := none
  /-- By key id, 0 to 3. -/
  gtk : Byte → Option GroupKey := fun _ => none
  /-- Last sequence and fragment numbers received, by TID. -/
  lastSeq : ℕ → Option (UInt16 × Byte) := fun _ => none

/-- A frame for the air, and the key and the packet number that it was encrypted under. -/
structure TxFrame where
  frame : Bytes
  sealed : Option (Bytes × ℕ)
  deriving DecidableEq

namespace Wlan

variable {M : Type} [MlmeOps M]

/-- Drop what belongs to another association. -/
def sync (w : Wlan M) : Wlan M :=
  if MlmeOps.generation w.mlme ≠ w.gen then { mlme := w.mlme, gen := MlmeOps.generation w.mlme }
    else w

/-- A call of the MLME: to connect, to disconnect, to run its timers, or with a management frame. -/
def withMlme (w : Wlan M) (mlme : M) : Wlan M := { w with mlme }.sync

/-- The key of the current access point; one that is there already stays as it is. -/
def installPtk (w : Wlan M) (bssid : MacAddr) (tk : Bytes) : Bool × Wlan M :=
  let w := w.sync
  if MlmeOps.activeBssid w.mlme ≠ some bssid then (false, w)
  else if w.ptk.any fun k => k.bssid = bssid && k.tk = tk then (false, w)
  else (true, { w with ptk := some { bssid, tk } })

def installGtk (w : Wlan M) (keyId : Byte) (gtk : Bytes) (rsc : ℕ) : Bool × Wlan M :=
  let w := w.sync
  if gtk.length ≠ 16 ∨ keyId > 3 ∨ (MlmeOps.activeBssid w.mlme).isNone then (false, w)
  else if (w.gtk keyId).any fun k => k.gtk = gtk then (false, w)
  else (true, { w with gtk := Function.update w.gtk keyId (some { gtk, rx := .withStart rsc }) })

/-- All keys are gone. -/
def clearKeys (w : Wlan M) : Wlan M := { w with ptk := none, gtk := fun _ => none }

/-- Are frames to be encrypted? -/
def secured (w : Wlan M) : Bool := MlmeOps.secured w.mlme

/-- Is the controlled port open? -/
def authorized (w : Wlan M) : Bool :=
  (MlmeOps.currentBss w.mlme).isSome && (!w.secured || w.ptk.isSome)

/-! ## Sending -/

/-- A frame as it goes on the air: encrypted when there is a key, unless it is sent in the clear. -/
def protect (c : Ccm) (w : Wlan M) (mpdu : Bytes) (clear : Bool) : Option TxFrame × Wlan M :=
  match w.ptk with
  | none => (some ⟨mpdu, none⟩, w)
  | some k =>
    if clear then (some ⟨mpdu, none⟩, w)
    else
      match k.txPn.next with
      | none => (none, w)
      | some (pn, txPn) =>
        ((ccmpEncrypt c k.tk mpdu pn 0).map fun f => ⟨f, some (k.tk, pn)⟩,
          { w with ptk := some { k with txPn } })

/-- An Ethernet frame from the stack. -/
def sendEthernet (c : Ccm) (w : Wlan M) (eth : Bytes) (now : ℤ) : Option TxFrame × Wlan M :=
  let w := w.sync
  match MlmeOps.currentBss w.mlme, ethertype eth with
  | some bssid, some et =>
    let eapol := et = ethertypeEapol
    if ¬ eapol ∧ ¬ w.authorized then (none, w)
    else
      match ethernetToDataTods eth bssid with
      | none => (none, w)
      | some mpdu =>
        let (seq, mlme) := MlmeOps.nextSeq (MlmeOps.noteTx w.mlme now)
        -- the handshake itself is never encrypted
        protect c { w with mlme } (setSeq mpdu seq) (eapol && isPairwiseKeyFrame (eth.drop 14))
  | _, _ => (none, w)

/-! ## Receiving -/

/-- Is it a data frame of the access point for this station? -/
def addressed (own bssid : MacAddr) (h : Header) : Bool :=
  h.ftype = typeData && !h.toDs && h.fromDs && h.addr2 = bssid &&
    (isMulticast h.addr1 || h.addr1 = own) &&
    -- its own broadcast, sent on by the access point
    !(isMulticast h.addr1 && h.addr3 = own)

/-- A retransmission of the last frame, whose acknowledgement was lost. -/
def duplicate (w : Wlan M) (f : Bytes) (h : Header) : Bool :=
  !isMulticast h.addr1 && h.retry && w.lastSeq (tid f) = some (h.seq, h.frag)

def noteSeq (w : Wlan M) (f : Bytes) (h : Header) : Wlan M :=
  if isMulticast h.addr1 then w
    else { w with lastSeq := Function.update w.lastSeq (tid f) (some (h.seq, h.frag)) }

/-- Which key a frame is under: a group key by its id, or the pairwise key. -/
abbrev Slot := Option Byte

/-- The key that a frame is under. -/
def slotOf (h : Header) (keyId : Byte) : Slot := if isMulticast h.addr1 then some keyId else none

/-- A key and its counters. -/
def keyAt (w : Wlan M) : Slot → Option (Bytes × ReplayCounters)
  | some keyId => (w.gtk keyId).map fun k => (k.gtk, k.rx)
  | none => w.ptk.map fun k => (k.tk, k.rx)

def setCounters (w : Wlan M) (rx : ReplayCounters) : Slot → Wlan M
  | some keyId =>
    { w with gtk := Function.update w.gtk keyId ((w.gtk keyId).map fun k => { k with rx }) }
  | none => { w with ptk := w.ptk.map fun k => { k with rx } }

/-- A protected frame in the clear, where its packet number is new and its tag is right. -/
def unprotect (c : Ccm) (w : Wlan M) (h : Header) (f : Bytes) : Option (Bytes × Wlan M) :=
  (ccmpPeek f).bind fun (pn, keyId) =>
    (w.keyAt (slotOf h keyId)).bind fun (tk, counters) =>
      if !counters.check (tid f) pn then none
      else (ccmpDecrypt c tk f).map fun plain =>
        (plain, w.setCounters (counters.update (tid f) pn) (slotOf h keyId))

/-- A data frame from the air. -/
def recv80211 (c : Ccm) (w : Wlan M) (f : Bytes) : Option Bytes × Wlan M :=
  let w := w.sync
  match MlmeOps.currentBss w.mlme, Header.parse f with
  | some bssid, some (h, _) =>
    if !addressed (MlmeOps.ownMac w.mlme) bssid h then (none, w)
    else if w.duplicate f h then (none, w)
    else
      let w := w.noteSeq f h
      match if h.isProtected then w.unprotect c h f else some (f, w) with
      | none => (none, w)
      | some (plain, w) =>
        match dataToEthernet plain with
        | none => (none, w)
        | some eth =>
          if !h.isProtected && w.secured && ethertype eth ≠ some ethertypeEapol then (none, w)
            else (some eth, w)
  | _, _ => (none, w)

end Wlan

end EvansComputer.Wifi
