import EvansComputer.Wifi.Supplicant
import EvansComputer.Wifi.Iface

/-!
# The station

A supplicant and the interface that it drives.  The outputs of the supplicant are applied one at a
time and in order, but as late as one likes; what comes from the network, from the MLME and from the
stack in between is arbitrary.

The logs are kept for the theorems: under which key and packet number each frame was encrypted,
which keys the supplicant asked for, and which of them the interface installed.
-/

namespace EvansComputer.Wifi

/-- An Ethernet frame, `frame::ethernet`. -/
def ethernet (dst src : MacAddr) (ethertype : UInt16) (payload : Bytes) : Bytes :=
  macBytes dst ++ macBytes src ++ u16ToBe ethertype ++ payload

/-- The supplicant, the interface that it drives, and what came of them. -/
structure Station (M : Type) where
  supplicant : Supplicant
  wlan : Wlan M
  /-- The key and the packet number of each encrypted frame. -/
  sealed : List (Bytes × ℕ) := []
  /-- The pairwise keys that the interface was asked to install. -/
  asked : List Bytes := []
  /-- Those that it did install, with packet numbers from the start. -/
  installed : List Bytes := []

/-- What happens to a station. -/
inductive StationEvent (M : Type) where
  | associated (bssid : MacAddr) (ssid : Bytes) (apRsnIe staIe : Option Bytes) (now : ℤ)
  | disconnected
  | poll (now : ℤ)
  /-- A frame from the packet socket, whoever sent it. -/
  | ethernet (eth : Bytes) (now : ℤ)
  | networks (networks : List NetworkConfig)
  /-- The next output of the supplicant is applied; a request to disconnect leaves the MLME as
  `mlme`. -/
  | apply (mlme : M) (now : ℤ)
  /-- The MLME goes on: connects, disconnects, roams, runs its timers or takes a management
  frame. -/
  | mlme (mlme : M)
  /-- A frame from the stack. -/
  | send (eth : Bytes) (now : ℤ)
  /-- A data frame from the air. -/
  | recv (frame : Bytes)
  | clearKeys

namespace Station

variable {M : Type} [MlmeOps M]

/-- A frame from the host. -/
def send (ccm : Ccm) (t : Station M) (eth : Bytes) (now : ℤ) : Station M :=
  let (tx, wlan) := t.wlan.sendEthernet ccm eth now
  { t with wlan, sealed := t.sealed ++ (tx.bind (·.sealed)).toList }

def applyOutput (ccm : Ccm) (t : Station M) (mlme : M) (now : ℤ) : SupplicantOutput → Station M
  | .sendEapol dst frame => t.send ccm (Wifi.ethernet dst t.supplicant.own ethertypeEapol frame) now
  | .installPtk bssid tk =>
    let (done, wlan) := t.wlan.installPtk bssid tk
    { t with wlan, asked := t.asked ++ [tk], installed := if done then t.installed ++ [tk]
      else t.installed }
  | .installGtk keyId gtk rsc => { t with wlan := (t.wlan.installGtk keyId gtk rsc).2 }
  | .disconnect _ => { t with wlan := t.wlan.withMlme mlme }
  | .event _ => t

/-- One event. -/
def step (c : WpaCrypto) (ccm : Ccm) (t : Station M) : StationEvent M → Station M
  | .associated bssid ssid apRsnIe staIe now =>
    { t with supplicant := t.supplicant.onAssociated c bssid ssid apRsnIe staIe now }
  | .disconnected => { t with supplicant := t.supplicant.onDisconnected }
  | .poll now => { t with supplicant := t.supplicant.poll now }
  | .ethernet eth now => { t with supplicant := t.supplicant.onEthernet c eth now }
  | .networks networks => { t with supplicant := { t.supplicant with networks } }
  | .apply mlme now =>
    match t.supplicant.popOutput with
    | (none, _) => t
    | (some o, supplicant) => applyOutput ccm { t with supplicant } mlme now o
  | .mlme mlme => { t with wlan := t.wlan.withMlme mlme }
  | .send eth now => t.send ccm eth now
  | .recv frame => { t with wlan := (t.wlan.recv80211 ccm frame).2 }
  | .clearKeys => { t with wlan := t.wlan.clearKeys }

/-- Events one after another. -/
def run (c : WpaCrypto) (ccm : Ccm) (t : Station M) (es : List (StationEvent M)) : Station M :=
  es.foldl (step c ccm) t

/-- Before anything happened: no network, no association, no key. -/
def start (own : MacAddr) (rand : ℕ → Nonce) (mlme : M) : Station M where
  supplicant := { own, rand }
  wlan := { mlme }

end Station

end EvansComputer.Wifi
