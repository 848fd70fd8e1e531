import EvansComputer.Wifi.Eapol
import Mathlib.Logic.Function.Basic

/-!
# The supplicant

The station's side of the WPA2 handshakes: events and EAPOL frames go in, and outputs come out in
order: frames to send, keys to install, a request to disconnect, and status events.

The random source is a stream of nonces, and what was drawn from it is kept with what it was drawn
for.  For the theorems are kept as well the nonces of the last message 2, and the replay counters of
the messages with a valid MIC.
-/

namespace EvansComputer.Wifi

/-- One configured network. -/
structure NetworkConfig where
  ssid : Bytes
  /-- None for an open network. -/
  psk : Option Bytes
  disabled : Bool := false

/-- Status notifications. -/
inductive SupplicantEvent where
  | completed (bssid : MacAddr)
  | groupRekey (keyId : Byte)
  /-- An EAPOL-Key frame failed MIC verification: message 3, or 5 for the group message 1. -/
  | micFailure (bssid : MacAddr) (message : Byte)
  | rsnIeMismatch (bssid : MacAddr)
  | handshakeTimeout (bssid : MacAddr)
  /-- Disconnected after message 2. -/
  | possibleWrongKey (bssid : MacAddr)
  deriving DecidableEq

/-- What the driver is to do. -/
inductive SupplicantOutput where
  | sendEapol (dst : MacAddr) (frame : Bytes)
  | installPtk (bssid : MacAddr) (tk : Bytes)
  | installGtk (keyId : Byte) (gtk : Bytes) (rsc : ℕ)
  | disconnect (reason : UInt16)
  | event (e : SupplicantEvent)
  deriving DecidableEq

/-- Where the supplicant is. -/
inductive HandshakeState where
  | disconnected
  | waitM1
  | waitM3
  | completed
  | failed
  deriving DecidableEq

/-- An association, with its handshake. -/
structure Assoc where
  bssid : MacAddr
  pmk : Option Bytes
  apRsnIe : Option Bytes
  staRsnIe : Bytes
  started : ℤ
  anonce : Option Bytes := none
  snonce : Bytes := List.replicate 32 0
  m1Replay : ℕ := 0
  tptk : Option Ptk := none
  ptk : Option Ptk := none
  lastReplay : Option ℕ := none
  installedTk : Option Bytes := none
  installedGtk : Option (Byte × Bytes) := none

/-- What the random source fills in. -/
abbrev Nonce := { b : Bytes // b.length = 32 }

/-- A nonce of the station, and the handshake that it was drawn for. -/
structure Draw where
  pmk : Bytes
  bssid : MacAddr
  anonce : Bytes
  snonce : Bytes
  deriving DecidableEq

/-- The supplicant of an interface. -/
structure Supplicant where
  own : MacAddr
  networks : List NetworkConfig := []
  rand : ℕ → Nonce
  drawn : List Draw := []
  /-- The nonces of the last message 2: that of the access point, and that of the station. -/
  lastM2 : Option (Bytes × Bytes) := none
  /-- The replay counters that this association accepted. -/
  accepted : List ℕ := []
  assoc : Option Assoc := none
  state : HandshakeState := .disconnected
  outputs : List SupplicantOutput := []
  /-- A frame that came before the association. -/
  pendingEapol : Option (MacAddr × Bytes × ℤ) := none
  handshakeTimeoutMs : ℤ := 10000

/-- The RSN element of the station, `Mlme::sta_rsn_ie`. -/
def staRsnIe : Bytes :=
  [0x30, 20, 1, 0, 0x00, 0x0f, 0xac, 4, 1, 0, 0x00, 0x0f, 0xac, 4, 1, 0, 0x00, 0x0f, 0xac, 2, 0, 0]

namespace Supplicant

/-- One output more. -/
def push (s : Supplicant) (o : SupplicantOutput) : Supplicant :=
  { s with outputs := s.outputs ++ [o] }

/-- Message 1 of the 4-way handshake. -/
def handleM1 (c : WpaCrypto) (s : Supplicant) (a : Assoc) (pmk : Bytes) (kf : KeyFrame) :
    Supplicant :=
  if s.state = .failed then s
  else
    -- a retransmission gets the nonce of before
    let drawn := a.anonce ≠ some kf.nonce || a.tptk.isNone
    let snonce := if drawn then (s.rand s.drawn.length).val else a.snonce
    let tptk := derivePtk c pmk a.bssid s.own kf.nonce snonce
    let m2 : KeyFrame :=
      { version := kf.version
        keyInfo := kiVersionAesSha1 ||| kiPairwise ||| kiMic
        replayCounter := kf.replayCounter
        nonce := snonce
        keyData := a.staRsnIe }
    let a' :=
      { a with snonce, anonce := some kf.nonce, m1Replay := kf.replayCounter, tptk := some tptk }
    let s' : Supplicant :=
      { s with
          drawn := if drawn then s.drawn ++ [(⟨pmk, a.bssid, kf.nonce, snonce⟩ : Draw)] else s.drawn
          lastM2 := some (kf.nonce, snonce)
          assoc := some a'
          state := if s.state = .completed then HandshakeState.completed else .waitM3 }
    s'.push (.sendEapol a.bssid (m2.toSignedBytes c tptk.kck))

/-- The key of message 3; one that was installed is not installed again. -/
def installPairwise (s : Supplicant) (a : Assoc) (tptk : Ptk) : Supplicant × Assoc :=
  if a.installedTk = some tptk.tk then (s, a)
  else (s.push (.installPtk a.bssid tptk.tk), { a with installedTk := some tptk.tk })

/-- The group key of a message, if it has one. -/
def installGroup (s : Supplicant) (a : Assoc) (rsc : ℕ) : Option GtkKde → Supplicant × Assoc
  | none => (s, a)
  | some g =>
    if a.installedGtk = some (g.keyId, g.gtk) then (s, a)
    else (s.push (.installGtk g.keyId g.gtk rsc), { a with installedGtk := some (g.keyId, g.gtk) })

/-- Message 3 of the 4-way handshake. -/
def handleM3 (c : WpaCrypto) (s : Supplicant) (a : Assoc) (kf : KeyFrame) (raw : Bytes) :
    Supplicant :=
  if !(kf.has kiInstall && kf.has kiEncKeyData) then s
  else if a.anonce ≠ some kf.nonce then s
  else
    match a.tptk with
    | none => s
    | some tptk =>
      if !verifyMicRaw c tptk.kck raw then s.push (.event (.micFailure a.bssid 3))
      else
        let a := { a with lastReplay := some kf.replayCounter }
        let s := { s with accepted := s.accepted ++ [kf.replayCounter] }
        let failed : Supplicant := { s with state := .failed, assoc := some a }
        match c.aesUnwrap tptk.kek kf.keyData with
        | none => failed.push (.disconnect 1)
        | some plain =>
          let kd := parseKeyData plain
          if (match a.apRsnIe, kd.rsnIe with
              | some b, some m => decide (b ≠ m) | _, _ => false) then
            (failed.push (.event (.rsnIeMismatch a.bssid))).push (.disconnect 17)
          else
            let m4 : KeyFrame :=
              { version := kf.version
                keyInfo := kiVersionAesSha1 ||| kiPairwise ||| kiMic ||| kiSecure
                replayCounter := kf.replayCounter }
            let s := s.push (.sendEapol a.bssid (m4.toSignedBytes c tptk.kck))
            let (s, a) := s.installPairwise a tptk
            let (s, a) := s.installGroup a kf.rsc kd.gtk
            let s := if s.state = .completed then s else s.push (.event (.completed a.bssid))
            { s with assoc := some { a with ptk := some tptk }, state := .completed }

/-- Message 1 of the group handshake. -/
def handleGroupM1 (c : WpaCrypto) (s : Supplicant) (a : Assoc) (kf : KeyFrame) (raw : Bytes) :
    Supplicant :=
  if s.state ≠ .completed then s
  else
    match a.ptk with
    | none => s
    | some ptk =>
      if !kf.has kiSecure || !kf.has kiEncKeyData then s
      else if !verifyMicRaw c ptk.kck raw then s.push (.event (.micFailure a.bssid 5))
      else
        let a := { a with lastReplay := some kf.replayCounter }
        let s := { s with accepted := s.accepted ++ [kf.replayCounter] }
        match (c.aesUnwrap ptk.kek kf.keyData).bind fun plain => (parseKeyData plain).gtk with
        | none => { s with assoc := some a }
        | some g =>
          let m2 : KeyFrame :=
            { version := kf.version, keyInfo := kiVersionAesSha1 ||| kiMic ||| kiSecure,
              replayCounter := kf.replayCounter }
          let s := s.push (.sendEapol a.bssid (m2.toSignedBytes c ptk.kck))
          let known := a.installedGtk = some (g.keyId, g.gtk)
          let (s, a) := s.installGroup a kf.rsc (some g)
          let s := if known then s else s.push (.event (.groupRekey g.keyId))
          { s with assoc := some a }

/-- An EAPOL frame from `src`. -/
def onEapol (c : WpaCrypto) (s : Supplicant) (src : MacAddr) (raw : Bytes) (now : ℤ) : Supplicant :=
  match KeyFrame.parse raw with
  | none => s
  | some kf =>
    match s.assoc.filter (·.bssid = src) with
    | none => { s with pendingEapol := some (src, raw, now) }
    | some a =>
      match a.pmk with
      | none => s
      | some pmk =>
        if kf.descriptorVersion ≠ kiVersionAesSha1 then s
        else if kf.has kiRequest || !kf.has kiAck then s
        else if a.lastReplay.any fun last => kf.replayCounter ≤ last then s
        else if kf.has kiPairwise then
          if kf.has kiMic then s.handleM3 c a kf raw else s.handleM1 c a pmk kf
        else if kf.has kiMic then s.handleGroupM1 c a kf raw
        else s

/-- An Ethernet frame from the packet socket. -/
def onEthernet (c : WpaCrypto) (s : Supplicant) (eth : Bytes) (now : ℤ) : Supplicant :=
  if ethertype eth ≠ some ethertypeEapol then s else s.onEapol c (macAt eth 6) (eth.drop 14) now

/-- The station associated with `bssid`. -/
def onAssociated (c : WpaCrypto) (s : Supplicant)
    (bssid : MacAddr) (ssid : Bytes) (apRsnIe staIe : Option Bytes) (now : ℤ) :
    Supplicant :=
  let pmk := (s.networks.find? fun n => n.ssid = ssid && !n.disabled).bind (·.psk)
  let s := { s with
      assoc := some { bssid, pmk, apRsnIe, staRsnIe := staIe.getD staRsnIe, started := now },
      accepted := [] }
  if pmk.isNone || staIe.isNone then ({ s with
      state := .completed } : Supplicant).push (.event (.completed bssid))
  else
    let s := { s with state := .waitM1 }
    match s.pendingEapol with
    | none => s
    | some (src, frame, at_) =>
      let s := { s with pendingEapol := none }
      if src = bssid ∧ max (now - at_) 0 ≤ 100 then s.onEapol c src frame now else s

/-- The association is over. -/
def onDisconnected (s : Supplicant) : Supplicant :=
  let s :=
    match s.assoc with
    | some a =>
      if s.state = HandshakeState.waitM3 then s.push (.event (.possibleWrongKey a.bssid)) else s
    | none => s
  { s with assoc := none, pendingEapol := none, state := .disconnected }

/-- Run timers. -/
def poll (s : Supplicant) (now : ℤ) : Supplicant :=
  match s.assoc with
  | none => s
  | some a =>
    if (s.state = .waitM1 ∨ s.state = .waitM3) ∧ now ≥ a.started + s.handshakeTimeoutMs then
      (({ s with state := .failed } : Supplicant).push (.event (.handshakeTimeout a.bssid))).push
        (.disconnect 15)
    else s

/-- The next output. -/
def popOutput (s : Supplicant) : Option SupplicantOutput × Supplicant :=
  (s.outputs.head?, { s with outputs := s.outputs.tail })

end Supplicant

end EvansComputer.Wifi
