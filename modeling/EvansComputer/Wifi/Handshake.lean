import EvansComputer.Wifi.Nonces

/-!
# Which messages install keys

Keys come out of the supplicant for a message 3 or a group message, and only then.  Message 1 is
not authenticated and may come at any time; it moves the key that is being agreed on, and with it
the nonces of the last message 2 (`Tracked`).  So a message 3 whose MIC is right belongs to that
message 2.
-/

namespace EvansComputer.Wifi

variable {x : SupplicantCall}

/-- The calls of the supplicant. -/
inductive SupplicantCall where
  | associated (bssid : MacAddr) (ssid : Bytes) (apRsnIe staIe : Option Bytes) (now : ℤ)
  | disconnected
  | poll (now : ℤ)
  | ethernet (eth : Bytes) (now : ℤ)
  | eapol (src : MacAddr) (raw : Bytes) (now : ℤ)
  | popOutput
  | configure (networks : List NetworkConfig) (handshakeTimeoutMs : ℤ)

/-- The EAPOL frame of a call, and who sent it. -/
def SupplicantCall.frame : SupplicantCall → Option (MacAddr × Bytes)
  | eapol src raw _ => some (src, raw)
  | ethernet eth _ => if Wifi.ethertype eth ≠ some ethertypeEapol then none
    else some (macAt eth 6, eth.drop 14)
  | _ => none

namespace Supplicant

/-- One call. -/
def call (c : WpaCrypto) (s : Supplicant) : SupplicantCall → Supplicant
  | .associated bssid ssid apRsnIe staIe now => s.onAssociated c bssid ssid apRsnIe staIe now
  | .disconnected => s.onDisconnected
  | .poll now => s.poll now
  | .ethernet eth now => s.onEthernet c eth now
  | .eapol src raw now => s.onEapol c src raw now
  | .popOutput => s.popOutput.2
  | .configure networks handshakeTimeoutMs => { s with networks, handshakeTimeoutMs }

/-- Calls one after another. -/
def run (c : WpaCrypto) (s : Supplicant) (xs : List SupplicantCall) : Supplicant :=
  xs.foldl (call c) s

/-- The outputs that a call adds. -/
def produced (c : WpaCrypto) (s : Supplicant) (x : SupplicantCall) : List SupplicantOutput :=
  (s.call c x).outputs.drop s.outputs.length

/-! ## What a message has to be -/

/-- A message 3 of `bssid`: its MIC is right under the key of the nonces of the last message 2,
its replay counter is above all that were accepted, and it carries the RSN element of the beacon;
and the handshake has not failed. -/
structure Authentic (c : WpaCrypto) (s : Supplicant) (x : SupplicantCall) (bssid : MacAddr)
    (kf : KeyFrame) (p : Ptk) (plain : Bytes) : Prop where
  received : ∃ raw, x.frame = some (bssid, raw) ∧ KeyFrame.parse raw = some kf ∧
    verifyMicRaw c p.kck raw = true
  message3 : kf.has kiPairwise = true ∧ kf.has kiMic = true ∧ kf.has kiAck = true ∧
    kf.has kiInstall = true ∧
    kf.has kiEncKeyData = true
  key : ∃ pmk snonce, (s.assoc.bind (·.pmk)) = some pmk ∧ s.lastM2 = some (kf.nonce, snonce) ∧
    p = derivePtk c pmk bssid s.own kf.nonce snonce
  replay : ∀ r ∈ s.accepted, r < kf.replayCounter
  unwraps : c.aesUnwrap p.kek kf.keyData = some plain
  rsn : ∃ m, (parseKeyData plain).rsnIe = some m ∧ (s.assoc.bind (·.apRsnIe)) = some m
  alive : s.state ≠ .failed

/-- A group message after the handshake, with a MIC that is right under its key. -/
structure AuthenticGroup (c : WpaCrypto) (s : Supplicant) (x : SupplicantCall) (kf : KeyFrame)
    (p : Ptk) (plain : Bytes) :
    Prop where
  received : ∃ src raw, x.frame = some (src, raw) ∧ KeyFrame.parse raw = some kf ∧
    verifyMicRaw c p.kck raw = true
  message1 : kf.has kiPairwise = false ∧ kf.has kiMic = true ∧ kf.has kiAck = true ∧
    kf.has kiSecure = true ∧
    kf.has kiEncKeyData = true
  key : (s.assoc.bind (·.ptk)) = some p
  replay : ∀ r ∈ s.accepted, r < kf.replayCounter
  unwraps : c.aesUnwrap p.kek kf.keyData = some plain
  completed : s.state = .completed

/-- An output that the call `x` may add. -/
def Justified (c : WpaCrypto) (s : Supplicant) (x : SupplicantCall) : SupplicantOutput → Prop
  | .installPtk bssid tk => ∃ kf p plain, Authentic c s x bssid kf p plain ∧ tk = p.tk
  | .installGtk keyId gtk _ =>
    (∃ bssid kf p plain, Authentic c s x bssid kf p plain ∧
      (parseKeyData plain).gtk = some ⟨keyId, gtk⟩) ∨
      ∃ kf p plain, AuthenticGroup c s x kf p plain ∧ (parseKeyData plain).gtk = some ⟨keyId, gtk⟩
  | .event (.completed bssid) =>
    (∃ kf p plain, Authentic c s x bssid kf p plain) ∨
      -- an open network
      ∃ ssid apRsnIe staIe now, x = .associated bssid ssid apRsnIe staIe now ∧
        (staIe = none ∨ (s.networks.find? fun n => n.ssid = ssid && !n.disabled).bind
          (·.psk) = none)
  | _ => True

/-! ## The messages that are taken -/

/-- The RSN elements are both there, and differ. -/
def Mismatch (a : Assoc) (kd : KeyData) : Prop :=
  ∃ b m, a.apRsnIe = some b ∧ kd.rsnIe = some m ∧ b ≠ m

/-- What is checked of every frame. -/
structure Heard (s : Supplicant) (src : MacAddr) (raw : Bytes) (a : Assoc) (pmk : Bytes)
    (kf : KeyFrame) : Prop where
  assoc : s.assoc = some a
  bssid : a.bssid = src
  parsed : KeyFrame.parse raw = some kf
  pmk : a.pmk = some pmk
  asks : kf.has kiAck = true
  fresh : ∀ last, a.lastReplay = some last → last < kf.replayCounter

/-- What is checked of a message 3. -/
structure Taken (c : WpaCrypto) (a : Assoc) (kf : KeyFrame) (raw : Bytes) (p : Ptk)
    (plain : Bytes) : Prop where
  installs : kf.has kiInstall = true ∧ kf.has kiEncKeyData = true
  nonce : a.anonce = some kf.nonce
  key : a.tptk = some p
  mic : verifyMicRaw c p.kck raw = true
  unwraps : c.aesUnwrap p.kek kf.keyData = some plain
  agrees : ¬ Mismatch a (parseKeyData plain)

/-- A group message that is taken. -/
structure TakenGroup (c : WpaCrypto) (s : Supplicant) (a : Assoc) (kf : KeyFrame) (raw : Bytes)
    (p : Ptk) (plain : Bytes) :
    Prop where
  completed : s.state = .completed
  secure : kf.has kiSecure = true ∧ kf.has kiEncKeyData = true
  key : a.ptk = some p
  mic : verifyMicRaw c p.kck raw = true
  unwraps : c.aesUnwrap p.kek kf.keyData = some plain

/-- **When a call keeps to the handshake**: a message 3 that is taken does not come after a failure,
and both it and the beacon have an RSN element. -/
def Meets (c : WpaCrypto) (s : Supplicant) (x : SupplicantCall) : Prop :=
  ∀ src raw a pmk kf p plain, x.frame = some (src, raw) → Heard s src raw a pmk kf →
    kf.has kiPairwise = true ∧ kf.has kiMic = true → Taken c a kf raw p plain →
      s.state ≠ .failed ∧ a.apRsnIe.isSome = true ∧ (parseKeyData plain).rsnIe.isSome = true

def RunMeets (c : WpaCrypto) : Supplicant → List SupplicantCall → Prop
  | _, [] => True
  | s, x :: xs => s.Meets c x ∧ RunMeets c (s.call c x) xs

/-! ## What a call adds -/

variable {c : WpaCrypto} {s s' s'' : Supplicant} {a : Assoc} {kf : KeyFrame} {raw : Bytes}

/-- It installs nothing, and does not say that the handshake is over. -/
def Minor : SupplicantOutput → Prop
  | .installPtk _ _ => False
  | .installGtk _ _ _ => False
  | .event (.completed _) => False
  | _ => True

/-- Outputs are added that are minor or have the property. -/
def Adds (J : SupplicantOutput → Prop) (s s' : Supplicant) : Prop :=
  ∃ new, s'.outputs = s.outputs ++ new ∧ ∀ o ∈ new, Minor o ∨ J o

section Adds

variable {J J' : SupplicantOutput → Prop}

theorem Adds.same (h : s'.outputs = s.outputs) : Adds J s s' :=
  ⟨[], by rw [h, List.append_nil], fun o ho => absurd ho List.not_mem_nil⟩

theorem Adds.append (h : Adds J s s') (new : List SupplicantOutput)
    (hnew : s''.outputs = s'.outputs ++ new) (hall : ∀ o ∈ new, Minor o ∨ J o) : Adds J s s'' := by
  obtain ⟨old, hold, hmem⟩ := h
  refine ⟨old ++ new, by rw [hnew, hold, List.append_assoc], fun o ho => ?_⟩
  rcases List.mem_append.mp ho with ho | ho
  · exact hmem o ho
  · exact hall o ho

theorem Adds.push (h : Adds J s s') {o : SupplicantOutput} (ho : Minor o ∨ J o) :
    Adds J s (s'.push o) :=
  h.append [o] rfl fun o' ho' => by rwa [List.mem_singleton.mp ho']

theorem Adds.imp (h : Adds J s s') (himp : ∀ o, J o → J' o) : Adds J' s s' := by
  obtain ⟨new, hnew, hall⟩ := h
  exact ⟨new, hnew, fun o ho => (hall o ho).imp_right (himp o)⟩

end Adds

/-- What a message 3 puts out of the key `p`. -/
def Gives (a : Assoc) (p : Ptk) (plain : Bytes) (o : SupplicantOutput) : Prop :=
  o = .installPtk a.bssid p.tk ∨
    (∃ g rsc, (parseKeyData plain).gtk = some g ∧ o = .installGtk g.keyId g.gtk rsc) ∨
    o = .event (.completed a.bssid)

/-- The association and the counters of a message that is accepted. -/
structure Accepts (s : Supplicant) (a : Assoc) (kf : KeyFrame) (s' : Supplicant) : Prop where
  own : s'.own = s.own
  lastM2 : s'.lastM2 = s.lastM2
  accepted : s'.accepted = s.accepted ++ [kf.replayCounter]
  assoc : ∃ installedTk installedGtk ptk,
    s'.assoc = some { a with lastReplay := some kf.replayCounter, installedTk, installedGtk, ptk }

theorem installPairwise_eq (s : Supplicant) (a : Assoc) (p : Ptk) : ∃ new installedTk,
    s.installPairwise a p = ({ s with outputs := s.outputs ++ new }, { a with installedTk }) ∧
      ∀ o ∈ new, o = .installPtk a.bssid p.tk := by
  unfold installPairwise
  split
  · exact ⟨[], a.installedTk, by rw [List.append_nil], fun o ho => absurd ho List.not_mem_nil⟩
  · exact ⟨[.installPtk a.bssid p.tk], some p.tk, rfl, fun o ho => List.mem_singleton.mp ho⟩

theorem installGroup_eq (s : Supplicant) (a : Assoc) (rsc : ℕ) (g : Option GtkKde) :
    ∃ new installedGtk,
    s.installGroup a rsc g = ({ s with outputs := s.outputs ++ new }, { a with installedGtk }) ∧
      ∀ o ∈ new, ∃ k, g = some k ∧ o = .installGtk k.keyId k.gtk rsc := by
  unfold installGroup
  split
  · exact ⟨[], a.installedGtk, by rw [List.append_nil], fun o ho => absurd ho List.not_mem_nil⟩
  · rename_i g
    split
    · exact ⟨[], a.installedGtk, by rw [List.append_nil], fun o ho => absurd ho List.not_mem_nil⟩
    · exact ⟨[.installGtk g.keyId g.gtk rsc], some (g.keyId, g.gtk), rfl,
        fun o ho => ⟨g, rfl, List.mem_singleton.mp ho⟩⟩

theorem install_eq (s : Supplicant) (a : Assoc) (p : Ptk) (rsc : ℕ) (g : Option GtkKde) :
    ∃ new installedTk installedGtk,
    (s.installPairwise a p).1.installGroup (s.installPairwise a p).2 rsc g =
      ({ s with outputs := s.outputs ++ new }, { a with installedTk, installedGtk }) ∧
      ∀ o ∈ new, o = .installPtk a.bssid p.tk ∨ ∃ k, g = some k ∧
        o = .installGtk k.keyId k.gtk rsc := by
  obtain ⟨new, installedTk, hpair, hnew⟩ := installPairwise_eq s a p
  obtain ⟨new', installedGtk, hgroup, hnew'⟩ :=
    installGroup_eq (s.installPairwise a p).1 (s.installPairwise a p).2 rsc g
  refine ⟨new ++ new', installedTk, installedGtk, ?_, fun o ho => ?_⟩
  · rw [hgroup, hpair, List.append_assoc]
  · rcases List.mem_append.mp ho with ho | ho
    · exact .inl (hnew o ho)
    · exact .inr (hnew' o ho)

/-- **What becomes of a message 3.** -/
theorem handleM3_cases (c : WpaCrypto) (s : Supplicant) (a : Assoc) (kf : KeyFrame) (raw : Bytes) :
    s.handleM3 c a kf raw = s ∨ s.handleM3 c a kf raw = s.push (.event (.micFailure a.bssid 3)) ∨
      Accepts s a kf (s.handleM3 c a kf raw) ∧
        Adds (fun o => ∃ p plain, Taken c a kf raw p plain ∧ Gives a p plain o) s
          (s.handleM3 c a kf raw) := by
  unfold handleM3
  split
  · exact .inl rfl
  rename_i hflags
  split
  · exact .inl rfl
  rename_i hnonce
  split
  · exact .inl rfl
  rename_i p hp
  split
  · exact .inr (.inl rfl)
  rename_i hmic
  refine .inr (.inr ?_)
  dsimp only
  split
  · refine ⟨⟨rfl, rfl, rfl, _, _, _, rfl⟩, ?_⟩
    exact Adds.push (o := .disconnect 1) (Adds.same rfl) (.inl trivial)
  rename_i plain hplain
  split
  · refine ⟨⟨rfl, rfl, rfl, _, _, _, rfl⟩, ?_⟩
    exact Adds.push (o := .disconnect 17)
      (Adds.push (o := .event (.rsnIeMismatch a.bssid)) (Adds.same rfl) (.inl trivial))
      (.inl trivial)
  rename_i hagrees
  have htaken : Taken c a kf raw p plain := by
    refine ⟨?_, not_not.mp hnonce, hp, by simpa using hmic, hplain, ?_⟩
    · simpa using hflags
    · rintro ⟨b, m, hb, hm, hne⟩
      refine hagrees ?_
      rw [hb, hm]
      exact decide_eq_true hne
  -- message 4, the keys, and the end of the handshake
  generalize KeyFrame.toSignedBytes c _ p.kck = m4
  obtain ⟨new, installedTk, installedGtk, heq, hnew⟩ := install_eq
    (({ s with accepted := s.accepted ++ [kf.replayCounter] } : Supplicant).push
      (.sendEapol a.bssid m4))
    { a with lastReplay := some kf.replayCounter } p kf.rsc (parseKeyData plain).gtk
  rw [heq]
  have hgives : ∀ o ∈ new, ∃ p plain, Taken c a kf raw p plain ∧ Gives a p plain o := by
    intro o ho
    refine ⟨p, plain, htaken, ?_⟩
    rcases hnew o ho with htk | ⟨g, hg, hgtk⟩
    · exact .inl htk
    · exact .inr (.inl ⟨g, _, hg, hgtk⟩)
  have hsent : Adds (fun o => ∃ p plain, Taken c a kf raw p plain ∧ Gives a p plain o) s
      (({ s with accepted := s.accepted ++ [kf.replayCounter] } : Supplicant).push
        (.sendEapol a.bssid m4)) :=
    Adds.push (Adds.same rfl) (.inl trivial)
  dsimp only
  split
  · refine ⟨⟨rfl, rfl, rfl, _, _, _, rfl⟩, ?_⟩
    exact hsent.append new rfl fun o ho => .inr (hgives o ho)
  · refine ⟨⟨rfl, rfl, rfl, _, _, _, rfl⟩, ?_⟩
    have hgave : Adds (fun o => ∃ p plain, Taken c a kf raw p plain ∧ Gives a p plain o) s
        { s with outputs := (s.outputs ++ [.sendEapol a.bssid m4]) ++ new } :=
      hsent.append new rfl fun o ho => .inr (hgives o ho)
    exact hgave.append [.event (.completed a.bssid)] rfl fun o ho =>
      .inr ⟨p, plain, htaken, .inr (.inr (List.mem_singleton.mp ho))⟩

/-- **What becomes of a group message.** -/
theorem handleGroupM1_cases (c : WpaCrypto) (s : Supplicant) (a : Assoc) (kf : KeyFrame)
    (raw : Bytes) :
    s.handleGroupM1 c a kf raw = s ∨ s.handleGroupM1 c a kf raw = s.push
      (.event (.micFailure a.bssid 5)) ∨
      Accepts s a kf (s.handleGroupM1 c a kf raw) ∧
        Adds (fun o => ∃ p plain g rsc, TakenGroup c s a kf raw p plain ∧
          (parseKeyData plain).gtk = some g ∧
          o = .installGtk g.keyId g.gtk rsc) s (s.handleGroupM1 c a kf raw) := by
  unfold handleGroupM1
  split
  · exact .inl rfl
  rename_i hstate
  split
  · exact .inl rfl
  rename_i p hp
  split
  · exact .inl rfl
  rename_i hflags
  split
  · exact .inr (.inl rfl)
  rename_i hmic
  refine .inr (.inr ?_)
  dsimp only
  split
  · exact ⟨⟨rfl, rfl, rfl, _, _, _, rfl⟩, Adds.same rfl⟩
  rename_i g hg
  obtain ⟨plain, hplain, hgtk⟩ := Option.bind_eq_some_iff.mp hg
  generalize KeyFrame.toSignedBytes c _ p.kck = m2
  obtain ⟨new, installedGtk, heq, hnew⟩ := installGroup_eq
    (({ s with accepted := s.accepted ++ [kf.replayCounter] } : Supplicant).push
      (.sendEapol a.bssid m2))
    { a with lastReplay := some kf.replayCounter } kf.rsc (some g)
  rw [heq]
  refine ⟨⟨?_, ?_, ?_, a.installedTk, installedGtk, a.ptk, rfl⟩, ?_⟩
  · dsimp only
    split <;> rfl
  · dsimp only
    split <;> rfl
  · dsimp only
    split <;> rfl
  have hgives :
    Adds (fun o => ∃ p plain g rsc, TakenGroup c s a kf raw p plain ∧
    (parseKeyData plain).gtk = some g ∧
      o = .installGtk g.keyId g.gtk rsc) s
      { ({ s with accepted := s.accepted ++ [kf.replayCounter] } : Supplicant).push
        (.sendEapol a.bssid m2) with
        outputs := (s.push (.sendEapol a.bssid m2)).outputs ++ new } := by
    refine ((Adds.same rfl : Adds _ s s).push (o := .sendEapol a.bssid m2) (.inl trivial)).append
      new rfl fun o ho => .inr ?_
    obtain ⟨k, hk, rfl⟩ := hnew o ho
    obtain rfl := Option.some.inj hk
    exact ⟨p, plain, g, kf.rsc,
      ⟨not_not.mp hstate, by simpa using hflags, hp, by simpa using hmic, hplain⟩, hgtk, rfl⟩
  dsimp only
  split
  · exact hgives.append [] (List.append_nil _).symm fun o ho => absurd ho List.not_mem_nil
  · exact hgives.append [.event (.groupRekey g.keyId)] rfl fun o ho =>
      .inl (List.mem_singleton.mp ho ▸ trivial)

/-! ## Runs -/

/-- The key that is being agreed on is that of the last message 2, and the counters that were
accepted are not above the last. -/
structure Tracked (c : WpaCrypto) (s : Supplicant) : Prop where
  key : ∀ a p, s.assoc = some a → a.tptk = some p → ∃ pmk anonce,
    a.pmk = some pmk ∧ a.anonce = some anonce ∧
    s.lastM2 = some (anonce, a.snonce) ∧ p = derivePtk c pmk a.bssid s.own anonce a.snonce
  replay : ∀ a, s.assoc = some a → ∀ r ∈ s.accepted, ∃ last, a.lastReplay = some last ∧ r ≤ last

theorem Tracked.same (h : Tracked c s) (hown : s'.own = s.own) (hlast : s'.lastM2 = s.lastM2)
    (hacc : s'.accepted = s.accepted) (hassoc : s'.assoc = s.assoc) : Tracked c s' := by
  constructor
  · rw [hassoc, hown, hlast]
    exact h.key
  · rw [hassoc, hacc]
    exact h.replay

theorem Tracked.accepts (h : Tracked c s) (ha : s.assoc = some a)
    (hfresh : ∀ last, a.lastReplay = some last → last < kf.replayCounter)
    (hs' : Accepts s a kf s') : Tracked c s' := by
  obtain ⟨installedTk, installedGtk, ptk, hassoc⟩ := hs'.assoc
  constructor
  · intro a' p ha' hp
    obtain rfl := Option.some.inj (hassoc.symm.trans ha')
    rw [hs'.own, hs'.lastM2]
    exact h.key a p ha hp
  · intro a' ha' r hr
    obtain rfl := Option.some.inj (hassoc.symm.trans ha')
    refine ⟨kf.replayCounter, rfl, ?_⟩
    rw [hs'.accepted] at hr
    rcases List.mem_append.mp hr with hr | hr
    · obtain ⟨last, hlast, hle⟩ := h.replay a ha r hr
      exact hle.trans (hfresh last hlast).le
    · exact (List.mem_singleton.mp hr).le

theorem Tracked.m1 (h : Tracked c s) (ha : s.assoc = some a) {pmk : Bytes} (hpmk : a.pmk = some pmk)
    (kf : KeyFrame) :
    Tracked c (s.handleM1 c a pmk kf) := by
  unfold handleM1
  split
  · exact h
  · constructor
    · rintro a' p ⟨⟩ ⟨⟩
      exact ⟨pmk, kf.nonce, hpmk, rfl, rfl, rfl⟩
    · rintro a' ⟨⟩ r hr
      exact h.replay a ha r hr

theorem adds_m1 {J : SupplicantOutput → Prop} (c : WpaCrypto) (s : Supplicant) (a : Assoc)
    (pmk : Bytes) (kf : KeyFrame) :
    Adds J s (s.handleM1 c a pmk kf) := by
  unfold handleM1
  split
  · exact Adds.same rfl
  · exact Adds.push (Adds.same rfl) (.inl trivial)

/-- **What a frame does**: keys come of a message 3 that is taken, or of a group message. -/
theorem onEapol_goes (h : Tracked c s) {src : MacAddr} (raw : Bytes) (now : ℤ)
    {J : SupplicantOutput → Prop} (hthree : ∀ a pmk kf p plain, Heard s src raw a pmk kf →
      kf.has kiPairwise = true ∧ kf.has kiMic = true →
      Taken c a kf raw p plain → ∀ o, Gives a p plain o → J o)
    (hgroup : ∀ a pmk kf p plain g rsc, Heard s src raw a pmk kf → kf.has kiPairwise = false ∧
      kf.has kiMic = true →
      TakenGroup c s a kf raw p plain → (parseKeyData plain).gtk = some g →
        J (.installGtk g.keyId g.gtk rsc)) :
    Tracked c (s.onEapol c src raw now) ∧ Adds J s (s.onEapol c src raw now) := by
  unfold onEapol
  split
  · exact ⟨h, Adds.same rfl⟩
  rename_i kf hkf
  split
  · exact ⟨h.same rfl rfl rfl rfl, Adds.same rfl⟩
  rename_i a hsome
  obtain ⟨ha, hsrc⟩ := Option.filter_eq_some_iff.mp hsome
  split
  · exact ⟨h, Adds.same rfl⟩
  rename_i pmk hpmk
  split
  · exact ⟨h, Adds.same rfl⟩
  split
  · exact ⟨h, Adds.same rfl⟩
  rename_i hasks
  split
  · exact ⟨h, Adds.same rfl⟩
  rename_i hfresh
  have hheard : Heard s src raw a pmk kf := by
    refine ⟨ha, of_decide_eq_true hsrc, hkf, hpmk, ?_, fun last hlast => ?_⟩
    · simp only [Bool.or_eq_true, not_or, Bool.not_eq_true', Bool.not_eq_false] at hasks
      exact hasks.2
    · by_contra hle
      exact hfresh (by rw [hlast]; exact decide_eq_true (not_lt.mp hle))
  have hfail (message : Byte) : Tracked c (s.push (.event (.micFailure a.bssid message))) ∧
      Adds J s (s.push (.event (.micFailure a.bssid message))) :=
    ⟨h.same rfl rfl rfl rfl, Adds.push (Adds.same rfl) (.inl trivial)⟩
  split
  · rename_i hpair
    split
    · rename_i hmic
      rcases handleM3_cases c s a kf raw with heq | heq | ⟨hacc, hadds⟩
      · rw [heq]
        exact ⟨h, Adds.same rfl⟩
      · rw [heq]
        exact hfail 3
      · refine ⟨h.accepts ha hheard.fresh hacc, hadds.imp fun o ho => ?_⟩
        obtain ⟨p, plain, htaken, hgives⟩ := ho
        exact hthree a pmk kf p plain hheard ⟨hpair, hmic⟩ htaken o hgives
    · exact ⟨h.m1 ha hpmk kf, adds_m1 c s a pmk kf⟩
  rename_i hpair
  split
  · rename_i hmic
    rcases handleGroupM1_cases c s a kf raw with heq | heq | ⟨hacc, hadds⟩
    · rw [heq]
      exact ⟨h, Adds.same rfl⟩
    · rw [heq]
      exact hfail 5
    · refine ⟨h.accepts ha hheard.fresh hacc, hadds.imp fun o ho => ?_⟩
      obtain ⟨p, plain, g, rsc, htaken, hgtk, rfl⟩ := ho
      exact hgroup a pmk kf p plain g rsc hheard ⟨by simpa using hpair, hmic⟩ htaken hgtk
  · exact ⟨h, Adds.same rfl⟩

theorem Tracked.authentic (h : Tracked c s) (hmeets : s.Meets c x) {src : MacAddr}
    (hx : x.frame = some (src, raw)) {pmk : Bytes} (hheard : Heard s src raw a pmk kf)
    (hkind : kf.has kiPairwise = true ∧ kf.has kiMic = true) {p : Ptk} {plain : Bytes}
    (htaken : Taken c a kf raw p plain) :
    Authentic c s x a.bssid kf p plain := by
  obtain ⟨halive, hbeacon, hrsn⟩ := hmeets src raw a pmk kf p plain hx hheard hkind htaken
  obtain ⟨b, hb⟩ := Option.isSome_iff_exists.mp hbeacon
  obtain ⟨m, hm⟩ := Option.isSome_iff_exists.mp hrsn
  obtain ⟨pmk', anonce, hpmk, hanonce, hlast, hp⟩ := h.key a p hheard.assoc htaken.key
  obtain rfl : anonce = kf.nonce := Option.some.inj (hanonce.symm.trans htaken.nonce)
  refine ⟨⟨raw, by rw [hheard.bssid]; exact hx, hheard.parsed, htaken.mic⟩, ?_,
    ⟨pmk', a.snonce, ?_, hlast, hp⟩, fun r hr => ?_,
    htaken.unwraps, ⟨m, hm, ?_⟩, halive⟩
  · exact ⟨hkind.1, hkind.2, hheard.asks, htaken.installs⟩
  · rw [hheard.assoc]
    exact hpmk
  · obtain ⟨last, hlast, hle⟩ := h.replay a hheard.assoc r hr
    exact lt_of_le_of_lt hle (hheard.fresh last hlast)
  · rw [hheard.assoc, Option.bind_some, hb]
    by_contra hne
    exact htaken.agrees ⟨b, m, hb, hm, fun heq => hne (by rw [heq])⟩

theorem frame_goes (h : Tracked c s) (hmeets : s.Meets c x) {src : MacAddr}
    (hx : x.frame = some (src, raw)) (now : ℤ) :
    Tracked c (s.onEapol c src raw now) ∧ Adds (Justified c s x) s (s.onEapol c src raw now) := by
  refine onEapol_goes h raw now (fun a pmk kf p plain hheard hkind htaken o hgives => ?_)
    fun a pmk kf p plain g rsc hheard hkind htaken hgtk => ?_
  · have hauth := h.authentic hmeets hx hheard hkind htaken
    rcases hgives with rfl | ⟨g, rsc, hgtk, rfl⟩ | rfl
    · exact ⟨kf, p, plain, hauth, rfl⟩
    · exact .inl ⟨a.bssid, kf, p, plain, hauth, hgtk⟩
    · exact .inl ⟨kf, p, plain, hauth⟩
  · refine .inr ⟨kf, p, plain,
      ⟨⟨src, raw, hx, hheard.parsed, htaken.mic⟩, ?_, ?_, fun r hr => ?_, htaken.unwraps,
      htaken.completed⟩, hgtk⟩
    · exact ⟨hkind.1, hkind.2, hheard.asks, htaken.secure⟩
    · rw [hheard.assoc]
      exact htaken.key
    · obtain ⟨last, hlast, hle⟩ := h.replay a hheard.assoc r hr
      exact lt_of_le_of_lt hle (hheard.fresh last hlast)

theorem onAssociated_goes (s : Supplicant) (bssid : MacAddr) (ssid : Bytes)
    (apRsnIe staIe : Option Bytes) (now : ℤ) :
    Tracked c (s.onAssociated c bssid ssid apRsnIe staIe now) ∧
      Adds (Justified c s (.associated bssid ssid apRsnIe staIe now)) s
        (s.onAssociated c bssid ssid apRsnIe staIe now) := by
  unfold onAssociated
  dsimp only
  generalize hpmk : ((s.networks.find? fun n => n.ssid = ssid && !n.disabled).bind (·.psk)) = pmk
  -- nothing is agreed on yet
  have hnew (state : HandshakeState) (pendingEapol : Option (MacAddr × Bytes × ℤ))
    (outputs : List SupplicantOutput) :
      Tracked c
        { s with
            accepted := []
            assoc := some { bssid, pmk, apRsnIe, staRsnIe := staIe.getD staRsnIe, started := now }
            state, pendingEapol, outputs } := by
    constructor
    · rintro a p ⟨⟩ hp
      cases hp
    · exact fun a ha r hr => absurd hr List.not_mem_nil
  split
  · rename_i hopen
    refine ⟨hnew _ _ _, Adds.push (Adds.same rfl)
      (.inr (.inr ⟨ssid, apRsnIe, staIe, now, rfl, ?_⟩))⟩
    rcases Bool.or_eq_true_iff.mp hopen with hnone | hnone
    · exact .inr (hpmk.trans (Option.isNone_iff_eq_none.mp hnone))
    · exact .inl (Option.isNone_iff_eq_none.mp hnone)
  split
  · exact ⟨hnew _ _ _, Adds.same rfl⟩
  split
  · rename_i frame _ _ _
    obtain ⟨htracked, new, hout, hall⟩ := onEapol_goes (hnew .waitM1 none s.outputs) frame now
      (J := Justified c s (.associated bssid ssid apRsnIe staIe now))
      (fun a pmk kf p plain hheard _ htaken o _ => by
        cases hheard.assoc
        cases htaken.key)
      (fun a pmk kf p plain g rsc _ _ htaken _ => by cases htaken.completed)
    exact ⟨htracked, new, hout, hall⟩
  · exact ⟨hnew _ _ _, Adds.same rfl⟩

/-- **A call adds only what is justified**, and the keys stay those of the last message 2. -/
theorem call_goes (h : Tracked c s) (hmeets : s.Meets c x) :
    Tracked c (s.call c x) ∧ (x = .popOutput ∨ Adds (Justified c s x) s (s.call c x)) := by
  cases x with
  | associated bssid ssid apRsnIe staIe now =>
    obtain ⟨htracked, hadds⟩ := onAssociated_goes s bssid ssid apRsnIe staIe now
    exact ⟨htracked, .inr hadds⟩
  | disconnected =>
    refine ⟨⟨fun a p ha => (nomatch ha), fun a ha => (nomatch ha)⟩, .inr ?_⟩
    show Adds _ s s.onDisconnected
    unfold onDisconnected
    dsimp only
    split
    · split
      · have hsame : Adds (Justified c s .disconnected) s
          { s with assoc := none, pendingEapol := none, state := .disconnected } :=
          Adds.same rfl
        exact hsame.push (.inl trivial)
      · exact Adds.same rfl
    · exact Adds.same rfl
  | poll now =>
    show Tracked c (s.poll now) ∧ (_ ∨ Adds _ s (s.poll now))
    unfold poll
    split
    · exact ⟨h, .inr (Adds.same rfl)⟩
    rename_i a _
    split
    · refine ⟨h.same rfl rfl rfl rfl, .inr ?_⟩
      exact Adds.push (o := .disconnect 15)
        (Adds.push (o := .event (.handshakeTimeout a.bssid)) (Adds.same rfl) (.inl trivial))
        (.inl trivial)
    · exact ⟨h, .inr (Adds.same rfl)⟩
  | ethernet eth now =>
    show Tracked c (s.onEthernet c eth now) ∧ (_ ∨ Adds _ s (s.onEthernet c eth now))
    unfold onEthernet
    split
    · exact ⟨h, .inr (Adds.same rfl)⟩
    · rename_i htype
      obtain ⟨htracked, hadds⟩ := frame_goes h hmeets (if_neg htype) now
      exact ⟨htracked, .inr hadds⟩
  | eapol src raw now =>
    obtain ⟨htracked, hadds⟩ := frame_goes h hmeets rfl now
    exact ⟨htracked, .inr hadds⟩
  | popOutput => exact ⟨h.same rfl rfl rfl rfl, .inl rfl⟩
  | configure networks handshakeTimeoutMs => exact ⟨h.same rfl rfl rfl rfl, .inr (Adds.same rfl)⟩

theorem justified_of_minor {o : SupplicantOutput} (ho : Minor o) : Justified c s x o := by
  cases o with
  | installPtk bssid tk => exact absurd ho id
  | installGtk keyId gtk rsc => exact absurd ho id
  | event e =>
    cases e with
    | completed bssid => exact absurd ho id
    | _ => trivial
  | _ => trivial

/-- **Keys come of authentic messages only.**  In every run whose calls keep to the handshake,
what any call adds is justified: a pairwise key and the end of a handshake only for a message 3
whose MIC is right under the key of the nonces of the last message 2, with a new replay counter
and the RSN element of the beacon, and not after a failure; a group key only for such a message 3,
or for a group message with a right MIC after the handshake. -/
theorem handshake_sound (c : WpaCrypto) (own : MacAddr) (rand : ℕ → Nonce)
    (xs : List SupplicantCall) (x : SupplicantCall)
    (hmeets : RunMeets c { own, rand } (xs ++ [x])) :
    ∀ o ∈ produced c (run c { own, rand } xs) x, Justified c (run c { own, rand } xs) x o := by
  have hstart : Tracked c { own, rand } := ⟨fun a p ha => (nomatch ha), fun a ha => (nomatch ha)⟩
  generalize ({ own, rand } : Supplicant) = s at hmeets hstart
  induction xs generalizing s with
  | nil =>
    intro o ho
    show Justified c s x o
    have ho : o ∈ (s.call c x).outputs.drop s.outputs.length := ho
    rcases (call_goes hstart hmeets.1).2 with rfl | ⟨new, hnew, hall⟩
    · rw [show (s.call c .popOutput).outputs = s.outputs.tail from rfl,
        List.drop_of_length_le (by simp)] at ho
      cases ho
    · rw [hnew, List.drop_left] at ho
      exact (hall o ho).elim justified_of_minor id
  | cons y xs ih => exact ih (s.call c y) hmeets.2 (call_goes hstart hmeets.1).1

/-! ### A handshake, and one that is over -/

section Example

open Station

/-- Message 1 of the access point comes, and is answered. -/
def answered : List SupplicantCall :=
  [.configure [{ ssid := [0x61], psk := some networkPsk }] 10000,
    .associated ap [0x61] (some staRsnIe) (some staRsnIe) 0,
    .eapol ap (message1 1 (allBytes 2)).toBytes 0]

/-- Message 3, with its MIC. -/
def signedM3 : KeyFrame :=
  { message3 2 (allBytes 2) with
    mic := [0x0c, 0xc3, 0x91, 0x68, 0x3d, 0x8a, 0xe2, 0, 0x43, 0xfd, 0xc6, 0x5d, 0xc7, 0x97,
      0x80, 0xca] }

def agreedTk : Bytes :=
  [0x8f, 0, 0x0a, 0xfe, 0xc8, 0xd6, 0x54, 0x17, 0xb9, 0x25, 0x54, 0xb6, 0x6c, 0x8e, 0x67, 0xf4]

theorem meets_of_frame_none (hx : x.frame = none) : s.Meets c x := by
  intro src raw a pmk kf p plain hframe
  rw [hx] at hframe
  cases hframe

theorem signedM3_justified :
    .installPtk ap agreedTk ∈ produced cryptoAt
      (run cryptoAt { own := sta, rand := nonces } answered) (.eapol ap signedM3.toBytes 1) ∧
      Justified cryptoAt (run cryptoAt { own := sta, rand := nonces } answered)
        (.eapol ap signedM3.toBytes 1)
        (.installPtk ap agreedTk) := by
  have hmem : .installPtk ap agreedTk ∈
      produced cryptoAt (run cryptoAt { own := sta, rand := nonces } answered)
        (.eapol ap signedM3.toBytes 1) := by decide +kernel
  refine ⟨hmem, handshake_sound cryptoAt sta nonces answered _
    ⟨meets_of_frame_none rfl, meets_of_frame_none rfl, ?_, ?_, trivial⟩
    _ hmem⟩
  · rintro src raw a pmk kf p plain ⟨⟩ hheard hkind -
    have hparse : KeyFrame.parse (message1 1 (allBytes 2)).toBytes =
      some (message1 1 (allBytes 2)) := by decide +kernel
    cases hparse.symm.trans hheard.parsed
    exact absurd hkind.2 (by decide)
  · rintro src raw a pmk kf p plain ⟨⟩ hheard - htaken
    have hparse : KeyFrame.parse signedM3.toBytes = some signedM3 := by decide +kernel
    cases hparse.symm.trans hheard.parsed
    have hstate : (run cryptoAt { own := sta, rand := nonces } answered).state ≠ .failed := by
      decide +kernel
    have hbeacon :
      ((run cryptoAt { own := sta, rand := nonces } answered).assoc.bind (·.apRsnIe)).isSome =
      true := by
      decide +kernel
    have hassoc : (run cryptoAt { own := sta, rand := nonces } answered).assoc = some a :=
      hheard.assoc
    rw [hassoc] at hbeacon
    have hplain : (cryptoAt.aesUnwrap [] wrappedKeyData).any
      (fun plain => (parseKeyData plain).rsnIe.isSome) = true := by
      decide +kernel
    rw [show cryptoAt.aesUnwrap [] wrappedKeyData = some plain from htaken.unwraps] at hplain
    exact ⟨hstate, hbeacon, hplain⟩

/-- **The handshake is over after its time**, and a message 3 completes it all the same. -/
theorem completed_after_timeout :
    ¬ ∀ (c : WpaCrypto) (own : MacAddr) (rand : ℕ → Nonce) (xs : List SupplicantCall)
    (x : SupplicantCall), ∀ o ∈ produced c (run c { own, rand } xs) x,
      Justified c (run c { own, rand } xs) x o := by
  intro h
  have hmem : .event (.completed ap) ∈ produced cryptoAt
    (run cryptoAt { own := sta, rand := nonces } (answered ++ [.poll 10000]))
      (.eapol ap signedM3.toBytes 10001) := by decide +kernel
  have hfailed : (run cryptoAt { own := sta, rand := nonces } (answered ++ [.poll 10000])).state =
    .failed := by decide +kernel
  rcases h _ _ _ _ _ _ hmem with ⟨kf, p, plain, hauth⟩ | ⟨ssid, apRsnIe, staIe, now, hx, -⟩
  · exact hauth.alive hfailed
  · cases hx

end Example

end EvansComputer.Wifi.Supplicant
