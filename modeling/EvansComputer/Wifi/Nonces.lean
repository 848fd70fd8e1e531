import EvansComputer.Wifi.Receive
import EvansComputer.Wifi.Station

/-!
# Packet numbers are not used twice

A pairwise key is made of the nonces of both ends, and the station draws a nonce for each message 1
that is not a retransmission.  So keys of different handshakes differ, where its nonces are fresh;
and within a handshake the key is asked for once.  The interface then counts the packet numbers of a
key from one, once.

The key is the same with the two nonces swapped.  A nonce of the station is therefore fresh only if
it is also none of the nonces that the station has answered so far.
-/

namespace EvansComputer.Wifi

def Draw.ptk (c : WpaCrypto) (own : MacAddr) (d : Draw) : Ptk :=
  derivePtk c d.pmk d.bssid own d.anonce d.snonce

def Draw.tk (c : WpaCrypto) (own : MacAddr) (d : Draw) : Bytes := (d.ptk c own).tk

/-- What the pairwise key of a handshake is derived from. -/
def Draw.input (own : MacAddr) (d : Draw) : Bytes × Bytes :=
  (d.pmk, ptkData d.bssid own d.anonce d.snonce)

/-- **The derivation is ideal** on the handshakes of a run: equal keys come from equal inputs. -/
def PrfIdeal (c : WpaCrypto) (own : MacAddr) (ds : List Draw) : Prop :=
  ∀ d ∈ ds, ∀ d' ∈ ds, d.tk c own = d'.tk c own → d.input own = d'.input own

/-- **Nonces are fresh**: each differs from those drawn before, and from those answered before. -/
def Fresh (ds : List Draw) : Prop :=
  ds.Pairwise fun d d' => d'.snonce ≠ d.snonce ∧ d'.snonce ≠ d.anonce

instance (c : WpaCrypto) (own : MacAddr) (ds : List Draw) : Decidable (PrfIdeal c own ds) :=
  inferInstanceAs
    (Decidable (∀ d ∈ ds, ∀ d' ∈ ds, d.tk c own = d'.tk c own → d.input own = d'.input own))

instance (ds : List Draw) : Decidable (Fresh ds) :=
  inferInstanceAs (Decidable (ds.Pairwise fun d d' => d'.snonce ≠ d.snonce ∧ d'.snonce ≠ d.anonce))

/-! ## Different handshakes, different keys -/

theorem length_macBytes (m : MacAddr) : (macBytes m).length = 6 := rfl

/-- The nonces can be read off the input, but for their order. -/
theorem nonces_of_ptkData {aa aa' spa : MacAddr} {an sn an' sn' : Bytes} (han : an.length = 32)
    (hsn : sn.length = 32) (han' : an'.length = 32) (hsn' : sn'.length = 32)
    (heq : ptkData aa spa an sn = ptkData aa' spa an' sn') :
    (an = an' ∧ sn = sn') ∨ (an = sn' ∧ sn = an') := by
  unfold ptkData at heq
  have hnonces := (List.append_inj heq (by split <;> split <;> simp [length_macBytes])).2
  split at hnonces
  · split at hnonces
    · obtain ⟨h₁, h₂⟩ := List.append_inj hnonces (han.trans han'.symm)
      exact .inl ⟨h₁, h₂⟩
    · obtain ⟨h₁, h₂⟩ := List.append_inj hnonces (han.trans hsn'.symm)
      exact .inr ⟨h₁, h₂⟩
  · split at hnonces
    · obtain ⟨h₁, h₂⟩ := List.append_inj hnonces (hsn.trans han'.symm)
      exact .inr ⟨h₂, h₁⟩
    · obtain ⟨h₁, h₂⟩ := List.append_inj hnonces (hsn.trans hsn'.symm)
      exact .inl ⟨h₂, h₁⟩

/-- **Fresh nonces make different keys.** -/
theorem nodup_tks {c : WpaCrypto} {own : MacAddr} {ds : List Draw}
    (hlen : ∀ d ∈ ds, d.anonce.length = 32 ∧ d.snonce.length = 32) (hfresh : Fresh ds)
    (hideal : PrfIdeal c own ds) : (ds.map (Draw.tk c own)).Nodup := by
  refine List.pairwise_map.mpr (List.Pairwise.imp_of_mem ?_ hfresh)
  intro d d' hd hd' hne htk
  have hdata : ptkData d.bssid own d.anonce d.snonce = ptkData d'.bssid own d'.anonce d'.snonce :=
    congrArg Prod.snd (hideal d hd d' hd' htk)
  rcases nonces_of_ptkData (hlen d hd).1 (hlen d hd).2 (hlen d' hd').1 (hlen d' hd').2 hdata with
    ⟨-, h⟩ | ⟨h, -⟩
  · exact hne.1 h.symm
  · exact hne.2 h.symm

/-! ## A key is asked for once -/

def SupplicantOutput.pairwise : SupplicantOutput → Option Bytes
  | .installPtk _ tk => some tk
  | _ => none

/-- What of an association the pairwise key depends on. -/
def Assoc.keys (a : Assoc) :
    MacAddr × Option Bytes × Option Bytes × Bytes × Option Ptk × Option Bytes :=
  (a.bssid, a.pmk, a.anonce, a.snonce, a.tptk, a.installedTk)

namespace Supplicant

variable {c : WpaCrypto} {s s' s'' : Supplicant}

/-- The pairwise keys that are still to be installed. -/
def pending (s : Supplicant) : List Bytes := s.outputs.filterMap SupplicantOutput.pairwise

theorem pending_push (s : Supplicant) (o : SupplicantOutput) :
    (s.push o).pending = s.pending ++ o.pairwise.toList := by
  unfold pending push
  rw [List.filterMap_append]
  cases h : o.pairwise with
  | none => simp [h]
  | some tk => simp [h]

/-- No nonce is drawn, and no pairwise key is asked for. -/
structure Quiet (s s' : Supplicant) : Prop where
  own : s'.own = s.own
  drawn : s'.drawn = s.drawn
  pending : s'.pending = s.pending

theorem quiet_push (s : Supplicant) {o : SupplicantOutput} (ho : o.pairwise = none) :
    Quiet s (s.push o) :=
  ⟨rfl, rfl, by rw [pending_push, ho]; exact List.append_nil _⟩

theorem quiet_report (s : Supplicant) (known : Prop) [Decidable known] (e : SupplicantEvent) :
    Quiet s (if known then s else s.push (.event e)) := by
  split
  · exact ⟨rfl, rfl, rfl⟩
  · exact quiet_push s rfl

/-- The keys of the association are those of before, or there is none yet. -/
def SameKeys (s s' : Supplicant) : Prop :=
  ∀ a', s'.assoc = some a' → a'.tptk = none ∨ ∃ a, s.assoc = some a ∧ a'.keys = a.keys

/-- **Each handshake asks for its key at most once**, after the keys of the handshakes before it. -/
structure AskedOnce (c : WpaCrypto) (applied : List Bytes) (s : Supplicant) : Prop where
  sublist : (applied ++ s.pending).Sublist (s.drawn.map (Draw.tk c s.own))
  length : ∀ d ∈ s.drawn, d.anonce.length = 32 ∧ d.snonce.length = 32
  /-- A key that is being agreed on is that of the last draw. -/
  last : ∀ a p, s.assoc = some a → a.tptk = some p → ∃ ds d, s.drawn = ds ++ [d] ∧
    p = d.ptk c s.own ∧
    a.bssid = d.bssid ∧ a.pmk = some d.pmk ∧ a.anonce = some d.anonce ∧ a.snonce = d.snonce ∧
    (a.installedTk ≠ some p.tk → (applied ++ s.pending).Sublist (ds.map (Draw.tk c s.own)))

variable {applied : List Bytes}

section

variable (h : AskedOnce c applied s)
include h

theorem AskedOnce.quiet (hq : Quiet s s') (hkeys : SameKeys s s') : AskedOnce c applied s' := by
  refine ⟨?_, ?_, fun a' p ha' hp => ?_⟩
  · rw [hq.own, hq.drawn, hq.pending]
    exact h.sublist
  · rw [hq.drawn]
    exact h.length
  · rcases hkeys a' ha' with hnone | ⟨a, ha, hsame⟩
    · rw [hnone] at hp
      cases hp
    · rw [hq.own, hq.drawn, hq.pending]
      unfold Assoc.keys at hsame
      simp only [Prod.mk.injEq] at hsame
      obtain ⟨hb, hpmk, han, hsn, htptk, hinst⟩ := hsame
      obtain ⟨ds, d, h₁, h₂, h₃, h₄, h₅, h₆, h₇⟩ := h.last a p ha (htptk ▸ hp)
      exact ⟨ds, d, h₁, h₂, hb.trans h₃, hpmk.trans h₄, han.trans h₅, hsn.trans h₆,
        fun hne => h₇ (hinst ▸ hne)⟩

theorem AskedOnce.push {o : SupplicantOutput} (ho : o.pairwise = none) :
    AskedOnce c applied (s.push o) :=
  h.quiet (quiet_push s ho) fun a ha => .inr ⟨a, ha, rfl⟩

/-! ### Message 1 -/

omit h in
theorem length_slice {b : Bytes} {i j : ℕ} (h : j ≤ b.length) : (slice b i j).length = j - i := by
  unfold slice
  rw [List.length_drop, List.length_take, Nat.min_eq_left h]

omit h in
theorem length_nonce {b : Bytes} {kf : KeyFrame} (h : KeyFrame.parse b = some kf) :
    kf.nonce.length = 32 := by
  unfold KeyFrame.parse at h
  dsimp only at h
  split at h
  · cases h
  rename_i hmin
  split at h
  · cases h
  split at h
  · cases h
  cases h
  have hlen : ¬ b.length < keyFrameMin := fun hlt => hmin (.inl hlt)
  unfold keyFrameMin at hlen
  exact length_slice (by omega)

theorem askedOnce_m1 {a : Assoc} (ha : s.assoc = some a) {pmk : Bytes} (hpmk : a.pmk = some pmk)
    {kf : KeyFrame} (hlen : kf.nonce.length = 32) :
    AskedOnce c applied (s.handleM1 c a pmk kf) := by
  unfold handleM1
  split
  · exact h
  dsimp only
  by_cases hdrawn : (a.anonce ≠ some kf.nonce || a.tptk.isNone) = true
  · -- a new handshake: its key comes after all that were asked for
    simp only [hdrawn, if_true]
    refine AskedOnce.push ?_ rfl
    refine ⟨?_, ?_, ?_⟩
    · rw [List.map_append]
      exact h.sublist.trans (List.sublist_append_left _ _)
    · intro d hd
      rcases List.mem_append.mp hd with hd | hd
      · exact h.length d hd
      · rw [List.mem_singleton.mp hd]
        exact ⟨hlen, (s.rand s.drawn.length).property⟩
    · intro a' p ha' hp
      cases ha'
      cases hp
      exact ⟨s.drawn, _, rfl, rfl, rfl, hpmk, rfl, rfl, fun _ => h.sublist⟩
  · -- a retransmission: the key of before
    have hold := hdrawn
    simp only [Bool.or_eq_true, decide_eq_true_eq, not_or, Decidable.not_not,
      Option.isNone_iff_eq_none] at hold
    obtain ⟨hanonce, htptk⟩ := hold
    obtain ⟨p, hp⟩ := Option.ne_none_iff_exists'.mp htptk
    obtain ⟨ds, d, hds, hptk, hb, hpmk', han, hsn, hrest⟩ := h.last a p ha hp
    simp only [hdrawn, Bool.false_eq_true, if_false]
    refine AskedOnce.push ?_ rfl
    refine h.quiet ⟨rfl, rfl, rfl⟩ fun a' ha' => .inr ⟨a, ha, ?_⟩
    cases ha'
    have hnonce : kf.nonce = d.anonce := Option.some.inj (hanonce.symm.trans han)
    have hkey : pmk = d.pmk := Option.some.inj (hpmk.symm.trans hpmk')
    unfold Assoc.keys
    dsimp only
    rw [hanonce, hp, hptk, hnonce, hkey, hb, hsn]
    rfl

/-! ### Message 3 and the group key -/

/-- With the association `a`, whose keys are those of before. -/
theorem AskedOnce.hold {a₀ a : Assoc} (ha : s.assoc = some a₀) (hkeys : a.keys = a₀.keys) :
    AskedOnce c applied { s with assoc := some a } := by
  refine h.quiet ⟨rfl, rfl, rfl⟩ fun a' ha' => .inr ⟨a₀, ha, ?_⟩
  cases ha'
  exact hkeys

/-- A reply to the access point, with the association `a` after it. -/
theorem AskedOnce.reply {a₀ a : Assoc} (ha : s.assoc = some a₀) (hkeys : a.keys = a₀.keys)
    (dst : MacAddr) (frame : Bytes) :
    AskedOnce c applied { s.push (.sendEapol dst frame) with assoc := some a } :=
  (h.push (o := .sendEapol dst frame) rfl).hold ha hkeys

omit h in
/-- The key of the last draw is asked for, unless it was before. -/
theorem AskedOnce.installPairwise {a : Assoc} {p : Ptk}
    (h : AskedOnce c applied { s with assoc := some a }) (hp : a.tptk = some p) :
    AskedOnce c applied
      { (s.installPairwise a p).1 with assoc := some (s.installPairwise a p).2 } := by
  unfold Supplicant.installPairwise
  split
  · exact h
  rename_i hnew
  obtain ⟨ds, d, hds, hptk, hb, hpmk, han, hsn, hrest⟩ := h.last a p rfl hp
  refine ⟨?_, h.length, fun a' p' ha' hp' => ?_⟩
  · change (applied ++ (s.push (.installPtk a.bssid p.tk)).pending).Sublist
      (s.drawn.map (Draw.tk c s.own))
    have hdrawn : s.drawn = ds ++ [d] := hds
    rw [pending_push, hdrawn, List.map_append, ← List.append_assoc]
    refine (hrest hnew).append ?_
    rw [hptk]
    exact List.Sublist.refl _
  · cases ha'
    obtain rfl : p = p' := Option.some.inj (hp.symm.trans hp')
    exact ⟨ds, d, hds, hptk, hb, hpmk, han, hsn, fun hne => absurd rfl hne⟩

omit h in
theorem AskedOnce.installGroup {a : Assoc} (h : AskedOnce c applied { s with assoc := some a })
    (rsc : ℕ) (g : Option GtkKde) :
    AskedOnce c applied
      { (s.installGroup a rsc g).1 with assoc := some (s.installGroup a rsc g).2 } := by
  unfold Supplicant.installGroup
  cases g with
  | none => exact h
  | some g =>
    dsimp only
    split
    · exact h
    · refine (h.push (o := .installGtk g.keyId g.gtk rsc) rfl).quiet ⟨rfl, rfl, rfl⟩ fun a' ha' =>
        .inr ⟨a, rfl, ?_⟩
      cases ha'
      rfl

theorem askedOnce_m3 {a : Assoc} (ha : s.assoc = some a) (kf : KeyFrame) (raw : Bytes) :
    AskedOnce c applied (s.handleM3 c a kf raw) := by
  unfold handleM3
  split
  · exact h
  split
  · exact h
  split
  · exact h
  rename_i p hp
  split
  · exact h.push rfl
  -- a message 3 that is in order moves the replay counter
  have h : AskedOnce c applied { s with accepted := s.accepted ++ [kf.replayCounter] } :=
    h.quiet ⟨rfl, rfl, rfl⟩ fun a ha => .inr ⟨a, ha, rfl⟩
  have hfailed : AskedOnce c applied
      { s with
          accepted := s.accepted ++ [kf.replayCounter]
          state := .failed
          assoc := some { a with lastReplay := some kf.replayCounter } } := by
    refine h.quiet ⟨rfl, rfl, rfl⟩ fun a' ha' => .inr ⟨a, ha, ?_⟩
    cases ha'
    rfl
  dsimp only
  split
  · exact hfailed.push rfl
  rename_i plain _
  split
  · exact AskedOnce.push (hfailed.push rfl) rfl
  -- message 4, and both keys
  have hreply (m4 : Bytes) := AskedOnce.installGroup
    (AskedOnce.installPairwise
      (h.reply (a := { a with lastReplay := some kf.replayCounter }) ha rfl a.bssid m4) hp)
    kf.rsc (parseKeyData plain).gtk
  have hquiet := quiet_report
  refine (hreply _).quiet ⟨(hquiet _ _ _).own, (hquiet _ _ _).drawn, (hquiet _ _ _).pending⟩
    fun a' ha' => .inr ⟨_, rfl, ?_⟩
  cases ha'
  rfl

theorem askedOnce_groupM1 {a : Assoc} (ha : s.assoc = some a) (kf : KeyFrame) (raw : Bytes) :
    AskedOnce c applied (s.handleGroupM1 c a kf raw) := by
  unfold handleGroupM1
  split
  · exact h
  split
  · exact h
  rename_i p hp
  split
  · exact h
  split
  · exact h.push rfl
  have h : AskedOnce c applied { s with accepted := s.accepted ++ [kf.replayCounter] } :=
    h.quiet ⟨rfl, rfl, rfl⟩ fun a ha => .inr ⟨a, ha, rfl⟩
  dsimp only
  split
  · exact h.hold ha rfl
  · rename_i g _
    have hreply (m2 : Bytes) := AskedOnce.installGroup
      (h.reply (a := { a with lastReplay := some kf.replayCounter }) ha rfl a.bssid m2)
        kf.rsc (some g)
    have hquiet := quiet_report
    exact (hreply _).quiet ⟨(hquiet _ _ _).own, (hquiet _ _ _).drawn, (hquiet _ _ _).pending⟩
      fun a' ha' => .inr ⟨_, rfl, by cases ha'; rfl⟩

/-! ### Events -/

theorem askedOnce_onEapol (src : MacAddr) (raw : Bytes) (now : ℤ) :
    AskedOnce c applied (s.onEapol c src raw now) := by
  unfold onEapol
  split
  · exact h
  rename_i kf hkf
  split
  · exact h.quiet ⟨rfl, rfl, rfl⟩ fun a ha => .inr ⟨a, ha, rfl⟩
  rename_i a hsome
  have ha : s.assoc = some a := (Option.filter_eq_some_iff.mp hsome).1
  split
  · exact h
  rename_i pmk hpmk
  split
  · exact h
  split
  · exact h
  split
  · exact h
  split
  · split
    · exact askedOnce_m3 h ha kf raw
    · exact askedOnce_m1 h ha hpmk (length_nonce hkf)
  split
  · exact askedOnce_groupM1 h ha kf raw
  · exact h

theorem askedOnce_onEthernet (eth : Bytes) (now : ℤ) :
    AskedOnce c applied (s.onEthernet c eth now) := by
  unfold onEthernet
  split
  · exact h
  · exact askedOnce_onEapol h _ _ _

/-- A new association starts without keys. -/
theorem askedOnce_onAssociated (bssid : MacAddr) (ssid : Bytes) (apRsnIe staIe : Option Bytes)
    (now : ℤ) : AskedOnce c applied (s.onAssociated c bssid ssid apRsnIe staIe now) := by
  have hnew (pmk : Option Bytes) (state : HandshakeState)
    (pendingEapol : Option (MacAddr × Bytes × ℤ)) :
      AskedOnce c applied
        { s with
            accepted := []
            assoc := some { bssid, pmk, apRsnIe, staRsnIe := staIe.getD staRsnIe, started := now }
            state, pendingEapol } := by
    refine h.quiet ⟨rfl, rfl, rfl⟩ fun a ha => .inl ?_
    cases ha
    rfl
  unfold onAssociated
  dsimp only
  split
  · exact (hnew _ _ _).push rfl
  split
  · exact hnew _ _ _
  split
  · exact askedOnce_onEapol (hnew _ _ _) _ _ _
  · exact hnew _ _ _

theorem askedOnce_onDisconnected : AskedOnce c applied s.onDisconnected := by
  have hgone {s : Supplicant} (h : AskedOnce c applied s) :
      AskedOnce c applied { s with assoc := none, pendingEapol := none, state := .disconnected } :=
    h.quiet ⟨rfl, rfl, rfl⟩ fun a ha => by cases ha
  unfold onDisconnected
  dsimp only
  split
  · split
    · exact hgone (h.push rfl)
    · exact hgone h
  · exact hgone h

theorem askedOnce_poll (now : ℤ) : AskedOnce c applied (s.poll now) := by
  unfold poll
  split
  · exact h
  split
  · have hfailed : AskedOnce c applied { s with state := .failed } :=
      h.quiet ⟨rfl, rfl, rfl⟩ fun a ha => .inr ⟨a, ha, rfl⟩
    exact AskedOnce.push (hfailed.push rfl) rfl
  · exact h

/-- An output that was pending is applied. -/
theorem askedOnce_pop {o : SupplicantOutput} (ho : s.popOutput.1 = some o) :
    AskedOnce c (applied ++ o.pairwise.toList) s.popOutput.2 := by
  unfold popOutput at *
  obtain ⟨os, hos⟩ := List.head?_eq_some_iff.mp ho
  have hpending : (applied ++ o.pairwise.toList) ++ Supplicant.pending
    { s with outputs := s.outputs.tail } = applied ++ s.pending := by
    unfold pending
    rw [hos, List.append_assoc, List.tail_cons, List.filterMap_cons]
    cases o.pairwise <;> rfl
  refine ⟨?_, h.length, fun a p ha hp => ?_⟩
  · rw [hpending]
    exact h.sublist
  · rw [hpending]
    exact h.last a p ha hp

end

end Supplicant

/-! ## The packet numbers of a key -/

namespace Wlan

variable {M : Type} [MlmeOps M] {ccm : Ccm} {w w' w'' : Wlan M}

/-- No pairwise key but the one of before, with its packet number. -/
def Fades (w w' : Wlan M) : Prop :=
  ∀ k', w'.ptk = some k' → ∃ k, w.ptk = some k ∧ k'.tk = k.tk ∧ k'.txPn = k.txPn

section
omit [MlmeOps M]

theorem Fades.of_eq (h : w'.ptk = w.ptk) : Fades w w' := fun k hk => ⟨k, h ▸ hk, rfl, rfl⟩

theorem Fades.of_none (h : w'.ptk = none) : Fades w w' := fun k hk => by
  rw [h] at hk
  cases hk

theorem Fades.trans (h : Fades w w') (h' : Fades w' w'') : Fades w w'' := by
  intro k'' hk''
  obtain ⟨k', hk', htk', hpn'⟩ := h' k'' hk''
  obtain ⟨k, hk, htk, hpn⟩ := h k' hk'
  exact ⟨k, hk, htk'.trans htk, hpn'.trans hpn⟩

theorem Same.fades (h : Same w w') : Fades w w' := by
  obtain ⟨_, rfl⟩ := h
  exact .of_eq rfl

theorem fades_setCounters (w : Wlan M) (rx : ReplayCounters) (slot : Slot) :
    Fades w (w.setCounters rx slot) := by
  cases slot with
  | some keyId => exact .of_eq rfl
  | none =>
    intro k' hk'
    obtain ⟨k, hk, rfl⟩ := Option.map_eq_some_iff.mp hk'
    exact ⟨k, hk, rfl, rfl⟩

end

theorem fades_sync (w : Wlan M) : Fades w w.sync := by
  unfold sync
  split
  · exact .of_none rfl
  · exact .of_eq rfl

theorem fades_withMlme (w : Wlan M) (mlme : M) : Fades w (w.withMlme mlme) := by
  have hsame : Fades w { w with mlme } := .of_eq rfl
  exact hsame.trans (fades_sync _)

theorem fades_installGtk (w : Wlan M) (keyId : Byte) (gtk : Bytes) (rsc : ℕ) :
    Fades w (w.installGtk keyId gtk rsc).2 := by
  unfold installGtk
  dsimp only
  split
  · exact fades_sync w
  split
  · exact fades_sync w
  · exact (fades_sync w).trans (.of_eq rfl)

theorem sync_synced (w : Wlan M) : MlmeOps.generation w.sync.mlme = w.sync.gen := by
  unfold sync
  split
  · rfl
  · rename_i h
    exact Decidable.not_not.mp h

theorem recv_sync (w : Wlan M) (f : Bytes) : w.recv80211 ccm f = w.sync.recv80211 ccm f := by
  unfold recv80211
  rw [sync_eq (sync_synced w)]

theorem fades_recv (w : Wlan M) (f : Bytes) : Fades w (w.recv80211 ccm f).2 := by
  rw [recv_sync]
  refine (fades_sync w).trans ?_
  rcases recv_cases (c := ccm) (sync_synced w) f with ⟨hs, -⟩ | ⟨a, tk, rx, htook⟩
  · exact hs.fades
  · exact (fades_setCounters _ _ _).trans htook.state.fades

/-- A key that is installed is another than the one that is there, and starts from the first
packet number. -/
theorem installPtk_cases (w : Wlan M) (bssid : MacAddr) (tk : Bytes) :
    ((w.installPtk bssid tk).1 = false ∧ Fades w (w.installPtk bssid tk).2) ∨
      ((w.installPtk bssid tk).1 = true ∧ (w.installPtk bssid tk).2.ptk = some { bssid, tk }) := by
  unfold installPtk
  dsimp only
  split
  · exact .inl ⟨rfl, fades_sync w⟩
  split
  · exact .inl ⟨rfl, fades_sync w⟩
  · exact .inr ⟨rfl, rfl⟩

/-- What becomes of the pairwise key when a frame is sent. -/
def Sends (w w' : Wlan M) (sealed : Option (Bytes × ℕ)) : Prop :=
  (Fades w w' ∧ sealed = none) ∨
    ∃ k k', w.ptk = some k ∧ w'.ptk = some k' ∧ k'.tk = k.tk ∧ k'.txPn.pn = k.txPn.pn + 1 ∧
      k'.txPn.pn < 2 ^ 48 ∧
      ∀ e, sealed = some e → e = (k'.tk, k'.txPn.pn)

omit [MlmeOps M] in
theorem sends_protect (ccm : Ccm) (w : Wlan M) (mpdu : Bytes) (clear : Bool) :
    Sends w (w.protect ccm mpdu clear).2 ((w.protect ccm mpdu clear).1.bind (·.sealed)) := by
  unfold protect
  split
  · exact .inl ⟨.of_eq rfl, rfl⟩
  rename_i k hk
  split
  · exact .inl ⟨.of_eq rfl, rfl⟩
  unfold TxPn.next
  by_cases hmax : k.txPn.pn ≥ 2 ^ 48 - 1
  · rw [if_pos hmax]
    exact .inl ⟨.of_eq rfl, rfl⟩
  · rw [if_neg hmax]
    refine .inr ⟨k, { k with txPn := ⟨k.txPn.pn + 1⟩ }, hk, rfl, rfl, rfl, by dsimp only; omega,
      fun e he => ?_⟩
    dsimp only at he
    obtain ⟨tx, htx, hsealed⟩ := Option.bind_eq_some_iff.mp he
    obtain ⟨_, -, rfl⟩ := Option.map_eq_some_iff.mp htx
    exact (Option.some.inj hsealed).symm

theorem sends_sendEthernet (w : Wlan M) (eth : Bytes) (now : ℤ) :
    Sends w (w.sendEthernet ccm eth now).2 ((w.sendEthernet ccm eth now).1.bind (·.sealed)) := by
  have hsync := fades_sync w
  unfold sendEthernet
  dsimp only
  split
  swap
  · exact .inl ⟨hsync, rfl⟩
  split
  · exact .inl ⟨hsync, rfl⟩
  split
  · exact .inl ⟨hsync, rfl⟩
  rename_i bssid _ _ _ _ mpdu _
  set mlme := (MlmeOps.nextSeq (MlmeOps.noteTx w.sync.mlme now)).2
  have hmlme : Fades w { w.sync with mlme } := hsync
  rcases sends_protect ccm { w.sync with mlme } _ _ with
    ⟨hf, hnone⟩ | ⟨k, k', hk, hk', htk, hpn, hlt, hall⟩
  · exact .inl ⟨hmlme.trans hf, hnone⟩
  · obtain ⟨k₀, hk₀, htk₀, hpn₀⟩ := hmlme k hk
    exact .inr ⟨k₀, k', hk₀, hk', htk.trans htk₀, by rw [hpn, hpn₀], hlt, hall⟩

end Wlan

/-! ## Runs -/

namespace Station

variable {M : Type} [MlmeOps M] {c : WpaCrypto} {ccm : Ccm} {t : Station M}

/-- **What a run keeps**: the interface installs keys that were asked for, and what was sent under
the current one is counted by it. -/
structure Counted (c : WpaCrypto) (t : Station M) : Prop where
  keys : t.supplicant.AskedOnce c t.asked
  installed : t.installed.Sublist t.asked
  current : ∀ k, t.wlan.ptk = some k → ∃ ks, t.installed = ks ++ [k.tk]
  logged : ∀ e ∈ t.sealed, e.1 ∈ t.installed ∧ 1 ≤ e.2 ∧ e.2 < 2 ^ 48
  ordered : t.installed.Nodup → t.sealed.Pairwise fun e e' => e.1 = e'.1 → e.2 < e'.2
  counted : t.installed.Nodup → ∀ k, t.wlan.ptk = some k → ∀ e ∈ t.sealed,
    e.1 = k.tk → e.2 ≤ k.txPn.pn

section
omit [MlmeOps M]

theorem Counted.supplicant (h : Counted c t) {s : Supplicant} (hs : s.AskedOnce c t.asked) :
    Counted c { t with supplicant := s } :=
  ⟨hs, h.installed, h.current, h.logged, h.ordered, h.counted⟩

theorem Counted.fades (h : Counted c t) {w : Wlan M} (hf : t.wlan.Fades w) :
    Counted c { t with wlan := w } := by
  refine ⟨h.keys, h.installed, fun k' hk' => ?_, h.logged, h.ordered, fun hnodup k' hk' => ?_⟩
  · obtain ⟨k, hk, htk, -⟩ := hf k' hk'
    rw [htk]
    exact h.current k hk
  · obtain ⟨k, hk, htk, hpn⟩ := hf k' hk'
    rw [htk, hpn]
    exact h.counted hnodup k hk

/-- A key is asked for, and not installed. -/
theorem Counted.refused (h : Counted c t) {s : Supplicant} {tk : Bytes} {w : Wlan M}
    (hkeys : s.AskedOnce c (t.asked ++ [tk])) (hf : t.wlan.Fades w) :
    Counted c { t with supplicant := s, wlan := w, asked := t.asked ++ [tk] } := by
  have hkept := h.fades hf
  exact ⟨hkeys, h.installed.trans (List.sublist_append_left _ _), hkept.current, hkept.logged,
    hkept.ordered, hkept.counted⟩

/-- A new key is installed: nothing was sent under it. -/
theorem Counted.install (h : Counted c t)
    {s : Supplicant} {tk : Bytes} {w : Wlan M} {bssid : MacAddr}
    (hkeys : s.AskedOnce c (t.asked ++ [tk])) (hw : w.ptk = some { bssid, tk }) :
    Counted c { t with
      supplicant := s, wlan := w, asked := t.asked ++ [tk], installed := t.installed ++ [tk] } := by
  have hfirst : (t.installed ++ [tk]).Nodup →
    t.installed.Nodup := fun hnodup => (List.nodup_append.mp hnodup).1
  refine ⟨hkeys, h.installed.append (.refl _), fun k hk => ?_, fun e he => ?_,
    fun hnodup => h.ordered (hfirst hnodup),
    fun hnodup k hk e he htk => ?_⟩
  · rw [hw] at hk
    cases hk
    exact ⟨t.installed, rfl⟩
  · exact ⟨List.mem_append_left _ (h.logged e he).1, (h.logged e he).2⟩
  · rw [hw] at hk
    cases hk
    have hmem : tk ∈ t.installed := (show e.1 = tk from htk) ▸ (h.logged e he).1
    exact absurd rfl ((List.nodup_append.mp hnodup).2.2 tk hmem tk (List.mem_singleton_self tk))

/-- A frame is sent under the current key: its packet number is above all that were sent under
that key. -/
theorem Counted.sends (h : Counted c t) {w : Wlan M} {sealed : Option (Bytes × ℕ)}
    (hw : t.wlan.Sends w sealed) :
    Counted c { t with wlan := w, sealed := t.sealed ++ sealed.toList } := by
  rcases hw with ⟨hf, rfl⟩ | ⟨k, k', hk, hk', htk, hpn, hlt, hall⟩
  · have hnone : t.sealed ++ (none : Option (Bytes × ℕ)).toList = t.sealed := List.append_nil _
    rw [hnone]
    exact h.fades hf
  have hnew : ∀ e ∈ sealed.toList, e = (k'.tk, k'.txPn.pn) :=
    fun e he => hall e (Option.mem_toList.mp he)
  obtain ⟨ks, hks⟩ := h.current k hk
  refine ⟨h.keys, h.installed, fun k₁ hk₁ => ?_, fun e he => ?_, fun hnodup => ?_,
    fun hnodup k₁ hk₁ e he heq => ?_⟩
  · obtain rfl : k' = k₁ := Option.some.inj (hk'.symm.trans hk₁)
    exact ⟨ks, htk ▸ hks⟩
  · rcases List.mem_append.mp he with he | he
    · exact h.logged e he
    · rw [hnew e he]
      refine ⟨?_, by dsimp only; omega, hlt⟩
      dsimp only
      rw [htk, hks]
      exact List.mem_append_right _ (List.mem_singleton_self _)
  · refine List.pairwise_append.mpr ⟨h.ordered hnodup, ?_, fun e he e' he' heq => ?_⟩
    · cases sealed with
      | none => exact List.Pairwise.nil
      | some e => exact List.pairwise_singleton _ _
    · rw [hnew e' he'] at heq ⊢
      have hle := h.counted hnodup k hk e he (heq.trans htk)
      dsimp only
      omega
  · obtain rfl : k' = k₁ := Option.some.inj (hk'.symm.trans hk₁)
    rcases List.mem_append.mp he with he | he
    · have hle := h.counted hnodup k hk e he (heq.trans htk)
      omega
    · rw [hnew e he]

end

theorem counted_send (h : Counted c t) (eth : Bytes) (now : ℤ) : Counted c (t.send ccm eth now) :=
  h.sends (Wlan.sends_sendEthernet t.wlan eth now)

theorem counted_applyOutput (h : Counted c t) {s : Supplicant} {o : SupplicantOutput}
    (hkeys : s.AskedOnce c (t.asked ++ o.pairwise.toList)) (mlme : M) (now : ℤ) :
    Counted c (applyOutput ccm { t with supplicant := s } mlme now o) := by
  cases o with
  | installPtk bssid tk =>
    unfold applyOutput
    dsimp only
    rcases Wlan.installPtk_cases t.wlan bssid tk with ⟨hno, hf⟩ | ⟨hyes, hw⟩
    · rw [hno]
      exact h.refused hkeys hf
    · rw [hyes]
      exact h.install hkeys hw
  | sendEapol dst frame =>
    have hs : s.AskedOnce c t.asked := List.append_nil t.asked ▸ hkeys
    exact counted_send (h.supplicant hs) _ _
  | installGtk keyId gtk rsc =>
    have hs : s.AskedOnce c t.asked := List.append_nil t.asked ▸ hkeys
    exact (h.supplicant hs).fades (Wlan.fades_installGtk _ _ _ _)
  | disconnect reason =>
    have hs : s.AskedOnce c t.asked := List.append_nil t.asked ▸ hkeys
    exact (h.supplicant hs).fades (Wlan.fades_withMlme _ _)
  | event e => exact h.supplicant (List.append_nil t.asked ▸ hkeys)

theorem counted_step (h : Counted c t) (e : StationEvent M) : Counted c (t.step c ccm e) := by
  cases e with
  | associated bssid ssid apRsnIe staIe now =>
    exact h.supplicant (Supplicant.askedOnce_onAssociated h.keys _ _ _ _ _)
  | disconnected => exact h.supplicant (Supplicant.askedOnce_onDisconnected h.keys)
  | poll now => exact h.supplicant (Supplicant.askedOnce_poll h.keys now)
  | ethernet eth now => exact h.supplicant (Supplicant.askedOnce_onEthernet h.keys eth now)
  | networks networks =>
    exact h.supplicant (h.keys.quiet ⟨rfl, rfl, rfl⟩ fun a ha => .inr ⟨a, ha, rfl⟩)
  | apply mlme now =>
    unfold step
    cases ho : t.supplicant.popOutput.1 with
    | none =>
      have heq : t.supplicant.popOutput = (none, t.supplicant.popOutput.2) := Prod.ext ho rfl
      rw [heq]
      exact h
    | some o =>
      have heq : t.supplicant.popOutput = (some o, t.supplicant.popOutput.2) := Prod.ext ho rfl
      rw [heq]
      exact counted_applyOutput h (Supplicant.askedOnce_pop h.keys ho) mlme now
  | mlme mlme => exact h.fades (Wlan.fades_withMlme _ _)
  | send eth now => exact counted_send h eth now
  | recv frame => exact h.fades (Wlan.fades_recv _ _)
  | clearKeys => exact h.fades (.of_none rfl)

omit [MlmeOps M] in
theorem counted_start (own : MacAddr) (rand : ℕ → Nonce) (mlme : M) :
    Counted c (start own rand mlme) where
  keys := ⟨List.Sublist.slnil, fun d hd => absurd hd List.not_mem_nil, fun a p ha => by cases ha⟩
  installed := List.Sublist.slnil
  current k hk := by cases hk
  logged e he := absurd he List.not_mem_nil
  ordered _ := List.Pairwise.nil
  counted _ k hk := by cases hk

theorem counted_run (h : Counted c t) (es : List (StationEvent M)) :
    Counted c (t.run c ccm es) := by
  unfold run
  induction es generalizing t with
  | nil => exact h
  | cons e es ih => exact ih (counted_step h e)

/-- **No packet number is used twice under a key**: over any run, the packet numbers under one key
rise, stay below `2 ^ 48`, and no key is installed a second time. -/
theorem packet_numbers_rise (c : WpaCrypto) (ccm : Ccm) (own : MacAddr) (rand : ℕ → Nonce)
    (mlme : M) (es : List (StationEvent M))
    (hfresh : Fresh ((start own rand mlme).run c ccm es).supplicant.drawn)
    (hideal : PrfIdeal c ((start own rand mlme).run c ccm es).supplicant.own
    ((start own rand mlme).run c ccm es).supplicant.drawn) :
      (((start own rand mlme).run c ccm es).sealed.Pairwise fun e e' => e.1 = e'.1 → e.2 < e'.2) ∧
      (∀ e ∈ ((start own rand mlme).run c ccm es).sealed, 1 ≤ e.2 ∧ e.2 < 2 ^ 48) ∧
      ((start own rand mlme).run c ccm es).installed.Nodup := by
  have h : Counted c ((start own rand mlme).run c ccm es) :=
    counted_run (counted_start own rand mlme) es
  have hdrawn := nodup_tks h.keys.length hfresh hideal
  have hasked := (List.sublist_append_left _ _).trans h.keys.sublist
  have hinstalled := hdrawn.sublist (h.installed.trans hasked)
  exact ⟨h.ordered hinstalled, fun e he => (h.logged e he).2, hinstalled⟩

/-! ### Nonces that are swapped -/

/-- An access point that the station is associated with from the first generation on. -/
structure Link where
  generation : UInt64
  seq : UInt16 := 0

def ap : MacAddr := ⟨2, 0, 0, 0, 0, 2⟩
def sta : MacAddr := ⟨2, 0, 0, 0, 0, 1⟩

instance : MlmeOps Link where
  ownMac _ := sta
  generation m := m.generation
  currentBss m := if m.generation = 0 then none else some ap
  activeBssid m := if m.generation = 0 then none else some ap
  secured _ := true
  nextSeq m := (m.seq, { m with seq := (m.seq + 1) &&& 0x0fff })
  noteTx m _ := m

/-- The nonce with every byte `b`. -/
def allBytes (b : Byte) : Nonce := ⟨List.replicate 32 b, List.length_replicate⟩

def networkPsk : Bytes := List.replicate 32 0x11

def wrappedKeyData : Bytes :=
  [0xfe, 0x72, 0, 0x7e, 0xe4, 0x33, 0x7a, 0xaa, 4, 0xbc, 0xc7, 4, 0xfc, 0x88, 0x9f, 0x42,
    0xc0, 5, 0xfc, 0x6b, 0xda, 0x1a, 0x66, 0x88, 0xf9, 0x18, 0xfb, 0xb9, 0xfb, 4, 0xc9, 0x91, 0xaf,
      0x29, 0x5f, 0xef, 0xee, 0x73, 0xbf, 0x7a, 0x99, 0xa2, 0xed, 0x0f, 0xe2, 0x37, 0x11, 0xcf,
      0x47, 0x13, 0xcf, 0x81, 0x4a, 0x81, 0xb8, 0x92]

def message1 (replayCounter : ℕ) (nonce : Nonce) : KeyFrame :=
  { version := 2, keyInfo := 0x008a, keyLen := 16, replayCounter, nonce }
def message2 (replayCounter : ℕ) (nonce : Nonce) : KeyFrame :=
  { version := 2, keyInfo := 0x010a, replayCounter, nonce, keyData := staRsnIe }
def message3 (replayCounter : ℕ) (nonce : Nonce) : KeyFrame :=
  { version := 2, keyInfo := 0x13ca, keyLen := 16, replayCounter, nonce, keyData := wrappedKeyData }
def message4 (replayCounter : ℕ) : KeyFrame := { version := 2, keyInfo := 0x030a, replayCounter }

/-- The derivation of the pairwise key, `i`-th block. -/
def keyBlock (i : Byte) : Bytes :=
  pairwiseLabel ++ [0] ++ ptkData ap sta (allBytes 1) (allBytes 2) ++ [i]

def digests : List (Bytes × Bytes) :=
  [(keyBlock 0, [0xb3, 0x1b, 0x53, 0xe2, 0x2a, 0x78, 0xc9, 0xa8, 0xc4, 0x5e, 0x49, 0x45, 0xcb, 0xec,
    0x9d, 0xfe, 0x8e, 0x6f, 0xa6, 0xde]),
    (keyBlock 1, [0x41, 0xcf, 0x3e, 0xe1, 0x3f, 0x2e, 0x2e, 0x38, 0x0b, 0x90, 0xbf, 0x9c, 0x8f, 0,
      0x0a, 0xfe, 0xc8, 0xd6, 0x54, 0x17]),
    (keyBlock 2, [0xb9, 0x25, 0x54, 0xb6, 0x6c, 0x8e, 0x67, 0xf4, 0x79, 0xae, 0x3f, 0x76, 0x74,
      0x93, 0xf3, 0x2e, 0xd2, 0xa4, 0x47, 0xfa]),
    ((message2 1 (allBytes 1)).toBytes, [0x92, 9, 2, 0x4c, 0x4b, 0x62, 0x15, 0x4d, 0x31, 0x21, 0x42,
      0x41, 0x32, 0x35, 0x44, 0x5f, 0xeb, 0x1e, 0x23, 0x49]),
    ((message3 2 (allBytes 2)).toBytes, [0x0c, 0xc3, 0x91, 0x68, 0x3d, 0x8a, 0xe2, 0, 0x43, 0xfd,
      0xc6, 0x5d, 0xc7, 0x97, 0x80, 0xca, 0x88, 0x58, 0x14, 0xdd]),
    ((message4 2).toBytes, [0x44, 6, 0x2a, 0x1a, 0x70, 0x8c, 0xc7, 0x90, 0x48, 0x13, 0xc1, 0x3d,
      0x7a, 0xdd, 5, 0xae, 0xf1, 0x90, 0x8b, 0xfd]),
    ((message3 3 (allBytes 2)).toBytes, [0x1c, 0x64, 0xed, 0x7d, 0x2c, 0xf3, 0x74, 0xbd, 0x73, 0xc5,
      0xf1, 0x3f, 0xd7, 0x8e, 0xa1, 0x7a, 0xa8, 0x26, 0x77, 0xa2]),
    ((message4 3).toBytes, [0xdc, 0x15, 0x32, 0x8f, 0xb3, 0x1b, 0x40, 0x0d, 0x22, 0x23, 0x44, 0x4f,
      6, 0x69, 0xd2, 0x3b, 0x4e, 0xe9, 0x4d, 0x9c]),
    ((message2 1 (allBytes 2)).toBytes, [8, 0x58, 0xd8, 0xf8, 0x2c, 0xac, 0xf7, 0xf1, 0x34, 0x49,
      0x28, 0xaf, 0x0e, 0xe9, 0x95, 8, 0xb3, 0x6f, 0x40, 0x9a]),
    ((message3 2 (allBytes 1)).toBytes, [0xad, 0x0a, 0x41, 0x81, 0x4c, 0x46, 0x6d, 0xe1, 0xb6, 0x84,
      0xee, 0xc1, 0x42, 0x35, 0x93, 0x5b, 0xf1, 0x73, 0x77, 0x8d])]

/-- HMAC-SHA1 and the key wrap at the frames of these handshakes, under the keys that they are
computed with. -/
def cryptoAt : WpaCrypto where
  hmacSha1 _ message := ((digests.find? (·.1 = message)).map (·.2)).getD []
  aesUnwrap _ data :=
    if data = wrappedKeyData then some (staRsnIe ++ [0xdd, 22, 0, 0x0f, 0xac, 1, 1, 0] ++
      List.replicate 16 0x33 ++ [0xdd, 0]) else none

/-- AES-CCM at the frame of `dataFrame`, with the packet numbers 1 and 2. -/
def ccmAt : Ccm where
  encrypt _ nonce _ _ :=
    if byteAt nonce 12 = 1 then
      ([0x23, 0x56, 0x80, 0x91, 0x77, 0xde, 0x85, 0xaf, 0x9b],
        [0xcf, 0x21, 0x5e, 0x72, 0xb8, 0xe1, 0x9f, 0x4c])
    else ([0xa4, 0xdb, 0x76, 0xa6, 0xd6, 0xac, 0x60, 0x74, 0x36],
      [0x7f, 0x67, 0xe8, 0x98, 0xfd, 0x16, 0x66, 0x91])
  decrypt _ _ _ _ _ := none

def dataFrame : Bytes := ethernet ⟨2, 0, 0, 0, 0, 3⟩ sta 0x0800 [0x45]

def fromAp (frame : KeyFrame) (mic : Bytes) : StationEvent Link :=
  .ethernet (ethernet sta ap ethertypeEapol ({ frame with mic } : KeyFrame).toBytes) 0

/-- The next `n` outputs are applied. -/
def applied (generation : UInt64) (n : ℕ) : List (StationEvent Link) :=
  List.replicate n (.apply ⟨generation, 0⟩ 0)

/-- An association and its handshake with the nonce `anonce` of the access point, up to the first
frame. -/
def handshake (generation : UInt64) (anonce : Nonce) (mic : Bytes) : List (StationEvent Link) :=
  [.mlme ⟨generation, 0⟩, .associated ap [0x61] (some staRsnIe) (some staRsnIe) 0,
    fromAp (message1 1 anonce) (List.replicate 16 0)] ++ applied generation 1 ++
    [fromAp (message3 2 anonce) mic] ++ applied generation 4 ++ [.send dataFrame 0]

def configured : StationEvent Link := .networks [{ ssid := [0x61], psk := some networkPsk }]

/-- Two nonces of the station, one after the other. -/
def nonces (n : ℕ) : Nonce := if n = 0 then allBytes 1 else allBytes 2

def firstHandshake : List (StationEvent Link) :=
  handshake 1 (allBytes 2) [0x0c, 0xc3, 0x91, 0x68, 0x3d, 0x8a, 0xe2, 0, 0x43, 0xfd, 0xc6, 0x5d,
    0xc7, 0x97, 0x80, 0xca]

/-- Message 3 comes again, and then another frame is sent. -/
def message3Again : List (StationEvent Link) :=
  [fromAp (message3 3 (allBytes 2)) [0x1c, 0x64, 0xed, 0x7d, 0x2c, 0xf3, 0x74, 0xbd, 0x73, 0xc5,
    0xf1, 0x3f, 0xd7, 0x8e, 0xa1, 0x7a]] ++
    applied 1 1 ++ [.send dataFrame 0]

/-- The nonce of the station from the first handshake is now that of the access point. -/
def swappedHandshake : List (StationEvent Link) :=
  handshake 2 (allBytes 1) [0xad, 0x0a, 0x41, 0x81, 0x4c, 0x46, 0x6d, 0xe1, 0xb6, 0x84, 0xee, 0xc1,
    0x42, 0x35, 0x93, 0x5b]

/-- Message 3 twice, and the key goes on counting. -/
theorem packet_numbers_rise_again :
    (((start sta nonces (⟨0, 0⟩ : Link)).run cryptoAt ccmAt
      (configured :: firstHandshake ++ message3Again)).sealed.map (·.2) = [1, 2]) ∧
      ((start sta nonces (⟨0, 0⟩ : Link)).run cryptoAt ccmAt
        (configured :: firstHandshake ++ message3Again)).installed.Nodup :=
  ⟨by decide +kernel,
    (packet_numbers_rise cryptoAt ccmAt sta nonces (⟨0, 0⟩ : Link)
      (configured :: firstHandshake ++ message3Again)
      (by decide +kernel) (by decide +kernel)).2.2⟩

/-- **With the nonces swapped the key is the same**: it is installed again, and its packet number
1 is used again. -/
theorem not_packet_numbers_rise :
    ¬ ∀ (c : WpaCrypto) (ccm : Ccm) (own : MacAddr) (rand : ℕ → Nonce) (mlme : Link) (es : List (StationEvent Link)),
      (((start own rand mlme).run c ccm es).supplicant.drawn.map (·.snonce)).Nodup →
      PrfIdeal c ((start own rand mlme).run c ccm es).supplicant.own
        ((start own rand mlme).run c ccm es).supplicant.drawn →
      ((start own rand mlme).run c ccm es).sealed.Nodup ∧
      ((start own rand mlme).run c ccm es).installed.Nodup := by
  intro h
  have htwice := h cryptoAt ccmAt sta nonces ⟨0, 0⟩
    (configured :: firstHandshake ++ swappedHandshake) (by decide +kernel)
    (by decide +kernel)
  have hsame :
    ¬ ((start sta nonces (⟨0, 0⟩ : Link)).run cryptoAt ccmAt
    (configured :: firstHandshake ++ swappedHandshake)).sealed.Nodup := by
    decide +kernel
  exact hsame htwice.1

end Station

end EvansComputer.Wifi
