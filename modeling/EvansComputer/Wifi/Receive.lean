import EvansComputer.Wifi.Iface

/-!
# Forged frames

What frames that the access point did not send do to those that it did.  Such a frame is refused,
by its tag or by its packet number, before a counter moves; but the sequence number in its header
has been noted by then.  So the keys and the counters go through a run as if only the genuine
frames were there, and a genuine frame can be lost only as a duplicate: as one that has the sequence
number of the last frame of its TID, whoever sent that.

`masked` is that case.  Where no genuine frame is masked, the genuine frames are delivered as if
there were no others.
-/

namespace EvansComputer.Wifi

variable {hlen : ℕ} {h : Header} {a : Slot × ℕ × ℕ}

/-- A frame on the air, and whether the access point encrypted it. -/
structure Heard where
  frame : Bytes
  genuine : Bool

namespace Wlan

variable {M : Type} [MlmeOps M] {c : Ccm} {w w' : Wlan M} {f : Bytes}

/-- What is delivered for the genuine frames. -/
def deliver (c : Ccm) : Wlan M → List Heard → List (Option Bytes)
  | _, [] => []
  | w, x :: xs =>
    if x.genuine then (w.recv80211 c x.frame).1 :: deliver c (w.recv80211 c x.frame).2 xs
    else deliver c (w.recv80211 c x.frame).2 xs

/-- Associated, with WPA2, and with the pairwise key installed. -/
structure Installed (w : Wlan M) : Prop where
  synced : MlmeOps.generation w.mlme = w.gen
  secured : w.secured = true
  ptk : w.ptk.isSome = true

/-- The key, the TID and the packet number of a frame that decrypts. -/
def authentic (c : Ccm) (w : Wlan M) (f : Bytes) : Option (Slot × ℕ × ℕ) :=
  match MlmeOps.currentBss w.mlme, Header.parse f with
  | some bssid, some (h, _) =>
    if addressed (MlmeOps.ownMac w.mlme) bssid h && h.isProtected then
      (ccmpPeek f).bind fun (pn, keyId) =>
        (w.keyAt (slotOf h keyId)).bind fun (tk, _) => (ccmpDecrypt c tk f).map fun _ =>
          (slotOf h keyId, tid f, pn)
    else none
  | _, _ => none

/-- Would the counters take the packet number of a protected frame? -/
def accepts (w : Wlan M) (h : Header) (f : Bytes) : Bool :=
  (ccmpPeek f).any fun (pn, keyId) => (w.keyAt (slotOf h keyId)).any fun (_, counters) =>
    counters.check (tid f) pn

/-- **Lost as a duplicate**, with a packet number that the counters would take. -/
def masked (w : Wlan M) (f : Bytes) : Bool :=
  (Header.parse f).any fun (h, _) => w.duplicate f h && w.accepts h f

/-- No genuine frame of the run is masked. -/
def Unmasked (c : Ccm) : Wlan M → List Heard → Prop
  | _, [] => True
  | w, x :: xs => (x.genuine = true → w.masked x.frame = false) ∧
    Unmasked c (w.recv80211 c x.frame).2 xs

/-- What the cipher promises: what is not genuine does not decrypt, unless it is a genuine frame
again. -/
def Ideal (c : Ccm) (w : Wlan M) : List Bytes → List Heard → Prop
  | _, [] => True
  | seen, x :: xs =>
    if x.genuine then Ideal c w (x.frame :: seen) xs
    else (∀ a, w.authentic c x.frame = some a → ∃ g ∈ seen, w.authentic c g = some a) ∧
      Ideal c w seen xs

/-! ## One frame -/

/-- The same but for what was noted of sequence numbers. -/
def Same (w w' : Wlan M) : Prop := ∃ lastSeq, w' = { w with lastSeq }

section
omit [MlmeOps M]

theorem Same.refl (w : Wlan M) : Same w w := ⟨w.lastSeq, rfl⟩

theorem Same.symm (h : Same w w') : Same w' w := by
  obtain ⟨ls, rfl⟩ := h
  exact ⟨w.lastSeq, rfl⟩

theorem Same.trans {w'' : Wlan M} (h : Same w w') (h' : Same w' w'') : Same w w'' := by
  obtain ⟨_, rfl⟩ := h
  obtain ⟨ls, rfl⟩ := h'
  exact ⟨ls, rfl⟩

theorem same_noteSeq (w : Wlan M) (f : Bytes) (h : Header) : Same w (w.noteSeq f h) := by
  unfold noteSeq
  split
  · exact .refl w
  · exact ⟨_, rfl⟩

theorem Same.keyAt (h : Same w w') (slot : Slot) : w'.keyAt slot = w.keyAt slot := by
  obtain ⟨_, rfl⟩ := h
  cases slot <;> rfl

theorem Same.setCounters (h : Same w w') (rx : ReplayCounters) (slot : Slot) :
    Same (w.setCounters rx slot) (w'.setCounters rx slot) := by
  obtain ⟨ls, rfl⟩ := h
  cases slot <;> exact ⟨ls, rfl⟩

theorem keyAt_setCounters (w : Wlan M) (rx : ReplayCounters) (slot slot' : Slot) :
    (w.setCounters rx slot).keyAt slot' =
      if slot' = slot then (w.keyAt slot).map fun k => (k.1, rx) else w.keyAt slot' := by
  cases slot with
  | none =>
    cases slot' with
    | none => cases hk : w.ptk <;> simp [Wlan.setCounters, Wlan.keyAt, hk]
    | some k => rfl
  | some id =>
    cases slot' with
    | none => rfl
    | some k =>
      by_cases hid : k = id
      · subst hid
        cases hk : w.gtk k <;> simp [Wlan.setCounters, Wlan.keyAt, hk]
      · simp [Wlan.setCounters, Wlan.keyAt, hid]

theorem unprotect_same (h : Same w w') (hd : Header) :
    ∃ ls, w'.unprotect c hd f = (w.unprotect c hd f).map fun p =>
      (p.1, { p.2 with lastSeq := ls }) := by
  obtain ⟨ls, rfl⟩ := h
  refine ⟨ls, ?_⟩
  unfold unprotect
  cases ccmpPeek f with
  | none => rfl
  | some p =>
    rw [Option.bind_some, Option.bind_some]
    dsimp only
    rw [Same.keyAt (w := w) ⟨ls, rfl⟩]
    cases w.keyAt (slotOf hd p.2) with
    | none => rfl
    | some k =>
      rw [Option.bind_some, Option.bind_some]
      split
      · rfl
      · cases ccmpDecrypt c k.1 f with
        | none => rfl
        | some plain => cases slotOf hd p.2 <;> rfl

theorem masked_ne (hclear : w.masked f = false) {hd : Header}
    (hparse : Header.parse f = some (hd, hlen)) (hdup : w.duplicate f hd = true)
    (hacc : w.accepts hd f = true) : False := by
  unfold masked at hclear
  rw [hparse, Option.any_some] at hclear
  dsimp only at hclear
  rw [hdup, hacc] at hclear
  cases hclear

theorem unprotect_of_not_accepts {hd : Header} (h : w.accepts hd f = false) :
    w.unprotect c hd f = none := by
  unfold accepts at h
  unfold unprotect
  cases hpeek : ccmpPeek f with
  | none => rfl
  | some p =>
    rw [hpeek, Option.any_some] at h
    dsimp only at h
    rw [Option.bind_some]
    dsimp only
    cases hkey : w.keyAt (slotOf hd p.2) with
    | none => rfl
    | some k =>
      rw [hkey, Option.any_some] at h
      rw [Option.bind_some, if_pos (by rw [h]; rfl)]

end

theorem sync_eq (h : MlmeOps.generation w.mlme = w.gen) : w.sync = w := if_neg fun hne => hne h

/-- What becomes of a frame that is no duplicate. -/
def take (c : Ccm) (w : Wlan M) (f : Bytes) (h : Header) : Option Bytes × Wlan M :=
  match if h.isProtected then w.unprotect c h f else some (f, w) with
  | none => (none, w)
  | some (plain, w) =>
    match dataToEthernet plain with
    | none => (none, w)
    | some eth =>
      if !h.isProtected && w.secured && ethertype eth ≠ some ethertypeEapol then (none, w)
        else (some eth, w)

section

variable (hsync : MlmeOps.generation w.mlme = w.gen)
include hsync

theorem recv_eq {bssid : MacAddr} (hbss : MlmeOps.currentBss w.mlme = some bssid)
    (hparse : Header.parse f = some (h, hlen)) :
    w.recv80211 c f =
      if !addressed (MlmeOps.ownMac w.mlme) bssid h then (none, w)
      else if w.duplicate f h then (none, w)
      else (w.noteSeq f h).take c f h := by
  unfold recv80211
  simp only [sync_eq hsync, hbss, hparse]
  rfl

/-- A frame that is not for the station. -/
theorem recv_none (h : MlmeOps.currentBss w.mlme = none ∨ Header.parse f = none) :
    w.recv80211 c f = (none, w) := by
  unfold recv80211
  rw [sync_eq hsync]
  dsimp only
  rcases h with h | h
  · rw [h]
  · rw [h]
    split <;> first | rfl | contradiction

omit hsync in
theorem take_same (h : Same w w') (hd : Header) :
    (w'.take c f hd).1 = (w.take c f hd).1 ∧ Same (w.take c f hd).2 (w'.take c f hd).2 := by
  have hsecured (w w' : Wlan M) (h : Same w w') : w'.secured = w.secured := by
    obtain ⟨_, rfl⟩ := h
    rfl
  obtain ⟨ls, hun⟩ := unprotect_same (c := c) (f := f) h hd
  unfold take
  by_cases hp : hd.isProtected = true
  · rw [if_pos hp, if_pos hp, hun]
    cases w.unprotect c hd f with
    | none => exact ⟨rfl, h⟩
    | some p =>
      rw [Option.map_some]
      dsimp only
      cases dataToEthernet p.1 with
      | none => exact ⟨rfl, _, rfl⟩
      | some eth =>
        simp only [hp, Bool.not_true, Bool.false_and, Bool.false_eq_true, if_false]
        exact ⟨trivial, _, rfl⟩
  · rw [if_neg hp, if_neg hp]
    dsimp only
    cases dataToEthernet f with
    | none => exact ⟨rfl, h⟩
    | some eth =>
      dsimp only
      rw [hsecured w w' h]
      split
      · exact ⟨rfl, h⟩
      · exact ⟨rfl, h⟩

/-- The counter of a key took the packet number of a frame that decrypted. -/
structure Took (c : Ccm) (w w' : Wlan M) (f : Bytes) (a : Slot × ℕ × ℕ) (tk : Bytes)
    (rx : ReplayCounters) : Prop where
  authentic : w.authentic c f = some a
  key : w.keyAt a.1 = some (tk, rx)
  check : rx.check a.2.1 a.2.2 = true
  state : Same (w.setCounters (rx.update a.2.1 a.2.2) a.1) w'

omit hsync in
theorem authentic_same (h : Same w w') : w'.authentic c f = w.authentic c f := by
  have hkey := h.keyAt
  obtain ⟨ls, rfl⟩ := h
  unfold Wlan.authentic
  simp only [hkey]

omit hsync in
/-- A protected frame that is decrypted moves the counter of its key. -/
theorem take_of_unprotect {bssid : MacAddr} (hbss : MlmeOps.currentBss w.mlme = some bssid)
    (hparse : Header.parse f = some (h, hlen))
    (haddr : addressed (MlmeOps.ownMac w.mlme) bssid h = true) (hp : h.isProtected = true)
    {p : Bytes × Wlan M} (hun : w.unprotect c h f = some p) :
    ∃ a tk rx, Took c w (w.take c f h).2 f a tk rx := by
  have hstate : (w.take c f h).2 = p.2 := by
    unfold take
    rw [if_pos hp, hun]
    dsimp only
    cases dataToEthernet p.1 with
    | none => rfl
    | some eth =>
      dsimp only
      split <;> rfl
  rw [hstate]
  unfold unprotect at hun
  obtain ⟨⟨pn, keyId⟩, hpeek, hun⟩ := Option.bind_eq_some_iff.mp hun
  obtain ⟨⟨tk, rx⟩, hkey, hun⟩ := Option.bind_eq_some_iff.mp hun
  dsimp only at hun
  split at hun
  · cases hun
  rename_i hcheck
  obtain ⟨plain, hplain, rfl⟩ := Option.map_eq_some_iff.mp hun
  refine ⟨(slotOf h keyId, tid f, pn), tk, rx, ?_, hkey, by simpa using hcheck, .refl _⟩
  unfold Wlan.authentic
  rw [hbss, hparse]
  dsimp only
  rw [haddr, hp, Bool.true_and, if_pos rfl, hpeek, Option.bind_some]
  dsimp only
  rw [hkey, Option.bind_some]
  dsimp only
  rw [hplain]
  rfl

omit hsync in
/-- **A frame moves a counter, or leaves all but the sequence numbers as they were.** -/
theorem take_cases {bssid : MacAddr} (hbss : MlmeOps.currentBss w.mlme = some bssid)
    (hparse : Header.parse f = some (h, hlen))
    (haddr : addressed (MlmeOps.ownMac w.mlme) bssid h = true) :
    (Same w (w.take c f h).2 ∧ (h.isProtected = true → (w.take c f h).1 = none)) ∨
      ∃ a tk rx, Took c w (w.take c f h).2 f a tk rx := by
  by_cases hp : h.isProtected = true
  · cases hun : w.unprotect c h f with
    | none =>
      unfold take
      rw [if_pos hp, hun]
      exact .inl ⟨.refl w, fun _ => rfl⟩
    | some p => exact .inr (take_of_unprotect hbss hparse haddr hp hun)
  · unfold take
    rw [if_neg hp]
    dsimp only
    cases dataToEthernet f with
    | none => exact .inl ⟨.refl w, fun h => absurd h hp⟩
    | some eth =>
      dsimp only
      split
      · exact .inl ⟨.refl w, fun h => absurd h hp⟩
      · exact .inl ⟨.refl w, fun h => absurd h hp⟩

omit hsync in
/-- What was noted of a sequence number does not matter to the counters. -/
theorem Took.noteSeq {tk : Bytes} {rx : ReplayCounters}
    (htook : Took c (w.noteSeq f h) w' f a tk rx) : Took c w w' f a tk rx := by
  have hnote := same_noteSeq w f h
  refine ⟨?_, ?_, htook.check, (hnote.setCounters _ _).trans htook.state⟩
  · rw [← authentic_same hnote]
    exact htook.authentic
  · rw [← hnote.keyAt]
    exact htook.key

omit [MlmeOps M] in
omit hsync in
theorem noteSeq_mlme (w : Wlan M) (f : Bytes) (h : Header) : (w.noteSeq f h).mlme = w.mlme := by
  obtain ⟨_, heq⟩ := same_noteSeq w f h
  rw [heq]

/-- What one frame does. -/
theorem recv_cases (f : Bytes) :
    (Same w (w.recv80211 c f).2 ∧ ∀ h hlen, Header.parse f = some (h, hlen) → h.isProtected = true →
      (w.recv80211 c f).1 = none) ∨
      ∃ a tk rx, Took c w (w.recv80211 c f).2 f a tk rx := by
  cases hbss : MlmeOps.currentBss w.mlme with
  | none =>
    rw [recv_none hsync (.inl hbss)]
    exact .inl ⟨.refl w, fun _ _ _ _ => rfl⟩
  | some bssid =>
    cases hparse : Header.parse f with
    | none =>
      rw [recv_none hsync (.inr hparse)]
      exact .inl ⟨.refl w, fun _ _ _ _ => rfl⟩
    | some p =>
      obtain ⟨h, hlen⟩ := p
      rw [recv_eq hsync hbss hparse]
      split
      · exact .inl ⟨.refl w, fun _ _ _ _ => rfl⟩
      rename_i haddr
      split
      · exact .inl ⟨.refl w, fun _ _ _ _ => rfl⟩
      rcases take_cases (c := c) (w := w.noteSeq f h) (by rw [noteSeq_mlme]; exact hbss) hparse
        (by rw [noteSeq_mlme]; simpa using haddr) with ⟨hs, hout⟩ | ⟨a, tk, rx, htook⟩
      · refine .inl ⟨(same_noteSeq w f h).trans hs, fun h' hlen' heq hp => ?_⟩
        cases heq
        exact hout hp
      · exact .inr ⟨a, tk, rx, htook.noteSeq⟩

/-! ## Refused packet numbers -/

/-- No packet number up to that of `a` is taken any more. -/
def Refuses (w : Wlan M) (a : Slot × ℕ × ℕ) : Prop :=
  ∀ tk rx, w.keyAt a.1 = some (tk, rx) → ∀ pn ≤ a.2.2, rx.check a.2.1 pn = false

omit hsync in
theorem check_false_of_le {rx : ReplayCounters} {idx pn pn' : ℕ} (h : rx.check idx pn = false)
    (hle : pn' ≤ pn) :
    rx.check idx pn' = false := by
  unfold ReplayCounters.check at *
  cases hl : rx.last (min idx 16) with
  | none => rw [hl] at h; cases h
  | some l =>
    rw [hl] at h
    simp only [decide_eq_false_iff_not] at *
    omega

omit [MlmeOps M] in
omit hsync in
theorem Refuses.same (h : w.Refuses a) (hs : Same w w') : w'.Refuses a := by
  intro tk rx hkey
  rw [hs.keyAt] at hkey
  exact h tk rx hkey

omit hsync in
/-- The packet number that was taken is refused from then on, and what was refused stays so. -/
theorem Took.refuses {b : Slot × ℕ × ℕ} {tk : Bytes} {rx : ReplayCounters}
    (h : Took c w w' f a tk rx) (hb : b = a ∨ w.Refuses b) : w'.Refuses b := by
  refine Refuses.same ?_ h.state
  intro tk' rx' hkey pn hle
  rw [keyAt_setCounters] at hkey
  split at hkey
  · rename_i hslot
    rw [h.key] at hkey
    cases hkey
    rcases hb with rfl | hb
    · rw [ReplayCounters.check_update, if_pos rfl]
      exact decide_eq_false (Nat.not_lt.mpr hle)
    · exact ReplayCounters.check_update_of_check (hb tk rx (hslot ▸ h.key) pn hle) h.check
  · rename_i hslot
    rcases hb with rfl | hb
    · exact absurd rfl hslot
    · exact hb tk' rx' hkey pn hle

/-- One frame leaves what was refused as it was. -/
theorem Refuses.recv {b : Slot × ℕ × ℕ} (h : w.Refuses b) (f : Bytes) :
    (w.recv80211 c f).2.Refuses b := by
  rcases recv_cases (c := c) hsync f with ⟨hs, -⟩ | ⟨a, tk, rx, htook⟩
  · exact h.same hs
  · exact htook.refuses (.inr h)

/-- The association and the keys, without what changes as frames are received. -/
def Fixed (w w' : Wlan M) : Prop :=
  w'.mlme = w.mlme ∧ w'.gen = w.gen ∧ ∀ slot, (w'.keyAt slot).map (·.1) = (w.keyAt slot).map (·.1)

theorem fixed_recv (f : Bytes) : Fixed w (w.recv80211 c f).2 := by
  have hsame {v v' : Wlan M} (h : Same v v') : Fixed v v' := by
    refine ⟨?_, ?_, fun slot => by rw [h.keyAt]⟩
    · obtain ⟨_, rfl⟩ := h
      rfl
    · obtain ⟨_, rfl⟩ := h
      rfl
  rcases recv_cases (c := c) hsync f with ⟨hs, -⟩ | ⟨a, tk, rx, htook⟩
  · exact hsame hs
  · obtain ⟨hm, hg, hk⟩ := hsame htook.state
    refine ⟨hm.trans ?_, hg.trans ?_, fun slot => (hk slot).trans ?_⟩
    · cases a.1 <;> rfl
    · cases a.1 <;> rfl
    · rw [keyAt_setCounters]
      split
      · rename_i hslot
        rw [hslot, htook.key]
        rfl
      · rfl

omit hsync in
theorem Fixed.authentic (h : Fixed w w') (f : Bytes) : w'.authentic c f = w.authentic c f := by
  obtain ⟨hm, -, hk⟩ := h
  unfold Wlan.authentic
  rw [hm]
  have hbind (slot : Slot) (g : Bytes → Option (Slot × ℕ × ℕ)) :
      ((w'.keyAt slot).bind fun p => g p.1) = (w.keyAt slot).bind fun p => g p.1 := by
    have := congrArg (·.bind g) (hk slot)
    simpa [Option.bind_map, Function.comp_def] using this
  split
  · split
    · congr 1
      funext p
      exact hbind _ fun tk => (ccmpDecrypt c tk f).map fun _ => _
    · rfl
  · rfl

/-! ## Runs -/

omit hsync in
theorem authentic_some (h : w.authentic c f = some a) :
    ∃ bssid hd hlen tk rx, MlmeOps.currentBss w.mlme = some bssid ∧
      Header.parse f = some (hd, hlen) ∧
      addressed (MlmeOps.ownMac w.mlme) bssid hd = true ∧ hd.isProtected = true ∧
        w.keyAt a.1 = some (tk, rx) ∧
      (ccmpDecrypt c tk f).isSome = true ∧ w.accepts hd f = rx.check a.2.1 a.2.2 ∧
      (rx.check a.2.1 a.2.2 = true → (w.unprotect c hd f).isSome = true) := by
  unfold Wlan.authentic at h
  split at h
  swap
  · cases h
  rename_i bssid hd hlen hbss hparse
  split at h
  swap
  · cases h
  rename_i hpass
  rw [Bool.and_eq_true] at hpass
  obtain ⟨⟨pn, keyId⟩, hpeek, h⟩ := Option.bind_eq_some_iff.mp h
  obtain ⟨⟨tk, rx⟩, hkey, h⟩ := Option.bind_eq_some_iff.mp h
  obtain ⟨plain, hplain, rfl⟩ := Option.map_eq_some_iff.mp h
  refine ⟨bssid, hd, hlen, tk, rx, hbss, hparse, hpass.1, hpass.2, hkey, by rw [hplain]; rfl, ?_,
    fun hcheck => ?_⟩
  · unfold accepts
    rw [hpeek, Option.any_some]
    dsimp only
    rw [hkey, Option.any_some]
  · unfold unprotect
    rw [hpeek, Option.bind_some]
    dsimp only
    rw [hkey, Option.bind_some]
    dsimp only at hcheck ⊢
    rw [hcheck, hplain]
    rfl

/-- **A genuine frame that is not masked is refused from then on.** -/
theorem refuses_genuine (hclear : w.masked f = false) (ha : w.authentic c f = some a) :
    (w.recv80211 c f).2.Refuses a := by
  obtain ⟨bssid, h, hlen, tk, rx, hbss, hparse, haddr, hp, hkey, -, haccepts, hun⟩ :=
    authentic_some ha
  cases hcheck : rx.check a.2.1 a.2.2 with
  | false =>
    refine Refuses.recv hsync ?_ f
    intro tk' rx' hkey' pn hle
    rw [hkey] at hkey'
    cases hkey'
    exact check_false_of_le hcheck hle
  | true =>
    -- it is no duplicate, so its key takes its packet number
    have hnodup : w.duplicate f h = false := by
      by_contra hdup
      exact masked_ne hclear hparse (by simpa using hdup) (haccepts.trans hcheck)
    obtain ⟨ls, hls⟩ := unprotect_same (c := c) (f := f) (same_noteSeq w f h) h
    obtain ⟨p, hopen⟩ := Option.isSome_iff_exists.mp (hun hcheck)
    rw [hopen, Option.map_some] at hls
    obtain ⟨a', tk', rx', htook⟩ :=
      take_of_unprotect (w := w.noteSeq f h) (by rw [noteSeq_mlme]; exact hbss) hparse
      (by rw [noteSeq_mlme]; exact haddr) hp hls
    have hstate : (w.recv80211 c f).2 = ((w.noteSeq f h).take c f h).2 := by
      rw [recv_eq hsync hbss hparse, haddr, hnodup]
      rfl
    have heq : a' = a := Option.some_inj.mp (htook.noteSeq.authentic.symm.trans ha)
    rw [hstate]
    exact htook.noteSeq.refuses (.inl heq.symm)

/-- A genuine frame is treated alike, whatever was noted of sequence numbers. -/
theorem recv_genuine (hs : Same w w') (hclear : w.masked f = false) (hclear' : w'.masked f = false)
    (hprotected : ∀ h hlen, Header.parse f = some (h, hlen) → h.isProtected = true) :
    (w'.recv80211 c f).1 = (w.recv80211 c f).1 ∧ Same (w.recv80211 c f).2 (w'.recv80211 c f).2 := by
  have hmlme : w'.mlme = w.mlme ∧ w'.gen = w.gen := by
    obtain ⟨_, rfl⟩ := hs
    exact ⟨rfl, rfl⟩
  have hsync' : MlmeOps.generation w'.mlme = w'.gen := by rw [hmlme.1, hmlme.2]; exact hsync
  cases hbss : MlmeOps.currentBss w.mlme with
  | none =>
    rw [recv_none hsync (.inl hbss), recv_none hsync' (.inl (hmlme.1 ▸ hbss))]
    exact ⟨rfl, hs⟩
  | some bssid =>
    cases hparse : Header.parse f with
    | none =>
      rw [recv_none hsync (.inr hparse), recv_none hsync' (.inr hparse)]
      exact ⟨rfl, hs⟩
    | some p =>
      obtain ⟨h, hlen⟩ := p
      have hp := hprotected h hlen hparse
      -- as if there were no check for duplicates
      have hresult (v : Wlan M) (hv : MlmeOps.generation v.mlme = v.gen)
        (hb : MlmeOps.currentBss v.mlme = some bssid)
          (hown : MlmeOps.ownMac v.mlme = MlmeOps.ownMac w.mlme) (hclear : v.masked f = false)
          (haddr : addressed (MlmeOps.ownMac w.mlme) bssid h = true) :
          (v.recv80211 c f).1 = (v.take c f h).1 ∧ Same (v.take c f h).2 (v.recv80211 c f).2 := by
        rw [recv_eq hv hb hparse, hown, haddr, Bool.not_true, if_neg Bool.false_ne_true]
        by_cases hdup : v.duplicate f h = true
        · have hrefuse : v.accepts h f = false := by
            by_contra hacc
            exact masked_ne hclear hparse hdup (by simpa using hacc)
          have htake : v.take c f h = (none, v) := by
            unfold take
            rw [if_pos hp, unprotect_of_not_accepts hrefuse]
          rw [if_pos hdup, htake]
          exact ⟨rfl, .refl v⟩
        · rw [if_neg hdup]
          exact take_same (same_noteSeq v f h) h
      by_cases haddr : addressed (MlmeOps.ownMac w.mlme) bssid h = true
      · obtain ⟨hout, hstate⟩ := hresult w hsync hbss rfl hclear haddr
        obtain ⟨hout', hstate'⟩ :=
          hresult w' hsync' (hmlme.1 ▸ hbss) (by rw [hmlme.1]) hclear' haddr
        obtain ⟨htake, hsame⟩ := take_same (c := c) (f := f) hs h
        exact ⟨hout'.trans (htake.trans hout.symm), (hstate.symm.trans hsame).trans hstate'⟩
      · have hno : (!addressed (MlmeOps.ownMac w.mlme) bssid h) = true := by simpa using haddr
        rw [recv_eq hsync hbss hparse, recv_eq hsync' (hmlme.1 ▸ hbss) hparse, hmlme.1,
          if_pos hno, if_pos hno]
        exact ⟨rfl, hs⟩

/-- **A frame that is not genuine moves nothing** but what is noted of sequence numbers. -/
theorem recv_other (h : ∀ a, w.authentic c f = some a → w.Refuses a) :
    Same w (w.recv80211 c f).2 := by
  rcases recv_cases (c := c) hsync f with ⟨hs, -⟩ | ⟨a, tk, rx, htook⟩
  · exact hs
  · have hno := h a htook.authentic tk rx htook.key _ le_rfl
    rw [htook.check] at hno
    cases hno

/-- The keys, the TIDs and the packet numbers of the protected frames that are delivered. -/
def taken (c : Ccm) : Wlan M → List Heard → List (Slot × ℕ × ℕ)
  | _, [] => []
  | w, x :: xs =>
    (if (w.recv80211 c x.frame).1.isSome then (w.authentic c x.frame).toList else []) ++ taken c
    (w.recv80211 c x.frame).2 xs

theorem fixed_synced (h : Fixed w w') : MlmeOps.generation w'.mlme = w'.gen := by
  rw [h.1, h.2.1]
  exact hsync

/-- A frame that is delivered, and was protected, moved the counter of its key. -/
theorem took_of_delivered (ha : w.authentic c f = some a)
    (hout : (w.recv80211 c f).1.isSome = true) :
    ∃ tk rx, Took c w (w.recv80211 c f).2 f a tk rx := by
  obtain ⟨bssid, h, hlen, -, -, -, hparse, -, hp, -⟩ := authentic_some ha
  rcases recv_cases (c := c) hsync f with ⟨-, hnone⟩ | ⟨a', tk, rx, htook⟩
  · rw [hnone h hlen hparse hp] at hout
    cases hout
  · have heq : a' = a := Option.some_inj.mp (htook.authentic.symm.trans ha)
    exact ⟨tk, rx, heq ▸ htook⟩

/-- What was refused is not taken. -/
theorem lt_of_taken {b : Slot × ℕ × ℕ} (hb : w.Refuses b) (xs : List Heard) :
    ∀ a ∈ taken c w xs, b.1 = a.1 → b.2.1 = a.2.1 → b.2.2 < a.2.2 := by
  induction xs generalizing w with
  | nil => exact fun a ha => absurd ha List.not_mem_nil
  | cons x xs ih =>
    intro a ha hslot htid
    rcases List.mem_append.mp ha with ha | ha
    · split at ha
      · rename_i hout
        obtain ⟨tk, rx, htook⟩ := took_of_delivered hsync (Option.mem_toList.mp ha) hout
        by_contra hle
        have hno := hb tk rx (hslot ▸ htook.key) a.2.2 (Nat.not_lt.mp hle)
        rw [htid, htook.check] at hno
        cases hno
      · cases ha
    · exact ih (fixed_synced hsync (fixed_recv hsync x.frame))
        (hb.recv hsync x.frame) a ha hslot htid

/-- **Each packet number is delivered once**, and after all that are lower. -/
theorem taken_pairwise (xs : List Heard) :
    (taken c w xs).Pairwise fun a b => a.1 = b.1 → a.2.1 = b.2.1 → a.2.2 < b.2.2 := by
  induction xs generalizing w with
  | nil => exact .nil
  | cons x xs ih =>
    have hsync' := fixed_synced hsync (fixed_recv (c := c) hsync x.frame)
    refine List.pairwise_append.mpr ⟨?_, ih hsync', fun a ha b hb => ?_⟩
    · split
      · cases w.authentic c x.frame with
        | none => exact .nil
        | some a => exact List.pairwise_singleton _ _
      · exact .nil
    · split at ha
      · rename_i hout
        obtain ⟨tk, rx, htook⟩ := took_of_delivered hsync (Option.mem_toList.mp ha) hout
        exact lt_of_taken hsync' (htook.refuses (.inl rfl)) xs b hb
      · cases ha

end

/-- Only the handshake is delivered from the clear. -/
theorem eapol_of_clear (hsecured : w.sync.secured = true) {eth : Bytes}
    (hout : (w.recv80211 c f).1 = some eth) (hclear : ∀ h hlen, Header.parse f = some (h, hlen) →
      h.isProtected = false) : ethertype eth = some ethertypeEapol := by
  unfold recv80211 at hout
  dsimp only at hout
  split at hout
  swap
  · cases hout
  rename_i bssid h hlen _ hparse
  split at hout
  · cases hout
  split at hout
  · cases hout
  have hp := hclear h hlen hparse
  rw [hp, if_neg Bool.false_ne_true] at hout
  dsimp only at hout
  split at hout
  · cases hout
  rename_i eth' _
  have hsecured' : (w.sync.noteSeq f h).secured = true := by
    unfold Wlan.secured at hsecured ⊢
    rw [noteSeq_mlme]
    exact hsecured
  rw [hsecured', Bool.not_false, Bool.true_and, Bool.true_and] at hout
  split at hout
  · cases hout
  · rename_i heapol
    cases hout
    simpa using heapol

/-- Only the handshake is sent in the clear. -/
theorem eapol_of_sent (hsecured : w.sync.secured = true) {eth : Bytes} {now : ℤ} {tx : TxFrame}
    (hout : (w.sendEthernet c eth now).1 = some tx) (hclear : tx.sealed = none) :
    ethertype eth = some ethertypeEapol := by
  unfold sendEthernet at hout
  dsimp only at hout
  split at hout
  swap
  · cases hout
  rename_i bssid et _ het
  split at hout
  · cases hout
  rename_i hopen
  rw [het]
  by_contra hne
  have hne : ¬ et = ethertypeEapol := fun heq => hne (congrArg some heq)
  have hauth : w.sync.authorized = true := by
    by_contra hno
    exact hopen ⟨hne, hno⟩
  unfold authorized at hauth
  rw [hsecured, Bool.not_true, Bool.false_or, Bool.and_eq_true] at hauth
  obtain ⟨k, hk⟩ := Option.isSome_iff_exists.mp hauth.2
  split at hout
  · cases hout
  unfold protect at hout
  dsimp only at hout
  rw [hk] at hout
  simp only [hne, decide_false, Bool.false_and, Bool.false_eq_true, if_false] at hout
  split at hout
  · cases hout
  · obtain ⟨_, -, rfl⟩ := Option.map_eq_some_iff.mp hout
    cases hclear

/-- The run of the genuine frames alone, beside the run with the others. -/
theorem deliver_eq {w₀ : Wlan M} {seen : List Bytes} (xs : List Heard)
    (hsync : MlmeOps.generation w.mlme = w.gen) (hs : Same w w') (hfixed : Fixed w₀ w)
    (hseen : ∀ g ∈ seen, ∀ a, w₀.authentic c g = some a → w'.Refuses a)
    (hgenuine : ∀ x ∈ xs, x.genuine = true → ∀ h hlen, Header.parse x.frame = some (h, hlen) →
    h.isProtected = true)
    (hideal : Ideal c w₀ seen xs) (hclear : Unmasked c w' xs)
    (hclear' : Unmasked c w (xs.filter (·.genuine))) :
    deliver c w' xs = deliver c w (xs.filter (·.genuine)) := by
  induction xs generalizing w w' seen with
  | nil => rfl
  | cons x xs ih =>
    have hauth (f : Bytes) : w'.authentic c f = w₀.authentic c f :=
      (authentic_same hs).trans (hfixed.authentic f)
    have hsync' : MlmeOps.generation w'.mlme = w'.gen := by
      obtain ⟨_, rfl⟩ := hs
      exact hsync
    have hrest : ∀ y ∈ xs, y.genuine = true → ∀ h hlen, Header.parse y.frame = some (h, hlen) →
      h.isProtected = true :=
      fun y hy => hgenuine y (List.mem_cons_of_mem _ hy)
    cases hx : x.genuine with
    | true =>
      have hfilter : (x :: xs).filter (·.genuine) = x :: xs.filter (·.genuine) :=
        List.filter_cons_of_pos hx
      rw [hfilter] at hclear' ⊢
      unfold Ideal at hideal
      rw [if_pos hx] at hideal
      obtain ⟨hclear₁, hclear₂⟩ := hclear
      obtain ⟨hclear₁', hclear₂'⟩ := hclear'
      obtain ⟨hout, hstate⟩ :=
        recv_genuine (c := c) hsync hs (hclear₁' hx) (hclear₁ hx) (hgenuine x List.mem_cons_self hx)
      unfold deliver
      rw [if_pos hx, if_pos hx, hout]
      refine congrArg _ (ih (fixed_synced hsync (fixed_recv hsync x.frame)) hstate ?_ ?_ hrest
        hideal hclear₂ hclear₂')
      · obtain ⟨hm, hg, hk⟩ := fixed_recv (c := c) hsync x.frame
        exact ⟨hm.trans hfixed.1, hg.trans hfixed.2.1, fun slot =>
          (hk slot).trans (hfixed.2.2 slot)⟩
      · intro g hg a ha
        rcases List.mem_cons.mp hg with rfl | hg
        · exact refuses_genuine hsync' (hclear₁ hx) ((hauth _).trans ha)
        · exact (hseen g hg a ha).recv hsync' x.frame
    | false =>
      have hfilter : (x :: xs).filter (·.genuine) = xs.filter (·.genuine) :=
        List.filter_cons_of_neg (by simp [hx])
      rw [hfilter] at hclear' ⊢
      unfold Ideal at hideal
      rw [if_neg (by simp [hx])] at hideal
      rw [deliver, if_neg (by simp [hx])]
      have hother := recv_other (c := c) hsync' fun a ha => by
        obtain ⟨g, hg, hga⟩ := hideal.1 a ((hauth _).symm.trans ha)
        exact hseen g hg a hga
      exact ih hsync (hs.trans hother) hfixed (fun g hg a ha => (hseen g hg a ha).same hother) hrest
        hideal.2 hclear.2 hclear'

/-- **Frames that the access point did not send** change nothing of what is delivered for those that
it did, where no genuine frame is masked. -/
theorem forged_no_effect (c : Ccm) (w : Wlan M) (xs : List Heard) (hw : w.Installed)
    (hgenuine : ∀ x ∈ xs, x.genuine = true → ∀ h hlen, Header.parse x.frame = some (h, hlen) →
      h.isProtected = true)
    (hideal : Ideal c w [] xs) (hclear : Unmasked c w xs)
    (hclear' : Unmasked c w (xs.filter (·.genuine))) :
    deliver c w xs = deliver c w (xs.filter (·.genuine)) ∧
      ((taken c w xs).Pairwise fun a b => a.1 = b.1 → a.2.1 = b.2.1 → a.2.2 < b.2.2) ∧
      ∀ v : Wlan M, v.sync.secured = true →
        (∀ f eth, (v.recv80211 c f).1 = some eth →
          (∀ h hlen, Header.parse f = some (h, hlen) → h.isProtected = false) →
          ethertype eth = some ethertypeEapol) ∧
        ∀ eth now tx, (v.sendEthernet c eth now).1 = some tx → tx.sealed = none →
          ethertype eth = some ethertypeEapol := by
  refine ⟨?_, taken_pairwise hw.synced xs, fun v hv =>
    ⟨fun f eth => eapol_of_clear hv, fun eth now tx => eapol_of_sent hv⟩⟩
  exact deliver_eq xs hw.synced (.refl w) ⟨rfl, rfl, fun _ => rfl⟩
    (fun g hg => absurd hg List.not_mem_nil) hgenuine hideal hclear
    hclear'

/-! ### A retransmission that is lost -/

/-- An association that stays. -/
structure Associated where
  own : MacAddr
  bssid : MacAddr

instance : MlmeOps Associated where
  ownMac m := m.own
  generation _ := 0
  currentBss m := some m.bssid
  activeBssid m := some m.bssid
  secured _ := true
  nextSeq m := (0, m)
  noteTx m _ := m

def station : Wlan Associated where
  mlme := ⟨⟨2, 0, 0, 0, 0, 1⟩, ⟨2, 0, 0, 0, 0, 2⟩⟩
  ptk := some { bssid := ⟨2, 0, 0, 0, 0, 2⟩, tk := List.replicate 16 0 }

/-- An unprotected frame in the name of the access point, with the sequence number `seq`. -/
def forgedFrame (seq : Byte) : Bytes :=
  [0x08, 0x02, 0, 0, 2, 0, 0, 0, 0, 1, 2, 0, 0, 0, 0, 2, 2, 0, 0, 0, 0, 3, seq <<< 4, 0, 0xaa, 0xaa,
    3, 0, 0, 0, 8, 0]

/-- The retransmission of a frame with the sequence number 5, encrypted under a key of zeros with
the packet number 1. -/
def retransmission : Bytes :=
  [0x08, 0x4a, 0, 0, 2, 0, 0, 0, 0, 1, 2, 0, 0, 0, 0, 2, 2, 0, 0, 0, 0, 3, 0x50, 0, 1, 0, 0,
    0x20, 0, 0, 0, 0,
    0x45, 0xee, 0x4a, 0x15, 0x3f, 0x0d, 0x3a, 0x9d, 0x5b, 0xda, 0xba, 0xf2, 0xb7, 0x02,
      0xa5, 0x34, 0xe6]

/-- AES-CCM at that frame. -/
def ccmAt : Ccm where
  encrypt _ _ _ _ := ([0x45, 0xee, 0x4a, 0x15, 0x3f, 0x0d, 0x3a, 0x9d, 0x5b],
    [0xda, 0xba, 0xf2, 0xb7, 0x02, 0xa5, 0x34, 0xe6])
  decrypt tk nonce aad body tag :=
    if tk = List.replicate 16 0 ∧ nonce = [0, 2, 0, 0, 0, 0, 2, 0, 0, 0, 0, 0, 1] ∧
        aad = [0x08, 0x42, 2, 0, 0, 0, 0, 1, 2, 0, 0, 0, 0, 2, 2, 0, 0, 0, 0, 3, 0, 0] ∧
        body = [0x45, 0xee, 0x4a, 0x15, 0x3f, 0x0d, 0x3a, 0x9d, 0x5b] ∧
          tag = [0xda, 0xba, 0xf2, 0xb7, 0x02, 0xa5, 0x34, 0xe6] then
      some [0xaa, 0xaa, 3, 0, 0, 0, 8, 0, 0x45]
    else none

/-- The forged frame is no frame of the access point. -/
theorem ideal_forged (seq : Byte) (hseq : seq = 5 ∨ seq = 6) :
    Ideal ccmAt station [] [⟨forgedFrame seq, false⟩, ⟨retransmission, true⟩] := by
  refine ⟨fun a ha => ?_, trivial⟩
  have hnone : station.authentic ccmAt (forgedFrame seq) = none := by
    rcases hseq with rfl | rfl
    · decide +kernel
    · decide +kernel
  rw [hnone] at ha
  cases ha

theorem protected_retransmission (seq : Byte) :
    ∀ x ∈ [(⟨forgedFrame seq, false⟩ : Heard), ⟨retransmission, true⟩], x.genuine = true →
    ∀ h hlen, Header.parse x.frame = some (h, hlen) → h.isProtected = true := by
  intro x hx hgenuine h hlen hparse
  rcases List.mem_cons.mp hx with rfl | hx
  · cases hgenuine
  · rw [List.mem_singleton.mp hx] at hparse
    have hall : (Header.parse retransmission).all (fun p => p.1.isProtected) = true := by
      decide +kernel
    rw [hparse] at hall
    exact hall

theorem installed_station : station.Installed := ⟨rfl, rfl, rfl⟩

/-- A forged frame with another sequence number does no harm. -/
theorem forged_no_effect_six :
    deliver ccmAt station [⟨forgedFrame 6, false⟩, ⟨retransmission, true⟩] = deliver ccmAt station
      [⟨retransmission, true⟩] :=
  (forged_no_effect ccmAt station [⟨forgedFrame 6, false⟩, ⟨retransmission, true⟩] installed_station
    (protected_retransmission 6)
    (ideal_forged 6 (.inr rfl)) ⟨by decide +kernel, by decide +kernel, trivial⟩
      ⟨by decide +kernel, trivial⟩).1

/-- **A forged frame takes a retransmission with it**: one with its sequence number, whose first
transmission was lost. -/
theorem not_forged_no_effect :
    ¬ ∀ (c : Ccm) (w : Wlan Associated) (xs : List Heard), w.Installed →
      (∀ x ∈ xs, x.genuine = true → ∀ h hlen, Header.parse x.frame = some (h, hlen) →
        h.isProtected = true) →
      Ideal c w [] xs → deliver c w xs = deliver c w (xs.filter (·.genuine)) := by
  intro h
  have heq := h ccmAt station [⟨forgedFrame 5, false⟩, ⟨retransmission, true⟩] installed_station
    (protected_retransmission 5)
    (ideal_forged 5 (.inl rfl))
  have hlost : deliver ccmAt station [⟨forgedFrame 5, false⟩, ⟨retransmission, true⟩] = [none] := by
    decide +kernel
  have hkept : deliver ccmAt station [⟨retransmission, true⟩] ≠ [none] := by decide +kernel
  exact hkept (heq.symm.trans hlost)

end Wlan

end EvansComputer.Wifi
