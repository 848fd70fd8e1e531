import EvansComputer.Switch.Isolation

/-!
# Two switches on one link

What a switch sends over a link is classified by the next one from its bytes.  The outer tag of a
frame is taken off or replaced; a tag that stands behind it is payload to the switch that sends, and
the tag of the frame to the one that receives, where nothing was put in front of it.
-/

namespace EvansComputer.Switch

variable {f out : Frame} {e : EthInfo} {v w : UInt16}

/-- Behind the outer tag of the frame there is another, of the VLAN `w`. -/
def TagBehind (f : Frame) (w : UInt16) : Prop :=
  22 ≤ f.length ∧ be16 f 16 = some tpid8021q ∧ ∃ tci, be16 f 18 = some tci ∧ tci &&& 0x0fff = w

/-- A frame of the VLAN `v` gets out of it over a link of that mode: its tag is taken off, as the
VLAN is the native one, and the tag behind is of another VLAN that the trunk carries. -/
def Hops (mode : Option PortMode) (f : Frame) (e : EthInfo) (v : UInt16) : Prop :=
  ∃ allowed w, mode = some (.trunk v false allowed) ∧ e.tci.isSome = true ∧ TagBehind f w ∧
    w ≠ 0 ∧ w ≠ v ∧
    allowed.allows w = true

/-! ## The tag behind the outer one -/

theorem vid_eq_some : e.vid = some w ↔ w ≠ 0 ∧ ∃ tci, e.tci = some tci ∧ tci &&& 0x0fff = w := by
  unfold EthInfo.vid
  cases e.tci with
  | none => simp
  | some tci =>
    dsimp only
    split_ifs with hzero
    · constructor
      · intro h
        obtain rfl := Option.some.inj h
        exact ⟨hzero, tci, rfl, rfl⟩
      · rintro ⟨-, tci', heq, hw⟩
        obtain rfl := Option.some.inj heq
        exact congrArg some hw
    · constructor
      · intro h
        cases h
      · rintro ⟨hw, tci', heq, rfl⟩
        obtain rfl := Option.some.inj heq
        exact absurd hw hzero

theorem be16_untag (hlen : 12 ≤ f.length) (k : ℕ) :
    be16 (f.take 12 ++ f.drop 16) (12 + k) = be16 f (16 + k) := by
  unfold be16
  rw [← List.drop_drop, List.drop_left' (List.length_take_of_le hlen), List.drop_drop]

/-- **Without its outer tag a frame has the VLAN of the tag behind.** -/
theorem vid_untag (he : parseEth f = some e) (htag : e.tci.isSome = true) :
    (∃ e', parseEth (untag f) = some e' ∧ e'.vid = some w) ↔ TagBehind f w ∧ w ≠ 0 := by
  obtain ⟨hmin, hmax, hhdr⟩ := parseEth_eq_some he
  rw [if_pos htag] at hhdr
  have hlong : 12 ≤ f.length := by omega
  have hlen : (f.take 12 ++ f.drop 16).length = f.length - 4 := by
    rw [List.length_append, List.length_take_of_le hlong, List.length_drop]
    omega
  rw [untag_eq he, if_pos htag]
  have htpid := be16_untag hlong 0
  have htci := be16_untag hlong 2
  constructor
  · rintro ⟨e', he', hvid⟩
    obtain ⟨hw, tci, heq, hval⟩ := vid_eq_some.mp hvid
    obtain ⟨-, -, hhdr'⟩ := parseEth_eq_some he'
    rw [if_pos (by rw [heq]; rfl)] at hhdr'
    obtain ⟨htype, htci', hroom⟩ := hhdr'
    refine ⟨⟨by omega, htpid.symm.trans htype, tci, ?_, hval⟩, hw⟩
    exact htci.symm.trans (htci'.trans heq)
  · rintro ⟨⟨hroom, htype, tci, hbehind, hval⟩, hw⟩
    obtain ⟨e', he', heq⟩ :=
      exists_parseEth_tagged (htpid.trans htype) (htci.trans hbehind) (by omega) (by omega)
    exact ⟨e', he', vid_eq_some.mpr ⟨hw, tci, heq, hval⟩⟩

namespace Bridge

variable {b b' : Bridge} {bp bp' : PortRef} {m : ℕ}

/-- What comes in on the bridge port is taken for a frame of the VLAN `v`, or dropped. -/
def Agrees (b : Bridge) (bp : PortRef) (v : UInt16) (out : Frame) : Prop :=
  ∀ e, parseEth out = some e → ∀ w, b.ingressVlan bp e = some w → w = v

/-! ## What is sent over a port -/

theorem membership_eq_some {tagged : Bool} (h : b.membership bp v = some tagged) :
    (b.bpMode bp = some (.access v) ∧ tagged = false) ∨
      ∃ native nativeTag allowed, b.bpMode bp = some (.trunk native nativeTag allowed) ∧
        allowed.allows v = true ∧
        tagged = !(v = native && !nativeTag) := by
  unfold membership at h
  split at h
  · cases h
  · cases h
  · rename_i a hmode
    split_ifs at h with ha
    cases h
    exact .inl ⟨ha ▸ hmode, rfl⟩
  · rename_i native nativeTag allowed hmode
    split_ifs at h with hallows
    cases h
    exact .inr ⟨native, nativeTag, allowed, hmode, by simpa using hallows, rfl⟩

theorem of_mem_tx {m' : ℕ} {g : Frame} (h : .tx m out ∈ b.tx m' g) : m = m' ∧ out = g := by
  rcases tx_eq (b := b) m' g with hnone | hone
  · rw [hnone] at h
    cases h
  · rw [hone] at h
    cases List.mem_singleton.mp h
    exact ⟨rfl, rfl⟩

/-- A frame leaves on a port that the bridge port stands for, with the tag that is put on it or
without its outer one. -/
theorem of_mem_egress {pcp : Byte} (h : .tx m out ∈ b.egress bp v f pcp) :
    (bp = .eth m ∨ ∃ id, bp = .lag id ∧ m ∈ b.lagMembers id) ∧
      ∃ tagged, b.membership bp v = some tagged ∧ (if tagged then tag f v pcp else some (untag f)) =
        some out := by
  unfold egress at h
  split at h
  · cases h
  rename_i tagged hmember
  split at h
  · cases h
  split at h
  · cases h
  rename_i g hg
  cases bp with
  | eth n =>
    obtain ⟨rfl, rfl⟩ := of_mem_tx h
    exact ⟨.inl rfl, tagged, hmember, hg⟩
  | lag id =>
    dsimp only at h
    split at h
    · rename_i m' hm'
      obtain ⟨rfl, rfl⟩ := of_mem_tx h
      exact ⟨.inr ⟨id, rfl, (lagSelectMember_eq_some hm').1⟩, tagged, hmember, hg⟩
    · cases h
  | cpu => cases h

theorem agrees_tagged (hmode : b'.bpMode bp' = b.bpMode bp) {native : UInt16} {nativeTag : Bool}
    {allowed : AllowedList} (htrunk : b.bpMode bp = some (.trunk native nativeTag allowed))
    (hv : v.toNat < 4096) (hzero : v ≠ 0) (hout : tag f v e.pcp = some out) :
    b'.Agrees bp' v out := by
  intro e' he' w hw
  obtain ⟨⟨e'', he'', htci⟩, -⟩ := parseEth_tag hout
  obtain rfl := Option.some.inj (he''.symm.trans he')
  have hvid : e''.vid = some v := vid_eq_some.mpr ⟨hzero, _, htci, (vid_pcp_tciOf hv (pcp_lt e)).1⟩
  unfold ingressVlan at hw
  rw [hmode, htrunk, hvid] at hw
  dsimp only at hw
  split_ifs at hw
  exact (Option.some.inj hw).symm

theorem ingressVlan_plain {allowed : AllowedList}
    (htrunk : b'.bpMode bp' = some (.trunk v false allowed)) (hallows : allowed.allows v = true)
    (e' : EthInfo) : b'.ingressVlan bp' e' =
      match e'.vid with
      | none => some v
      | some w => if allowed.allows w then some w else none := by
  unfold ingressVlan
  rw [htrunk]
  cases e'.vid with
  | none => simp [hallows]
  | some w => rfl

/-- **The next switch agrees, but for a frame that hops.** -/
theorem egress_agrees_iff (hmode : b'.bpMode bp' = b.bpMode bp) (he : parseEth f = some e)
    (hv : v.toNat < 4096) (hzero : v ≠ 0) (h : .tx m out ∈ b.egress bp v f e.pcp) :
    b'.Agrees bp' v out ↔ ¬ Hops (b.bpMode bp) f e v := by
  obtain ⟨-, tagged, hmember, hout⟩ := of_mem_egress h
  rcases membership_eq_some hmember with
    ⟨haccess, rfl⟩ | ⟨native, nativeTag, allowed, htrunk, hallows, rfl⟩
  · -- an access port takes no tag
    refine ⟨fun _ hhops => ?_, fun _ e' _ w hw => ?_⟩
    · obtain ⟨allowed, w, htrunk, -⟩ := hhops
      cases haccess.symm.trans htrunk
    · unfold ingressVlan at hw
      rw [hmode, haccess] at hw
      dsimp only at hw
      split_ifs at hw
      exact (Option.some.inj hw).symm
  · cases hnative : (v = native && !nativeTag : Bool) with
    | false =>
      rw [hnative, Bool.not_false, if_pos rfl] at hout
      refine ⟨fun _ hhops => ?_, fun _ => agrees_tagged hmode htrunk hv hzero hout⟩
      obtain ⟨allowed', w, hmode', -⟩ := hhops
      cases htrunk.symm.trans hmode'
      simp at hnative
    | true =>
      rw [hnative, Bool.not_true, if_neg Bool.false_ne_true] at hout
      obtain rfl := Option.some.inj hout
      obtain ⟨hvn, hplain⟩ := Bool.and_eq_true_iff.mp hnative
      obtain rfl := of_decide_eq_true hvn
      obtain rfl : nativeTag = false := by simpa using hplain
      -- without a tag in front the frame is of the native VLAN, else of the VLAN of its tag
      have hclass := ingressVlan_plain (hmode.trans htrunk) hallows
      constructor
      · rintro hagrees ⟨allowed', w, hmode', htag, hbehind, hw, hne, hallows'⟩
        cases htrunk.symm.trans hmode'
        obtain ⟨e', he', hvid⟩ := (vid_untag he htag).mpr ⟨hbehind, hw⟩
        refine hne (hagrees e' he' w ?_)
        rw [hclass, hvid]
        exact if_pos hallows'
      · intro hhops e' he' w hw
        rw [hclass] at hw
        cases hvid : e'.vid with
        | none =>
          rw [hvid] at hw
          exact (Option.some.inj hw).symm
        | some w' =>
          rw [hvid] at hw
          dsimp only at hw
          split_ifs at hw with hallows'
          obtain rfl := Option.some.inj hw
          by_contra hne
          cases htag : e.tci.isSome with
          | false =>
            -- a frame without a tag is sent as it is
            rw [untag_eq he, htag, if_neg Bool.false_ne_true] at he'
            obtain rfl := Option.some.inj (he.symm.trans he')
            obtain ⟨-, tci, htci, -⟩ := vid_eq_some.mp hvid
            rw [htci] at htag
            cases htag
          | true =>
            obtain ⟨hbehind, hw⟩ := (vid_untag he htag).mp ⟨e', he', hvid⟩
            exact hhops ⟨allowed, w', htrunk, htag, hbehind, hw, hne, hallows'⟩

/-! ## The VLANs that are there -/

/-- Every VLAN has an id that a VLAN may have. -/
def Vids (b : Bridge) : Prop := ∀ v, b.vlans.contains v = true → checkVid v = true

theorem Vids.of_vlans (h : b.Vids) (hvlans : b'.vlans = b.vlans) : b'.Vids := by
  unfold Vids
  rw [hvlans]
  exact h

theorem vlans_of_configured (h : configured b' = configured b) : b'.vlans = b.vlans :=
  (congrArg Bridge.vlans h :)

theorem vlans_run (now : ℤ) : (b.run now).vlans = b.vlans :=
  vlans_of_configured (run_leaves now).rest

theorem vlans_settle (now : ℤ) : (b.settle now).vlans = b.vlans := by
  unfold settle
  dsimp only
  split
  · exact vlans_run now
  · rfl

theorem vlans_handleControl (port : ℕ) (e : EthInfo) (f : Frame) (now : ℤ) :
    (b.handleControl port e f now).1.vlans = b.vlans := by
  unfold handleControl
  split
  · split
    · unfold rxBpdu
      split
      · rfl
      rename_i bp _
      split
      · rfl
      split
      · split
        · cases bp with
          | eth n => rfl
          | lag id => rfl
          | cpu => rfl
        · rfl
      · split
        · rfl
        · exact (congrArg Bridge.vlans (stpRx_leaves bp _ now).rest :)
    · rfl
  · split
    · split
      · exact (congrArg Bridge.vlans (lacpRx_withoutLacp port _ now) :)
      · rfl
    · rfl

theorem vlans_handleFrame (port : ℕ) (f : Frame) (now : ℤ) :
    (b.handleFrame port f now).1.vlans = b.vlans := by
  rw [← vlans_settle (b := b) now]
  rcases handleFrame_cases (b := b) port f now with ⟨fdb, heq⟩ | ⟨e, heq⟩
  · rw [heq]
  · have hcontrol := vlans_handleControl (b := b.settle now) port e f now
    rw [heq]
    split
    · exact (vlans_run now).trans hcontrol
    · exact hcontrol

theorem vlans_setLink (port : ℕ) (up : Bool) (now : ℤ) :
    (b.setLink port up now).vlans = b.vlans := by
  rcases setLink_cases (b := b) port up now with ⟨-, heq⟩ | ⟨-, lags, -, heq⟩
  · rw [heq]
  · rw [heq]
    exact vlans_run now

theorem Vids.sets {c : Call} (h : b.Vids) (hs : b.Sets c b') : b'.Vids := by
  cases hs with
  | vlans fdb hv => exact fun v hmem => (hv v hmem).elim (h v) id
  | iface i hf g fdb => cases i <;> exact h
  | lag id f hm =>
    unfold changeLag
    dsimp only
    split <;> exact h
  | _ => exact h

/-- **No call makes a VLAN with an id that it may not have.** -/
theorem call_vids (h : b.Vids) (c : Call) : (b.call c).Vids := by
  cases c with
  | setLink port up now => exact h.of_vlans (vlans_setLink port up now)
  | handleFrame port f now => exact h.of_vlans (vlans_handleFrame port f now)
  | sendLocal vlan f now =>
    obtain ⟨fdb, heq⟩ := sendLocal_same (b := b) vlan f now
    exact h.of_vlans ((congrArg Bridge.vlans heq).trans (vlans_settle now))
  | poll now => exact h.of_vlans (vlans_run now)
  | _ => exact h.sets (call_sets rfl)

theorem foldl_call_vids (h : b.Vids) (cs : List Call) : (cs.foldl call b).Vids := by
  induction cs generalizing b with
  | nil => exact h
  | cons c cs ih => exact ih (call_vids h c)

theorem new_vids (portMacs : List MacAddr) (bridgeMac : MacAddr) (start : ℤ) :
    (new portMacs bridgeMac start).Vids := by
  intro v hv
  rcases contains_insert_vlan hv with rfl | hold
  · decide
  · simp at hold

/-! ## Frames that a switch handles -/

theorem not_mem_deliver : .tx m out ∉ b.deliver v f := by
  unfold deliver
  split
  · simp
  · exact List.not_mem_nil

theorem of_mem_flood {pcp : Byte} (h : .tx m out ∈ b.flood v bp f pcp) :
    ∃ bp', .tx m out ∈ b.egress bp' v f pcp := by
  obtain ⟨bp', -, h⟩ := List.mem_flatMap.mp h
  exact ⟨bp', h⟩

theorem of_mem_forward (h : .tx m out ∈ b.forward bp v e f) :
    ∃ bp', .tx m out ∈ b.egress bp' v f e.pcp := by
  unfold forward at h
  split at h
  · exact absurd h not_mem_deliver
  split at h
  · rcases List.mem_append.mp h with h | h
    · exact absurd h not_mem_deliver
    · exact of_mem_flood h
  split at h
  · exact absurd h not_mem_deliver
  · split at h
    · cases h
    · exact ⟨_, h⟩
  · exact of_mem_flood h

/-- A frame that is sent on came in on a bridge port, in the VLAN in which it goes out. -/
theorem of_mem_forwardData {port : ℕ} (h : .tx m out ∈ (b.forwardData port e f).2) :
    ∃ q v bp, b.ingressBport port = some q ∧ b.ingressVlan q e = some v ∧ b.vlanActive v = true ∧
      .tx m out ∈ b.egress bp v f e.pcp := by
  unfold forwardData at h
  split at h
  · cases h
  rename_i q hq
  split at h
  · cases h
  rename_i v hv
  obtain ⟨hin, -⟩ := Option.filter_eq_some_iff.mp hq
  obtain ⟨hvlan, hactive⟩ := Option.filter_eq_some_iff.mp hv
  split at h
  · cases h
  have hforward (fdb : Fdb) (h : .tx m out ∈ ({ b with fdb } : Bridge).forward q v e f) :
      ∃ bp, .tx m out ∈ b.egress bp v f e.pcp := of_mem_forward (b := { b with fdb }) h
  dsimp only at h
  split at h
  · split at h
    · cases h
    · obtain ⟨bp, hbp⟩ := hforward _ h
      exact ⟨q, v, bp, hin, hvlan, hactive, hbp⟩
  · split at h
    · cases h
    · obtain ⟨bp, hbp⟩ := hforward b.fdb h
      exact ⟨q, v, bp, hin, hvlan, hactive, hbp⟩

theorem of_mem_handleFrame {port : ℕ} {now : ℤ} (h : .tx m out ∈ (b.handleFrame port f now).2) :
    ∃ e q v bp, parseEth f = some e ∧ (b.settle now).ingressBport port = some q ∧
      (b.settle now).ingressVlan q e = some v ∧ (b.settle now).vlanActive v = true ∧
      .tx m out ∈ (b.settle now).egress bp v f e.pcp := by
  unfold handleFrame at h
  dsimp only at h
  split at h
  · cases h
  split at h
  · cases h
  rename_i e he
  split at h
  · cases h
  split at h
  · cases h
  · obtain ⟨q, v, bp, hq⟩ := of_mem_forwardData h
    exact ⟨e, q, v, bp, he, hq⟩

/-- **The next switch agrees on the VLAN, or drops the frame, but for a frame that hops.**  In
every state that calls lead to, what is sent over a port goes out of a bridge port that stands for
it and sends it, in the VLAN in which the frame came in; and a port of the same mode on any other
switch takes it for one of that VLAN, or drops it, unless the VLAN is the native one of the link,
without a tag, and the frame carries behind its outer tag that of another VLAN that the link
carries. -/
theorem linked_switches_agree (portMacs : List MacAddr) (bridgeMac : MacAddr) (start : ℤ)
    (cs : List Call) {port : ℕ} {now : ℤ}
    (hsent : .tx m out ∈
    ((cs.foldl call (new portMacs bridgeMac start)).handleFrame port f now).2) :
    ∃ s, s = (cs.foldl call (new portMacs bridgeMac start)).settle now ∧
      ∃ e q v bp, parseEth f = some e ∧ s.ingressBport port = some q ∧ s.ingressVlan q e = some v ∧
        (bp = .eth m ∨ ∃ id, bp = .lag id ∧ m ∈ s.lagMembers id) ∧
          .tx m out ∈ s.egress bp v f e.pcp ∧
        ∀ (b' : Bridge) (bp' : PortRef), b'.bpMode bp' = s.bpMode bp →
          (b'.Agrees bp' v out ↔ ¬ Hops (s.bpMode bp) f e v) := by
  obtain ⟨e, q, v, bp, he, hq, hv, hactive, hegress⟩ := of_mem_handleFrame hsent
  have hvids := (foldl_call_vids (new_vids portMacs bridgeMac start) cs).of_vlans (vlans_settle now)
  have hvid := hvids v (contains_of_vlanActive hactive)
  obtain ⟨hlow, hhigh⟩ := Bool.and_eq_true_iff.mp hvid
  have hmin : (1 : UInt16).toNat ≤ v.toNat := UInt16.le_iff_toNat_le.mp (of_decide_eq_true hlow)
  have hmax : v.toNat ≤ (4094 : UInt16).toNat := UInt16.le_iff_toNat_le.mp (of_decide_eq_true hhigh)
  refine ⟨_, rfl, e, q, v, bp, he, hq, hv, (of_mem_egress hegress).1, hegress,
    fun b' bp' hmode => ?_⟩
  refine egress_agrees_iff hmode he (lt_of_le_of_lt hmax (by decide)) (fun hzero => ?_) hegress
  rw [hzero] at hmin
  exact absurd hmin (by decide)

/-! ### A frame with two tags -/

/-- A host port in VLAN 1, and a trunk of which VLAN 1 is the native one. -/
def trunkCalls : List Call :=
  [.setPortMode (.eth 0) (.access 1), .setPortMode (.eth 1) (.trunk 1 false .all), .createVlan 20,
    .setVlanActive 20 true, .setLink 0 true 0, .setLink 1 true 0]

def trunkSwitch : Bridge :=
  trunkCalls.foldl call (new [⟨2, 0, 0, 0, 0, 1⟩, ⟨2, 0, 0, 0, 0, 2⟩] ⟨2, 0, 0, 0, 0, 9⟩ 0)

/-- The same, with a priority tag in front. -/
def doubleTagged : Frame := taggedFrame.take 12 ++ [0x81, 0, 0, 0] ++ taggedFrame.drop 12

/-- From a host of VLAN 1, the frame comes out of the trunk in VLAN 20. -/
theorem double_tag_hops :
    ¬ ∀ (b b' : Bridge) (port m : ℕ) (f out : Frame) (now : ℤ) (bp' : PortRef) (e : EthInfo)
    (q : PortRef) (v : UInt16), .tx m out ∈ (b.handleFrame port f now).2 → parseEth f = some e →
    (b.settle now).ingressBport port = some q → (b.settle now).ingressVlan q e = some v →
    b'.bpMode bp' = (b.settle now).bpMode (.eth m) → b'.Agrees bp' v out := by
  intro h
  obtain ⟨e, he, hv⟩ := Option.bind_eq_some_iff.mp
    (by decide +kernel : (parseEth doubleTagged).bind ((trunkSwitch.settle 5).ingressVlan (.eth 0)) = some 1)
  obtain ⟨e', he', hw⟩ := Option.bind_eq_some_iff.mp
    (by decide +kernel : (parseEth taggedFrame).bind (trunkSwitch.ingressVlan (.eth 1)) = some 20)
  have hagrees := h trunkSwitch trunkSwitch 0 1 doubleTagged taggedFrame 5 (.eth 1) e (.eth 0) 1
    (by decide +kernel) he
    (by decide +kernel) hv (by decide +kernel)
  exact absurd (hagrees e' he' 20 hw) (by decide)

/-- The outcome on that frame. -/
theorem trunk_switches_agree : ∃ s, s = trunkSwitch.settle 5 ∧
    ∃ e q v bp, parseEth doubleTagged = some e ∧ s.ingressBport 0 = some q ∧
      s.ingressVlan q e = some v ∧
      (bp = .eth 1 ∨ ∃ id, bp = .lag id ∧ 1 ∈ s.lagMembers id) ∧
        .tx 1 taggedFrame ∈ s.egress bp v doubleTagged e.pcp ∧
      ∀ (b' : Bridge) (bp' : PortRef), b'.bpMode bp' = s.bpMode bp →
        (b'.Agrees bp' v taggedFrame ↔ ¬ Hops (s.bpMode bp) doubleTagged e v) :=
  linked_switches_agree [⟨2, 0, 0, 0, 0, 1⟩, ⟨2, 0, 0, 0, 0, 2⟩] ⟨2, 0, 0, 0, 0, 9⟩ 0 trunkCalls
    (by decide +kernel)

end EvansComputer.Switch.Bridge
