import EvansComputer.Switch.Machines

/-!
# What every call keeps

A setter leaves the bridge dirty or changes nothing that the machines look at, and whatever
drives the bridge runs the machines first if it is dirty.  So the ports of a bridge that is not
dirty are in step with its configuration, after any calls.

A physical port that is err-disabled stands alone: only such a port is disabled for a BPDU, and
no call puts it into an aggregate, unless it is joined to one while it is disabled.
-/

namespace EvansComputer.Switch

/-- An err-disabled port is in no aggregate. -/
def EthPort.Alone (ep : EthPort) : Prop := ep.errDisabled = true → ep.cfg.lag = none

/-- A port that asks to join an aggregate is let in: both exist, there is room, and it is not
in it. -/
def Bridge.LetsIn (b : Bridge) (port : ℕ) (id : UInt16) : Prop :=
  port < b.ports.length ∧ b.lags.contains id = true ∧
    (b.ports[port]?).any (·.cfg.lag = some id) = false ∧
    (b.lagMembers id).length < maxLagMembers

/-- The condition on a call: an err-disabled port is not joined to an aggregate. -/
def Call.Meets (b : Bridge) : Call → Prop
  | .setLagMembership port (some id) => b.LetsIn port id → b.isErrDisabled (.eth port) = false
  | _ => True

/-- The condition on each call of a run. -/
def RunMeets : Bridge → List Call → Prop
  | _, [] => True
  | b, c :: cs => c.Meets b ∧ RunMeets (b.call c) cs

/-- A call that drives the machines; the others set something. -/
def Call.drives : Call → Bool
  | .setLink .. | .handleFrame .. | .sendLocal .. | .poll .. => true
  | _ => false

/-- A change of a physical port that leaves what it is a member of, and what it has heard or
nothing. -/
structure EthPort.Mild (f : EthPort → EthPort) : Prop where
  lag (ep : EthPort) : (f ep).cfg.lag = ep.cfg.lag
  errDisabled (ep : EthPort) : (f ep).errDisabled = true → ep.errDisabled = true
  lacp (ep : EthPort) : (f ep).lacp.partnerSync = true → (f ep).lacp = ep.lacp

theorem EthPort.Mild.alone {f : EthPort → EthPort} (hf : Mild f) {ep : EthPort} (h : ep.Alone) :
    (f ep).Alone :=
  fun herr => (hf.lag ep).trans (h (hf.errDisabled ep herr))

namespace Bridge

structure Sound (b : Bridge) : Prop where
  alone : ∀ ep ∈ b.ports, ep.Alone
  vids : ∀ v, b.vlans.contains v = true → checkVid v = true

/-- What holds of the bridge between calls. -/
structure Inv (b : Bridge) : Prop extends Sound b where
  synced : b.dirty = false → b.Synced

variable {b : Bridge}

theorem Sound.of_ports {b' : Bridge} (h : b.Sound) (hports : ∀ ep ∈ b'.ports, ep.Alone)
    (hvlans : b'.vlans = b.vlans) :
    b'.Sound := ⟨hports, hvlans ▸ h.vids⟩

theorem Sound.of_configured {b' : Bridge} (h : b.Sound) (hrest : configured b' = configured b) :
    b'.Sound := by
  refine h.of_ports (fun ep hep => ?_) (congrArg Bridge.vlans hrest :)
  have hports : b'.ports.map EthPort.withoutLacp = b.ports.map EthPort.withoutLacp :=
    (congrArg Bridge.ports hrest :)
  have hmem : ep.withoutLacp ∈ b.ports.map EthPort.withoutLacp := hports ▸ List.mem_map_of_mem hep
  obtain ⟨ep₀, hep₀, heq⟩ := List.mem_map.mp hmem
  intro herr
  have hlag : ep₀.cfg.lag = ep.cfg.lag := (congrArg (fun ep : EthPort => ep.cfg.lag) heq :)
  rw [← hlag]
  exact h.alone ep₀ hep₀ ((congrArg EthPort.errDisabled heq :).trans herr)

/-! ## Changes of ports -/

theorem contains_modify {id id' : UInt16} (f : Lag → Lag) :
    (b.lags.modify id f).contains id' = b.lags.contains id' := by
  rw [Std.ExtTreeMap.contains_eq_isSome_getElem?, Std.ExtTreeMap.contains_eq_isSome_getElem?,
    OrderedMap.getElem?_modify']
  split_ifs
  · exact Option.isSome_map
  · rfl

theorem alone_modify {l : List EthPort} {n : ℕ} {f : EthPort → EthPort} (hl : ∀ ep ∈ l, ep.Alone)
    (hf : ∀ ep, l[n]? = some ep → ep.Alone → (f ep).Alone) : ∀ ep ∈ l.modify n f, ep.Alone := by
  intro ep hep
  obtain ⟨i, hi⟩ := List.mem_iff_getElem?.mp hep
  rw [List.getElem?_modify] at hi
  obtain ⟨ep₀, hep₀, heq⟩ := Option.map_eq_some_iff.mp hi
  have halone := hl ep₀ (List.mem_of_getElem? hep₀)
  subst heq
  split_ifs with hn
  · subst hn
    exact hf ep₀ hep₀ halone
  · exact halone

theorem alone_map {l : List EthPort} {f : EthPort → EthPort} (hl : ∀ ep ∈ l, ep.Alone)
    (hf : ∀ ep, ep.Alone → (f ep).Alone) : ∀ ep ∈ l.map f, ep.Alone := by
  intro ep hep
  obtain ⟨ep₀, hep₀, rfl⟩ := List.mem_map.mp hep
  exact hf ep₀ (hl ep₀ hep₀)

theorem Inv.of_dirty (h : b.Sound) (hdirty : b.dirty = true) : b.Inv :=
  { h with synced := fun hclean => by rw [hdirty] at hclean; cases hclean }

/-- A call that changes nothing that the machines look at. -/
theorem Inv.of_same {b' : Bridge} (h : b.Inv) (hports : b'.ports = b.ports)
    (hlags : b'.lags = b.lags) (hbports : b'.bports = b.bports) (hdirty : b'.dirty = b.dirty)
    (hvids : ∀ v, b'.vlans.contains v = true → checkVid v = true) : b'.Inv where
  alone := hports ▸ h.alone
  vids := hvids
  synced := by
    intro hclean bp x hx
    rw [computeOper_congr hports hlags, bridgePorts_congr hports hlags]
    exact h.synced (hdirty ▸ hclean) bp x (hbports ▸ hx)

theorem Inv.run (h : b.Sound) (now : ℤ) : (b.run now).Inv :=
  { h.of_configured (run_leaves now).rest with synced := fun _ => run_synced now }

/-! ## The setters -/

/-- **What a setter does**: it changes what the machines do not look at, or leaves the bridge
dirty. -/
inductive Sets (b : Bridge) (c : Call) : Bridge → Prop
  | tables (fdb : Fdb) (svis : OrderedMap UInt16 (Ipv4Addr × UInt8)) (secs : UInt32) :
    Sets b c { b with fdb, svis, ageTimeSecs := secs }
  | vlans (fdb : Fdb) {vlans : OrderedMap UInt16 Bool}
    (hv : ∀ v, vlans.contains v = true → b.vlans.contains v = true ∨ checkVid v = true) :
      Sets b c { b with fdb, vlans }
  | iface (i : PortRef) {f : EthPort → EthPort} (hf : EthPort.Mild f) (g : Lag → Lag) (fdb : Fdb) :
    Sets b c { b.changeIface i f g with fdb, dirty := true }
  | lag (id : UInt16) (f : Lag → Lag) {member : EthPort → EthPort} (hm : EthPort.Mild member) :
    Sets b c (b.changeLag id f member).1
  | stp (f : StpConfig → StpConfig) : Sets b c (b.changeStp f).1
  | createLag (id : UInt16) : Sets b c { b with lags := b.lags.insert id {}, dirty := true }
  | deleteLag (id : UInt16) (fdb : Fdb) : Sets b c { b with
      lags := b.lags.erase id
      ports := b.ports.map fun p =>
        if p.cfg.lag = some id then { p with cfg := { p.cfg with lag := none }, lacp := {} } else p
      fdb, dirty := true }
  | join (port : ℕ) (lag : Option UInt16) (hc : c = .setLagMembership port lag)
      (hin : ∀ id, lag = some id → b.LetsIn port id) (fdb : Fdb) : Sets b c
    { b.modifyPort port fun p => { p with
        cfg := { p.cfg with lag }, lacp := {} } with fdb, dirty := true }

theorem contains_insert_vlan {vlans : OrderedMap UInt16 Bool} {vid v : UInt16} {active : Bool}
    (h : (vlans.insert vid active).contains v = true) : v = vid ∨ vlans.contains v = true :=
  (Bool.or_eq_true_iff.mp (Std.ExtTreeMap.contains_insert.symm.trans h)).imp_left fun heq =>
    (Std.LawfulEqCmp.compare_eq_iff_eq.mp (beq_iff_eq.mp heq)).symm

theorem Sets.same {c : Call} : b.Sets c b := .tables b.fdb b.svis b.ageTimeSecs

section

variable {c : Call}

theorem setPortMode_sets (iface : PortRef) (mode : PortMode) :
    b.Sets c (b.setPortMode iface mode).1 := by
  dsimp only [setPortMode]
  split
  · exact .same
  split
  · exact .same
  · refine .iface iface ?_ _ _
    exact ⟨fun _ => rfl, fun _ h => h, fun _ _ => rfl⟩

theorem setAdminUp_sets (iface : PortRef) (up : Bool) : b.Sets c (b.setAdminUp iface up).1 := by
  dsimp only [setAdminUp]
  split
  · exact .same
  · refine .iface iface ?_ _ _
    exact ⟨fun _ => rfl, fun _ herr => (Bool.and_eq_true_iff.mp herr).1, fun _ _ => rfl⟩

theorem setPortStp_sets (iface : PortRef) (cfg : StpPortConfig) :
    b.Sets c (b.setPortStp iface cfg).1 := by
  dsimp only [setPortStp]
  split
  · exact .same
  split
  · exact .same
  split
  · exact .same
  · refine .iface iface ?_ _ _
    exact ⟨fun _ => rfl, fun _ h => h, fun _ _ => rfl⟩

theorem createVlan_sets (vid : UInt16) : b.Sets c (b.createVlan vid).1 := by
  dsimp only [createVlan]
  split
  · exact .same
  rename_i hvid
  split
  · exact .same
  · refine .vlans _ fun v hv => ?_
    rcases contains_insert_vlan hv with rfl | hold
    · exact .inr (by simpa using hvid)
    · exact .inl hold

theorem deleteVlan_sets (vid : UInt16) : b.Sets c (b.deleteVlan vid).1 := by
  dsimp only [deleteVlan]
  iterate 2
    split
    · exact .same
  split
  · exact .same
  split
  · exact .same
  · exact .vlans _ fun v hv =>
      .inl (Bool.and_eq_true_iff.mp (Std.ExtTreeMap.contains_erase.symm.trans hv)).2

theorem setVlanActive_sets (vid : UInt16) (active : Bool) :
    b.Sets c (b.setVlanActive vid active).1 := by
  dsimp only [setVlanActive]
  split
  · exact .same
  split
  · exact .same
  rename_i hvid
  refine .vlans _ fun v hv => ?_
  rcases contains_insert_vlan hv with rfl | hold
  · exact .inl (by simpa using hvid)
  · exact .inl hold

theorem setSvi_sets (vlan : UInt16) (addr : Option (Ipv4Addr × UInt8)) :
    b.Sets c (b.setSvi vlan addr).1 := by
  dsimp only [setSvi]
  split
  · exact .same
  split
  · split
    · exact .same
    split
    · exact .same
    · exact .tables _ _ _
  · exact .tables _ _ _

theorem addStaticMac_sets (mac : MacAddr) (vlan : UInt16) (port : PortRef) :
    b.Sets c (b.addStaticMac mac vlan port).1 := by
  dsimp only [addStaticMac]
  split
  · exact .same
  split
  · exact .same
  split
  · exact .tables _ _ _
  · exact .same

theorem setLagMembership_sets (port : ℕ) (lag : Option UInt16) :
    b.Sets (.setLagMembership port lag) (b.setLagMembership port lag).1 := by
  dsimp only [setLagMembership]
  split
  · exact .same
  rename_i hport
  split
  · exact .join port none rfl (fun _ h => nomatch h) _
  split
  · exact .same
  rename_i hlag
  split
  · exact .same
  rename_i hnot
  split
  · exact .same
  rename_i hroom
  refine .join port _ rfl ?_ _
  rintro _ ⟨⟩
  exact ⟨not_le.mp hport, by simpa using hlag, Bool.eq_false_of_not_eq_true hnot, not_le.mp hroom⟩

end

theorem call_sets {c : Call} (hc : c.drives = false) : b.Sets c (b.call c) := by
  have hid : EthPort.Mild fun ep => ep := ⟨fun _ => rfl, fun _ => id, fun _ _ => rfl⟩
  cases c with
  | setPortMode iface mode => exact setPortMode_sets iface mode
  | setAdminUp iface up => exact setAdminUp_sets iface up
  | setPortStp iface c => exact setPortStp_sets iface c
  | createVlan vid => exact createVlan_sets vid
  | deleteVlan vid => exact deleteVlan_sets vid
  | setVlanActive vid active => exact setVlanActive_sets vid active
  | setSvi vlan addr => exact setSvi_sets vlan addr
  | setAgeTimeSecs secs =>
    dsimp only [call, setAgeTimeSecs]
    split
    · exact .same
    · exact .tables _ _ secs
  | addStaticMac mac vlan port => exact addStaticMac_sets mac vlan port
  | removeStaticMac mac vlan port =>
    dsimp only [call, removeStaticMac]
    split
    · exact .tables _ _ _
    · exact .same
  | clearDynamic vlan port mac => exact .tables _ _ _
  | createLag id =>
    dsimp only [call, createLag]
    split
    · exact .same
    split
    · exact .same
    · exact .createLag id
  | deleteLag id =>
    dsimp only [call, deleteLag]
    split
    · exact .same
    · exact .deleteLag id _
  | setLagMembership port lag => exact setLagMembership_sets port lag
  | setLacpMode id mode => exact .lag id _ ⟨fun _ => rfl, fun _ h => h, fun _ h => nomatch h⟩
  | setLacpRate id rate => exact .lag id _ hid
  | setLagHash id hash => exact .lag id _ hid
  | setLagFallback id on => exact .lag id _ hid
  | setStpEnabled on => exact .stp _
  | setStpPriority prio =>
    dsimp only [call, setStpPriority]
    split
    · exact .same
    · exact .stp _
  | setStpHello s =>
    dsimp only [call, setStpHello]
    split
    · exact .same
    · exact .stp _
  | setStpForwardDelay s =>
    dsimp only [call, setStpForwardDelay]
    split
    · exact .same
    · exact .stp _
  | setStpMaxAge s =>
    dsimp only [call, setStpMaxAge]
    split
    · exact .same
    · exact .stp _
  | _ => cases hc

/-- A setter keeps the invariant, if it does not join an err-disabled port to an aggregate. -/
theorem Inv.sets {b' : Bridge} {c : Call} (h : b.Inv) (hc : c.Meets b) (hs : b.Sets c b') :
    b'.Inv := by
  cases hs with
  | tables fdb svis secs => exact h.of_same rfl rfl rfl rfl h.vids
  | vlans fdb hv => exact h.of_same rfl rfl rfl rfl fun v hmem => (hv v hmem).elim (h.vids v) id
  | iface i hf g fdb =>
    refine Inv.of_dirty ?_ rfl
    cases i with
    | eth n => exact h.toSound.of_ports (alone_modify h.alone fun _ _ => hf.alone) rfl
    | lag id => exact h.toSound.of_ports h.alone rfl
    | cpu => exact h.toSound.of_ports h.alone rfl
  | lag id f hm =>
    unfold changeLag
    dsimp only
    split
    · exact Inv.of_dirty (h.toSound.of_ports h.alone rfl) rfl
    refine Inv.of_dirty (h.toSound.of_ports (alone_map h.alone fun ep halone => ?_) rfl) rfl
    split
    · exact hm.alone halone
    · exact halone
  | stp f => exact Inv.of_dirty (h.toSound.of_ports h.alone rfl) rfl
  | createLag id => exact Inv.of_dirty (h.toSound.of_ports h.alone rfl) rfl
  | deleteLag id fdb =>
    refine Inv.of_dirty (h.toSound.of_ports (alone_map h.alone fun ep halone => ?_) rfl) rfl
    split
    · exact fun _ => rfl
    · exact halone
  | join port lag hcall hin fdb =>
    subst hcall
    refine Inv.of_dirty (h.toSound.of_ports (alone_modify h.alone fun ep hep _ herr => ?_) rfl) rfl
    cases lag with
    | none => rfl
    | some id =>
      have hnot : (b.ports[port]?).any (·.errDisabled) = false := hc (hin id rfl)
      rw [hep] at hnot
      exact absurd (hnot.symm.trans herr) Bool.false_ne_true

/-! ## Frames, links and time -/

/-- What a control frame makes of the bridge: in step still, unless the machines must run. -/
structure Controls (b : Bridge) (r : Bridge × Bool) : Prop where
  sound : b.Sound → r.1.Sound
  fdb : r.1.fdb.Sub b.fdb
  quiet : r.2 = false → (b.Synced → r.1.Synced) ∧ r.1.dirty = b.dirty

theorem Controls.refl : Controls b (b, false) := ⟨id, Fdb.Sub.refl, fun _ => ⟨id, rfl⟩⟩

theorem ingressBport_eq_eth {port n : ℕ} (h : b.ingressBport port = some (.eth n)) :
    n = port ∧ ∃ ep, b.ports[port]? = some ep ∧ ep.cfg.lag = none ∧
      ep.cfg.mode.isRouted = false := by
  unfold ingressBport at h
  split at h
  · cases h
  rename_i ep hep
  split at h
  · split at h
    · cases h
    · split at h <;> cases h
  · rename_i hlag
    split at h
    · cases h
    · rename_i hmode
      cases h
      exact ⟨rfl, ep, hep, hlag, by simpa using hmode⟩

theorem ingressBport_eq_lag {port : ℕ} {id : UInt16} (h : b.ingressBport port = some (.lag id)) :
    ∃ ep lag, b.ports[port]? = some ep ∧ ep.cfg.lag = some id ∧ b.lags[id]? = some lag ∧
      lag.cfg.mode.isRouted = false ∧ b.memberDistributing port = true := by
  unfold ingressBport at h
  split at h
  · cases h
  rename_i ep hep
  split at h
  · rename_i lagId hlag
    split at h
    · cases h
    rename_i lag hl
    split at h
    · cases h
    · rename_i hnot
      cases h
      rw [Bool.or_eq_true, not_or] at hnot
      exact ⟨ep, lag, hep, hlag, hl, by simpa using hnot.1, by simpa using hnot.2⟩
  · split at h <;> cases h

/-- A port is disabled for a BPDU only where it stands alone. -/
theorem errDisable_controls {port : ℕ} {bp : PortRef} (hbp : b.ingressBport port = some bp) :
    Controls b (b.errDisable bp, true) := by
  cases bp with
  | eth n =>
    obtain ⟨rfl, ep, hep, hlag, -⟩ := ingressBport_eq_eth hbp
    refine ⟨fun h => h.of_ports (alone_modify h.alone fun ep' hep' _ _ => ?_) rfl, Fdb.Sub.refl,
      fun h => nomatch h⟩
    rw [hep] at hep'
    cases hep'
    exact hlag
  | lag id => exact ⟨fun h => h.of_ports h.alone rfl, Fdb.Sub.refl, fun h => nomatch h⟩
  | cpu => exact ⟨id, Fdb.Sub.refl, fun h => nomatch h⟩

theorem stpRx_controls (bp : PortRef) (bpdu : Bpdu) (now : ℤ) :
    Controls b (b.stpRx bp bpdu now) := by
  have hleaves := stpRx_leaves (b := b) bp bpdu now
  refine ⟨fun h => h.of_configured hleaves.of_withoutStp.rest, hleaves.fdb, fun _ => ⟨?_, ?_⟩⟩
  · exact Synced.of_withoutStp hleaves
  · exact (congrArg Bridge.dirty hleaves.rest :)

theorem rxBpdu_controls (port : ℕ) (bpdu : Bpdu) (now : ℤ) :
    Controls b (b.rxBpdu port bpdu now) := by
  unfold rxBpdu
  split
  · exact Controls.refl
  rename_i bp hbp
  split
  · exact Controls.refl
  split
  · split
    · exact errDisable_controls hbp
    · exact Controls.refl
  · split
    · exact Controls.refl
    · exact stpRx_controls bp bpdu now

theorem lacpRx_controls (p : ℕ) (pdu : Lacpdu) (now : ℤ) : Controls b (b.lacpRx p pdu now) := by
  have hleaves := Leaves.of_withoutLacp (lacpRx_withoutLacp (b := b) p pdu now)
  refine ⟨fun h => h.of_configured hleaves.rest, hleaves.fdb, fun hfalse => ?_⟩
  have hsame : (b.lacpRx p pdu now).1 = b := by
    unfold lacpRx at hfalse ⊢
    split
    · rename_i heq hport
      rw [heq, hport] at hfalse
      dsimp only at hfalse ⊢
      split
      · rfl
      · rename_i hrx
        rw [if_neg hrx] at hfalse
        cases hfalse
    · rfl
  rw [hsame]
  exact ⟨id, rfl⟩

theorem handleControl_controls (port : ℕ) (e : EthInfo) (f : Frame) (now : ℤ) :
    Controls b (b.handleControl port e f now) := by
  unfold handleControl
  split
  · split
    · exact rxBpdu_controls port _ now
    · exact Controls.refl
  · split
    · split
      · exact lacpRx_controls port _ now
      · exact Controls.refl
    · exact Controls.refl

theorem settle_clean (now : ℤ) : (b.settle now).dirty = false := by
  unfold settle
  dsimp only
  split
  · exact run_clean now
  · rename_i hdirty
    exact Bool.eq_false_of_not_eq_true hdirty

theorem Inv.settle (h : b.Inv) (now : ℤ) : (b.settle now).Inv := by
  unfold Bridge.settle
  dsimp only
  split
  · exact Inv.run (h.toSound.of_ports h.alone rfl) now
  · exact h.of_same rfl rfl rfl rfl h.vids

/-- A link that changes is noted in the configuration, and the machines run. -/
theorem setLink_cases (port : ℕ) (up : Bool) (now : ℤ) :
    ((b.ports[port]?).any (·.linkUp ≠ up) = false ∧ b.setLink port up now = { b with now }) ∨
    ((b.ports[port]?).any (·.linkUp ≠ up) = true ∧ ∃ lags : OrderedMap UInt16 Lag,
      (∀ id, lags.contains id = b.lags.contains id) ∧
        b.setLink port up now = ({ b.modifyPort port fun ep =>
          { ep with linkUp := up, errDisabled := if up then false else ep.errDisabled } with
            now, lags } : Bridge).run now) := by
  unfold setLink
  dsimp only
  cases b.ports[port]? with
  | none => exact .inl ⟨rfl, rfl⟩
  | some ep =>
    dsimp only
    by_cases hsame : ep.linkUp = up
    · exact .inl ⟨by simpa using hsame, if_pos hsame⟩
    · rw [if_neg hsame]
      refine .inr ⟨by simpa using hsame, ?_⟩
      split
      · split
        · exact ⟨_, fun _ => contains_modify _, rfl⟩
        · exact ⟨b.lags, fun _ => rfl, rfl⟩
      · exact ⟨b.lags, fun _ => rfl, rfl⟩

theorem setLink_inv (h : b.Inv) (port : ℕ) (up : Bool) (now : ℤ) : (b.setLink port up now).Inv := by
  rcases setLink_cases (b := b) port up now with ⟨-, heq⟩ | ⟨-, lags, -, heq⟩
  · exact heq ▸ h.of_same rfl rfl rfl rfl h.vids
  · rw [heq]
    refine Inv.run ?_ now
    refine h.toSound.of_ports ?_ rfl
    refine alone_modify h.alone fun _ _ halone herr => halone ?_
    cases up with
    | true => cases herr
    | false => exact herr

theorem handleControl_inv (h : b.Inv) (hclean : b.dirty = false) {r : Bridge × Bool}
    (hr : Controls b r) (now : ℤ) :
    (if r.2 then r.1.run now else r.1).Inv ∧ (if r.2 then r.1.run now else r.1).fdb.Sub b.fdb := by
  split
  · exact ⟨Inv.run (hr.sound h.toSound) now, (run_leaves now).fdb.trans hr.fdb⟩
  · rename_i hfalse
    have hquiet := hr.quiet (Bool.eq_false_of_not_eq_true hfalse)
    exact ⟨{ hr.sound h.toSound with synced := fun _ => hquiet.1 (h.synced hclean) }, hr.fdb⟩

theorem forwardData_same (port : ℕ) (e : EthInfo) (f : Frame) :
    ∃ fdb, (b.forwardData port e f).1 = { b with fdb } := by
  unfold forwardData
  split
  · exact ⟨b.fdb, rfl⟩
  split
  · exact ⟨b.fdb, rfl⟩
  split
  · exact ⟨b.fdb, rfl⟩
  dsimp only
  split
  · split
    · exact ⟨_, rfl⟩
    · exact ⟨_, rfl⟩
  · split
    · exact ⟨b.fdb, rfl⟩
    · exact ⟨b.fdb, rfl⟩

/-- What a frame makes of the bridge: it is learned from, or the control plane takes it in. -/
theorem handleFrame_cases (port : ℕ) (f : Frame) (now : ℤ) :
    (∃ fdb, (b.handleFrame port f now).1 = { b.settle now with fdb }) ∨
    ∃ e, b.handleFrame port f now = (if ((b.settle now).handleControl port e f now).2
      then ((b.settle now).handleControl port e f now).1.run now
        else ((b.settle now).handleControl port e f now).1, []) := by
  unfold handleFrame
  dsimp only
  split
  · exact .inl ⟨_, rfl⟩
  split
  · exact .inl ⟨_, rfl⟩
  split
  · exact .inr ⟨_, rfl⟩
  split
  · exact .inl ⟨_, rfl⟩
  · exact .inl (forwardData_same port _ f)

theorem handleFrame_inv (h : b.Inv) (port : ℕ) (f : Frame) (now : ℤ) :
    (b.handleFrame port f now).1.Inv := by
  have hsettled := h.settle now
  rcases handleFrame_cases (b := b) port f now with ⟨fdb, heq⟩ | ⟨e, heq⟩
  · exact heq ▸ hsettled.of_same rfl rfl rfl rfl hsettled.vids
  · exact heq ▸
      (handleControl_inv hsettled (settle_clean now) (handleControl_controls port e f now) now).1

theorem sendLocal_same (vlan : UInt16) (f : Frame) (now : ℤ) :
    ∃ fdb, (b.sendLocal vlan f now).1 = { b.settle now with fdb } := by
  unfold sendLocal
  dsimp only
  split
  · exact ⟨_, rfl⟩
  split
  · exact ⟨_, rfl⟩
  · dsimp only
    split
    · exact ⟨_, rfl⟩
    · exact ⟨_, rfl⟩

theorem sendLocal_inv (h : b.Inv) (vlan : UInt16) (f : Frame) (now : ℤ) :
    (b.sendLocal vlan f now).1.Inv := by
  obtain ⟨fdb, heq⟩ := sendLocal_same (b := b) vlan f now
  exact heq ▸ (h.settle now).of_same rfl rfl rfl rfl (h.settle now).vids

/-! ## Runs -/

/-- **Every call keeps the invariant**, if it does not join an err-disabled port to an aggregate. -/
theorem call_inv (h : b.Inv) {c : Call} (hc : c.Meets b) : (b.call c).Inv := by
  cases c with
  | setLink port up now => exact setLink_inv h port up now
  | handleFrame port f now => exact handleFrame_inv h port f now
  | sendLocal vlan f now => exact sendLocal_inv h vlan f now
  | poll now => exact Inv.run h.toSound now
  | _ => exact h.sets hc (call_sets rfl)

theorem new_inv (portMacs : List MacAddr) (bridgeMac : MacAddr) (now : ℤ) :
    (Bridge.new portMacs bridgeMac now).Inv := by
  refine Inv.of_dirty ⟨fun ep hep => ?_, fun v hv => ?_⟩ rfl
  · obtain ⟨mac, -, rfl⟩ := List.mem_map.mp hep
    exact fun _ => rfl
  · rcases contains_insert_vlan hv with rfl | hold
    · rfl
    · cases hold

theorem run_inv (h : b.Inv) {cs : List Call} (hcs : RunMeets b cs) : (cs.foldl call b).Inv := by
  induction cs generalizing b with
  | nil => exact h
  | cons c cs ih => exact ih (call_inv h hcs.1) hcs.2

end EvansComputer.Switch.Bridge
