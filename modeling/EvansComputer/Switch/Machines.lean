import EvansComputer.Switch.Api

/-!
# What the machines leave alone

A run of the machines touches much of the state, each machine a part of it.  What a machine may
change is taken out of the state (`withoutLacp`, `withoutStp`), and the machine is shown to
leave the rest; a fact about the rest is then read off both sides.  Entries of the filtering
database are only removed.

The result is that after a run the ports of the bridge are those that the configuration asks
for, and the operational state that is kept with each is the one that its ports are in.
-/

namespace EvansComputer.Switch

variable {b' : Bridge} {bp : PortRef} {x : BPort}

/-! ## Entries that are removed -/

/-- Every entry of `t` is one of `t'`. -/
def Fdb.Sub (t t' : Fdb) : Prop := ∀ (k : FdbKey) e, t.map[k]? = some e → t'.map[k]? = some e

namespace Fdb

variable {t t' t'' : Fdb}

theorem Sub.refl : t.Sub t := fun _ _ h => h

theorem Sub.trans (h : t.Sub t') (h' : t'.Sub t'') : t.Sub t'' := fun k e he => h' k e (h k e he)

theorem sub_of_erase {k : FdbKey} (h : t.map = t'.map.erase k) : t.Sub t' := by
  intro a e he
  rw [h, OrderedMap.getElem?_erase'] at he
  split_ifs at he
  exact he

theorem sub_foldl {α : Type*} {f : Fdb → α → Fdb} (hf : ∀ t x, (f t x).Sub t) (l : List α) :
    (l.foldl f t).Sub t := by
  induction l generalizing t with
  | nil => exact Sub.refl
  | cons x l ih => exact ih.trans (hf t x)

theorem removeAllWhere_sub (pred : FdbKey → FdbEntry → Bool) : (t.removeAllWhere pred).Sub t :=
  sub_foldl (fun _ _ => sub_of_erase rfl) _

theorem removeDynamicWhere_sub (pred : FdbKey → FdbEntry → Bool) :
    (t.removeDynamicWhere pred).Sub t :=
  removeAllWhere_sub _

theorem flushPort_sub (port : PortRef) : (t.flushPort port).Sub t := removeDynamicWhere_sub _

theorem flushExcept_sub (port : PortRef) : (t.flushExcept port).Sub t := removeDynamicWhere_sub _

theorem age_sub (now ageMs : ℤ) : (t.age now ageMs).Sub t :=
  sub_foldl (fun _ _ => sub_of_erase rfl) _

end Fdb

/-! ## Lists and maps of which something is left out -/

theorem map_list_modify {α β : Type*} {f : α → α} {g : α → β} (h : ∀ x, g (f x) = g x)
    (l : List α) (n : ℕ) : (l.modify n f).map g = l.map g := by
  apply List.ext_getElem?
  intro i
  rw [List.getElem?_map, List.getElem?_map, List.getElem?_modify]
  cases l[i]? with
  | none => rfl
  | some x =>
    show some (g (if n = i then f x else x)) = _
    split_ifs
    · exact congrArg some (h x)
    · rfl

theorem foldl_keeps {σ α β : Type*} {f : σ → α → σ} {g : σ → β} (h : ∀ s x, g (f s x) = g s)
    (l : List α) (s : σ) :
    g (l.foldl f s) = g s := by
  induction l generalizing s with
  | nil => rfl
  | cons x l ih => rw [List.foldl_cons, ih, h]

/-! ## Link aggregation -/

def EthPort.withoutLacp (ep : EthPort) : EthPort := { ep with lacp := {} }

def Lag.withoutLacp (l : Lag) : Lag := { l with fallbackMember := none }

namespace Bridge

variable {b : Bridge}

/-- All but what link aggregation runs on. -/
def withoutLacp (b : Bridge) : Bridge :=
  { b with ports := b.ports.map EthPort.withoutLacp, lags := b.lags.map fun _ l => l.withoutLacp }

theorem modifyLacp_withoutLacp (p : ℕ) (f : LacpPort → LacpPort) :
    (b.modifyLacp p f).withoutLacp = b.withoutLacp := by
  have hports :
    (b.modifyLacp p f).ports.map EthPort.withoutLacp = b.ports.map EthPort.withoutLacp :=
    map_list_modify (f := fun ep => { ep with lacp := f ep.lacp }) (fun _ => rfl) b.ports p
  unfold withoutLacp
  rw [hports]
  rfl

theorem setFallback_withoutLacp (id : UInt16) (m : Option ℕ) :
    (b.modifyLag id fun l => { l with fallbackMember := m }).withoutLacp = b.withoutLacp := by
  have hlags :
    (b.modifyLag id fun l => { l with fallbackMember := m }).lags.map (fun _ l => l.withoutLacp) =
      b.lags.map fun _ l => l.withoutLacp := OrderedMap.map_modify fun _ _ => rfl
  unfold withoutLacp
  rw [hlags]
  rfl

theorem lacpSelect_withoutLacp (b : Bridge) (id : UInt16) :
    (b.lacpSelect id).withoutLacp = b.withoutLacp := by
  unfold lacpSelect
  split
  · rfl
  split_ifs
  · exact setFallback_withoutLacp id none
  · dsimp only
    rw [setFallback_withoutLacp]
    exact foldl_keeps (fun b m => modifyLacp_withoutLacp m _) _ b

/-- **Link aggregation changes only what it knows.** -/
theorem lacpRun_withoutLacp (now : ℤ) : (b.lacpRun now).withoutLacp = b.withoutLacp := by
  unfold lacpRun
  dsimp only
  refine (foldl_keeps (fun b p => ?_) _ _).trans ?_
  · split_ifs
    · exact modifyLacp_withoutLacp p _
    · rfl
  refine (foldl_keeps lacpSelect_withoutLacp _ _).trans ?_
  exact foldl_keeps (fun b p => modifyLacp_withoutLacp p _) _ b

theorem lacpRx_withoutLacp (p : ℕ) (pdu : Lacpdu) (now : ℤ) :
    (b.lacpRx p pdu now).1.withoutLacp = b.withoutLacp := by
  unfold lacpRx
  split
  · dsimp only
    split
    · rfl
    · exact modifyLacp_withoutLacp p _
  · rfl

/-- The ports of the bridge do not depend on link aggregation. -/
theorem bridgePorts_withoutLacp : b.withoutLacp.bridgePorts = b.bridgePorts := by
  unfold bridgePorts withoutLacp
  dsimp only
  rw [List.length_map, Std.ExtTreeMap.toList_map, List.filter_map, List.map_map]
  congr 1
  congr 2
  ext i
  rw [List.getElem?_map]
  cases b.ports[i]? <;> rfl

/-! ## Spanning tree -/

/-- All but what spanning tree runs on, and the filtering database. -/
def withoutStp (b : Bridge) : Bridge :=
  { b with
    bports := b.bports.map fun _ x => { x with stp := { portNum := 0 } }
    stp := .new {} .zero
    fdb := {}
    fastAgeUntil := 0 }

/-- What a step does whose effect `m` leaves out: nothing else changes, but that addresses are
removed. -/
structure Leaves (m : Bridge → Bridge) (b b' : Bridge) : Prop where
  rest : m b' = m b
  fdb : b'.fdb.Sub b.fdb

section Leaves

variable {m : Bridge → Bridge}

theorem Leaves.refl : Leaves m b b := ⟨rfl, Fdb.Sub.refl⟩

theorem Leaves.trans {b'' : Bridge} (h : Leaves m b b') (h' : Leaves m b' b'') : Leaves m b b'' :=
  ⟨h'.rest.trans h.rest, h'.fdb.trans h.fdb⟩

theorem Leaves.foldl {α : Type*} {f : Bridge → α → Bridge} (hf : ∀ b x, Leaves m b (f b x))
    (l : List α) (b : Bridge) : Leaves m b (l.foldl f b) := by
  induction l generalizing b with
  | nil => exact Leaves.refl
  | cons x l ih => exact (hf b x).trans (ih (f b x))

end Leaves

theorem modifyStp_leaves (bp : PortRef) (f : StpPort → StpPort) :
    Leaves withoutStp b (b.modifyStp bp f) where
  rest := by
    have hbports : (b.modifyStp bp f).bports.map (fun _ x => { x with stp := { portNum := 0 } }) =
        b.bports.map fun _ x => { x with stp := { portNum := 0 } } :=
          OrderedMap.map_modify fun _ _ => rfl
    unfold withoutStp
    rw [hbports]
    rfl
  fdb := Fdb.Sub.refl

/-- A change of what spanning tree keeps for each port. -/
theorem mapStp_withoutStp {g : PortRef → BPort → BPort} (hg : ∀ bp x, (g bp x).oper = x.oper) :
    ({ b with bports := b.bports.map g } : Bridge).withoutStp = b.withoutStp := by
  unfold withoutStp
  dsimp only
  rw [Std.ExtTreeMap.map_map]
  congr 2
  ext bp x
  rw [hg]

theorem mapStp_leaves {g : PortRef → BPort → BPort} (hg : ∀ bp x, (g bp x).oper = x.oper) :
    Leaves withoutStp b { b with bports := b.bports.map g } := ⟨mapStp_withoutStp hg, Fdb.Sub.refl⟩

theorem stpTopologyChange_leaves (origin : PortRef) (includeOrigin : Bool) (now : ℤ) :
    Leaves withoutStp b (b.stpTopologyChange origin includeOrigin now) where
  rest := by
    refine mapStp_withoutStp (b := b) fun bp x => ?_
    dsimp only
    split_ifs <;> rfl
  fdb := Fdb.flushExcept_sub origin

theorem stpUpdateState_leaves (now : ℤ) (b : Bridge) (bp : PortRef) :
    Leaves withoutStp b (stpUpdateState now b bp) := by
  unfold stpUpdateState
  split
  · exact Leaves.refl
  rename_i x hx
  dsimp only
  generalize updateState b.fdMs now x.stp = p
  refine (modifyStp_leaves bp fun _ => p).trans ?_
  generalize b.modifyStp bp (fun _ => p) = b
  split
  · exact Leaves.refl
  have hflush : Leaves withoutStp b
    (if p.state = .discarding then { b with fdb := b.fdb.flushPort bp } else b) := by
    split
    · exact ⟨rfl, Fdb.flushPort_sub bp⟩
    · exact Leaves.refl
  split
  · exact hflush.trans (stpTopologyChange_leaves bp true now)
  · exact hflush

theorem stpReceivedTc_leaves (now : ℤ) (b : Bridge) (bp : PortRef) :
    Leaves withoutStp b (stpReceivedTc now b bp) := by
  unfold stpReceivedTc
  split
  · exact Leaves.refl
  dsimp only
  split_ifs
  · exact (modifyStp_leaves bp _).trans (stpTopologyChange_leaves bp false now)
  · exact modifyStp_leaves bp _

theorem oper_enablePort (now : ℤ) (bp : PortRef) (x : BPort) :
    (b.enablePort now bp x).oper = x.oper := by
  unfold enablePort
  dsimp only
  split_ifs <;> rfl

theorem oper_assignRole (c : Choice) (bp : PortRef) (x : BPort) :
    (b.assignRole c bp x).oper = x.oper := by
  unfold assignRole
  dsimp only
  split_ifs <;> rfl

theorem resetPorts_leaves : Leaves withoutStp b b.resetPorts := mapStp_leaves fun _ _ => rfl

theorem stpReselect_leaves : Leaves withoutStp b b.stpReselect where
  rest := mapStp_withoutStp (b := b) fun bp x => oper_assignRole b.choose bp x
  fdb := Fdb.Sub.refl

theorem setStp_leaves (s : StpBridge) : Leaves withoutStp b { b with stp := s } :=
  ⟨rfl, Fdb.Sub.refl⟩

theorem stpStart_leaves : Leaves withoutStp b b.stpStart := by
  have hreset : Leaves withoutStp b (if b.stp.wasEnabled then b else b.resetPorts) := by
    split
    · exact Leaves.refl
    · exact resetPorts_leaves
  exact hreset.trans (setStp_leaves _)

theorem stpStop_leaves : Leaves withoutStp b b.stpStop := by
  unfold stpStop
  split
  · exact resetPorts_leaves.trans (setStp_leaves { b.stp with wasEnabled := false })
  · exact Leaves.refl

theorem enablePorts_leaves (now : ℤ) : Leaves withoutStp b (b.enablePorts now) :=
  mapStp_leaves (oper_enablePort now)

theorem stpStates_leaves (now : ℤ) : Leaves withoutStp b (b.stpStates now) :=
  (Leaves.foldl (stpUpdateState_leaves now) _ b).trans (Leaves.foldl (stpReceivedTc_leaves now) _ _)

/-- **Spanning tree changes what it knows of each port**, and removes addresses. -/
theorem stpRun_leaves (now : ℤ) : Leaves withoutStp b (b.stpRun now) := by
  unfold stpRun
  split
  · exact ((stpStart_leaves.trans (enablePorts_leaves now)).trans stpReselect_leaves).trans
      (stpStates_leaves now)
  · exact stpStop_leaves

theorem stpRx_leaves (bp : PortRef) (bpdu : Bpdu) (now : ℤ) :
    Leaves withoutStp b (b.stpRx bp bpdu now).1 := by
  unfold stpRx
  split
  · exact Leaves.refl
  · dsimp only
    exact modifyStp_leaves bp _

/-! ## The ports of the bridge -/

/-- All but the ports of the bridge, and the filtering database. -/
def withoutBports (b : Bridge) : Bridge := { b with bports := ∅, fdb := {} }

theorem removeBport_leaves (b : Bridge) (bp : PortRef) :
    Leaves withoutBports b (b.removeBport bp) :=
  ⟨rfl, Fdb.flushPort_sub bp⟩

theorem addBport_leaves (b : Bridge) (bp : PortRef) : Leaves withoutBports b (b.addBport bp) := by
  unfold addBport
  split
  · exact Leaves.refl
  · exact ⟨rfl, Fdb.Sub.refl⟩

theorem refreshBridgePorts_leaves : Leaves withoutBports b b.refreshBridgePorts :=
  (Leaves.foldl removeBport_leaves _ b).trans (Leaves.foldl addBport_leaves _ _)

theorem bports_foldl_removeBport {l : List PortRef}
    (h : (l.foldl removeBport b).bports[bp]? = some x) : bp ∉ l ∧ b.bports[bp]? = some x := by
  induction l generalizing b with
  | nil => exact ⟨List.not_mem_nil, h⟩
  | cons y l ih =>
    obtain ⟨hnot, hx⟩ := ih h
    unfold removeBport at hx
    rw [OrderedMap.getElem?_erase'] at hx
    split_ifs at hx with hy
    refine ⟨fun hmem => ?_, hx⟩
    rcases List.mem_cons.mp hmem with rfl | hmem
    · exact hy rfl
    · exact hnot hmem

theorem bports_foldl_addBport {l : List PortRef} (h : (l.foldl addBport b).bports[bp]? = some x) :
    bp ∈ l ∨ b.bports[bp]? = some x := by
  induction l generalizing b with
  | nil => exact .inr h
  | cons y l ih =>
    rcases ih h with hmem | hx
    · exact .inl (List.mem_cons_of_mem y hmem)
    unfold addBport at hx
    split at hx
    · exact .inr hx
    rw [OrderedMap.getElem?_insert'] at hx
    split_ifs at hx with hy
    · exact .inl (hy ▸ List.mem_cons_self)
    · exact .inr hx

/-- The bridge has no other ports than those that are configured. -/
theorem mem_bridgePorts_of_refreshBridgePorts (h : b.refreshBridgePorts.bports[bp]? = some x) :
    bp ∈ b.bridgePorts := by
  rcases bports_foldl_addBport h with hmem | hx
  · exact hmem
  obtain ⟨hnot, hold⟩ := bports_foldl_removeBport hx
  by_contra hwant
  refine hnot (List.mem_filter.mpr ⟨Std.ExtTreeMap.mem_keys.mpr ?_, ?_⟩)
  · rw [Std.ExtTreeMap.mem_iff_isSome_getElem?, hold]
    rfl
  · rw [Bool.not_eq_true', List.contains_eq_mem, decide_eq_false_iff_not]
    exact hwant

/-! ## Operational state -/

theorem computeOper_congr (hports : b'.ports = b.ports) (hlags : b'.lags = b.lags) :
    b'.computeOper = b.computeOper := by
  obtain ⟨_, _, ports, lags⟩ := b
  obtain ⟨_, _, ports', lags'⟩ := b'
  obtain rfl : ports' = ports := hports
  obtain rfl : lags' = lags := hlags
  rfl

theorem bridgePorts_congr (hports : b'.ports = b.ports) (hlags : b'.lags = b.lags) :
    b'.bridgePorts = b.bridgePorts := by
  unfold bridgePorts
  rw [hports, hlags]

theorem updateOperAt_leaves (b : Bridge) (bp : PortRef) :
    Leaves withoutBports b (b.updateOperAt bp) := by
  unfold updateOperAt
  split
  · exact Leaves.refl
  dsimp only
  split
  · exact ⟨rfl, Fdb.flushPort_sub bp⟩
  · exact ⟨rfl, Fdb.Sub.refl⟩

theorem updateOper_leaves : Leaves withoutBports b b.updateOper :=
  Leaves.foldl updateOperAt_leaves _ b

theorem bports_updateOperAt (b : Bridge) (a bp : PortRef) :
    (b.updateOperAt a).bports[bp]? =
      if a = bp then b.bports[bp]?.map fun x => { x with oper := b.computeOper bp }
        else b.bports[bp]? := by
  unfold updateOperAt
  split
  · rename_i hnone
    split_ifs with ha
    · rw [← ha, hnone]
      rfl
    · rfl
  · rename_i x hx
    have hbports : ∀ fdb, ({ b with
        bports := b.bports.insert a { x with oper := b.computeOper a }, fdb } :
          Bridge).bports[bp]? =
        if a = bp then b.bports[bp]?.map fun x => { x with oper := b.computeOper bp }
          else b.bports[bp]? := by
      intro fdb
      dsimp only
      rw [OrderedMap.getElem?_insert']
      split_ifs with ha
      · rw [← ha, hx]
        rfl
      · rfl
    dsimp only
    split
    · exact hbports (b.fdb.flushPort a)
    · exact hbports b.fdb

theorem bports_foldl_updateOperAt {l : List PortRef} :
    (l.foldl updateOperAt b).bports[bp]? =
      if bp ∈ l then b.bports[bp]?.map fun x => { x with oper := b.computeOper bp }
        else b.bports[bp]? := by
  induction l generalizing b with
  | nil => rw [if_neg List.not_mem_nil]; rfl
  | cons a l ih =>
    have hrest := (updateOperAt_leaves b a).rest
    have hoper : (b.updateOperAt a).computeOper = b.computeOper :=
      computeOper_congr (congrArg Bridge.ports hrest :) (congrArg Bridge.lags hrest :)
    rw [List.foldl_cons, ih, hoper, bports_updateOperAt]
    by_cases ha : a = bp
    · subst ha
      rw [if_pos rfl, if_pos List.mem_cons_self]
      split_ifs
      · rw [Option.map_map]
        rfl
      · rfl
    · rw [if_neg ha]
      simp only [List.mem_cons, Ne.symm ha, false_or]

/-- The state that is kept is the one that the ports are in. -/
theorem oper_updateOper (h : b.updateOper.bports[bp]? = some x) :
    x.oper = b.computeOper bp ∧ ∃ x₀, b.bports[bp]? = some x₀ := by
  unfold updateOper at h
  rw [bports_foldl_updateOperAt] at h
  split_ifs at h with hkey
  · obtain ⟨x₀, hx₀, rfl⟩ := Option.map_eq_some_iff.mp h
    exact ⟨rfl, x₀, hx₀⟩
  · refine absurd (Std.ExtTreeMap.mem_keys.mpr ?_) hkey
    rw [Std.ExtTreeMap.mem_iff_isSome_getElem?, h]
    rfl

/-! ## A run -/

/-- The ports of the bridge are configured, and their operational state is the one kept. -/
def Synced (b : Bridge) : Prop :=
  ∀ (bp : PortRef) x, b.bports[bp]? = some x → x.oper = b.computeOper bp ∧ bp ∈ b.bridgePorts

/-- What the machines do not touch: the configuration, and the state of the ports. -/
def configured (b : Bridge) : Bridge :=
  { b.withoutLacp with
    now := 0, fdb := {}, fastAgeUntil := 0, stp := .new {} .zero, bports := ∅, dirty := false }

theorem Leaves.of_withoutBports (h : Leaves withoutBports b b') : Leaves configured b b' where
  rest :=
    (congrArg (fun c : Bridge => { c.withoutLacp with
      now := 0, fdb := {}, fastAgeUntil := 0, stp := .new {} .zero, bports := ∅, dirty := false })
        h.rest :)
  fdb := h.fdb

theorem Leaves.of_withoutStp (h : Leaves withoutStp b b') : Leaves configured b b' where
  rest :=
    (congrArg (fun c : Bridge => { c.withoutLacp with
      now := 0, fdb := {}, fastAgeUntil := 0, stp := .new {} .zero, bports := ∅, dirty := false })
        h.rest :)
  fdb := h.fdb

theorem Leaves.of_withoutLacp (h : b'.withoutLacp = b.withoutLacp) : Leaves configured b b' where
  rest :=
    (congrArg (fun c : Bridge => { c with
      now := 0, fdb := {}, fastAgeUntil := 0, stp := .new {} .zero, bports := ∅, dirty := false }) h
        :)
  fdb := by
    have hfdb : b'.fdb = b.fdb := (congrArg Bridge.fdb h :)
    rw [hfdb]
    exact Fdb.Sub.refl

/-- What is kept of a port is in step with it as long as only spanning tree runs. -/
theorem Synced.of_withoutStp (h : Leaves withoutStp b b') (hsync : b.Synced) : b'.Synced := by
  intro bp x hx
  have hports : b'.ports = b.ports := (congrArg Bridge.ports h.rest :)
  have hlags : b'.lags = b.lags := (congrArg Bridge.lags h.rest :)
  have hbport := (congrArg (fun c : Bridge => c.bports[bp]?) h.rest :)
  unfold withoutStp at hbport
  dsimp only at hbport
  rw [Std.ExtTreeMap.getElem?_map, Std.ExtTreeMap.getElem?_map, hx] at hbport
  obtain ⟨x₀, hx₀, heq⟩ := Option.map_eq_some_iff.mp hbport.symm
  rw [computeOper_congr hports hlags, bridgePorts_congr hports hlags, ← (congrArg BPort.oper heq :)]
  exact hsync bp x₀ hx₀

theorem fdbAge_leaves (b : Bridge) (now : ℤ) : Leaves withoutStp b (b.fdbAge now) :=
  ⟨rfl, Fdb.age_sub now _⟩

theorem run_eq (b : Bridge) (now : ℤ) :
    b.run now =
      (((({ b with now, dirty := false } : Bridge).refreshBridgePorts.lacpRun
      now).updateOper).stpRun
      now).fdbAge now := rfl

/-- **After a run the ports of the bridge are in step with the configuration and the links.** -/
theorem run_synced (now : ℤ) : (b.run now).Synced := by
  rw [run_eq]
  generalize ({ b with now, dirty := false } : Bridge) = b
  have hlacp := lacpRun_withoutLacp (b := b.refreshBridgePorts) now
  generalize hb₂ : b.refreshBridgePorts.lacpRun now = b₂ at hlacp
  have hsync : b₂.updateOper.Synced := by
    intro bp x hx
    have hrest := (updateOper_leaves (b := b₂)).rest
    have hports : b₂.updateOper.ports = b₂.ports := (congrArg Bridge.ports hrest :)
    have hlags : b₂.updateOper.lags = b₂.lags := (congrArg Bridge.lags hrest :)
    obtain ⟨hoper, x₀, hx₀⟩ := oper_updateOper hx
    rw [computeOper_congr hports hlags, bridgePorts_congr hports hlags]
    refine ⟨hoper, ?_⟩
    have hbports : b₂.bports = b.refreshBridgePorts.bports := (congrArg Bridge.bports hlacp :)
    rw [hbports] at hx₀
    have hrefresh := (refreshBridgePorts_leaves (b := b)).rest
    have hcfg : b.refreshBridgePorts.bridgePorts = b.bridgePorts :=
      bridgePorts_congr (congrArg Bridge.ports hrefresh :) (congrArg Bridge.lags hrefresh :)
    rw [← bridgePorts_withoutLacp, hlacp, bridgePorts_withoutLacp, hcfg]
    exact mem_bridgePorts_of_refreshBridgePorts hx₀
  exact Synced.of_withoutStp ((stpRun_leaves now).trans (fdbAge_leaves _ now)) hsync

/-- A run keeps the configuration. -/
theorem run_leaves (now : ℤ) : Leaves configured b (b.run now) := by
  rw [run_eq]
  have hstart : Leaves configured b { b with now, dirty := false } := ⟨rfl, Fdb.Sub.refl⟩
  refine hstart.trans ?_
  refine refreshBridgePorts_leaves.of_withoutBports.trans ?_
  refine (Leaves.of_withoutLacp (lacpRun_withoutLacp now)).trans ?_
  refine updateOper_leaves.of_withoutBports.trans ?_
  refine (stpRun_leaves now).of_withoutStp.trans ?_
  exact (fdbAge_leaves _ now).of_withoutStp

theorem run_clean (now : ℤ) : (b.run now).dirty = false := by
  rw [run_eq]
  have hstp :=
    (stpRun_leaves
    (b := (({ b with now, dirty := false } : Bridge).refreshBridgePorts.lacpRun now).updateOper)
    now).rest
  refine (congrArg Bridge.dirty hstp :).trans ?_
  refine (congrArg Bridge.dirty updateOper_leaves.rest :).trans ?_
  refine (congrArg Bridge.dirty (lacpRun_withoutLacp now) :).trans ?_
  exact (congrArg Bridge.dirty refreshBridgePorts_leaves.rest :)

end EvansComputer.Switch.Bridge
