import EvansComputer.Switch.Machines

/-!
# Roles where nothing changes

What a bridge knows that a run of spanning tree leaves as it is: the root vector is the least of
the bridge's own and of those heard at its ports, the root port is where it was heard, a port
that has heard nothing better sends the root vector on, and the rest are blocked.

The states of ports come after their roles and change none of this (`withoutStates`).
-/

namespace EvansComputer.Switch

/-- There are at most 256 interfaces, and as many aggregates. -/
def PortRef.Valid : PortRef → Prop
  | eth n => n < maxPorts
  | lag id => id ≤ maxLagId
  | cpu => False

/-- What is known at a port of a designated one is the same. -/
structure StpPort.SameInfo (p q : StpPort) : Prop where
  info : p.info = q.info
  prio : p.prio = q.prio
  times : p.times = q.times

/-- A port but for its state. -/
def StpPort.withoutState (p : StpPort) : StpPort :=
  { p with state := .discarding, fdUntil := none, tcUntil := 0, rcvdTc := false }

namespace Bridge

variable {b : Bridge}

theorem withoutState_updateState (fd now : ℤ) (p : StpPort) :
    (updateState fd now p).withoutState = p.withoutState := by
  unfold updateState
  dsimp only
  split
  · split
    · split
      · rfl
      · split <;> rfl
    · split <;> rfl
    · rfl
  · split
    · rfl
    split
    · split
      · rfl
      · split <;> rfl
    · split <;> rfl
    · rfl
  · rfl

/-- All but the states of the ports, and the filtering database. -/
def withoutStates (b : Bridge) : Bridge :=
  { b with
    bports := b.bports.map fun _ x => { x with stp := x.stp.withoutState }
    fdb := {}
    fastAgeUntil := 0 }

theorem modifyStp_withoutStates {bp : PortRef} {f : StpPort → StpPort}
    (hf : ∀ x, b.bports[bp]? = some x → (f x.stp).withoutState = x.stp.withoutState) :
    Leaves withoutStates b (b.modifyStp bp f) where
  rest := by
    have hbports : (b.modifyStp bp f).bports.map (fun _ x => { x with stp := x.stp.withoutState }) =
        b.bports.map fun _ x => { x with stp := x.stp.withoutState } := by
      apply Std.ExtTreeMap.ext_getElem?
      intro a
      unfold modifyStp
      rw [Std.ExtTreeMap.getElem?_map, Std.ExtTreeMap.getElem?_map, OrderedMap.getElem?_modify']
      split_ifs with ha
      · subst ha
        cases hx : b.bports[bp]? with
        | none => rfl
        | some x =>
          show some { x with stp := (f x.stp).withoutState } =
            some { x with stp := x.stp.withoutState }
          rw [hf x hx]
      · rfl
    unfold withoutStates
    rw [hbports]
    rfl
  fdb := Fdb.Sub.refl

theorem stpTopologyChange_withoutStates (origin : PortRef) (includeOrigin : Bool) (now : ℤ) :
    Leaves withoutStates b (b.stpTopologyChange origin includeOrigin now) where
  rest := by
    have hbports : (b.stpTopologyChange origin includeOrigin now).bports.map
        (fun _ x => { x with stp := x.stp.withoutState }) =
        b.bports.map fun _ x => { x with stp := x.stp.withoutState } := by
      unfold stpTopologyChange
      dsimp only
      rw [Std.ExtTreeMap.map_map]
      congr 1
      ext bp x
      split_ifs <;> rfl
    unfold withoutStates
    rw [hbports]
    rfl
  fdb := Fdb.flushExcept_sub origin

theorem stpUpdateState_withoutStates (now : ℤ) (b : Bridge) (bp : PortRef) :
    Leaves withoutStates b (stpUpdateState now b bp) := by
  unfold stpUpdateState
  split
  · exact Leaves.refl
  rename_i x hx
  have hmodify : Leaves withoutStates b (b.modifyStp bp fun _ => updateState b.fdMs now x.stp) :=
    modifyStp_withoutStates fun x' hx' => by
      obtain rfl : x = x' := Option.some.inj (hx.symm.trans hx')
      exact withoutState_updateState b.fdMs now x.stp
  dsimp only
  generalize updateState b.fdMs now x.stp = p at hmodify
  refine hmodify.trans ?_
  generalize b.modifyStp bp (fun _ => p) = b
  split
  · exact Leaves.refl
  have hflush : Leaves withoutStates b
    (if p.state = .discarding then { b with fdb := b.fdb.flushPort bp } else b) := by
    split
    · exact ⟨rfl, Fdb.flushPort_sub bp⟩
    · exact Leaves.refl
  split
  · exact hflush.trans (stpTopologyChange_withoutStates bp true now)
  · exact hflush

theorem stpReceivedTc_withoutStates (now : ℤ) (b : Bridge) (bp : PortRef) :
    Leaves withoutStates b (stpReceivedTc now b bp) := by
  unfold stpReceivedTc
  split
  · exact Leaves.refl
  have hmodify : Leaves withoutStates b (b.modifyStp bp fun p => { p with rcvdTc := false }) :=
    modifyStp_withoutStates fun _ _ => rfl
  dsimp only
  split
  · exact hmodify.trans (stpTopologyChange_withoutStates bp false now)
  · exact hmodify

theorem stpStates_withoutStates (now : ℤ) : Leaves withoutStates b (b.stpStates now) :=
  (Leaves.foldl (stpUpdateState_withoutStates now) _ b).trans
    (Leaves.foldl (stpReceivedTc_withoutStates now) _ _)

/-! ## The best way to the root -/

/-- What the choice is, after some ports were looked at. -/
structure Chosen (b : Bridge) (l : List (PortRef × BPort)) (c : Choice) : Prop where
  own : c.best.key ≤ b.ownVec.key
  least : ∀ x ∈ l, ∀ v, b.candidate x.1 x.2.stp = some v → c.best.key ≤ v.key
  source : c = { best := b.ownVec, port := none, times := .fromCfg b.stpCfg } ∨
    ∃ x ∈ l, c.port = some x.1 ∧ b.candidate x.1 x.2.stp = some c.best ∧
      c.times.msgAge = addSat16 x.2.stp.times.msgAge 256

theorem Chosen.next {l : List (PortRef × BPort)} {c : Choice} (h : Chosen b l c)
    (x : PortRef × BPort) :
    Chosen b (l ++ [x]) (b.better c x) := by
  have hsource (c : Choice)
    (hc : c = { best := b.ownVec, port := none, times := .fromCfg b.stpCfg } ∨
      ∃ x ∈ l, c.port = some x.1 ∧ b.candidate x.1 x.2.stp = some c.best ∧
        c.times.msgAge = addSat16 x.2.stp.times.msgAge 256) :
      c = { best := b.ownVec, port := none, times := .fromCfg b.stpCfg } ∨
        ∃ y ∈ l ++ [x], c.port = some y.1 ∧ b.candidate y.1 y.2.stp = some c.best ∧
          c.times.msgAge = addSat16 y.2.stp.times.msgAge 256 := by
    rcases hc with hc | ⟨y, hy, hport⟩
    · exact .inl hc
    · exact .inr ⟨y, List.mem_append_left _ hy, hport⟩
  unfold better
  split
  · rename_i hnone
    refine ⟨h.own, fun y hy v hv => ?_, hsource c h.source⟩
    rcases List.mem_append.mp hy with hy | hy
    · exact h.least y hy v hv
    · rw [List.mem_singleton.mp hy, hnone] at hv
      cases hv
  · rename_i cand hcand
    split
    · rename_i hlt
      refine ⟨hlt.le.trans h.own, fun y hy v hv => ?_,
        .inr ⟨x, List.mem_append_right _ List.mem_cons_self, rfl, hcand, rfl⟩⟩
      rcases List.mem_append.mp hy with hy | hy
      · exact hlt.le.trans (h.least y hy v hv)
      · rw [List.mem_singleton.mp hy, hcand] at hv
        exact (congrArg PrioVec.key (Option.some.inj hv)).le
    · rename_i hge
      refine ⟨h.own, fun y hy v hv => ?_, hsource c h.source⟩
      rcases List.mem_append.mp hy with hy | hy
      · exact h.least y hy v hv
      · rw [List.mem_singleton.mp hy, hcand] at hv
        rw [← Option.some.inj hv]
        exact not_lt.mp hge

theorem Chosen.foldl {l : List (PortRef × BPort)} {c : Choice} (h : Chosen b l c)
    (rest : List (PortRef × BPort)) :
    Chosen b (l ++ rest) (rest.foldl b.better c) := by
  induction rest generalizing l c with
  | nil => rwa [List.append_nil]
  | cons x rest ih =>
    have hnext := ih (h.next x)
    rwa [List.append_assoc, List.singleton_append] at hnext

theorem choose_chosen : Chosen b b.bports.toList b.choose :=
  Chosen.foldl ⟨le_rfl, fun _ hx => absurd hx List.not_mem_nil, .inl rfl⟩ b.bports.toList

/-! ## A bridge that is settled -/

/-- A port of a bridge takes part in spanning tree: it is up, with no guard, and no edge. -/
structure PortUp (b : Bridge) (bp : PortRef) (x : BPort) : Prop where
  oper : x.oper = true
  wasOper : x.stp.wasOper = true
  portNum : x.stp.portNum = portNumber bp
  cfg : ∃ c, b.bpStpCfg bp = some c ∧ c.enabled = true ∧ c.adminEdge = false ∧ c.bpduGuard = false ∧
    c.rootGuard = false
  valid : bp.Valid

/-- Spanning tree runs on the bridge, on all of its ports. -/
structure Up (b : Bridge) : Prop where
  enabled : b.stpCfg.enabled = true
  started : b.stp.wasEnabled = true
  bridgeId : b.stp.bridgeId = makeBid b.stpCfg.priority b.bridgeMac
  ports : ∀ (bp : PortRef) x, b.bports[bp]? = some x → b.PortUp bp x

/-- A run changes no role, no information and no vector of the bridge. -/
structure Still (b : Bridge) (now : ℤ) : Prop where
  rootPrio : (b.stpRun now).stp.rootPrio = b.stp.rootPrio
  rootTimes : (b.stpRun now).stp.rootTimes = b.stp.rootTimes
  ports : ∀ (bp : PortRef) x, b.bports[bp]? = some x → ∃ x', (b.stpRun now).bports[bp]? = some x' ∧
    x'.stp.role = x.stp.role ∧ x'.stp.SameInfo x.stp

/-- What is known at a port is its own, or was received here and is not too old. -/
def Current (b : Bridge) (bp : PortRef) (x : BPort) (now : ℤ) : Prop :=
  x.stp.info = .mine ∨
    (x.stp.info = .received ∧ now < x.stp.rcvdUntil ∧ x.stp.prio.rport = b.portId bp x.stp.portNum)

theorem stpStart_of_up (h : b.Up) : b.stpStart = b := by
  unfold stpStart
  rw [h.started, if_pos rfl]
  dsimp only
  rw [← h.bridgeId]
  obtain ⟨now, bridgeMac, ports, lags, vlans, fdb, age, fast, svis, cfg, stp, bports, dirty⟩ := b
  obtain ⟨bridgeId, rootPrio, rootPort, rootTimes, wasEnabled⟩ := stp
  obtain rfl : wasEnabled = true := h.started
  rfl

theorem stpActive_of_up (h : b.Up) {bp : PortRef} {x : BPort} (hx : b.PortUp bp x) :
    b.stpActive bp = true := by
  obtain ⟨c, hc, hen, -⟩ := hx.cfg
  unfold stpActive
  rw [h.enabled, hc]
  exact hen

/-- A port whose information is current is enabled as it is. -/
theorem enablePort_of_current (h : b.Up) {bp : PortRef} {x : BPort} (hx : b.PortUp bp x) {now : ℤ}
    (hcur : b.Current bp x now) :
    b.enablePort now bp x =
      { x with stp := { x.stp with
        operEdge := false, prio := { x.stp.prio with rport := b.portId bp x.stp.portNum } } } := by
  obtain ⟨c, hc, -, hedge, -⟩ := hx.cfg
  have hnot : ¬(x.stp.info = .received ∧ now ≥ x.stp.rcvdUntil) := by
    rintro ⟨hrec, hlate⟩
    rcases hcur with hmine | ⟨-, hfresh, -⟩
    · rw [hmine] at hrec
      cases hrec
    · omega
  have hadmin : (b.bpStpCfg bp).any (·.adminEdge) = false := by rw [hc]; exact hedge
  unfold enablePort
  dsimp only
  rw [hx.oper, stpActive_of_up h hx, hx.wasOper, hadmin]
  simp only [Bool.and_self, Bool.not_true, Bool.false_eq_true, if_false, if_true]
  rw [if_neg hnot, hx.wasOper]

/-- The run of a bridge that is up. -/
theorem stpRun_of_up (h : b.Up) (now : ℤ) :
    b.stpRun now = (b.enablePorts now).stpReselect.stpStates now := by
  unfold stpRun
  rw [h.enabled, if_pos rfl, stpStart_of_up h]

theorem stp_stpRun (h : b.Up) (now : ℤ) :
    (b.stpRun now).stp.rootPrio = (b.enablePorts now).choose.best ∧
      (b.stpRun now).stp.rootTimes = (b.enablePorts now).choose.times := by
  have hstp : (b.stpRun now).stp = (b.enablePorts now).stpReselect.stp := by
    rw [stpRun_of_up h]
    exact (congrArg Bridge.stp (stpStates_withoutStates now).rest :)
  rw [hstp]
  exact ⟨rfl, rfl⟩

theorem bports_stpRun (h : b.Up) (now : ℤ) {bp : PortRef} {x x' : BPort}
    (hx : b.bports[bp]? = some x) (hx' : (b.stpRun now).bports[bp]? = some x') :
    x'.stp.role = ((b.enablePorts now).assignRole (b.enablePorts now).choose bp
      (b.enablePort now bp x)).stp.role ∧
      x'.stp.SameInfo
        ((b.enablePorts now).assignRole (b.enablePorts now).choose bp
          (b.enablePort now bp x)).stp := by
  have hrest := (congrArg (fun c : Bridge => c.bports[bp]?)
    (stpStates_withoutStates (b := (b.enablePorts now).stpReselect) now).rest :)
  unfold withoutStates at hrest
  dsimp only at hrest
  rw [Std.ExtTreeMap.getElem?_map, Std.ExtTreeMap.getElem?_map, ← stpRun_of_up h, hx'] at hrest
  have hselect : (b.enablePorts now).stpReselect.bports[bp]? =
      some ((b.enablePorts now).assignRole (b.enablePorts now).choose bp
        (b.enablePort now bp x)) := by
    unfold stpReselect
    dsimp only
    rw [Std.ExtTreeMap.getElem?_map]
    unfold enablePorts
    dsimp only
    rw [Std.ExtTreeMap.getElem?_map, hx]
    rfl
  rw [hselect] at hrest
  have hstp := congrArg BPort.stp (Option.some.inj hrest)
  exact ⟨(congrArg StpPort.role hstp :),
    ⟨(congrArg StpPort.info hstp :), (congrArg StpPort.prio hstp :),
    (congrArg StpPort.times hstp :)⟩⟩

/-- A settled bridge, with what is current at its ports. -/
structure Settled (b : Bridge) (now : ℤ) : Prop where
  up : b.Up
  still : b.Still now
  current : ∀ (bp : PortRef) x, b.bports[bp]? = some x → b.Current bp x now

section Settled

variable {now : ℤ} {bp : PortRef} {x : BPort}

/-- Where the best way to the root was heard. -/
def heardOn (b : Bridge) (now : ℤ) : Option PortRef := (b.enablePorts now).choose.port

section

variable (h : b.Settled now)
include h

theorem Settled.best : (b.enablePorts now).choose.best = b.stp.rootPrio :=
  (stp_stpRun h.up now).1.symm.trans h.still.rootPrio

/-- A port as it is enabled, before its role is assigned. -/
theorem Settled.assigned (hx : b.bports[bp]? = some x) :
    ∃ p : StpPort, p.info = x.stp.info ∧ p.wasOper = true ∧ p.portNum = x.stp.portNum ∧
      p.prio = { x.stp.prio with rport := b.portId bp x.stp.portNum } ∧ p.times = x.stp.times ∧
      x.stp.role = (b.assignRole (b.enablePorts now).choose bp { x with stp := p }).stp.role ∧
      x.stp.SameInfo (b.assignRole (b.enablePorts now).choose bp { x with stp := p }).stp := by
  have hup := h.up.ports bp x hx
  obtain ⟨x', hx', hrole, hinfo⟩ := h.still.ports bp x hx
  obtain ⟨hrole', hinfo'⟩ := bports_stpRun h.up now hx hx'
  rw [enablePort_of_current h.up hup (h.current bp x hx)] at hrole' hinfo'
  refine ⟨{ x.stp with
      operEdge := false, prio := { x.stp.prio with rport := b.portId bp x.stp.portNum } },
    rfl, hup.wasOper, rfl, rfl, rfl, hrole.symm.trans hrole', ?_⟩
  exact ⟨hinfo.info.symm.trans hinfo'.info, hinfo.prio.symm.trans hinfo'.prio,
    hinfo.times.symm.trans hinfo'.times⟩

/-- A port that has heard nothing better is designated, with the vector of the bridge. -/
theorem Settled.mine (hx : b.bports[bp]? = some x) (hinfo : x.stp.info = .mine) :
    x.stp.role = .designated ∧ x.stp.prio = b.designatedVec bp x.stp.portNum b.stp.rootPrio := by
  obtain ⟨p, hp, hwas, hnum, -, -, hrole, hsame⟩ := h.assigned hx
  have hne : p.info ≠ .received := by
    rw [hp, hinfo]
    exact fun heq => nomatch heq
  unfold assignRole at hrole hsame
  dsimp only at hrole hsame
  rw [hwas, h.best, hnum] at hrole hsame
  simp only [Bool.not_true, Bool.false_eq_true, if_false] at hrole hsame
  rw [if_pos hne] at hrole hsame
  exact ⟨hrole, hsame.prio⟩

/-- A port that has heard something is the root port, or it is blocked. -/
theorem Settled.received (hx : b.bports[bp]? = some x) (hinfo : x.stp.info = .received) :
    (b.heardOn now = some bp ∧ x.stp.role = .root) ∨
      (b.heardOn now ≠ some bp ∧ (x.stp.role = .alternate ∨ x.stp.role = .backup) ∧
        ¬(b.designatedVec bp x.stp.portNum b.stp.rootPrio).key4 < x.stp.prio.key4) := by
  obtain ⟨p, hp, hwas, hnum, hprio, -, hrole, hsame⟩ := h.assigned hx
  obtain ⟨c, hc, -, -, -, hguard⟩ := (h.up.ports bp x hx).cfg
  have hnoguard : (b.bpStpCfg bp).any (·.rootGuard) = false := by rw [hc]; exact hguard
  have hkey : p.prio.key4 = x.stp.prio.key4 := by rw [hprio]; rfl
  have hreceived : ¬p.info ≠ .received := by
    rw [hp, hinfo]
    exact fun hne => hne rfl
  unfold assignRole at hrole hsame
  dsimp only at hrole hsame
  rw [hwas, h.best, hnum, hkey, hnoguard] at hrole hsame
  simp only [Bool.not_true, Bool.false_eq_true, if_false] at hrole hsame
  rw [if_neg hreceived] at hrole hsame
  by_cases hport : some bp = (b.enablePorts now).choose.port
  · rw [if_pos hport] at hrole
    exact .inl ⟨hport.symm, hrole⟩
  rw [if_neg hport] at hrole hsame
  by_cases hbetter : (b.designatedVec bp x.stp.portNum b.stp.rootPrio).key4 < x.stp.prio.key4
  · rw [if_pos hbetter] at hsame
    cases hinfo.symm.trans hsame.info
  rw [if_neg hbetter] at hrole
  refine .inr ⟨fun heq => hport heq.symm, ?_, hbetter⟩
  split at hrole
  · exact .inr hrole
  · exact .inl hrole

/-- A vector that is heard at a port is one of those chosen from. -/
theorem Settled.mem_enabled (hx : b.bports[bp]? = some x) :
    ∃ p : StpPort, (bp, { x with stp := p }) ∈ (b.enablePorts now).bports.toList ∧
      p.times = x.stp.times ∧
      (b.enablePorts now).candidate bp p = b.candidate bp x.stp := by
  have hup := h.up.ports bp x hx
  have hmem : (b.enablePorts now).bports[bp]? = some (b.enablePort now bp x) := by
    unfold enablePorts
    dsimp only
    rw [Std.ExtTreeMap.getElem?_map, hx]
    rfl
  rw [enablePort_of_current h.up hup (h.current bp x hx)] at hmem
  refine ⟨_, Std.ExtTreeMap.mem_toList_iff_getElem?_eq_some.mpr hmem, rfl, ?_⟩
  unfold candidate
  dsimp only
  rcases h.current bp x hx with hmine | ⟨-, -, hrport⟩
  · rw [hmine]
    simp
  · rw [← hrport]
    rfl

omit h in
theorem Settled.of_mem_enabled {y : PortRef × BPort} (hy : y ∈ (b.enablePorts now).bports.toList) :
    ∃ x, b.bports[y.1]? = some x ∧ y.2 = b.enablePort now y.1 x := by
  have hmem := Std.ExtTreeMap.mem_toList_iff_getElem?_eq_some.mp hy
  unfold enablePorts at hmem
  dsimp only at hmem
  rw [Std.ExtTreeMap.getElem?_map] at hmem
  obtain ⟨x, hx, heq⟩ := Option.map_eq_some_iff.mp hmem
  exact ⟨x, hx, heq.symm⟩

/-- The root vector is the best of what the bridge is itself and of what it has heard. -/
theorem Settled.le_own : b.stp.rootPrio.key ≤ b.ownVec.key := by
  have hown := (choose_chosen (b := b.enablePorts now)).own
  rw [h.best] at hown
  exact hown

theorem Settled.le_candidate (hx : b.bports[bp]? = some x) {v : PrioVec}
    (hv : b.candidate bp x.stp = some v) : b.stp.rootPrio.key ≤ v.key := by
  obtain ⟨p, hmem, -, hcand⟩ := h.mem_enabled hx
  have hle := (choose_chosen (b := b.enablePorts now)).least _ hmem v (hcand.trans hv)
  rwa [h.best] at hle

/-- **Where the root vector is from.** -/
theorem Settled.source :
    (b.heardOn now = none ∧ b.stp.rootPrio = b.ownVec ∧ b.stp.rootTimes.msgAge = 0) ∨
      ∃ bp x, b.bports[bp]? = some x ∧ b.heardOn now = some bp ∧
        b.candidate bp x.stp = some b.stp.rootPrio ∧
        b.stp.rootTimes.msgAge = addSat16 x.stp.times.msgAge 256 := by
  have htimes : (b.enablePorts now).choose.times = b.stp.rootTimes :=
    (stp_stpRun h.up now).2.symm.trans h.still.rootTimes
  rcases (choose_chosen (b := b.enablePorts now)).source with hnone | ⟨y, hy, hport, hcand, hage⟩
  · left
    refine ⟨congrArg Choice.port hnone, ?_, ?_⟩
    · rw [← h.best]
      exact congrArg Choice.best hnone
    · rw [← htimes]
      exact congrArg (fun c : Choice => c.times.msgAge) hnone
  · right
    obtain ⟨x, hx, hyx⟩ := Settled.of_mem_enabled hy
    obtain ⟨p, hmem, htimesp, hcandp⟩ := h.mem_enabled hx
    have hyp : y.2.stp = p := by
      have h₁ := Std.ExtTreeMap.mem_toList_iff_getElem?_eq_some.mp hmem
      have h₂ := Std.ExtTreeMap.mem_toList_iff_getElem?_eq_some.mp (show (y.1, y.2) ∈ _ from hy)
      exact (congrArg BPort.stp (Option.some.inj (h₁.symm.trans h₂))).symm
    rw [hyp] at hcand hage
    rw [hcandp, h.best] at hcand
    rw [htimes, htimesp] at hage
    exact ⟨y.1, x, hx, hport, hcand, hage⟩

end

end Settled

end EvansComputer.Switch.Bridge
