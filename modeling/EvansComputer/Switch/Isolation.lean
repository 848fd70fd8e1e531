import EvansComputer.Switch.Upkeep

/-!
# Isolation of the data plane

Where copies of a frame go, and what is in them.  A frame is handled in the state that the
machines leave (`settle`); in it the ports of the bridge are in step with the configuration and
the links, so that what the forwarding gate reads of a port is what its links say.

The frames of the switch's own stack are not held to all that frames from a port are: one with
the slow-protocols type is forwarded, and a tagged one loses its tag before it is forwarded, and
with it its priority and the tag that may stand behind it.
-/

namespace EvansComputer.Switch

variable {e : EthInfo} {g : Frame} {v : UInt16} {bp ingress : PortRef}

/-- Where a frame comes from. -/
inductive Arrival where
  | port (p : ℕ)
  | stack (vlan : UInt16)

def Output.isTx : Output → Bool
  | tx _ _ => true
  | toLocal _ _ => false

/-- A frame without its outer tag. -/
def stripped (f : Frame) (e : EthInfo) : Frame :=
  f.take 12 ++ f.drop (if e.tci.isSome then 16 else 12)

/-- A frame with one tag, which has the VLAN and the priority, in place of its outer one. -/
def Retagged (f : Frame) (e : EthInfo) (v : UInt16) (out : Frame) : Prop :=
  ∃ tci : UInt16, tci.toNat = e.pcp.toNat * 8192 + v.toNat ∧
    out = f.take 12 ++
      (u16ToBe tpid8021q ++ u16ToBe tci ++ f.drop (if e.tci.isSome then 16 else 12))

namespace Bridge

/-- A frame that is given to the bridge. -/
def takeIn (b : Bridge) (a : Arrival) (f : Frame) (now : ℤ) : Bridge × List Output :=
  match a with
  | .port p => b.handleFrame p f now
  | .stack vlan => b.sendLocal vlan f now

/-- The physical port is the bridge port, or a member of it that distributes. -/
def Carries (b : Bridge) (bp : PortRef) (m : ℕ) : Prop :=
  match bp with
  | .eth n => m = n ∧ (b.ports[n]?).any (·.cfg.lag.isNone) = true
  | .lag id => m ∈ b.lagMembers id ∧ b.memberDistributing m = true
  | .cpu => False

/-- The bridge port gets a copy of a frame of the VLAN `v`. -/
structure Sends (b : Bridge) (f : Frame) (e : EthInfo) (v : UInt16) (ingress bp : PortRef)
    (o : Output) : Prop where
  ne : bp ≠ ingress
  oper : b.bportOper bp = true ∧ b.computeOper bp = true
  forwarding : b.bpForwarding bp = true
  copy : ∃ tagged m out, b.membership bp v = some tagged ∧ b.Carries bp m ∧ o = .tx m out ∧
    if tagged then Retagged f e v out else out = stripped f e

/-- What is done with a frame of the VLAN `v`. -/
structure Confined (b : Bridge) (f : Frame) (e : EthInfo) (v : UInt16) (ingress : PortRef)
    (outs : List Output) :
    Prop where
  local_svi : ∀ w g, .toLocal w g ∈ outs → w = v ∧ b.svis.contains v = true ∧ g = stripped f e
  copies : ∃ bps : List PortRef, bps.Nodup ∧ List.Forall₂ (b.Sends f e v ingress) bps
    (outs.filter Output.isTx)

/-- The bridge port and the VLAN of a frame. -/
def Classifies (b : Bridge) (a : Arrival) (e : EthInfo) (bp : PortRef) (v : UInt16) : Prop :=
  match a with
  | .port p => b.ingressBport p = some bp ∧ b.ingressVlan bp e = some v
  | .stack vlan => bp = .cpu ∧ vlan = v

/-- The port is err-disabled, routed, not distributing or discarding. -/
def Blocked (b : Bridge) (p : ℕ) : Prop :=
  ∃ ep, b.ports[p]? = some ep ∧
    (b.isErrDisabled (.eth p) = true ∨ b.isErrDisabled (b.resolve (.eth p)) = true ∨
      b.bpMode (b.resolve (.eth p)) = some .routed ∨
      (ep.cfg.lag ≠ none ∧ b.memberDistributing p = false) ∨
      (b.stpActive (b.resolve (.eth p)) = true ∧
        ∃ x, b.bports[b.resolve (.eth p)]? = some x ∧ x.stp.state = .discarding))

/-- The isolation of a frame, in the state that the machines leave. -/
structure Isolates (b : Bridge) (a : Arrival) (f : Frame) (now : ℤ) : Prop where
  control : ∀ e, parseEth f = some e → isReservedGroup e.dst = true ∨ e.ethertype = ethertypeSlow →
    (b.takeIn a f now).2 = []
  blocked : ∀ p, a = .port p → (b.settle now).Blocked p →
    (b.takeIn a f now).2 = [] ∧ (b.takeIn a f now).1.fdb.Sub (b.settle now).fdb
  sent : (b.takeIn a f now).2 = [] ∨
    ∃ e bp v, parseEth f = some e ∧ (b.settle now).Classifies a e bp v ∧
      (b.settle now).vlanActive v = true ∧
      (b.settle now).Confined f e v bp (b.takeIn a f now).2

end Bridge

/-- The condition on a frame of the switch's own stack: no slow protocol, and a tag has no
priority and no other tag behind it. -/
def Arrival.Plain (f : Frame) : Arrival → Prop
  | port _ => True
  | stack _ => ∀ e, parseEth f = some e →
      e.ethertype ≠ ethertypeSlow ∧ (e.tci.isSome = true → e.pcp = 0 ∧ untag (untag f) = untag f)

/-! ## Copies -/

variable {f : Frame}

theorem untag_eq_stripped (h : parseEth f = some e) : untag f = stripped f e := by
  rw [untag_eq h]
  unfold stripped
  split_ifs
  · rfl
  · exact (List.take_append_drop 12 f).symm

theorem take_stripped (h : parseEth f = some e) :
    (stripped f e).take 12 = f.take 12 ∧ (stripped f e).drop 12 = f.drop
    (if e.tci.isSome then 16 else 12) := by
  obtain ⟨hlen, -, -⟩ := parseEth_eq_some h
  have htake : (f.take 12).length = 12 := List.length_take_of_le (le_trans (by decide) hlen)
  exact ⟨List.take_left' htake, List.drop_left' htake⟩

/-- A tag that is put on a frame from which its own was taken. -/
theorem retagged_of_tag (h : parseEth f = some e) {out : Frame} (hg : untag g = stripped f e)
    (hv : v.toNat < 4096) (hout : tag g v e.pcp = some out) : Retagged f e v out := by
  obtain ⟨-, -, rfl⟩ := tag_eq_some hout
  refine ⟨tciOf v e.pcp, toNat_tciOf hv (pcp_lt e), ?_⟩
  rw [hg, (take_stripped h).1, (take_stripped h).2]

namespace Bridge

variable {b : Bridge}

theorem bpForwarding_eq_true (h : b.bpForwarding bp = true) :
    ∃ x, b.bports[bp]? = some x ∧ x.oper = true ∧
      (b.stpActive bp = true → x.stp.state = .forwarding) := by
  unfold bpForwarding at h
  rw [Option.any_eq_true] at h
  obtain ⟨x, hx, hgate⟩ := h
  rw [Bool.and_eq_true, Bool.or_eq_true] at hgate
  refine ⟨x, hx, hgate.1, fun hactive => ?_⟩
  rcases hgate.2 with hinactive | hstate
  · rw [hactive] at hinactive
    cases hinactive
  · exact of_decide_eq_true hstate

theorem eth_mem_bridgePorts {n : ℕ} (h : PortRef.eth n ∈ b.bridgePorts) :
    ∃ ep, b.ports[n]? = some ep ∧ ep.cfg.lag = none ∧ ep.cfg.mode.isRouted = false := by
  rcases List.mem_append.mp h with hmem | hmem
  · obtain ⟨i, hi, heq⟩ := List.mem_map.mp hmem
    cases heq
    have hany := (List.mem_filter.mp hi).2
    rw [Option.any_eq_true] at hany
    obtain ⟨ep, hep, hcfg⟩ := hany
    rw [Bool.and_eq_true] at hcfg
    exact ⟨ep, hep, Option.isNone_iff_eq_none.mp hcfg.1, by simpa using hcfg.2⟩
  · obtain ⟨x, -, heq⟩ := List.mem_map.mp hmem
    cases heq

theorem lagSelectMember_eq_some {id : UInt16} {m : ℕ} (h : b.lagSelectMember id g = some m) :
    m ∈ b.lagMembers id ∧ b.memberDistributing m = true := by
  unfold lagSelectMember at h
  obtain ⟨lag, -, hm⟩ := Option.bind_eq_some_iff.mp h
  exact List.mem_filter.mp (List.mem_of_getElem? hm)

theorem tx_eq (m : ℕ) (out : Frame) : b.tx m out = [] ∨ b.tx m out = [.tx m out] := by
  unfold tx
  split
  · exact .inr rfl
  · exact .inl rfl

/-- **A bridge port gets one copy at most**, on a port that carries it, and as its membership
says. -/
theorem egress_sends (hsync : b.Synced) (he : parseEth f = some e) (hg : untag g = stripped f e)
    (hv : v.toNat < 4096) (hne : bp ≠ ingress) :
    b.egress bp v g e.pcp = [] ∨ ∃ o, b.egress bp v g e.pcp = [o] ∧ b.Sends f e v ingress bp o := by
  unfold egress
  split
  · exact .inl rfl
  rename_i tagged hmember
  split
  · exact .inl rfl
  rename_i hgate
  have hforwarding : b.bpForwarding bp = true := by simpa using hgate
  obtain ⟨x, hx, hoper, -⟩ := bpForwarding_eq_true hforwarding
  obtain ⟨hcompute, hport⟩ := hsync bp x hx
  have hop : b.bportOper bp = true ∧ b.computeOper bp = true := by
    constructor
    · unfold bportOper
      rw [hx]
      exact hoper
    · rw [← hcompute]
      exact hoper
  split
  · exact .inl rfl
  rename_i out hout
  have hcopy : if tagged then Retagged f e v out else out = stripped f e := by
    cases tagged with
    | true => exact retagged_of_tag he hg hv hout
    | false => exact (Option.some.inj hout).symm.trans hg
  have hsends {m : ℕ} (hcarries : b.Carries bp m) :
      b.tx m out = [] ∨ ∃ o, b.tx m out = [o] ∧ b.Sends f e v ingress bp o := by
    rcases tx_eq (b := b) m out with hnone | hone
    · exact .inl hnone
    · exact .inr ⟨_, hone, hne, hop, hforwarding, tagged, m, out, hmember, hcarries, rfl, hcopy⟩
  cases bp with
  | eth n =>
    obtain ⟨ep, hep, hlag, -⟩ := eth_mem_bridgePorts hport
    exact hsends ⟨rfl, by rw [hep]; exact Option.isNone_iff_eq_none.mpr hlag⟩
  | lag id =>
    dsimp only
    split
    · rename_i m hm
      exact hsends (lagSelectMember_eq_some hm)
    · exact .inl rfl
  | cpu => exact .inl rfl

/-- What is sent to some ports, one after another. -/
theorem exists_forall₂_flatMap {α β : Type*} {R : α → β → Prop} {g : α → List β} {l : List α}
    (h : ∀ x ∈ l, g x = [] ∨ ∃ y, g x = [y] ∧ R x y) :
    ∃ xs, xs.Sublist l ∧ List.Forall₂ R xs (l.flatMap g) := by
  induction l with
  | nil => exact ⟨[], List.Sublist.slnil, List.Forall₂.nil⟩
  | cons x l ih =>
    obtain ⟨xs, hsub, hall⟩ := ih fun y hy => h y (List.mem_cons_of_mem x hy)
    rw [List.flatMap_cons]
    rcases h x List.mem_cons_self with hnone | ⟨y, hy, hR⟩
    · rw [hnone]
      exact ⟨xs, hsub.cons x, hall⟩
    · rw [hy]
      exact ⟨x :: xs, hsub.cons_cons x, List.Forall₂.cons hR hall⟩

/-- Copies that are sent to some bridge ports. -/
def Copies (b : Bridge) (f : Frame) (e : EthInfo) (v : UInt16) (ingress : PortRef)
    (outs : List Output) : Prop :=
  ∃ bps : List PortRef, bps.Nodup ∧ List.Forall₂ (b.Sends f e v ingress) bps outs

theorem Copies.nil : b.Copies f e v ingress [] :=
  ⟨[], List.nodup_nil, List.Forall₂.nil⟩

theorem egress_copies (hsync : b.Synced) (he : parseEth f = some e) (hg : untag g = stripped f e)
    (hv : v.toNat < 4096) (hne : bp ≠ ingress) :
    b.Copies f e v ingress (b.egress bp v g e.pcp) := by
  rcases egress_sends hsync he hg hv hne with hnone | ⟨o, hone, hsends⟩
  · rw [hnone]
    exact Copies.nil
  · rw [hone]
    exact ⟨[bp], List.nodup_singleton bp, List.Forall₂.cons hsends List.Forall₂.nil⟩

theorem flood_copies (hsync : b.Synced) (he : parseEth f = some e) (hg : untag g = stripped f e)
    (hv : v.toNat < 4096) (ingress : PortRef) :
    b.Copies f e v ingress (b.flood v ingress g e.pcp) := by
  have hnodup : ((b.bports.toList.filter fun x => x.1 ≠ ingress && x.2.oper).map Prod.fst).Nodup :=
    OrderedMap.nodup_map_fst_toList.sublist (List.filter_sublist.map Prod.fst)
  obtain ⟨bps, hsub, hall⟩ := exists_forall₂_flatMap (R := b.Sends f e v ingress)
    (g := fun bp => b.egress bp v g e.pcp)
      (l := (b.bports.toList.filter fun x => x.1 ≠ ingress && x.2.oper).map Prod.fst)
    fun bp hbp => by
      obtain ⟨x, hx, rfl⟩ := List.mem_map.mp hbp
      have hkeep := (Bool.and_eq_true_iff.mp (List.mem_filter.mp hx).2).1
      exact egress_sends hsync he hg hv (of_decide_eq_true hkeep)
  exact ⟨bps, hnodup.sublist hsub, hall⟩

/-- Copies are sent, nothing is delivered. -/
theorem Copies.confined {outs : List Output} (h : b.Copies f e v ingress outs) :
    b.Confined f e v ingress outs := by
  obtain ⟨bps, hnodup, hall⟩ := h
  have htx : ∀ o ∈ outs, o.isTx = true := by
    clear hnodup
    induction hall with
    | nil => exact fun o ho => absurd ho List.not_mem_nil
    | cons hsends _ ih =>
      intro o ho
      rcases List.mem_cons.mp ho with rfl | ho
      · obtain ⟨_, _, _, -, -, rfl, -⟩ := hsends.copy
        rfl
      · exact ih o ho
  refine ⟨fun w g hmem => ?_, bps, hnodup, ?_⟩
  · cases htx _ hmem
  · rw [List.filter_eq_self.mpr htx]
    exact hall

/-- The switch's own interface gets the frame too. -/
theorem Copies.deliver_confined (he : parseEth f = some e) {outs : List Output}
    (h : b.Copies f e v ingress outs) : b.Confined f e v ingress (b.deliver v f ++ outs) := by
  have hconf := h.confined
  unfold deliver
  split
  · rename_i hsvi
    refine ⟨fun w g hmem => ?_, ?_⟩
    · rcases List.mem_cons.mp hmem with heq | hmem
      · cases heq
        exact ⟨rfl, hsvi, untag_eq_stripped he⟩
      · exact hconf.local_svi w g hmem
    · rw [List.cons_append, List.filter_cons_of_neg (by simp [Output.isTx]), List.nil_append]
      exact hconf.copies
  · exact hconf

/-! ## Frames from a port -/

theorem contains_of_vlanActive (hv : b.vlanActive v = true) : b.vlans.contains v = true := by
  unfold vlanActive at hv
  rw [Std.ExtTreeMap.contains_eq_isSome_getElem?]
  cases hactive : b.vlans[v]? with
  | none =>
    rw [hactive] at hv
    cases hv
  | some _ => rfl

theorem vlan_lt (h : b.Inv) (hv : b.vlanActive v = true) : v.toNat < 4096 := by
  have hcheck := (Bool.and_eq_true_iff.mp (h.vids v (contains_of_vlanActive hv))).2
  have hle : v.toNat ≤ (4094 : UInt16).toNat := UInt16.le_iff_toNat_le.mp (of_decide_eq_true hcheck)
  exact lt_of_le_of_lt hle (by decide)

/-- Where a frame of a VLAN that came in on a bridge port goes. -/
theorem forward_confined (hsync : b.Synced) (he : parseEth f = some e) (hv : v.toNat < 4096)
    (bp : PortRef) : b.Confined f e v bp (b.forward bp v e f) := by
  have hg := untag_eq_stripped he
  unfold forward
  split
  · have hnone : b.Copies f e v bp [] := Copies.nil
    have hdeliver := hnone.deliver_confined he
    rwa [List.append_nil] at hdeliver
  split
  · exact (flood_copies hsync he hg hv bp).deliver_confined he
  split
  · have hnone : b.Copies f e v bp [] := Copies.nil
    have hdeliver := hnone.deliver_confined he
    rwa [List.append_nil] at hdeliver
  · split
    · exact Copies.nil.confined
    · rename_i hne
      exact (egress_copies hsync he hg hv hne).confined
  · exact (flood_copies hsync he hg hv bp).confined

/-- A change of the filtering database changes no gate. -/
theorem Confined.of_fdb {outs : List Output} {fdb : Fdb}
    (h : ({ b with fdb } : Bridge).Confined f e v ingress outs) :
    b.Confined f e v ingress outs := by
  obtain ⟨hlocal, bps, hnodup, hall⟩ := h
  refine ⟨hlocal, bps, hnodup, hall.imp fun bp o hsends => ?_⟩
  exact ⟨hsends.ne, hsends.oper, hsends.forwarding, hsends.copy⟩

theorem forwardData_confined (h : b.Inv) (hclean : b.dirty = false) (p : ℕ)
    (he : parseEth f = some e) :
    (b.forwardData p e f).2 = [] ∨
      ∃ bp v, b.ingressBport p = some bp ∧ b.ingressVlan bp e = some v ∧ b.vlanActive v = true ∧
        b.Confined f e v bp (b.forwardData p e f).2 := by
  unfold forwardData
  split
  · exact .inl rfl
  rename_i bp hbp
  obtain ⟨hin, -⟩ := Option.filter_eq_some_iff.mp hbp
  split
  · exact .inl rfl
  rename_i v hvlan
  obtain ⟨hvid, hactive⟩ := Option.filter_eq_some_iff.mp hvlan
  split
  · exact .inl rfl
  have hout (fdb : Fdb) : b.Confined f e v bp (({ b with fdb } : Bridge).forward bp v e f) :=
    (forward_confined (b := { b with fdb }) (h.synced hclean) he (vlan_lt h hactive) bp).of_fdb
  dsimp only
  split
  · split
    · exact .inl rfl
    · exact .inr ⟨bp, v, hin, hvid, hactive, hout _⟩
  · split
    · exact .inl rfl
    · exact .inr ⟨bp, v, hin, hvid, hactive, hout b.fdb⟩

/-- The bridge port of a physical port that takes frames in. -/
theorem ingressBport_eq_some {p : ℕ} {ep : EthPort} (hep : b.ports[p]? = some ep)
    (h : b.ingressBport p = some bp) :
    b.resolve (.eth p) = bp ∧ b.bpMode bp ≠ some .routed ∧
      (ep.cfg.lag ≠ none → b.memberDistributing p = true) := by
  have hnotRouted {m : PortMode} (hm : m.isRouted = false) : some m ≠ some .routed := by
    rintro heq
    rw [Option.some.inj heq] at hm
    cases hm
  have hlagged : (b.ports[p]?).bind (·.cfg.lag) = ep.cfg.lag := by rw [hep]; rfl
  cases bp with
  | eth n =>
    obtain ⟨rfl, ep', hep', hlag, hmode⟩ := ingressBport_eq_eth h
    obtain rfl : ep = ep' := Option.some.inj (hep.symm.trans hep')
    refine ⟨?_, ?_, fun hne => absurd hlag hne⟩
    · unfold resolve
      dsimp only
      rw [hlagged, hlag]
    · unfold bpMode
      dsimp only
      rw [hep]
      exact hnotRouted hmode
  | lag id =>
    obtain ⟨ep', lag, hep', hlag, hl, hmode, hdist⟩ := ingressBport_eq_lag h
    obtain rfl : ep = ep' := Option.some.inj (hep.symm.trans hep')
    refine ⟨?_, ?_, fun _ => hdist⟩
    · unfold resolve
      dsimp only
      rw [hlagged, hlag]
    · unfold bpMode
      dsimp only
      rw [hl]
      exact hnotRouted hmode
  | cpu =>
    unfold ingressBport at h
    rw [hep] at h
    dsimp only at h
    split at h
    · split at h
      · cases h
      · split at h <;> cases h
    · split at h <;> cases h

/-- What is err-disabled is not operational. -/
theorem isErrDisabled_of_computeOper (h : b.computeOper bp = true) :
    b.isErrDisabled bp = false := by
  cases bp with
  | eth n =>
    have hany : (b.ports[n]?).any (fun p => p.linkUp && p.cfg.adminUp && !p.errDisabled) = true := h
    rw [Option.any_eq_true] at hany
    obtain ⟨ep, hep, hup⟩ := hany
    show (b.ports[n]?).any (·.errDisabled) = false
    rw [hep]
    simpa using (Bool.and_eq_true_iff.mp hup).2
  | lag id =>
    have hany : (b.lags[id]?).any (fun l =>
        l.cfg.adminUp && !l.errDisabled && (b.lagMembers id).any b.memberDistributing) = true := h
    rw [Option.any_eq_true] at hany
    obtain ⟨l, hl, hup⟩ := hany
    show (b.lags[id]?).any (·.errDisabled) = false
    rw [hl]
    simpa using (Bool.and_eq_true_iff.mp (Bool.and_eq_true_iff.mp hup).1).2
  | cpu => rfl

/-- A port that takes frames in and is blocked is discarding. -/
theorem Blocked.discarding (h : b.Inv) (hclean : b.dirty = false) {p : ℕ} (hblocked : b.Blocked p)
    (hin : b.ingressBport p = some bp) {x : BPort} (hx : b.bports[bp]? = some x)
    (hxoper : x.oper = true) :
    b.stpActive bp = true ∧ x.stp.state = .discarding := by
  obtain ⟨ep, hep, hwhy⟩ := hblocked
  obtain ⟨hresolve, hmode, hdist⟩ := ingressBport_eq_some hep hin
  have herr := isErrDisabled_of_computeOper ((h.synced hclean bp x hx).1.symm.trans hxoper)
  rw [hresolve] at hwhy
  rcases hwhy with hself | hport | hrouted | ⟨hlag, hnot⟩ | ⟨hactive, x', hx', hstate⟩
  · have hep' : ep.errDisabled = true := by
      have hany : (b.ports[p]?).any (·.errDisabled) = true := hself
      rwa [hep] at hany
    -- it stands alone, so that it is the bridge port itself
    have heth : b.resolve (.eth p) = .eth p := by
      unfold resolve
      dsimp only
      rw [hep, Option.bind_some, h.alone ep (List.mem_of_getElem? hep) hep']
    rw [← hresolve, heth, hself] at herr
    cases herr
  · rw [herr] at hport
    cases hport
  · exact absurd hrouted hmode
  · rw [hdist hlag] at hnot
    cases hnot
  · obtain rfl : x = x' := Option.some.inj (hx.symm.trans hx')
    exact ⟨hactive, hstate⟩

/-- **A port that is blocked takes nothing in.** -/
theorem forwardData_blocked (h : b.Inv) (hclean : b.dirty = false) {p : ℕ} (hblocked : b.Blocked p)
    (e : EthInfo) :
    b.forwardData p e f = (b, []) := by
  unfold forwardData
  split
  · rfl
  rename_i bp hbp
  obtain ⟨hin, hoper⟩ := Option.filter_eq_some_iff.mp hbp
  unfold bportOper at hoper
  rw [Option.any_eq_true] at hoper
  obtain ⟨x, hx, hxoper⟩ := hoper
  obtain ⟨hactive, hstate⟩ := hblocked.discarding h hclean hin hx hxoper
  have hlearning : b.bpLearning bp = false := by
    unfold bpLearning
    rw [hx, Option.any_some, hactive, hstate]
    cases x.oper <;> rfl
  have hforwarding : b.bpForwarding bp = false := by
    unfold bpForwarding
    rw [hx, Option.any_some, hactive, hstate]
    cases x.oper <;> rfl
  split
  · rfl
  split
  · rfl
  rw [hlearning, Bool.false_and, Bool.false_and, if_neg Bool.false_ne_true]
  dsimp only
  rw [hforwarding]
  rfl

/-! ## Every frame -/

/-- A frame from a port. -/
theorem handleFrame_isolates (h : b.Inv) (p : ℕ) (now : ℤ) : b.Isolates (.port p) f now := by
  have hsettled := h.settle now
  have hclean := settle_clean (b := b) now
  have hresult : ∀ e, parseEth f = some e → (b.settle now).ports[p]?.any (·.linkUp) = true →
      isReservedGroup e.dst = false → e.ethertype ≠ ethertypeSlow →
      b.handleFrame p f now = (b.settle now).forwardData p e f := by
    intro e he hup hgroup hslow
    unfold handleFrame
    dsimp only
    rw [hup, he]
    dsimp only
    rw [hgroup, if_neg hslow]
    rfl
  -- nothing happens with any other frame, but that a control frame is taken in
  have hother : (∀ e, parseEth f = some e → (b.settle now).ports[p]?.any (·.linkUp) = true →
      isReservedGroup e.dst = true ∨ e.ethertype = ethertypeSlow) →
      (b.handleFrame p f now).2 = [] ∧ (b.handleFrame p f now).1.fdb.Sub (b.settle now).fdb := by
    intro hnot
    unfold handleFrame
    dsimp only
    split
    · exact ⟨rfl, Fdb.Sub.refl⟩
    rename_i hup
    split
    · exact ⟨rfl, Fdb.Sub.refl⟩
    rename_i e he
    split
    · exact ⟨rfl, (handleControl_inv hsettled hclean (handleControl_controls p e f now) now).2⟩
    rename_i hgroup
    split
    · exact ⟨rfl, Fdb.Sub.refl⟩
    rename_i hslow
    rcases hnot e he (by simpa using hup) with hg | hs
    · exact absurd hg hgroup
    · exact absurd hs hslow
  by_cases hdata : ∃ e, parseEth f = some e ∧ (b.settle now).ports[p]?.any (·.linkUp) = true ∧
      isReservedGroup e.dst = false ∧ e.ethertype ≠ ethertypeSlow
  · obtain ⟨e, he, hup, hgroup, hslow⟩ := hdata
    have heq : b.takeIn (.port p) f now = (b.settle now).forwardData p e f :=
      hresult e he hup hgroup hslow
    refine ⟨fun e' he' hcontrol => ?_, fun p' hp' hblocked => ?_, ?_⟩
    · obtain rfl : e = e' := Option.some.inj (he.symm.trans he')
      rcases hcontrol with hg | hs
      · rw [hgroup] at hg
        cases hg
      · exact absurd hs hslow
    · cases hp'
      rw [heq, forwardData_blocked hsettled hclean hblocked]
      exact ⟨rfl, Fdb.Sub.refl⟩
    · rw [heq]
      rcases forwardData_confined hsettled hclean p he with
        hnone | ⟨bp, v, hin, hvid, hactive, hconf⟩
      · exact .inl hnone
      · exact .inr ⟨e, bp, v, he, ⟨hin, hvid⟩, hactive, hconf⟩
  · obtain ⟨hnone, hfdb⟩ := hother fun e he hup => by
      by_contra hnot
      rw [not_or, Bool.not_eq_true] at hnot
      exact hdata ⟨e, he, hup, hnot⟩
    exact ⟨fun _ _ _ => hnone, fun _ hp' _ => by cases hp'; exact ⟨hnone, hfdb⟩, .inl hnone⟩

theorem forwardLocal_copies (hsync : b.Synced) (he : parseEth f = some e)
    (hg : untag g = stripped f e) (hpcp : e.pcp = 0) (hv : v.toNat < 4096) :
    b.Copies f e v .cpu (b.forwardLocal v e.dst g) := by
  unfold forwardLocal
  rw [← hpcp]
  split
  · exact Copies.nil
  split
  · exact flood_copies hsync he hg hv .cpu
  split
  · exact Copies.nil
  · rename_i out hne _
    exact egress_copies hsync he hg hv hne
  · exact flood_copies hsync he hg hv .cpu

theorem sendLocal_eq (b : Bridge) (vlan : UInt16) (f : Frame) (now : ℤ) :
    (b.sendLocal vlan f now).2 = [] ∨ ∃ e fdb, parseEth f = some e ∧ isReservedGroup e.dst = false ∧
      (b.settle now).vlanActive vlan = true ∧
      (b.sendLocal vlan f now).2 =
        ({ b.settle now with fdb } : Bridge).forwardLocal vlan e.dst
        (if e.tci.isSome then untag f else f) := by
  unfold sendLocal
  dsimp only
  split
  · exact .inl rfl
  rename_i e he
  split
  · exact .inl rfl
  rename_i hgate
  simp only [Bool.or_eq_true, not_or, Bool.not_eq_true', Bool.not_eq_true,
    Bool.not_eq_false] at hgate
  obtain ⟨⟨-, hactive⟩, hgroup⟩ := hgate
  split
  · exact .inr ⟨e, _, he, hgroup, hactive, rfl⟩
  · exact .inr ⟨e, (b.settle now).fdb, he, hgroup, hactive, rfl⟩

/-- A frame of the switch's own stack. -/
theorem sendLocal_isolates (h : b.Inv) (vlan : UInt16) (now : ℤ)
    (hplain : (Arrival.stack vlan).Plain f) :
    b.Isolates (.stack vlan) f now := by
  have hsettled := h.settle now
  have hsync := hsettled.synced (settle_clean now)
  rcases sendLocal_eq b vlan f now with hnone | ⟨e, fdb, he, hgroup, hactive, hout⟩
  · exact ⟨fun _ _ _ => hnone, fun _ hp _ => (nomatch hp), .inl hnone⟩
  obtain ⟨hslow, htagged⟩ := hplain e he
  have hg : untag (if e.tci.isSome then untag f else f) = stripped f e := by
    split_ifs with htci
    · rw [(htagged htci).2, untag_eq_stripped he]
    · exact untag_eq_stripped he
  have hpcp : e.pcp = 0 := by
    cases htci : e.tci with
    | none => unfold EthInfo.pcp; rw [htci]; rfl
    | some t => exact (htagged (by rw [htci]; rfl)).1
  have hcopies :=
    forwardLocal_copies (b := { b.settle now with fdb }) hsync he hg hpcp (vlan_lt hsettled hactive)
  refine ⟨fun e' he' hcontrol => ?_, fun _ hp _ => (nomatch hp),
    .inr ⟨e, .cpu, vlan, he, ⟨rfl, rfl⟩, hactive, ?_⟩⟩
  · obtain rfl : e = e' := Option.some.inj (he.symm.trans he')
    rcases hcontrol with hg | hs
    · rw [hgroup] at hg
      cases hg
    · exact absurd hs hslow
  · show (b.settle now).Confined f e vlan .cpu (b.sendLocal vlan f now).2
    rw [hout]
    exact hcopies.confined.of_fdb

/-- **Isolation of the data plane.**  In every state that calls lead to which join no err-disabled
port to an aggregate, every frame from a port is forwarded to other ports of its VLAN only, and so
is every frame of the switch's own stack that is no slow protocol and has nothing in its tag that
is lost with it. -/
theorem isolates (portMacs : List MacAddr) (bridgeMac : MacAddr) (start : ℤ) (cs : List Call)
    (a : Arrival) (f : Frame) (now : ℤ) (hcs : RunMeets (.new portMacs bridgeMac start) cs)
    (hplain : a.Plain f) : (cs.foldl call (.new portMacs bridgeMac start)).Isolates a f now := by
  have hinv := run_inv (new_inv portMacs bridgeMac start) hcs
  cases a with
  | port p => exact handleFrame_isolates hinv p now
  | stack vlan => exact sendLocal_isolates hinv vlan now hplain

/-! ## A frame that is not held -/

/-- A bridge with an access port whose link is up, and an interface of its own in the VLAN. -/
def accessCalls : List Call :=
  [.setPortMode (.eth 0) (.access 1), .setSvi 1 (some (⟨10, 0, 0, 1⟩, 24)), .setLink 0 true 0]

/-- A broadcast frame of a type. -/
def broadcastOf (type : UInt16) : Frame :=
  List.replicate 6 0xff ++ [0x02, 0, 0, 0, 0, 7] ++ u16ToBe type ++ List.replicate 46 0

/-- The switch forwards a slow-protocols frame of its own. -/
theorem not_isolates :
    ¬ ∀ (portMacs : List MacAddr) (bridgeMac : MacAddr) (start : ℤ) (cs : List Call) (a : Arrival)
    (f : Frame) (now : ℤ), (cs.foldl call (.new portMacs bridgeMac start)).Isolates a f now := by
  intro h
  have hnone :=
    (h [⟨0x02, 0, 0, 0, 0, 1⟩] ⟨0x02, 0, 0, 0, 0, 9⟩ 0 accessCalls (.stack 1)
    (broadcastOf ethertypeSlow) 5).control
    { dst := ⟨0xff, 0xff, 0xff, 0xff, 0xff, 0xff⟩, src := ⟨0x02, 0, 0, 0, 0, 7⟩, tci := none,
      ethertype := ethertypeSlow, payloadOff := 14 } (by decide) (.inr rfl)
  revert hnone
  decide +kernel

/-- A broadcast with a tag of VLAN 20. -/
def taggedFrame : Frame :=
  List.replicate 6 0xff ++ [2, 0, 0, 0, 0, 7] ++ [0x81, 0, 0, 20, 8, 0] ++ List.replicate 46 0

/-- A port that joins an aggregate with a trunk, and a host port in VLAN 20. -/
def bundledCalls : List Call :=
  [.createLag 1, .setLagMembership 0 (some 1), .setPortMode (.lag 1) (.trunk 1 false .all),
    .setPortMode (.eth 1) (.access 20), .createVlan 20, .setVlanActive 20 true, .setLink 0 true 0,
      .setLink 1 true 0]

/-- A tagged frame from the aggregate leaves on the host port without its tag. -/
theorem isolates_tagged :
    (bundledCalls.foldl call
      (.new [⟨2, 0, 0, 0, 0, 1⟩, ⟨2, 0, 0, 0, 0, 2⟩] ⟨2, 0, 0, 0, 0, 9⟩ 0)).Isolates
      (.port 0) taggedFrame 5 ∧
    ((bundledCalls.foldl call
      (.new [⟨2, 0, 0, 0, 0, 1⟩, ⟨2, 0, 0, 0, 0, 2⟩] ⟨2, 0, 0, 0, 0, 9⟩ 0)).takeIn
      (.port 0) taggedFrame 5).2 = [.tx 1 (broadcastOf ethertypeIpv4)] := by
  refine ⟨isolates [⟨2, 0, 0, 0, 0, 1⟩, ⟨2, 0, 0, 0, 0, 2⟩] ⟨2, 0, 0, 0, 0, 9⟩ 0 bundledCalls
    (.port 0) taggedFrame 5
    ⟨trivial, fun _ => by decide +kernel, trivial, trivial, trivial, trivial, trivial, trivial,
      trivial⟩ trivial, ?_⟩
  decide +kernel

end EvansComputer.Switch.Bridge
