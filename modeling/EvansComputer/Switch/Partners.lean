import EvansComputer.Switch.Isolation

/-!
# A LAG has one partner

Received frames overwrite what a member knows of its partner before anyone decides whether the
member still belongs with the others, and reconfiguration resets only some members.  What makes
up for it is that the machines run again after each: a run goes over the members three times
(who has heard of whom, who is selected, who may collect and distribute), and after it no member
distributes that is not selected, and all selected members of an aggregate have one partner.

What a member took from its last frame stays true between runs, since a change of the port's own
identity resets the member.
-/

namespace EvansComputer.Switch

variable {id : UInt16}

/-- A partner that a port could aggregate with: heard of, willing, and someone else. -/
def LacpPort.HasPartner (lp : LacpPort) (own : MacAddr) : Prop :=
  (lp.rx = .current ∨ lp.rx = .expired) ∧ lp.partner.state &&& stAggregation ≠ 0 ∧
    lp.partner.system ≠ own ∧ lp.partner.system ≠ .zero

/-- What a port has heard, whatever was decided about it. -/
def LacpPort.heard (lp : LacpPort) : LacpPort :=
  { lp with selected := false, mux := .detached, waitUntil := 0 }

/-! ## The machines of one port -/

section Port

variable {lp : LacpPort} {enabled : Bool} {now : ℤ}

/-- What the receive machine can make of a port: nothing is new to it, it is reset, or what it
last heard is out of date. -/
theorem LacpPort.runRx_cases (lp : LacpPort) (enabled : Bool) (now : ℤ) :
    (enabled = false ∧ lp.rx = .disabled ∧ lp.mux = .detached ∧ lp.runRx enabled now = lp) ∨
    (enabled = false ∧ lp.runRx enabled now = {}) ∨
    (enabled = true ∧ (lp.rx = .current → now < lp.currentUntil) ∧ lp.runRx enabled now = lp) ∨
    (enabled = true ∧ (lp.runRx enabled now).rx ≠ .current ∧
      (lp.runRx enabled now).partnerSync = false) := by
  unfold runRx
  dsimp only
  cases enabled with
  | false =>
    rw [if_pos (show (!false) = true from rfl)]
    split_ifs with hon
    · exact .inr (.inl ⟨rfl, rfl⟩)
    · rw [not_or, not_not, not_not] at hon
      exact .inl ⟨rfl, hon.1, hon.2, rfl⟩
  | true =>
    rw [if_neg (show ¬(!true) = true by decide)]
    right; right
    by_cases hdis : lp.rx = .disabled
    · rw [if_pos hdis]
      exact .inr ⟨rfl, nofun, rfl⟩
    rw [if_neg hdis]
    by_cases hlate : now ≥ lp.currentUntil
    · rw [if_pos hlate]
      split
      · exact .inr ⟨rfl, nofun, rfl⟩
      · exact .inr ⟨rfl, nofun, rfl⟩
      · rename_i hcur _
        exact .inl ⟨rfl, fun h => absurd h hcur, rfl⟩
    · rw [if_neg hlate]
      exact .inl ⟨rfl, fun _ => not_le.mp hlate, rfl⟩

theorem LacpPort.runRx_off (lp : LacpPort) (now : ℤ) (h : enabled = false) :
    (lp.runRx enabled now).rx = .disabled ∧ (lp.runRx enabled now).mux = .detached := by
  rcases runRx_cases lp enabled now with
    ⟨-, hrx, hmux, heq⟩ | ⟨-, heq⟩ | ⟨hon, -⟩ | ⟨hon, -⟩
  · rw [heq]
    exact ⟨hrx, hmux⟩
  · rw [heq]
    exact ⟨rfl, rfl⟩
  · cases h.symm.trans hon
  · cases h.symm.trans hon

theorem LacpPort.runRx_of_partnerSync (h : (lp.runRx enabled now).partnerSync = true) :
    lp.runRx enabled now = lp := by
  rcases runRx_cases lp enabled now with
    ⟨-, -, -, heq⟩ | ⟨-, heq⟩ | ⟨-, -, heq⟩ | ⟨-, -, hsync⟩
  · exact heq
  · rw [heq] at h
    cases h
  · exact heq
  · cases hsync.symm.trans h

theorem LacpPort.lt_of_runRx_current (h : (lp.runRx enabled now).rx = .current) :
    now < (lp.runRx enabled now).currentUntil := by
  rcases runRx_cases lp enabled now with
    ⟨-, hrx, -, heq⟩ | ⟨-, heq⟩ | ⟨-, htime, heq⟩ | ⟨-, hrx, -⟩
  · rw [heq, hrx] at h
    cases h
  · rw [heq] at h
    cases h
  · rw [heq] at h ⊢
    exact htime h
  · exact absurd h hrx

theorem LacpPort.runMux_eq (lp : LacpPort) (now : ℤ) :
    ∃ mux waitUntil, lp.runMux now = { lp with mux, waitUntil } := by
  unfold runMux
  split
  · split
    · exact ⟨_, _, rfl⟩
    · exact ⟨lp.mux, lp.waitUntil, rfl⟩
  · split_ifs
    · exact ⟨_, lp.waitUntil, rfl⟩
    · exact ⟨_, lp.waitUntil, rfl⟩
    · exact ⟨lp.mux, lp.waitUntil, rfl⟩
  · split_ifs
    · exact ⟨_, lp.waitUntil, rfl⟩
    · exact ⟨_, lp.waitUntil, rfl⟩
    · exact ⟨lp.mux, lp.waitUntil, rfl⟩
  · split
    · exact ⟨_, lp.waitUntil, rfl⟩
    · exact ⟨lp.mux, lp.waitUntil, rfl⟩

/-- Only a selected member whose partner is in sync collects and distributes. -/
theorem LacpPort.runMux_distributing (h : (lp.runMux now).mux = .collectingDistributing) :
    lp.selected = true ∧ lp.partnerSync = true := by
  unfold runMux at h
  split at h
  · rename_i hmux
    split at h
    · cases h
    · rw [hmux] at h
      cases h
  · rename_i hmux
    split_ifs at h
    · rw [hmux] at h
      cases h
  · rename_i hmux
    split_ifs at h with hsel hsync
    · exact ⟨by simpa using hsel, hsync⟩
    · rw [hmux] at h
      cases h
  · split at h
    · split at h <;> cases h
    · rename_i hboth
      simpa using hboth

end Port

namespace Bridge

variable {b b' : Bridge} {p : ℕ} {now : ℤ}

/-! ## Members -/

/-- What link aggregation knows of a physical port. -/
def lacpAt (b : Bridge) (p : ℕ) : LacpPort := ((b.ports[p]?).map (·.lacp)).getD {}

theorem lacpAt_of_getElem? {ep : EthPort} (h : b.ports[p]? = some ep) : b.lacpAt p = ep.lacp := by
  unfold lacpAt
  rw [h]
  rfl

theorem lacpAt_congr (h : b'.ports = b.ports) (p : ℕ) : b'.lacpAt p = b.lacpAt p := by
  unfold lacpAt
  rw [h]

theorem lacpAt_modifyLacp (q : ℕ) (f : LacpPort → LacpPort) (hp : p < b.ports.length) :
    (b.modifyLacp q f).lacpAt p = if q = p then f (b.lacpAt p) else b.lacpAt p := by
  show (((b.ports.modify q fun ep => { ep with lacp := f ep.lacp })[p]?).map (·.lacp)).getD {} = _
  rw [List.getElem?_modify, List.getElem?_eq_getElem hp]
  rw [lacpAt_of_getElem? (List.getElem?_eq_getElem hp)]
  split_ifs with hq
  · rfl
  · rfl

section

variable (h : b'.withoutLacp = b.withoutLacp)
include h

theorem length_ports_of_withoutLacp : b'.ports.length = b.ports.length := by
  have hports : b'.ports.map EthPort.withoutLacp = b.ports.map EthPort.withoutLacp :=
    (congrArg Bridge.ports h :)
  simpa using congrArg List.length hports

theorem getElem?_ports_of_withoutLacp (p : ℕ) :
    (b'.ports[p]?).map EthPort.withoutLacp = (b.ports[p]?).map EthPort.withoutLacp := by
  have hports : b'.ports.map EthPort.withoutLacp = b.ports.map EthPort.withoutLacp :=
    (congrArg Bridge.ports h :)
  rw [← List.getElem?_map, hports, List.getElem?_map]

theorem getElem?_lags_of_withoutLacp (id : UInt16) :
    (b'.lags[id]?).map Lag.withoutLacp = (b.lags[id]?).map Lag.withoutLacp := by
  have hlags := (congrArg (fun c : Bridge => c.lags[id]?) h :)
  unfold withoutLacp at hlags
  dsimp only at hlags
  rwa [Std.ExtTreeMap.getElem?_map, Std.ExtTreeMap.getElem?_map] at hlags

theorem lacpEnabledOn_congr (p : ℕ) : b'.lacpEnabledOn p = b.lacpEnabledOn p := by
  have hmask : ∀ b : Bridge, b.lacpEnabledOn p = b.withoutLacp.lacpEnabledOn p := by
    intro b
    unfold lacpEnabledOn withoutLacp
    dsimp only
    rw [List.getElem?_map]
    cases b.ports[p]? with
    | none => rfl
    | some ep =>
      show (ep.cfg.lag.bind _) = (ep.cfg.lag.bind _)
      cases ep.cfg.lag with
      | none => rfl
      | some id =>
        show (b.lags[id]?.bind _) = ((b.lags.map _)[id]?.bind _)
        rw [Std.ExtTreeMap.getElem?_map]
        cases b.lags[id]? <;> rfl
  rw [hmask b', hmask b, h]

theorem lagMembers_congr (id : UInt16) : b'.lagMembers id = b.lagMembers id := by
  unfold lagMembers
  rw [length_ports_of_withoutLacp h]
  refine List.filter_congr fun m _ => ?_
  have hany : ∀ o : Option EthPort, o.any (fun ep => decide (ep.cfg.lag = some id)) =
      (o.map EthPort.withoutLacp).any fun ep => decide (ep.cfg.lag = some id) := by
    intro o
    cases o <;> rfl
  rw [hany b'.ports[m]?, hany b.ports[m]?, getElem?_ports_of_withoutLacp h]

end

theorem mem_lagMembers {m : ℕ} :
    m ∈ b.lagMembers id ↔ ∃ ep, b.ports[m]? = some ep ∧ ep.cfg.lag = some id := by
  unfold lagMembers
  rw [List.mem_filter, List.mem_range]
  constructor
  · rintro ⟨-, hany⟩
    obtain ⟨ep, hep, hlag⟩ := Option.any_eq_true _ _ |>.mp hany
    exact ⟨ep, hep, of_decide_eq_true hlag⟩
  · rintro ⟨ep, hep, hlag⟩
    refine ⟨(List.getElem?_eq_some_iff.mp hep).1, ?_⟩
    rw [hep]
    exact decide_eq_true hlag

theorem nodup_lagMembers (id : UInt16) : (b.lagMembers id).Nodup := List.nodup_range.filter _

theorem lt_of_mem_lagMembers {m : ℕ} (h : m ∈ b.lagMembers id) : m < b.ports.length := by
  obtain ⟨ep, hep, -⟩ := mem_lagMembers.mp h
  exact (List.getElem?_eq_some_iff.mp hep).1

/-- A port is changed once on the way along a list of ports. -/
theorem lacpAt_foldl {g : Bridge → ℕ → LacpPort → LacpPort}
    (hg : ∀ b b' : Bridge, b'.withoutLacp = b.withoutLacp → g b' = g b) {l : List ℕ} (hl : l.Nodup)
    (hp : p < b.ports.length) :
    (l.foldl (fun b q => b.modifyLacp q (g b q)) b).lacpAt p = if p ∈ l then g b p (b.lacpAt p)
      else b.lacpAt p := by
  induction l generalizing b with
  | nil => rw [if_neg List.not_mem_nil]; rfl
  | cons q l ih =>
    obtain ⟨hq, hl⟩ := List.nodup_cons.mp hl
    have hmask := modifyLacp_withoutLacp (b := b) q (g b q)
    rw [List.foldl_cons, ih hl (by rwa [length_ports_of_withoutLacp hmask]), hg _ _ hmask,
      lacpAt_modifyLacp q (g b q) hp]
    by_cases heq : q = p
    · subst heq
      rw [if_neg hq, if_pos rfl, if_pos List.mem_cons_self]
    · rw [if_neg heq]
      simp only [List.mem_cons, Ne.symm heq, false_or]

theorem lacpAt_of_length_le (h : b.ports.length ≤ p) : b.lacpAt p = {} := by
  unfold lacpAt
  rw [List.getElem?_eq_none h]
  rfl

theorem map_lacpAt_modifyLacp {α : Type*} {k : LacpPort → α} {f : LacpPort → LacpPort}
    (hf : ∀ lp, k (f lp) = k lp) (q : ℕ) : k ((b.modifyLacp q f).lacpAt p) = k (b.lacpAt p) := by
  rcases lt_or_ge p b.ports.length with hp | hp
  · rw [lacpAt_modifyLacp q f hp]
    split_ifs
    · exact hf _
    · rfl
  · have hlength := length_ports_of_withoutLacp (modifyLacp_withoutLacp (b := b) q f)
    rw [lacpAt_of_length_le hp, lacpAt_of_length_le (by rwa [hlength])]

/-- A step that only decides: what each member has heard is as before. -/
structure Decides (b b' : Bridge) : Prop where
  mask : b'.withoutLacp = b.withoutLacp
  heard (p : ℕ) : (b'.lacpAt p).heard = (b.lacpAt p).heard

theorem Decides.refl (b : Bridge) : Decides b b := ⟨rfl, fun _ => rfl⟩

theorem Decides.trans {b'' : Bridge} (h : Decides b b') (h' : Decides b' b'') : Decides b b'' :=
  ⟨h'.mask.trans h.mask, fun p => (h'.heard p).trans (h.heard p)⟩

theorem Decides.foldl {g : Bridge → ℕ → LacpPort → LacpPort}
    (hg : ∀ b p lp, (g b p lp).heard = lp.heard) (l : List ℕ) (b : Bridge) :
    Decides b (l.foldl (fun b q => b.modifyLacp q (g b q)) b) where
  mask := foldl_keeps (fun b q => modifyLacp_withoutLacp q (g b q)) l b
  heard p := foldl_keeps (g := fun b : Bridge => (b.lacpAt p).heard)
    (fun b q => map_lacpAt_modifyLacp (hg b q) q) l b

/-- A member that could be aggregated. -/
def Usable (b : Bridge) (m : ℕ) : Prop :=
  (b.lacpEnabledOn m).isSome = true ∧ (b.lacpAt m).HasPartner b.bridgeMac

theorem Decides.usable_iff (h : Decides b b') (m : ℕ) : b'.Usable m ↔ b.Usable m := by
  have hmac : b'.bridgeMac = b.bridgeMac := (congrArg Bridge.bridgeMac h.mask :)
  show _ ∧ (b'.lacpAt m).heard.HasPartner b'.bridgeMac ↔ _
  rw [lacpEnabledOn_congr h.mask, h.heard, hmac]
  rfl

theorem Decides.groupKey (h : Decides b b') (m : ℕ) :
    (b'.lacpAt m).groupKey = (b.lacpAt m).groupKey :=
  (congrArg LacpPort.groupKey (h.heard m) :)

theorem mem_lacpEligible {ms : List ℕ} {x : ℕ × UInt16 × MacAddr × UInt16} :
    x ∈ b.lacpEligible ms ↔ x.1 ∈ ms ∧ b.Usable x.1 ∧ x.2 = (b.lacpAt x.1).groupKey := by
  unfold lacpEligible
  rw [List.mem_filterMap]
  constructor
  · rintro ⟨m, hm, heq⟩
    obtain ⟨ep, hep, heq⟩ := Option.bind_eq_some_iff.mp heq
    dsimp only at heq
    split_ifs at heq with hok
    cases heq
    simp only [Bool.and_eq_true, Bool.or_eq_true, decide_eq_true_eq] at hok
    obtain ⟨⟨⟨⟨hon, hrx⟩, hagg⟩, hown⟩, hzero⟩ := hok
    refine ⟨hm, ⟨hon, ?_⟩, ?_⟩
    · rw [lacpAt_of_getElem? hep]
      exact ⟨hrx, hagg, hown, hzero⟩
    · rw [lacpAt_of_getElem? hep]
  · obtain ⟨m, key⟩ := x
    rintro ⟨hm, ⟨hon, hhas⟩, hkey⟩
    dsimp only at hm hon hhas hkey
    subst hkey
    refine ⟨m, hm, ?_⟩
    have hport : ∃ ep, b.ports[m]? = some ep := by
      obtain ⟨y, hy⟩ := Option.isSome_iff_exists.mp hon
      obtain ⟨ep, hep, -⟩ := Option.bind_eq_some_iff.mp hy
      exact ⟨ep, hep⟩
    obtain ⟨ep, hep⟩ := hport
    rw [lacpAt_of_getElem? hep] at hhas ⊢
    obtain ⟨hrx, hagg, hown, hzero⟩ := hhas
    rw [hep]
    refine if_pos ?_
    simp only [Bool.and_eq_true, Bool.or_eq_true, decide_eq_true_eq]
    exact ⟨⟨⟨⟨hon, hrx⟩, hagg⟩, hown⟩, hzero⟩

/-- **What selection is for.**  The selected members of an aggregate could all be aggregated with
one partner, and one member goes without a partner only where none has any. -/
def OneGroup (b : Bridge) (id : UInt16) : Prop :=
  ∀ l, b.lags[id]? = some l → l.cfg.lacpMode ≠ .off →
    (∃ g, ∀ m ∈ b.lagMembers id, (b.lacpAt m).selected = true → b.Usable m ∧
      (b.lacpAt m).groupKey = g) ∧
      ∀ m, l.fallbackMember = some m → ∀ k ∈ b.lagMembers id, ¬ b.Usable k

/-- What selection says of one member. -/
def selects (b : Bridge) (id : UInt16) (m : ℕ) : Bool :=
  (b.lacpEligible (b.lagMembers id)).any fun x =>
    x.1 = m && some x.2 = b.lacpChosen (b.lacpEligible (b.lagMembers id))

/-- The members of an aggregate after selection. -/
def selectMembers (b : Bridge) (id : UInt16) : Bridge :=
  (b.lagMembers id).foldl
    (fun c m => c.modifyLacp m fun lp => { lp with selected := b.selects id m }) b

theorem selectMembers_decides (b : Bridge) (id : UInt16) : Decides b (b.selectMembers id) :=
  Decides.foldl (g := fun _ m lp => { lp with selected := b.selects id m }) (fun _ _ _ => rfl)
    (b.lagMembers id) b

theorem lacpAt_selectMembers (id : UInt16) (hp : p < b.ports.length) :
    (b.selectMembers id).lacpAt p =
      if p ∈ b.lagMembers id then { b.lacpAt p with selected := b.selects id p } else b.lacpAt p :=
  lacpAt_foldl (g := fun _ m lp => { lp with selected := b.selects id m }) (fun _ _ _ => rfl)
    (nodup_lagMembers id) hp

theorem exists_group_of_selects (id : UInt16) :
    ∃ g, ∀ m, b.selects id m = true → b.Usable m ∧ (b.lacpAt m).groupKey = g := by
  refine ⟨(b.lacpChosen (b.lacpEligible (b.lagMembers id))).getD (0, .zero, 0), fun m hm => ?_⟩
  obtain ⟨x, hx, hsel⟩ := List.any_eq_true.mp hm
  rw [Bool.and_eq_true, decide_eq_true_eq, decide_eq_true_eq] at hsel
  obtain ⟨rfl, hchosen⟩ := hsel
  obtain ⟨-, husable, hkey⟩ := mem_lacpEligible.mp hx
  rw [← hchosen]
  exact ⟨husable, hkey.symm⟩

/-- What selection does to the state: the members, and the one that goes without a partner. -/
theorem lacpSelect_eq (id : UInt16) :
    (∃ l, b.lags[id]? = some l ∧ l.cfg.lacpMode ≠ .off ∧ ∃ fb : Option ℕ,
      (fb.isSome = true → (b.lacpEligible (b.lagMembers id)).isEmpty = true) ∧
        b.lacpSelect id = (b.selectMembers id).modifyLag id fun l =>
          { l with fallbackMember := fb }) ∨
    ((∀ l, b.lags[id]? = some l → l.cfg.lacpMode = .off) ∧
      ∃ lags, b.lacpSelect id = { b with lags } ∧ ∀ id', id' ≠ id → lags[id']? = b.lags[id']?) := by
  unfold lacpSelect
  split
  · rename_i hnone
    refine .inr ⟨fun l hl => ?_, b.lags, rfl, fun _ _ => rfl⟩
    rw [hnone] at hl
    cases hl
  · rename_i l hl
    split
    · rename_i hoff
      refine .inr ⟨fun l' hl' => ?_, _, rfl, fun id' hne => ?_⟩
      · rw [hl] at hl'
        cases hl'
        exact hoff
      · rw [OrderedMap.getElem?_modify', if_neg hne.symm]
    · rename_i hon
      refine .inl ⟨l, hl, hon, _, fun hfb => ?_, rfl⟩
      split at hfb
      · rename_i hconds
        exact (Bool.and_eq_true_iff.mp (Bool.and_eq_true_iff.mp hconds).1).2
      · cases hfb

theorem Decides.of_ports {c : Bridge} (h : Decides b b') (hmask : c.withoutLacp = b'.withoutLacp)
    (hports : c.ports = b'.ports) : Decides b c where
  mask := hmask.trans h.mask
  heard p := by
    rw [lacpAt_congr hports]
    exact h.heard p

theorem lacpSelect_decides (b : Bridge) (id : UInt16) : Decides b (b.lacpSelect id) := by
  have hmask := lacpSelect_withoutLacp b id
  rcases lacpSelect_eq (b := b) id with ⟨-, -, -, fb, -, heq⟩ | ⟨-, lags, heq, -⟩
  · rw [heq]
    exact (selectMembers_decides b id).of_ports (setFallback_withoutLacp id fb) rfl
  · rw [heq] at hmask ⊢
    exact (Decides.refl b).of_ports hmask rfl

theorem lacpSelect_other {id' : UInt16} (h : id' ≠ id) :
    (b.lacpSelect id).lags[id']? = b.lags[id']? ∧ ∀ m ∈ b.lagMembers id',
    (b.lacpSelect id).lacpAt m = b.lacpAt m := by
  rcases lacpSelect_eq (b := b) id with ⟨l, hl, -, fb, -, heq⟩ | ⟨-, lags, heq, hlags⟩
  · rw [heq]
    constructor
    · show (((b.selectMembers id).lags.modify id _)[id']?) = _
      have hlags : (b.selectMembers id).lags = b.lags := by
        unfold selectMembers
        refine foldl_keeps (g := Bridge.lags) (fun c m => ?_) (b.lagMembers id) b
        rfl
      rw [OrderedMap.getElem?_modify', if_neg h.symm, hlags]
    · intro m hm
      refine (lacpAt_selectMembers id (lt_of_mem_lagMembers hm)).trans (if_neg fun hm' => h ?_)
      obtain ⟨ep, hep, hlag⟩ := mem_lagMembers.mp hm
      obtain ⟨ep', hep', hlag'⟩ := mem_lagMembers.mp hm'
      cases hep.symm.trans hep'
      exact Option.some_inj.mp (hlag.symm.trans hlag')
  · rw [heq]
    exact ⟨hlags id' h, fun m _ => lacpAt_congr rfl m⟩

theorem oneGroup_lacpSelect (b : Bridge) (id : UInt16) : (b.lacpSelect id).OneGroup id := by
  have hdecides := lacpSelect_decides b id
  intro l hl hon
  have hmembers := lagMembers_congr hdecides.mask id
  rcases lacpSelect_eq (b := b) id with ⟨-, -, -, fb, hfb, heq⟩ | ⟨hoff, lags, heq, -⟩
  · constructor
    · obtain ⟨g, hg⟩ := exists_group_of_selects (b := b) id
      refine ⟨g, fun m hm hsel => ?_⟩
      rw [hmembers] at hm
      rw [hdecides.usable_iff, hdecides.groupKey]
      refine hg m ?_
      have hat : (b.lacpSelect id).lacpAt m = { b.lacpAt m with selected := b.selects id m } := by
        rw [heq]
        exact (lacpAt_selectMembers id (lt_of_mem_lagMembers hm)).trans (if_pos hm)
      rw [hat] at hsel
      exact hsel
    · intro m hm k hk husable
      rw [hmembers] at hk
      rw [hdecides.usable_iff] at husable
      have hsome : fb = some m := by
        rw [heq] at hl
        have hat :
          (((b.selectMembers id).lags.modify id fun l => { l with fallbackMember := fb })[id]?) =
          some l := hl
        rw [OrderedMap.getElem?_modify', if_pos rfl] at hat
        obtain ⟨l₀, -, rfl⟩ := Option.map_eq_some_iff.mp hat
        exact hm
      have hempty := List.isEmpty_iff.mp (hfb (by rw [hsome]; rfl))
      have hmem : (k, (b.lacpAt k).groupKey) ∈ b.lacpEligible (b.lagMembers id) :=
        mem_lacpEligible.mpr ⟨hk, husable, rfl⟩
      rw [hempty] at hmem
      exact absurd hmem List.not_mem_nil
  · have hback := getElem?_lags_of_withoutLacp hdecides.mask id
    rw [hl] at hback
    obtain ⟨l₀, hl₀, hcfg⟩ := Option.map_eq_some_iff.mp hback.symm
    have hmode : l.cfg.lacpMode = l₀.cfg.lacpMode :=
      (congrArg (fun l : Lag => l.cfg.lacpMode) hcfg :).symm
    exact absurd (hmode.trans (hoff l₀ hl₀)) hon

theorem OneGroup.lacpSelect {id' : UInt16} (h : b.OneGroup id') :
    (b.lacpSelect id).OneGroup id' := by
  by_cases hid : id' = id
  · subst hid
    exact oneGroup_lacpSelect b id'
  have hdecides := lacpSelect_decides b id
  obtain ⟨hlags, hsame⟩ := lacpSelect_other (b := b) hid
  intro l hl hon
  rw [hlags] at hl
  obtain ⟨⟨g, hg⟩, halone⟩ := h l hl hon
  rw [lagMembers_congr hdecides.mask]
  constructor
  · refine ⟨g, fun m hm hsel => ?_⟩
    rw [hsame m hm] at hsel ⊢
    rw [hdecides.usable_iff]
    exact hg m hm hsel
  · intro m hm k hk husable
    exact halone m hm k hk ((hdecides.usable_iff k).mp husable)

theorem oneGroup_foldl_lacpSelect (l : List UInt16) (id : UInt16) (h : id ∈ l ∨ b.OneGroup id) :
    (l.foldl Bridge.lacpSelect b).OneGroup id := by
  induction l generalizing b with
  | nil => exact h.resolve_left List.not_mem_nil
  | cons x l ih =>
    refine ih ?_
    rcases h with hmem | hone
    · rcases List.mem_cons.mp hmem with rfl | hmem
      · exact .inr (oneGroup_lacpSelect b id)
      · exact .inl hmem
    · exact .inr hone.lacpSelect

/-! ## A run -/

/-- The receive machines of all ports. -/
def runReceive (b : Bridge) (now : ℤ) : Bridge :=
  (List.range b.ports.length).foldl
    (fun b p => b.modifyLacp p (·.runRx (b.lacpEnabledOn p).isSome now)) b

/-- The selection of all aggregates. -/
def runSelection (b : Bridge) : Bridge := b.lags.keys.foldl lacpSelect b

/-- The mux of each of some ports. -/
def runMuxes (b : Bridge) (ps : List ℕ) (now : ℤ) : Bridge :=
  ps.foldl
    (fun b p => b.modifyLacp p fun lp => if (b.lacpEnabledOn p).isSome then lp.runMux now else lp) b

theorem modifyLacp_self (p : ℕ) : (b.modifyLacp p fun lp => lp) = b := by
  have hports : (b.ports.modify p fun ep => ep) = b.ports := List.modify_id p b.ports
  show { b with ports := b.ports.modify p fun ep => ep } = b
  rw [hports]

theorem lacpRun_eq (b : Bridge) (now : ℤ) :
    b.lacpRun now = ((b.runReceive now).runSelection).runMuxes (List.range b.ports.length) now := by
  unfold lacpRun runMuxes
  dsimp only
  refine congrArg
    (fun f => List.foldl f (b.runReceive now).runSelection (List.range b.ports.length)) ?_
  funext c p
  split_ifs
  · rfl
  · exact (modifyLacp_self p).symm

theorem runReceive_withoutLacp : (b.runReceive now).withoutLacp = b.withoutLacp :=
  foldl_keeps (fun _ p => modifyLacp_withoutLacp p _) _ b

theorem lacpAt_runReceive (hp : p < b.ports.length) :
    (b.runReceive now).lacpAt p = (b.lacpAt p).runRx (b.lacpEnabledOn p).isSome now := by
  refine (lacpAt_foldl (g := fun b p lp => lp.runRx (b.lacpEnabledOn p).isSome now)
    (fun _ _ h => ?_)
    List.nodup_range hp).trans (if_pos (List.mem_range.mpr hp))
  funext q
  rw [lacpEnabledOn_congr h]

theorem runSelection_decides : Decides b b.runSelection := by
  unfold runSelection
  generalize b.lags.keys = l
  induction l generalizing b with
  | nil => exact Decides.refl b
  | cons id l ih => exact (lacpSelect_decides b id).trans ih

theorem mux_runSelection : (b.runSelection.lacpAt p).mux = (b.lacpAt p).mux := by
  refine foldl_keeps (g := fun b : Bridge => (b.lacpAt p).mux) (fun b id => ?_) _ b
  have hmembers : ((b.selectMembers id).lacpAt p).mux = (b.lacpAt p).mux := by
    refine foldl_keeps (g := fun b : Bridge => (b.lacpAt p).mux) (fun c m => ?_) (b.lagMembers id) b
    exact map_lacpAt_modifyLacp (k := LacpPort.mux)
      (f := fun lp => { lp with selected := b.selects id m })
      (fun _ => rfl) m
  rcases lacpSelect_eq (b := b) id with ⟨-, -, -, fb, -, heq⟩ | ⟨-, lags, heq, -⟩
  · rw [heq]
    exact hmembers
  · rw [heq]
    rfl

theorem oneGroup_runSelection (id : UInt16) : b.runSelection.OneGroup id := by
  refine oneGroup_foldl_lacpSelect _ id ?_
  by_cases hmem : id ∈ b.lags.keys
  · exact .inl hmem
  · refine .inr fun l hl => absurd (Std.ExtTreeMap.mem_keys.mpr ?_) hmem
    rw [Std.ExtTreeMap.mem_iff_isSome_getElem?, hl]
    rfl

theorem runMux_congr {b b' : Bridge} (h : b'.withoutLacp = b.withoutLacp) :
    (fun (p : ℕ) (lp : LacpPort) => if (b'.lacpEnabledOn p).isSome then lp.runMux now else lp) =
      fun p lp => if (b.lacpEnabledOn p).isSome then lp.runMux now else lp := by
  funext p
  rw [lacpEnabledOn_congr h]

theorem runMuxes_decides (ps : List ℕ) : Decides b (b.runMuxes ps now) := by
  refine Decides.foldl (g := fun b p lp => if (b.lacpEnabledOn p).isSome then lp.runMux now else lp)
    (fun _ _ lp => ?_) ps b
  obtain ⟨mux, waitUntil, heq⟩ := lp.runMux_eq now
  split_ifs
  · rw [heq]
    rfl
  · rfl

theorem selected_runMuxes (ps : List ℕ) :
    ((b.runMuxes ps now).lacpAt p).selected = (b.lacpAt p).selected := by
  refine foldl_keeps (g := fun b : Bridge => (b.lacpAt p).selected) (fun b q => ?_) ps b
  refine map_lacpAt_modifyLacp (k := LacpPort.selected) (fun lp => ?_) q
  obtain ⟨mux, waitUntil, heq⟩ := lp.runMux_eq now
  split_ifs
  · rw [heq]
  · rfl

theorem lacpAt_runMuxes {ps : List ℕ} (hps : ps.Nodup) (hp : p < b.ports.length) :
    (b.runMuxes ps now).lacpAt p =
      if p ∈ ps then if (b.lacpEnabledOn p).isSome then (b.lacpAt p).runMux now else b.lacpAt p
        else b.lacpAt p :=
  lacpAt_foldl (g := fun b p lp => if (b.lacpEnabledOn p).isSome then lp.runMux now else lp)
    (fun _ _ h => runMux_congr h) hps hp

theorem OneGroup.of_selected (h : b.OneGroup id) (hdecides : Decides b b')
    (hselected : ∀ p, (b'.lacpAt p).selected = (b.lacpAt p).selected) (hlags : b'.lags = b.lags) :
    b'.OneGroup id := by
  intro l hl hon
  rw [hlags] at hl
  obtain ⟨⟨g, hg⟩, halone⟩ := h l hl hon
  rw [lagMembers_congr hdecides.mask]
  constructor
  · refine ⟨g, fun m hm hsel => ?_⟩
    rw [hselected] at hsel
    rw [hdecides.usable_iff, hdecides.groupKey]
    exact hg m hm hsel
  · intro m hm k hk husable
    exact halone m hm k hk ((hdecides.usable_iff k).mp husable)

/-- What holds after the machines ran at the time `t`. -/
structure Aligned (b : Bridge) (t : ℤ) : Prop where
  off (p : ℕ) : b.lacpEnabledOn p = none → (b.lacpAt p).rx = .disabled ∧
    (b.lacpAt p).mux = .detached
  distributing (p : ℕ) : (b.lacpAt p).mux = .collectingDistributing →
    (b.lacpAt p).selected = true ∧ (b.lacpAt p).partnerSync = true
  timely (p : ℕ) : (b.lacpAt p).rx = .current → t < (b.lacpAt p).currentUntil
  group (id : UInt16) : b.OneGroup id

theorem lags_runMuxes (ps : List ℕ) : (b.runMuxes ps now).lags = b.lags := by
  unfold runMuxes
  refine foldl_keeps (g := Bridge.lags) (fun c m => ?_) ps b
  rfl

theorem lacpRun_heard (b : Bridge) (now : ℤ) (p : ℕ) :
    ((b.lacpRun now).lacpAt p).heard = ((b.runReceive now).lacpAt p).heard := by
  rw [lacpRun_eq]
  exact (runSelection_decides.trans (runMuxes_decides _)).heard p

/-- Who hears its partner in sync after a run has heard it before. -/
theorem lacpRun_of_partnerSync (h : ((b.lacpRun now).lacpAt p).partnerSync = true) :
    ((b.lacpRun now).lacpAt p).heard = (b.lacpAt p).heard := by
  have hheard := lacpRun_heard b now p
  rcases lt_or_ge p b.ports.length with hp | hp
  · rw [lacpAt_runReceive hp] at hheard
    have hsync : ((b.lacpAt p).runRx (b.lacpEnabledOn p).isSome now).partnerSync = true :=
      (congrArg LacpPort.partnerSync hheard :).symm.trans h
    rw [hheard, LacpPort.runRx_of_partnerSync hsync]
  · rw [lacpAt_of_length_le (by rwa [length_ports_of_withoutLacp (lacpRun_withoutLacp now)])] at h
    cases h

/-- **After a run no member distributes out of line**, and each aggregate has one group. -/
theorem lacpRun_aligned (b : Bridge) (now : ℤ) : (b.lacpRun now).Aligned now := by
  have hmask : (b.lacpRun now).withoutLacp = b.withoutLacp := lacpRun_withoutLacp now
  have hrange : (List.range b.ports.length).Nodup := List.nodup_range
  have hselmask : (b.runReceive now).runSelection.withoutLacp = b.withoutLacp :=
    runSelection_decides.mask.trans runReceive_withoutLacp
  have hout (p : ℕ) (hp : b.ports.length ≤ p) : (b.lacpRun now).lacpAt p = {} :=
    lacpAt_of_length_le (by rwa [length_ports_of_withoutLacp hmask])
  -- what the mux makes of a port that is there
  have hmux (p : ℕ) (hp : p < b.ports.length) : (b.lacpRun now).lacpAt p =
      if (b.lacpEnabledOn p).isSome then ((b.runReceive now).runSelection.lacpAt p).runMux now
      else (b.runReceive now).runSelection.lacpAt p := by
    rw [lacpRun_eq, lacpAt_runMuxes hrange (by rwa [length_ports_of_withoutLacp hselmask]),
      if_pos (List.mem_range.mpr hp), lacpEnabledOn_congr hselmask]
  have hoff (p : ℕ) (hnone : b.lacpEnabledOn p = none) :
      ((b.lacpRun now).lacpAt p).rx = .disabled ∧ ((b.lacpRun now).lacpAt p).mux = .detached := by
    rcases lt_or_ge p b.ports.length with hp | hp
    · have hrx := lacpRun_heard b now p
      rw [lacpAt_runReceive hp] at hrx
      have hdone := LacpPort.runRx_off (b.lacpAt p) now (congrArg Option.isSome hnone)
      refine ⟨(congrArg LacpPort.rx hrx :).trans hdone.1, ?_⟩
      rw [hmux p hp, hnone, if_neg (by decide), mux_runSelection, lacpAt_runReceive hp]
      exact hdone.2
    · rw [hout p hp]
      exact ⟨rfl, rfl⟩
  constructor
  · intro p hnone
    rw [lacpEnabledOn_congr hmask] at hnone
    exact hoff p hnone
  · intro p hcd
    cases hon : b.lacpEnabledOn p with
    | none =>
      rw [(hoff p hon).2] at hcd
      cases hcd
    | some x =>
      rcases lt_or_ge p b.ports.length with hp | hp
      · rw [hmux p hp, hon, if_pos (by rfl)] at hcd ⊢
        obtain ⟨mux, waitUntil, heq⟩ :=
          LacpPort.runMux_eq ((b.runReceive now).runSelection.lacpAt p) now
        have hboth := LacpPort.runMux_distributing hcd
        rw [heq]
        exact hboth
      · rw [hout p hp] at hcd
        cases hcd
  · intro p hrx
    rcases lt_or_ge p b.ports.length with hp | hp
    · have hheard := lacpRun_heard b now p
      rw [lacpAt_runReceive hp] at hheard
      have huntil := (congrArg LacpPort.currentUntil hheard :)
      refine lt_of_lt_of_eq ?_ huntil.symm
      exact LacpPort.lt_of_runRx_current ((congrArg LacpPort.rx hheard :).symm.trans hrx)
    · rw [hout p hp] at hrx
      cases hrx
  · intro id
    rw [lacpRun_eq]
    exact (oneGroup_runSelection id).of_selected (runMuxes_decides _) (fun p => selected_runMuxes _)
      (lags_runMuxes _)

/-! ## What is remembered between runs -/

/-- A port belongs to an aggregate that is there. -/
def InLag (b : Bridge) (p : ℕ) (id : UInt16) : Prop :=
  (∃ ep, b.ports[p]? = some ep ∧ ep.cfg.lag = some id) ∧ b.lags.contains id = true

/-- The identity that a member of an aggregate announces. -/
def identity (b : Bridge) (p : ℕ) (id : UInt16) : LacpInfo where
  systemPriority := 32768
  system := b.bridgeMac
  key := id
  portPriority := 32768
  port := if UInt16.ofNat p = 65535 then 65535 else UInt16.ofNat p + 1

theorem exists_getElem?_of_contains (h : b.lags.contains id = true) :
    ∃ l, b.lags[id]? = some l := by
  rw [Std.ExtTreeMap.contains_eq_isSome_getElem?] at h
  exact Option.isSome_iff_exists.mp h

theorem contains_of_getElem? {l : Lag} (h : b.lags[id]? = some l) : b.lags.contains id = true := by
  rw [Std.ExtTreeMap.contains_eq_isSome_getElem?, h]
  rfl

theorem InLag.sameIdentity (h : b.InLag p id) (i : LacpInfo) :
    i.sameIdentity (b.actorInfo p) = i.sameIdentity (b.identity p id) := by
  obtain ⟨⟨ep, hep, hlag⟩, hcontains⟩ := h
  obtain ⟨l, hl⟩ := exists_getElem?_of_contains hcontains
  unfold actorInfo
  rw [hep]
  dsimp only
  rw [hlag, Option.bind_some, hl]
  rfl

/-- What the last frame of a partner said, for as long as the partner counts as in sync. -/
def Remembers (b : Bridge) (last : ℕ → Option Lacpdu) : Prop :=
  ∀ p, (b.lacpAt p).partnerSync = true → (b.lacpAt p).rx = .current ∧
    ∃ pdu, last p = some pdu ∧ (b.lacpAt p).partner = pdu.actor ∧ pdu.actor.state &&& stSync ≠ 0 ∧
      ∃ id, b.InLag p id ∧ pdu.partner.sameIdentity (b.identity p id) = true

/-- A step after which a partner counts as in sync only if it did, and the member is the same. -/
structure Keeps (b b' : Bridge) : Prop where
  mac : b'.bridgeMac = b.bridgeMac
  member (p : ℕ) : (b'.lacpAt p).partnerSync = true →
    (b'.lacpAt p).heard = (b.lacpAt p).heard ∧ ∀ id, b.InLag p id → b'.InLag p id

theorem Remembers.of_keeps {last : ℕ → Option Lacpdu} (h : b.Remembers last) (hkeeps : Keeps b b') :
    b'.Remembers last := by
  intro p hsync
  obtain ⟨hheard, hlag⟩ := hkeeps.member p hsync
  have hsync₀ : (b.lacpAt p).partnerSync = true :=
    (congrArg LacpPort.partnerSync hheard :).symm.trans hsync
  obtain ⟨hrx, pdu, hpdu, hpartner, hflag, id, hid, hident⟩ := h p hsync₀
  refine ⟨(congrArg LacpPort.rx hheard :).trans hrx, pdu, hpdu, ?_, hflag, id, hlag id hid, ?_⟩
  · exact (congrArg LacpPort.partner hheard :).trans hpartner
  · unfold identity
    rw [hkeeps.mac]
    exact hident

theorem Keeps.trans {c d : Bridge} (h : Keeps b c) (h' : Keeps c d) : Keeps b d where
  mac := h'.mac.trans h.mac
  member p hsync := by
    obtain ⟨hheard', hlag'⟩ := h'.member p hsync
    have hsync' : (c.lacpAt p).partnerSync = true :=
      (congrArg LacpPort.partnerSync hheard' :).symm.trans hsync
    obtain ⟨hheard, hlag⟩ := h.member p hsync'
    exact ⟨hheard'.trans hheard, fun id hid => hlag' id (hlag id hid)⟩

theorem Keeps.of_same (hports : b'.ports = b.ports) (hlags : b'.lags = b.lags)
    (hmac : b'.bridgeMac = b.bridgeMac) :
    Keeps b b' where
  mac := hmac
  member p _ := by
    refine ⟨by rw [lacpAt_congr hports], fun id hid => ?_⟩
    unfold InLag
    rw [hports, hlags]
    exact hid

theorem Keeps.of_ports (hmac : b'.bridgeMac = b.bridgeMac)
    (h : ∀ (p : ℕ) (ep' : EthPort), b'.ports[p]? = some ep' → ep'.lacp.partnerSync = true →
      ∃ ep : EthPort, b.ports[p]? = some ep ∧ ep'.lacp.heard = ep.lacp.heard ∧
        ∀ id, ep.cfg.lag = some id → b.lags.contains id = true → ep'.cfg.lag = some id ∧
          b'.lags.contains id = true) :
    Keeps b b' where
  mac := hmac
  member p hsync := by
    rcases lt_or_ge p b'.ports.length with hp | hp
    · have hep' := List.getElem?_eq_getElem hp
      rw [lacpAt_of_getElem? hep'] at hsync ⊢
      obtain ⟨ep, hep, hheard, hlag⟩ := h p _ hep' hsync
      rw [lacpAt_of_getElem? hep]
      refine ⟨hheard, ?_⟩
      rintro id ⟨⟨ep₀, hep₀, hid⟩, hcontains⟩
      cases hep.symm.trans hep₀
      obtain ⟨hlag', hcontains'⟩ := hlag id hid hcontains
      exact ⟨⟨_, hep', hlag'⟩, hcontains'⟩
    · rw [lacpAt_of_length_le hp] at hsync
      cases hsync

theorem InLag.of_withoutLacp (h : b.InLag p id) (hmask : b'.withoutLacp = b.withoutLacp) :
    b'.InLag p id := by
  obtain ⟨⟨ep, hep, hid⟩, hcontains⟩ := h
  constructor
  · have hport := getElem?_ports_of_withoutLacp hmask p
    rw [hep] at hport
    obtain ⟨ep', hep', heq⟩ := Option.map_eq_some_iff.mp hport
    exact ⟨ep', hep', (congrArg (fun ep : EthPort => ep.cfg.lag) heq :).trans hid⟩
  · obtain ⟨l, hl⟩ := exists_getElem?_of_contains hcontains
    have hlag := getElem?_lags_of_withoutLacp hmask id
    rw [hl] at hlag
    obtain ⟨l', hl', -⟩ := Option.map_eq_some_iff.mp hlag
    exact contains_of_getElem? hl'

theorem Keeps.of_withoutLacp (hmask : b'.withoutLacp = b.withoutLacp)
    (h : ∀ p, (b'.lacpAt p).partnerSync = true → (b'.lacpAt p).heard = (b.lacpAt p).heard) :
    Keeps b b' where
  mac := (congrArg Bridge.bridgeMac hmask :)
  member p hsync := ⟨h p hsync, fun _ hid => hid.of_withoutLacp hmask⟩

theorem lacpRun_keeps (b : Bridge) (now : ℤ) : Keeps b (b.lacpRun now) :=
  .of_withoutLacp (lacpRun_withoutLacp now) fun _ => lacpRun_of_partnerSync

theorem Aligned.of_same {t : ℤ} (h : b.Aligned t) (hports : b'.ports = b.ports)
    (hlags : b'.lags = b.lags) (hmac : b'.bridgeMac = b.bridgeMac) : b'.Aligned t := by
  obtain ⟨_, mac, ports, lags⟩ := b
  obtain ⟨_, mac', ports', lags'⟩ := b'
  obtain rfl : ports' = ports := hports
  obtain rfl : lags' = lags := hlags
  obtain rfl : mac' = mac := hmac
  exact ⟨h.off, h.distributing, h.timely, h.group⟩

theorem run_around (b : Bridge) (now : ℤ) :
    let c := ({ b with now, dirty := false } : Bridge).refreshBridgePorts
    (c.ports = b.ports ∧ c.lags = b.lags ∧ c.bridgeMac = b.bridgeMac) ∧
      (b.run now).ports = (c.lacpRun now).ports ∧ (b.run now).lags = (c.lacpRun now).lags ∧
      (b.run now).bridgeMac = (c.lacpRun now).bridgeMac := by
  dsimp only
  have hbefore := (refreshBridgePorts_leaves (b := { b with now, dirty := false })).rest
  refine ⟨⟨(congrArg Bridge.ports hbefore :), (congrArg Bridge.lags hbefore :),
    (congrArg Bridge.bridgeMac hbefore :)⟩, ?_⟩
  rw [run_eq]
  generalize ({ b with now, dirty := false } : Bridge).refreshBridgePorts.lacpRun now = c
  have hoper := (updateOper_leaves (b := c)).rest
  have hstp := ((stpRun_leaves (b := c.updateOper) now).trans (fdbAge_leaves _ now)).rest
  refine ⟨(congrArg Bridge.ports hstp :).trans (congrArg Bridge.ports hoper :), ?_, ?_⟩
  · exact (congrArg Bridge.lags hstp :).trans (congrArg Bridge.lags hoper :)
  · exact (congrArg Bridge.bridgeMac hstp :).trans (congrArg Bridge.bridgeMac hoper :)

theorem run_aligned (b : Bridge) (now : ℤ) : (b.run now).Aligned now := by
  obtain ⟨-, hports, hlags, hmac⟩ := run_around b now
  exact (lacpRun_aligned _ now).of_same hports hlags hmac

theorem run_keeps (b : Bridge) (now : ℤ) : Keeps b (b.run now) := by
  obtain ⟨⟨hports₀, hlags₀, hmac₀⟩, hports, hlags, hmac⟩ := run_around b now
  exact ((Keeps.of_same hports₀ hlags₀ hmac₀).trans (lacpRun_keeps _ now)).trans
    (Keeps.of_same hports hlags hmac)

end Bridge

/-! ## Runs of calls -/

/-- What an observer of a switch notes: when its machines last ran, and the last frame that the
partner on each port sent. -/
structure Heard where
  ran : ℤ
  last : ℕ → Option Lacpdu

namespace Bridge

/-- The frame of a partner that comes in on a port. -/
def lacpduOf (b : Bridge) (port : ℕ) (f : Frame) : Option Lacpdu :=
  if (b.ports[port]?).any (·.linkUp) then Lacpdu.parseFrame f else none

/-- A received frame after which the machines run. -/
def controls (b : Bridge) (port : ℕ) (f : Frame) (now : ℤ) : Bool :=
  (b.ports[port]?).any (·.linkUp) &&
    (parseEth f).any fun e => isReservedGroup e.dst && (b.handleControl port e f now).2

/-- When the machines last run in a call, if they do. -/
def runsIn (b : Bridge) : Call → Option ℤ
  | .setLink port up now => if (b.ports[port]?).any (·.linkUp ≠ up) then some now else none
  | .handleFrame port f now => if b.dirty || (b.settle now).controls port f now then some now
    else none
  | .sendLocal _ _ now => if b.dirty then some now else none
  | .poll now => some now
  | _ => none

/-- The last frames of the partners, with one that comes in. -/
def lastOf (last : ℕ → Option Lacpdu) (port : ℕ) (pdu : Option Lacpdu) : ℕ → Option Lacpdu :=
  match pdu with
  | some pdu => Function.update last port (some pdu)
  | none => last

/-- The bridge and its observer after a call. -/
def observe (s : Bridge × Heard) (c : Call) : Bridge × Heard :=
  (s.1.call c,
    { ran := (s.1.runsIn c).getD s.2.ran
      last :=
        match c with
        | .handleFrame port f now => lastOf s.2.last port ((s.1.settle now).lacpduOf port f)
        | _ => s.2.last })

/-- What holds between calls. -/
structure Partnered (b : Bridge) (h : Heard) : Prop where
  remembers : b.Remembers h.last
  aligned : b.dirty = false → b.Aligned h.ran

variable {b b' : Bridge} {p : ℕ} {now : ℤ} {h : Heard}

theorem Partnered.run (hlast : b.Remembers h.last) (now : ℤ) :
    (b.run now).Partnered { h with ran := now } :=
  ⟨hlast.of_keeps (run_keeps b now), fun _ => run_aligned b now⟩

theorem Partnered.of_dirty (hp : b.Partnered h) (hkeeps : Keeps b b') (hdirty : b'.dirty = true) :
    b'.Partnered h :=
  ⟨hp.remembers.of_keeps hkeeps, fun hclean => nomatch hdirty.symm.trans hclean⟩

theorem Partnered.of_same (hp : b.Partnered h) (hports : b'.ports = b.ports)
    (hlags : b'.lags = b.lags) (hmac : b'.bridgeMac = b.bridgeMac) (hdirty : b'.dirty = b.dirty) :
    b'.Partnered h :=
  ⟨hp.remembers.of_keeps (.of_same hports hlags hmac), fun hclean =>
    (hp.aligned (hdirty ▸ hclean)).of_same hports hlags hmac⟩

theorem Partnered.settle (hp : b.Partnered h) (now : ℤ) :
    (b.settle now).Partnered { h with ran := if b.dirty then now else h.ran } := by
  unfold Bridge.settle
  dsimp only
  split
  · exact Partnered.run (hp.remembers.of_keeps (.of_same rfl rfl rfl)) now
  · exact hp.of_same rfl rfl rfl rfl

/-! ## The setters -/

/-- A change of ports that leaves what each is a member of, and what it has heard or nothing. -/
theorem Keeps.modifyPort {n : ℕ} {f : EthPort → EthPort}
    (hf : ∀ ep, (f ep).lacp.partnerSync = true → (f ep).lacp = ep.lacp ∧
      (f ep).cfg.lag = ep.cfg.lag) :
    Keeps b (b.modifyPort n f) := by
  refine .of_ports rfl fun p ep' hep' hsync => ?_
  have hat : (b.ports.modify n f)[p]? = some ep' := hep'
  rw [List.getElem?_modify] at hat
  obtain ⟨ep, hep, heq⟩ := Option.map_eq_some_iff.mp hat
  refine ⟨ep, hep, ?_⟩
  split_ifs at heq
  · subst heq
    obtain ⟨hlacp, hlag⟩ := hf ep hsync
    rw [hlacp, hlag]
    exact ⟨rfl, fun id hid hcontains => ⟨hid, hcontains⟩⟩
  · obtain rfl : ep = ep' := heq
    exact ⟨rfl, fun id hid hcontains => ⟨hid, hcontains⟩⟩

theorem Keeps.modifyLag (id : UInt16) (f : Lag → Lag) : Keeps b (b.modifyLag id f) := by
  refine .of_ports rfl fun p ep hep _ => ⟨ep, hep, rfl, fun id' hid hcontains => ⟨hid, ?_⟩⟩
  exact (contains_modify f).trans hcontains

theorem Partnered.sets {c : Call} (hp : b.Partnered h) (hs : b.Sets c b') : b'.Partnered h := by
  cases hs with
  | tables fdb svis secs => exact hp.of_same rfl rfl rfl rfl
  | vlans fdb hv => exact hp.of_same rfl rfl rfl rfl
  | iface i hf g fdb =>
    refine hp.of_dirty (Keeps.trans (c := b.changeIface i _ g) ?_ (.of_same rfl rfl rfl)) rfl
    cases i with
    | eth n => exact .modifyPort fun ep hsync => ⟨hf.lacp ep hsync, hf.lag ep⟩
    | lag id => exact .modifyLag id g
    | cpu => exact .of_same rfl rfl rfl
  | stp f => exact hp.of_dirty (.of_same rfl rfl rfl) rfl
  | join port lag hcall hin fdb =>
    refine hp.of_dirty (Keeps.trans (c := b.modifyPort port _) (.modifyPort fun _ hsync => ?_)
      (.of_same rfl rfl rfl)) rfl
    cases hsync
  | createLag id =>
    refine hp.of_dirty
      (.of_ports rfl fun p ep hep _ => ⟨ep, hep, rfl, fun id' hid hcontains => ⟨hid, ?_⟩⟩) rfl
    exact Std.ExtTreeMap.contains_insert.trans (Bool.or_eq_true_iff.mpr (.inr hcontains))
  | lag id f hm =>
    unfold changeLag
    dsimp only
    split
    · exact hp.of_dirty (.of_same rfl rfl rfl) rfl
    refine hp.of_dirty (.of_ports rfl fun p ep' hep' hsync => ?_) rfl
    obtain ⟨ep, hep, heq⟩ := Option.map_eq_some_iff.mp ((List.getElem?_map ..).symm.trans hep')
    refine ⟨ep, hep, ?_⟩
    split_ifs at heq
    · subst heq
      rw [hm.lacp ep hsync, hm.lag]
      exact ⟨rfl, fun id' hid hcontains => ⟨hid, (contains_modify f).trans hcontains⟩⟩
    · subst heq
      exact ⟨rfl, fun id' hid hcontains => ⟨hid, (contains_modify f).trans hcontains⟩⟩
  | deleteLag id fdb =>
    refine hp.of_dirty (.of_ports rfl fun p ep' hep' hsync => ?_) rfl
    obtain ⟨ep, hep, heq⟩ := Option.map_eq_some_iff.mp ((List.getElem?_map ..).symm.trans hep')
    split_ifs at heq with hmem
    · subst heq
      cases hsync
    · subst heq
      refine ⟨ep, hep, rfl, fun id' hid hcontains => ⟨hid, ?_⟩⟩
      have hne : id ≠ id' := fun heq => hmem (heq ▸ hid)
      obtain ⟨l, hl⟩ := exists_getElem?_of_contains hcontains
      exact contains_of_getElem? ((OrderedMap.getElem?_erase' ..).trans ((if_neg hne).trans hl))

/-! ## Frames -/

/-- A member that listens to its partner takes over what it says; another is not in sync. -/
theorem lacpRx_cases (q : ℕ) (pdu : Lacpdu) (now : ℤ) :
    (b.lacpRx q pdu now = (b, false) ∧ (b.lacpEnabledOn q = none ∨ (b.lacpAt q).rx = .disabled)) ∨
    ∃ id f, b.InLag q id ∧ q < b.ports.length ∧ b.lacpRx q pdu now = (b.modifyLacp q f, true) ∧
      ∀ lp, (f lp).rx = .current ∧ (f lp).partner = pdu.actor ∧ ((f lp).partnerSync = true →
        pdu.actor.state &&& stSync ≠ 0 ∧ pdu.partner.sameIdentity (b.actorInfo q) = true) := by
  unfold lacpRx
  split
  · rename_i id mode rate ep hon hep
    dsimp only
    split
    · rename_i hrx
      exact .inl ⟨rfl, .inr (by rw [lacpAt_of_getElem? hep, hrx])⟩
    refine .inr ⟨id, _, ?_, (List.getElem?_eq_some_iff.mp hep).1, rfl,
      fun lp => ⟨rfl, rfl, fun hsync => ?_⟩⟩
    · obtain ⟨ep', hep', hon⟩ := Option.bind_eq_some_iff.mp hon
      obtain ⟨id', hid, hon⟩ := Option.bind_eq_some_iff.mp hon
      obtain ⟨lag, hlag, hon⟩ := Option.bind_eq_some_iff.mp hon
      split at hon
      · cases hon
      · cases hon
        exact ⟨⟨ep', hep', hid⟩, contains_of_getElem? hlag⟩
    · obtain ⟨hflag, hview⟩ := Bool.and_eq_true_iff.mp hsync
      exact ⟨of_decide_eq_true hflag, (Bool.and_eq_true_iff.mp hview).1⟩
  · rename_i hnot
    refine .inl ⟨rfl, .inl (Option.eq_none_iff_forall_ne_some.mpr fun x hx => ?_)⟩
    obtain ⟨id, mode, rate⟩ := x
    obtain ⟨ep, hep, -⟩ := Option.bind_eq_some_iff.mp hx
    exact hnot id mode rate ep hx hep

/-- **A member notes what its partner said last**, and to whom. -/
theorem lacpRx_remembers {last : ℕ → Option Lacpdu} (hlast : b.Remembers last) {t : ℤ}
    (haligned : b.Aligned t) (port : ℕ) (pdu : Lacpdu) (now : ℤ) :
    (b.lacpRx port pdu now).1.Remembers (Function.update last port (some pdu)) := by
  have hmask := lacpRx_withoutLacp (b := b) port pdu now
  have hident (c : Bridge) (hc : c.withoutLacp = b.withoutLacp) (p : ℕ) (id : UInt16) :
    c.identity p id = b.identity p id := by
    have hmac : c.bridgeMac = b.bridgeMac := (congrArg Bridge.bridgeMac hc :)
    unfold identity
    rw [hmac]
  rcases lacpRx_cases (b := b) port pdu now with ⟨heq, hdeaf⟩ | ⟨id, f, hid, hlt, heq, hf⟩
  · rw [heq]
    intro p hsync
    have hne : p ≠ port := by
      rintro rfl
      have hrx : (b.lacpAt p).rx = .disabled := hdeaf.elim (fun hoff => (haligned.off p hoff).1) id
      cases hrx.symm.trans (hlast p hsync).1
    rw [Function.update_of_ne hne]
    exact hlast p hsync
  · rw [heq] at hmask ⊢
    intro p hsync
    by_cases hp : p = port
    · subst hp
      rw [lacpAt_modifyLacp p f hlt, if_pos rfl] at hsync ⊢
      obtain ⟨hrx, hpartner, hsays⟩ := hf (b.lacpAt p)
      obtain ⟨hflag, hview⟩ := hsays hsync
      refine ⟨hrx, pdu, Function.update_self .., hpartner, hflag, id, hid.of_withoutLacp hmask, ?_⟩
      rw [hident _ hmask, ← hid.sameIdentity]
      exact hview
    · have hsame : (b.modifyLacp port f).lacpAt p = b.lacpAt p := by
        unfold lacpAt modifyLacp modifyPort
        dsimp only
        rw [List.getElem?_modify]
        simp only [Ne.symm hp, if_false]
        cases b.ports[p]? <;> rfl
      rw [hsame] at hsync ⊢
      rw [Function.update_of_ne hp]
      obtain ⟨hrx, pdu', hpdu, hpartner, hflag, id', hid', hview⟩ := hlast p hsync
      refine ⟨hrx, pdu', hpdu, hpartner, hflag, id', hid'.of_withoutLacp hmask, ?_⟩
      rw [hident _ hmask]
      exact hview

theorem parseFrame_slow {f : Frame} {pdu : Lacpdu} (hpdu : Lacpdu.parseFrame f = some pdu) :
    ∃ e, parseEth f = some e ∧ e.ethertype = ethertypeSlow ∧ e.dst = slowProtocolsGroup := by
  obtain ⟨e, he, hrest⟩ := Option.bind_eq_some_iff.mp hpdu
  refine ⟨e, he, ?_⟩
  split at hrest
  · cases hrest
  · rename_i hboth
    rw [not_or, not_not, not_not] at hboth
    exact hboth

section

variable (hp : b.Partnered h)
include hp

theorem rxBpdu_partnered (port : ℕ) (bpdu : Bpdu) (now : ℤ) :
    (b.rxBpdu port bpdu now).1.Remembers h.last ∧
      ((b.rxBpdu port bpdu now).2 = false → b.dirty = false →
        (b.rxBpdu port bpdu now).1.Aligned h.ran) := by
  unfold rxBpdu
  split
  · exact ⟨hp.remembers, fun _ => hp.aligned⟩
  rename_i bp hbp
  split
  · exact ⟨hp.remembers, fun _ => hp.aligned⟩
  split
  · split
    · refine ⟨hp.remembers.of_keeps ?_, fun hfalse => nomatch hfalse⟩
      cases bp with
      | eth n =>
        have hport : Keeps b (b.modifyPort n fun p => { p with errDisabled := true }) :=
          .modifyPort fun _ _ => ⟨rfl, rfl⟩
        exact hport.trans (.of_same rfl rfl rfl)
      | lag id =>
        exact (Keeps.modifyLag id fun l => { l with errDisabled := true }).trans
          (.of_same rfl rfl rfl)
      | cpu => exact .of_same rfl rfl rfl
    · exact ⟨hp.remembers, fun _ => hp.aligned⟩
  · split
    · exact ⟨hp.remembers, fun _ => hp.aligned⟩
    · have hrest := (stpRx_leaves (b := b) bp bpdu now).rest
      have hports : (b.stpRx bp bpdu now).1.ports = b.ports := (congrArg Bridge.ports hrest :)
      have hlags : (b.stpRx bp bpdu now).1.lags = b.lags := (congrArg Bridge.lags hrest :)
      have hmac : (b.stpRx bp bpdu now).1.bridgeMac = b.bridgeMac :=
        (congrArg Bridge.bridgeMac hrest :)
      exact ⟨hp.remembers.of_keeps (.of_same hports hlags hmac),
        fun _ hclean => (hp.aligned hclean).of_same hports hlags hmac⟩

theorem handleControl_partnered (hclean : b.dirty = false) (port : ℕ) {e : EthInfo} {f : Frame}
    (he : parseEth f = some e) (now : ℤ) :
    (b.handleControl port e f now).1.Remembers (lastOf h.last port (Lacpdu.parseFrame f)) ∧
      ((b.handleControl port e f now).2 = false →
        (b.handleControl port e f now).1.Aligned h.ran) := by
  have hnone (hnot : ¬ (e.ethertype = ethertypeSlow ∧ e.dst = slowProtocolsGroup)) :
    Lacpdu.parseFrame f = none := by
    refine Option.eq_none_iff_forall_ne_some.mpr fun pdu hpdu => hnot ?_
    obtain ⟨e', he', hslow⟩ := parseFrame_slow hpdu
    cases he.symm.trans he'
    exact hslow
  unfold handleControl
  split
  · rename_i hstp
    rw [hnone fun hslow => absurd (hslow.2 ▸ hstp) (by decide)]
    split
    · rename_i bpdu _
      obtain ⟨hlast, haligned⟩ := rxBpdu_partnered hp port bpdu now
      exact ⟨hlast, fun hfalse => haligned hfalse hclean⟩
    · exact ⟨hp.remembers, fun _ => hp.aligned hclean⟩
  split
  · split
    · rename_i pdu hpdu
      rw [hpdu]
      refine ⟨lacpRx_remembers hp.remembers (hp.aligned hclean) port pdu now, fun hfalse => ?_⟩
      rcases lacpRx_cases (b := b) port pdu now with ⟨heq, -⟩ | ⟨_, _, -, -, heq, -⟩
      · rw [heq]
        exact hp.aligned hclean
      · rw [heq] at hfalse
        cases hfalse
    · rename_i hpdu
      rw [hpdu]
      exact ⟨hp.remembers, fun _ => hp.aligned hclean⟩
  · rename_i hnot
    rw [hnone fun hslow => hnot ⟨hslow.2 ▸ (by decide), hslow.1⟩]
    exact ⟨hp.remembers, fun _ => hp.aligned hclean⟩

theorem handleFrame_partnered (port : ℕ) (f : Frame) (now : ℤ) :
    (b.handleFrame port f now).1.Partnered (observe (b, h) (.handleFrame port f now)).2 := by
  have hsettled := hp.settle now
  have hclean := settle_clean (b := b) now
  show (b.handleFrame port f now).1.Partnered
    ⟨(if b.dirty || (b.settle now).controls port f now then some now else none).getD h.ran,
      lastOf h.last port ((b.settle now).lacpduOf port f)⟩
  have hran (r : Bool) : (if b.dirty || r then some now else none).getD h.ran =
      if r then now else if b.dirty then now else h.ran := by
    cases r with
    | true => rw [Bool.or_true]; rfl
    | false => rw [Bool.or_false]; cases b.dirty <;> rfl
  rw [hran]
  unfold handleFrame lacpduOf
  dsimp only
  cases hlink : ((b.settle now).ports[port]?).any (·.linkUp) with
  | false =>
    have hcontrols : (b.settle now).controls port f now = false := by
      unfold controls
      rw [hlink]
      rfl
    rw [hcontrols]
    exact hsettled
  | true =>
    rw [if_neg (show ¬(!true) = true by decide), if_pos (show true = true from rfl)]
    cases he : parseEth f with
    | none =>
      have hnone : Lacpdu.parseFrame f = none := by
        unfold Lacpdu.parseFrame
        rw [he]
        rfl
      have hcontrols : (b.settle now).controls port f now = false := by
        unfold controls
        rw [he, hlink]
        rfl
      rw [hnone, hcontrols]
      exact hsettled
    | some e =>
      have hcontrols : (b.settle now).controls port f now =
          (isReservedGroup e.dst && ((b.settle now).handleControl port e f now).2) := by
        unfold controls
        rw [he, hlink]
        rfl
      dsimp only
      split
      · rename_i hreserved
        rw [hreserved, Bool.true_and] at hcontrols
        obtain ⟨hlast, haligned⟩ := handleControl_partnered hsettled hclean port he now
        rw [hcontrols]
        cases hr : ((b.settle now).handleControl port e f now).2 with
        | true => exact Partnered.run (h := ⟨h.ran, _⟩) hlast now
        | false => exact ⟨hlast, fun _ => haligned hr⟩
      · rename_i hreserved
        rw [Bool.eq_false_of_not_eq_true hreserved, Bool.false_and] at hcontrols
        have hnone : Lacpdu.parseFrame f = none := by
          refine Option.eq_none_iff_forall_ne_some.mpr fun pdu hpdu => hreserved ?_
          obtain ⟨e', he', -, hdst⟩ := parseFrame_slow hpdu
          cases he.symm.trans he'
          rw [hdst]
          rfl
        rw [hcontrols, hnone]
        split
        · exact hsettled
        · obtain ⟨fdb, hfdb⟩ := forwardData_same (b := b.settle now) port e f
          rw [hfdb]
          exact hsettled.of_same rfl rfl rfl rfl

theorem sendLocal_partnered (vlan : UInt16) (f : Frame) (now : ℤ) :
    (b.sendLocal vlan f now).1.Partnered (observe (b, h) (.sendLocal vlan f now)).2 := by
  have hsettled := hp.settle now
  have hran : (if b.dirty then some now else none).getD h.ran = if b.dirty then now else h.ran := by
    split_ifs <;> rfl
  show (b.sendLocal vlan f now).1.Partnered
    ⟨(if b.dirty then some now else none).getD h.ran, h.last⟩
  rw [hran]
  obtain ⟨fdb, heq⟩ := sendLocal_same (b := b) vlan f now
  rw [heq]
  exact hsettled.of_same rfl rfl rfl rfl

theorem setLink_partnered (port : ℕ) (up : Bool) (now : ℤ) :
    (b.setLink port up now).Partnered (observe (b, h) (.setLink port up now)).2 := by
  show (b.setLink port up now).Partnered
    ⟨(if (b.ports[port]?).any (·.linkUp ≠ up) then some now else none).getD h.ran, h.last⟩
  rcases setLink_cases (b := b) port up now with ⟨hnot, heq⟩ | ⟨hup, lags, hlags, heq⟩
  · rw [hnot, heq]
    exact hp.of_same rfl rfl rfl rfl
  · rw [hup, heq]
    refine Partnered.run (h := ⟨h.ran, h.last⟩) (hp.remembers.of_keeps ?_) now
    refine Keeps.trans (c := b.modifyPort port fun ep =>
      { ep with linkUp := up, errDisabled := if up then false else ep.errDisabled })
        (.modifyPort fun _ _ => ⟨rfl, rfl⟩) ?_
    exact .of_ports rfl fun p ep hep _ =>
      ⟨ep, hep, rfl, fun id hid hcontains => ⟨hid, (hlags id).trans hcontains⟩⟩

/-! ## Runs -/

/-- **Every call keeps what members remember**, and the machines catch up with it. -/
theorem call_partnered (c : Call) : (observe (b, h) c).1.Partnered (observe (b, h) c).2 := by
  cases c with
  | setLink port up now => exact setLink_partnered hp port up now
  | handleFrame port f now => exact handleFrame_partnered hp port f now
  | sendLocal vlan f now => exact sendLocal_partnered hp vlan f now
  | poll now => exact Partnered.run hp.remembers now
  | _ =>
    dsimp only [observe]
    exact hp.sets (call_sets rfl)

end

theorem lacpAt_new (portMacs : List MacAddr) (bridgeMac : MacAddr) (now : ℤ) (p : ℕ) :
    (Bridge.new portMacs bridgeMac now).lacpAt p = {} := by
  show ((((portMacs.take maxPorts).map fun mac => ({ mac } : EthPort))[p]?).map (·.lacp)).getD {} =
    _
  rw [List.getElem?_map, Option.map_map]
  cases (portMacs.take maxPorts)[p]? <;> rfl

theorem new_partnered (portMacs : List MacAddr) (bridgeMac : MacAddr) (now : ℤ) (h : Heard) :
    (Bridge.new portMacs bridgeMac now).Partnered h := by
  refine ⟨fun p hsync => ?_, fun hclean => nomatch hclean⟩
  rw [lacpAt_new] at hsync
  cases hsync

theorem run_partnered {s : Bridge × Heard} (hp : s.1.Partnered s.2) (cs : List Call) :
    (cs.foldl observe s).1.Partnered (cs.foldl observe s).2 := by
  induction cs generalizing s with
  | nil => exact hp
  | cons c cs ih => exact ih (call_partnered hp c)

/-! ## One partner -/

/-- The frames that the switch hands out in a call. -/
def emits (b : Bridge) : Call → List Output
  | .handleFrame port f now => (b.handleFrame port f now).2
  | .sendLocal vlan f now => (b.sendLocal vlan f now).2
  | _ => []

/-- **An aggregate has one partner.**  The members that collect and distribute have heard of one
partner, which is someone else; each is selected, and the last frame of its partner, which had
not run out when the machines last ran, was in sync with the member by name.  A member that
distributes for lack of a partner does so where no member has one. -/
structure OnePartner (b : Bridge) (h : Heard) (id : UInt16) : Prop where
  same : ∃ g, ∀ m ∈ b.lagMembers id, (b.lacpAt m).mux = .collectingDistributing →
    (b.lacpAt m).groupKey = g
  other : ∀ m ∈ b.lagMembers id, (b.lacpAt m).mux = .collectingDistributing →
    (b.lacpAt m).partner.system ≠ b.bridgeMac ∧ (b.lacpAt m).partner.system ≠ .zero
  synced : ∀ m ∈ b.lagMembers id, (b.lacpAt m).mux = .collectingDistributing →
    (b.lacpAt m).selected = true ∧ (b.lacpAt m).rx = .current ∧ h.ran < (b.lacpAt m).currentUntil ∧
      ∃ pdu, h.last m = some pdu ∧ (b.lacpAt m).partner = pdu.actor ∧
        pdu.actor.state &&& stSync ≠ 0 ∧
        pdu.partner.sameIdentity (b.actorInfo m) = true
  fallback : ∀ m ∈ b.lagMembers id, b.memberDistributing m = true →
    (b.lacpAt m).mux ≠ .collectingDistributing →
    ∀ k ∈ b.lagMembers id, ¬ b.Usable k

theorem Partnered.onePartner (hp : b.Partnered h) (hclean : b.dirty = false) {l : Lag}
    (hl : b.lags[id]? = some l) (hon : l.cfg.lacpMode ≠ .off) : b.OnePartner h id := by
  have haligned := hp.aligned hclean
  obtain ⟨⟨g, hg⟩, halone⟩ := haligned.group id l hl hon
  have hselected {m : ℕ} (hm : m ∈ b.lagMembers id)
    (hcd : (b.lacpAt m).mux = .collectingDistributing) :=
    hg m hm (haligned.distributing m hcd).1
  constructor
  · exact ⟨g, fun m hm hcd => (hselected hm hcd).2⟩
  · intro m hm hcd
    obtain ⟨-, -, -, hown, hzero⟩ := (hselected hm hcd).1
    exact ⟨hown, hzero⟩
  · intro m hm hcd
    obtain ⟨hsel, hsync⟩ := haligned.distributing m hcd
    obtain ⟨hrx, pdu, hpdu, hpartner, hflag, id', hid, hview⟩ := hp.remembers m hsync
    refine ⟨hsel, hrx, haligned.timely m hrx, pdu, hpdu, hpartner, hflag, ?_⟩
    rw [hid.sameIdentity]
    exact hview
  · intro m hm hdist hcd
    refine halone m ?_
    obtain ⟨ep, hep, hlag⟩ := mem_lagMembers.mp hm
    unfold memberDistributing at hdist
    rw [hep] at hdist
    dsimp only at hdist
    rw [hlag, Option.bind_some, hl] at hdist
    rw [lacpAt_of_getElem? hep] at hcd
    simpa [hon, hcd] using (Bool.and_eq_true_iff.mp hdist).2

theorem clean_of_emits {c : Call} (hemits : b.emits c ≠ []) : (b.call c).dirty = false := by
  cases c with
  | handleFrame port f now =>
    rcases handleFrame_cases (b := b) port f now with ⟨fdb, heq⟩ | ⟨e, heq⟩
    · exact (congrArg Bridge.dirty heq).trans (settle_clean now)
    · exact absurd (congrArg Prod.snd heq) hemits
  | sendLocal vlan f now =>
    obtain ⟨fdb, heq⟩ := sendLocal_same (b := b) vlan f now
    exact (congrArg Bridge.dirty heq).trans (settle_clean now)
  | _ => exact absurd rfl hemits

/-- A switch and its observer from the start. -/
def watch (portMacs : List MacAddr) (bridgeMac : MacAddr) (start : ℤ) (cs : List Call) :
    Bridge × Heard :=
  cs.foldl observe (.new portMacs bridgeMac start, ⟨start, fun _ => none⟩)

/-- **A LAG never spreads over two partners**, whenever a frame is handed out in any run. -/
theorem lag_has_one_partner (portMacs : List MacAddr) (bridgeMac : MacAddr) (start : ℤ)
    (cs : List Call) (c : Call) (hemits : (watch portMacs bridgeMac start cs).1.emits c ≠ [])
    (id : UInt16) (l : Lag) (hl : (watch portMacs bridgeMac start (cs ++ [c])).1.lags[id]? = some l)
    (hon : l.cfg.lacpMode ≠ .off) : (watch portMacs bridgeMac start (cs ++ [c])).1.OnePartner
    (watch portMacs bridgeMac start (cs ++ [c])).2 id := by
  have hp : (watch portMacs bridgeMac start (cs ++ [c])).1.Partnered
    (watch portMacs bridgeMac start (cs ++ [c])).2 :=
    run_partnered (new_partnered portMacs bridgeMac start _) (cs ++ [c])
  have hlast : (watch portMacs bridgeMac start (cs ++ [c])).1 =
    (watch portMacs bridgeMac start cs).1.call c := by
    unfold watch
    rw [List.foldl_append]
    rfl
  refine hp.onePartner ?_ hl hon
  rw [hlast]
  exact clean_of_emits hemits

/-- A partner that is in sync with port number `n` of an aggregate. -/
def partnerFrame (n : Byte) : Frame :=
  [0x01, 0x80, 0xc2, 0, 0, 0x02] ++ [0x02, 0, 0, 0, 0, 0x0b] ++ [0x88, 0x09] ++ [0x01, 0x01] ++
  [0x01, 20, 0x03, 0xe8, 0x02, 0, 0, 0, 0, 0x0b, 0, 5, 0, 1, 0, n, 0x3d, 0, 0, 0] ++
  [0x02, 20, 0x80, 0, 0x02, 0, 0, 0, 0, 0x09, 0, 1, 0x80, 0, 0, n, 0x04, 0, 0, 0] ++
  [0x03, 16] ++ List.replicate 14 0 ++ List.replicate 52 0

/-- Two members of an aggregate hear their partner, and come to distribute. -/
def bundleCalls : List Call :=
  [.createLag 1, .setLagMembership 0 (some 1), .setLagMembership 1 (some 1), .setLacpMode 1 .active,
    .setPortMode (.lag 1) (.access 1), .setPortMode (.eth 2) (.access 1), .setLink 0 true 0,
      .setLink 1 true 0,
    .setLink 2 true 0, .handleFrame 0 (partnerFrame 1) 100,
      .handleFrame 1 (partnerFrame 2) 100, .poll 2200,
    .poll 2200]

/-- The switch of the run above, with its three ports. -/
def bundle (cs : List Call) : Bridge × Heard :=
  watch [⟨0x02, 0, 0, 0, 0, 1⟩, ⟨0x02, 0, 0, 0, 0, 2⟩, ⟨0x02, 0, 0, 0, 0, 3⟩]
    ⟨0x02, 0, 0, 0, 0, 9⟩ 0 cs

/-- A data frame, from the port that is not a member. -/
def bundleFrame : Call := .handleFrame 2 (broadcastOf ethertypeIpv4) 3000

/-- Two members distribute when the frame goes out. -/
theorem lag_has_one_partner_bundle :
    (bundle bundleCalls).1.emits bundleFrame ≠ [] ∧
      (∀ m ∈ [0, 1], m ∈ (bundle (bundleCalls ++ [bundleFrame])).1.lagMembers 1 ∧
        ((bundle (bundleCalls ++ [bundleFrame])).1.lacpAt m).mux = .collectingDistributing) ∧
      (bundle (bundleCalls ++ [bundleFrame])).1.OnePartner
      (bundle (bundleCalls ++ [bundleFrame])).2 1 := by
  have hemits : (bundle bundleCalls).1.emits bundleFrame ≠ [] := by decide +kernel
  have hmode :
    ((bundle (bundleCalls ++ [bundleFrame])).1.lags[(1 : UInt16)]?).map (·.cfg.lacpMode) =
      some .active := by decide +kernel
  obtain ⟨l, hl, hactive⟩ := Option.map_eq_some_iff.mp hmode
  refine ⟨hemits, by decide +kernel, lag_has_one_partner _ _ _ bundleCalls _ hemits 1 l hl ?_⟩
  rw [hactive]
  exact nofun

/-- A member distributes still when its partner's time has run out, until the machines run. -/
theorem not_unexpired :
    ¬ ∀ (portMacs : List MacAddr) (bridgeMac : MacAddr) (start : ℤ) (cs : List Call) (port : ℕ)
    (f : Frame) (now : ℤ), (watch portMacs bridgeMac start cs).1.emits
    (.handleFrame port f now) ≠ [] →
      ∀ id, ∀ m ∈ (watch portMacs bridgeMac start (cs ++ [.handleFrame port f now])).1.lagMembers id,
        ((watch portMacs bridgeMac start (cs ++ [.handleFrame port f now])).1.lacpAt m).mux =
          .collectingDistributing →
        now < ((watch portMacs bridgeMac start (cs ++ [.handleFrame port f now])).1.lacpAt
          m).currentUntil := by
  intro h
  have hlate :=
    h [⟨0x02, 0, 0, 0, 0, 1⟩, ⟨0x02, 0, 0, 0, 0, 2⟩, ⟨0x02, 0, 0, 0, 0, 3⟩] ⟨0x02, 0, 0, 0, 0, 9⟩ 0
    bundleCalls 2 (broadcastOf ethertypeIpv4) 1000000 (by decide +kernel) 1 0 (by decide +kernel)
      (by decide +kernel)
  revert hlate
  decide +kernel

end EvansComputer.Switch.Bridge
