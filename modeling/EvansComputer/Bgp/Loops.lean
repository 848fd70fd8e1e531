import EvansComputer.Bgp.BestPath

/-!
# Loops and leaks

A path vector protocol is free of loops because each speaker refuses the routes
that have passed through it, and it leaks nothing because each speaker keeps
some routes from some peers.  The first is a property of the tables of received
routes (`Peer.Guarded`), and with it of the table of chosen routes, all of which
come from there.  The second is a property of the UPDATEs in the queue: each was
put there by a move after which the chosen route for its prefix may go to the
peer (`Warrants`).

Both hold along every run in which a connection is reported for a peer only
where its last session is over.  An established peer that is connected again
keeps the routes of its old session.
-/

namespace EvansComputer.Bgp

/-! ## What a policy leaves alone -/

theorem Policy.apply_path {policy : Policy} {name : Option String} {pfx : Prefix}
    {a b : Attributes} (h : policy.apply name pfx a = some b) : b.path = a.path := by
  unfold Policy.apply at h
  cases name with
  | none => rw [← Option.some.inj h]
  | some name =>
    dsimp only at h
    split at h
    · cases h
    · split at h
      · cases h
      · split_ifs at h
        rw [← Option.some.inj h]

/-! ## The table of one peer -/

/-- What holds of the routes that a peer has sent and been sent, in an engine of
the AS `here`. -/
structure Peer.Guarded (here : UInt32) (p : Peer) : Prop where
  /-- A peer without a session has no routes. -/
  idle : p.state ≠ .established → p.adjIn = ∅ ∧ p.adjOut = ∅
  /-- No route has passed through the engine's own AS. -/
  loopFree : ∀ (pfx : Prefix) (a : Attributes), p.adjIn[pfx]? = some a → here ∉ a.path
  /-- The routes of an external peer begin with its AS. -/
  firstAs : p.remoteAs ≠ here → ∀ (pfx : Prefix) (a : Attributes), p.adjIn[pfx]? = some a →
    a.path.head? = some p.remoteAs
  bounded : p.adjIn.size ≤ maxPrefixes
  limited : ∀ m, p.config.maximumPrefix = some m → m.warningOnly = false →
    p.adjIn.size ≤ m.max.toNat

namespace Peer.Guarded

variable {here : UInt32} {p q : Peer}

/-- A peer that holds no routes. -/
theorem of_empty (hin : p.adjIn = ∅) (hout : p.state ≠ .established → p.adjOut = ∅) :
    p.Guarded here := by
  have hnone (pfx : Prefix) (a : Attributes) (h : p.adjIn[pfx]? = some a) : False := by
    rw [hin, Std.ExtTreeMap.getElem?_empty] at h
    cases h
  have hsize : p.adjIn.size = 0 := by rw [hin, Std.ExtTreeMap.size_empty]
  constructor
  · exact fun hs => ⟨hin, hout hs⟩
  · exact fun pfx a h => (hnone pfx a h).elim
  · exact fun _ pfx a h => (hnone pfx a h).elim
  · exact hsize.trans_le (Nat.zero_le _)
  · exact fun m _ _ => hsize.trans_le (Nat.zero_le _)

/-- What is no business of the routes received may change. -/
theorem congr (h : p.Guarded here) (hin : q.adjIn = p.adjIn) (hr : q.remoteAs = p.remoteAs)
    (hc : q.config = p.config) (hidle : q.state ≠ .established → q.adjIn = ∅ ∧ q.adjOut = ∅) :
    q.Guarded here := by
  refine ⟨hidle, ?_, ?_, ?_, ?_⟩
  · rw [hin]
    exact h.loopFree
  · rw [hin, hr]
    exact h.firstAs
  · rw [hin]
    exact h.bounded
  · rw [hin, hc]
    exact h.limited

theorem of_tended (h : p.Guarded here) (hpq : p.Tended q) : q.Guarded here := by
  obtain ⟨hr, hs⟩ := hpq
  have hin := adjIn_of_routing hr
  refine h.congr hin (remoteAs_of_routing hr) (config_of_routing hr) fun hne => ?_
  rw [hin, adjOut_of_routing hr]
  refine h.idle ?_
  rcases hs with hs | ⟨hs, -⟩
  · exact hs ▸ hne
  · intro hest
    rw [hest] at hs
    cases hs

theorem session_iff : (Engine.Peer.session p).Guarded here ↔ p.Guarded here :=
  ⟨fun h => ⟨h.idle, h.loopFree, h.firstAs, h.bounded, h.limited⟩,
    fun h => ⟨h.idle, h.loopFree, h.firstAs, h.bounded, h.limited⟩⟩

end Peer.Guarded

namespace Engine

variable {e e' : Engine} {ip ip' : Ipv4Addr} {p q : Peer} {now : ℤ} {pfx : Prefix}
  {a b : Attributes} {r : Route} {connectable : State → Prop}

/-- **An UPDATE keeps the table of its peer loop-free**, prefix by prefix, and
within its bound. -/
theorem install_keeps {nlri : List Prefix} {adjIn out : OrderedMap Prefix Attributes} {full : Bool}
    (h : e.install p a nlri adjIn = (out, full)) (hsize : adjIn.size ≤ maxPrefixes)
    (hloop : ∀ (pfx : Prefix) (b : Attributes), adjIn[pfx]? = some b → e.config.asn ∉ b.path)
    (hfirst : p.remoteAs ≠ e.config.asn → ∀ (pfx : Prefix) (b : Attributes), adjIn[pfx]? = some b →
      b.path.head? = some p.remoteAs) :
    out.size ≤ maxPrefixes ∧
      (∀ (pfx : Prefix) (b : Attributes), out[pfx]? = some b → e.config.asn ∉ b.path) ∧
      (p.remoteAs ≠ e.config.asn → ∀ (pfx : Prefix) (b : Attributes), out[pfx]? = some b →
        b.path.head? = some p.remoteAs) := by
  induction nlri generalizing adjIn with
  | nil =>
    obtain ⟨rfl, -⟩ := Prod.ext_iff.mp h
    exact ⟨hsize, hloop, hfirst⟩
  | cons pfx nlri ih =>
    have herase {q : Prefix} {b : Attributes} (hq : (adjIn.erase pfx)[q]? = some b) :
        adjIn[q]? = some b := by
      rw [OrderedMap.getElem?_erase'] at hq
      split_ifs at hq
      exact hq
    unfold install at h
    dsimp only at h
    split at h
    next =>
      -- Refused: the route that was there before goes too.
      refine ih h (Std.ExtTreeMap.size_erase_le.trans hsize) ?_ ?_
      · exact fun q b hq => hloop q b (herase hq)
      · exact fun hne q b hq => hfirst hne q b (herase hq)
    next attrs haccepted =>
      split_ifs at haccepted with hrefused
      obtain ⟨hpath, hhead⟩ := not_or.mp (mt (Bool.or_eq_true _ _).mpr hrefused)
      have hattrs : attrs.path = a.path := Policy.apply_path haccepted
      split_ifs at h with hroom
      · refine ih h ?_ ?_ ?_
        · rw [Bool.or_eq_true, decide_eq_true_eq] at hroom
          rw [Std.ExtTreeMap.size_insert]
          split_ifs with hmem
          · exact hsize
          · exact hroom.resolve_right hmem
        · intro q b hq
          rw [OrderedMap.getElem?_insert'] at hq
          split_ifs at hq
          · rw [← Option.some.inj hq, hattrs]
            exact fun hin => hpath (List.contains_iff_mem.mpr hin)
          · exact hloop q b hq
        · intro hne q b hq
          rw [OrderedMap.getElem?_insert'] at hq
          split_ifs at hq
          · rw [← Option.some.inj hq, hattrs]
            simpa [hne] using hhead
          · exact hfirst hne q b hq
      · obtain ⟨rfl, -⟩ := Prod.ext_iff.mp h
        exact ⟨hsize, hloop, hfirst⟩

/-- Withdrawals only take routes away. -/
theorem getElem?_of_withdrawn {l : List Prefix} {t : OrderedMap Prefix Attributes}
    (h : (l.foldl (fun t q => t.erase q) t)[pfx]? = some a) : t[pfx]? = some a := by
  induction l generalizing t with
  | nil => exact h
  | cons q l ih =>
    have hq := ih h
    rw [OrderedMap.getElem?_erase'] at hq
    split_ifs at hq
    exact hq

theorem size_withdrawn_le {l : List Prefix} {t : OrderedMap Prefix Attributes} :
    (l.foldl (fun t q => t.erase q) t).size ≤ t.size := by
  induction l generalizing t with
  | nil => exact le_rfl
  | cons q l ih => exact ih.trans Std.ExtTreeMap.size_erase_le

/-- The table that an UPDATE leaves is guarded where the one before it was. -/
theorem guarded_of_takes {adjIn : OrderedMap Prefix Attributes} (h : p.Guarded e.config.asn)
    (hs : p.state = .established) (htakes : e.Takes p adjIn) :
    Peer.Guarded e.config.asn { p with adjIn := adjIn } := by
  obtain ⟨hlimit, withdrawn, a, nlri, hinstall⟩ := htakes
  obtain ⟨hsize, hloop, hfirst⟩ := install_keeps hinstall (size_withdrawn_le.trans h.bounded)
    (fun q b hq => h.loopFree q b (getElem?_of_withdrawn hq))
    (fun hne q b hq => h.firstAs hne q b (getElem?_of_withdrawn hq))
  refine ⟨fun hne => absurd hs hne, hloop, hfirst, hsize, fun m hm hwarn => ?_⟩
  unfold overLimit at hlimit
  dsimp only at hlimit hm ⊢
  rw [hm] at hlimit
  dsimp only at hlimit
  split_ifs at hlimit with hover
  rw [hwarn, Bool.not_false, Bool.and_true, decide_eq_true_eq, not_lt] at hover
  exact hover

/-! ## The tables of all peers -/

/-- The tables of all peers are guarded. -/
def Guards (e : Engine) : Prop :=
  ∀ (ip : Ipv4Addr) (p : Peer), e.peers[ip]? = some p → p.Guarded e.config.asn

theorem Guards.setPeer (h : e.Guards) (hq : q.Guarded e.config.asn) : (e.setPeer ip q).Guards := by
  intro a r hr
  rw [getElem?_setPeer] at hr
  split_ifs at hr
  · exact Option.some.inj hr ▸ hq
  · exact h a r hr

theorem Guards.send (h : e.Guards) (ip : Ipv4Addr) (m : Message) : (e.send ip m).Guards := by
  obtain ⟨hc, -, -, -, -, hsession⟩ := send_frame ip m e
  intro a r hr
  have hsame := hsession a
  rw [hr, Option.map_some] at hsame
  obtain ⟨p, hp, heq⟩ := Option.map_eq_some_iff.mp hsame.symm
  rw [hc, ← Peer.Guarded.session_iff, ← heq, Peer.Guarded.session_iff]
  exact h a p hp

theorem Guards.advertise (h : e.Guards) (ip : Ipv4Addr) (force : Bool) :
    (e.advertise ip force).Guards := by
  by_cases hest : ∃ p, e.peers[ip]? = some p ∧ p.state = .established
  · obtain ⟨p, hp, hs⟩ := hest
    rw [advertise_eq force hp hs]
    have hq : Peer.Guarded e.config.asn
        { counted p (e.sends ip p (e.announcements ip p force)).length with
          adjOut := e.desired ip p } :=
      (h ip p hp).congr rfl rfl rfl fun hne => absurd hs hne
    exact h.setPeer hq
  · rw [advertise_of_not_established fun p hp hs => hest ⟨p, hp, hs⟩]
    exact h

theorem Guards.recompute (h : e.Guards) : e.recompute.Guards :=
  recompute_induction (fun _ => h) h fun _ ip h => h.advertise ip false

theorem Guards.disconnected (h : e.Guards) (ip : Ipv4Addr) (now : ℤ) :
    (e.disconnected ip now).Guards := by
  obtain ⟨blocked, peers, heq, hpeers⟩ := exists_disconnected e ip now
  rw [heq]
  refine Guards.recompute fun a q hq => ?_
  obtain ⟨hq, -⟩ | ⟨-, p, rfl⟩ := hpeers a q hq
  · exact h a q hq
  · exact .of_empty rfl fun _ => rfl

/-- **Every move keeps the tables guarded**, where no established peer is connected
again. -/
theorem Guards.move (h : e.Guards) (hmove : Move (· ≠ .established) e e') : e'.Guards := by
  cases hmove with
  | push _ => exact h
  | block _ => exact h
  | setPeer hp hpq => exact h.setPeer ((h _ _ hp).of_tended hpq)
  | addPeer hp => exact h.setPeer (.of_empty rfl fun _ => rfl)
  | control ip _ => exact h.send ip _
  | @connect ip p q hp hne hs hr =>
    have hempty := (h ip p hp).idle hne
    have hin : q.routing.adjIn = p.routing.adjIn := by rw [hr]
    have hout : q.routing.adjOut = p.routing.adjOut := by rw [hr]
    refine (h.setPeer ?_).send ip _
    exact .of_empty (hin.trans hempty.1) fun _ => hout.trans hempty.2
  | @opened ip p q hp hs _ hin hout =>
    have hempty := (h ip p hp).idle fun hest => by cases hs.symm.trans hest
    exact h.setPeer (.of_empty (hin.trans hempty.1) fun _ => hout.trans hempty.2)
  | @establish ip p q hp hs hs' hr =>
    have hempty := (h ip p hp).idle fun hest => by cases hs.symm.trans hest
    refine (h.setPeer ?_).advertise ip true
    exact .of_empty ((Peer.adjIn_of_routing hr).trans hempty.1) fun hne => absurd hs' hne
  | refresh ip => exact h.advertise ip true
  | @learn ip p hp hs adjIn htakes =>
    exact (h.setPeer (guarded_of_takes (h ip p hp) hs htakes)).recompute
  | drop ip now => exact h.disconnected ip now
  | originate _ => exact Guards.recompute h

theorem guards_new (config : Config) (policy : Policy) (now : ℤ) :
    (Engine.new config policy now).Guards := by
  intro ip p hp
  unfold Engine.new at hp
  dsimp only at hp
  rw [Std.ExtTreeMap.getElem?_filterMap', Option.bind_eq_some_iff] at hp
  obtain ⟨n, -, hn⟩ := hp
  obtain ⟨rule, -, rfl⟩ := Option.map_eq_some_iff.mp hn
  exact .of_empty rfl fun _ => rfl

/-! ## The table of chosen routes -/

/-- A route in a table that challenges have built was there before or is one of the
challengers. -/
theorem of_foldl_consider {l : List Route} {rib : OrderedMap Prefix Route}
    (h : (l.foldl consider rib)[pfx]? = some r) :
    rib[pfx]? = some r ∨ r ∈ l ∧ r.pfx = pfx := by
  induction l generalizing rib with
  | nil => exact Or.inl h
  | cons s l ih =>
    rcases ih h with hold | ⟨hmem, hpfx⟩
    · unfold consider at hold
      split_ifs at hold
      · rw [OrderedMap.getElem?_insert'] at hold
        split_ifs at hold with heq
        · obtain rfl := Option.some.inj hold
          exact Or.inr ⟨List.mem_cons_self, heq⟩
        · exact Or.inl hold
      · exact Or.inl hold
    · exact Or.inr ⟨List.mem_cons_of_mem s hmem, hpfx⟩

/-- Every route of the table is a candidate for its prefix. -/
theorem mem_candidates_of_bestRoutes (h : e.bestRoutes[pfx]? = some r) :
    r ∈ e.candidates pfx := by
  have hbest : e.bestRoutes = e.learned.foldl consider
      (e.origins.map fun pfx a => e.localRoute pfx a) := by
    unfold learned
    rw [List.foldl_flatMap]
    rfl
  rw [hbest] at h
  rcases of_foldl_consider h with hlocal | ⟨hlearned, hpfx⟩
  · rw [Std.ExtTreeMap.getElem?_map, Option.map_eq_some_iff] at hlocal
    obtain ⟨a, ha, rfl⟩ := hlocal
    exact mem_candidates.mpr (Or.inl ⟨a, ha, rfl⟩)
  · unfold candidates offered
    exact List.mem_filter.mpr ⟨List.mem_append_right _ hlearned, decide_eq_true hpfx⟩

/-- The tables of an engine hold no route that they should not. -/
structure LoopFree (e : Engine) : Prop where
  peers : ∀ (ip : Ipv4Addr) (p : Peer), e.peers[ip]? = some p → p.Guarded e.config.asn
  /-- A route that a peer has sent is one that it still offers, on a session. -/
  table : ∀ (pfx : Prefix) (r : Route) (ip : Ipv4Addr), e.rib[pfx]? = some r →
    r.peer = some ip → ∃ p : Peer, e.peers[ip]? = some p ∧ p.state = .established ∧
      p.adjIn[pfx]? = some r.attributes ∧ r.external = (p.remoteAs != e.config.asn) ∧
      e.config.asn ∉ r.attributes.path ∧
      (r.external → r.attributes.path.head? = some p.remoteAs)

theorem loopFree_of_chosen (hguards : e.Guards) (hchosen : e.Chosen) : e.LoopFree := by
  refine ⟨hguards, fun pfx r ip hr hpeer => ?_⟩
  rw [hchosen.settled] at hr
  rcases mem_candidates.mp (mem_candidates_of_bestRoutes hr) with
    ⟨a, -, rfl⟩ | ⟨ip', p, a, hp, hs, ha, rfl⟩
  · cases hpeer
  · obtain rfl := Option.some.inj hpeer
    refine ⟨p, hp, hs, ha, rfl, (hguards ip' p hp).loopFree pfx a ha, fun hext => ?_⟩
    exact (hguards ip' p hp).firstAs (bne_iff_ne.mp hext) pfx a ha

/-! ## What may go to a peer -/

/-- A chosen route may go to a peer. -/
structure Exportable (e : Engine) (ip : Ipv4Addr) (p : Peer) (r : Route) : Prop where
  /-- The peer is not the one that sent it. -/
  returned : r.peer ≠ some ip
  /-- It has not passed through the AS of the peer. -/
  passed : p.remoteAs ∉ r.attributes.path
  /-- It is not marked NO_ADVERTISE. -/
  advertised : 0xffffff02 ∉ r.attributes.communities
  /-- It is not marked NO_EXPORT, where the peer is external. -/
  exported : p.remoteAs ≠ e.config.asn → 0xffffff01 ∉ r.attributes.communities
  /-- No internal peer has sent it, where the peer is internal. -/
  reflected : p.remoteAs = e.config.asn → r.peer = none ∨ r.external

/-- A route with the attributes `a` may go to a peer: it is the chosen route for
its prefix as the export filter leaves it, or the default route that is originated
to the peer. -/
def Warrants (e : Engine) (ip : Ipv4Addr) (pfx : Prefix) (a : Attributes) : Prop :=
  ∃ p : Peer, e.peers[ip]? = some p ∧ p.state = .established ∧ p.remoteAs ∉ a.path ∧
    ((∃ r, e.rib[pfx]? = some r ∧ e.Exportable ip p r ∧ e.exportRoute ip p pfx r = some a) ∨
      pfx = Prefix.new Ipv4Addr.zero 0 ∧ e.exportDefault p = some a)

theorem exportable_of_exportRoute (h : e.exportRoute ip p pfx r = some a) :
    e.Exportable ip p r ∧ p.remoteAs ∉ a.path := by
  unfold exportRoute at h
  dsimp only at h
  split_ifs at h with hkept hext hlocal
  all_goals
    simp only [Bool.or_eq_true, not_or, Bool.and_eq_true, not_and, Bool.not_eq_true',
      List.contains_iff_mem, beq_iff_eq, beq_eq_false_iff_ne, Option.isSome_iff_ne_none,
      Bool.not_eq_false, ne_eq] at hkept
    obtain ⟨⟨⟨⟨hreturned, hpassed⟩, hadvertised⟩, hexported⟩, hreflected⟩ := hkept
    refine ⟨⟨hreturned, hpassed, hadvertised, hexported, fun hibgp => ?_⟩, ?_⟩
    · by_cases hnone : r.peer = none
      · exact Or.inl hnone
      · exact Or.inr (hreflected ⟨hibgp, hnone⟩)
    rw [Policy.apply_path h]
  · -- The engine's own AS goes in front, and it is not the peer's.
    rw [Bool.not_eq_true', beq_eq_false_iff_ne] at hext
    unfold Attributes.prepend
    exact fun hin => (List.mem_cons.mp hin).elim hext hpassed
  · exact hpassed
  · exact hpassed

theorem not_mem_of_exportDefault (h : e.exportDefault p = some a) : p.remoteAs ∉ a.path := by
  unfold exportDefault at h
  dsimp only at h
  split_ifs at h with horiginate hibgp
  · rw [Policy.apply_path h]
    exact List.not_mem_nil
  · rw [Policy.apply_path h]
    rw [beq_iff_eq] at hibgp
    exact fun hin => hibgp (List.mem_singleton.mp hin)

/-- Whatever a peer should be told of may go to it. -/
theorem warrants_of_desired (hp : e.peers[ip]? = some p) (hs : p.state = .established)
    (h : (e.desired ip p)[pfx]? = some a) : e.Warrants ip pfx a := by
  have hroutes (h : (e.rib.filterMap fun pfx r => e.exportRoute ip p pfx r)[pfx]? = some a) :
      e.Warrants ip pfx a := by
    rw [Std.ExtTreeMap.getElem?_filterMap', Option.bind_eq_some_iff] at h
    obtain ⟨r, hr, hexport⟩ := h
    obtain ⟨hexportable, hpath⟩ := exportable_of_exportRoute hexport
    exact ⟨p, hp, hs, hpath, Or.inl ⟨r, hr, hexportable, hexport⟩⟩
  unfold desired at h
  dsimp only at h
  split at h
  next d hdefault =>
    rw [OrderedMap.getElem?_insert'] at h
    split_ifs at h with heq
    · obtain rfl := Option.some.inj h
      exact ⟨p, hp, hs, not_mem_of_exportDefault hdefault, Or.inr ⟨heq.symm, hdefault⟩⟩
    · exact hroutes h
  next => exact hroutes h

/-- The export filter looks at the tables, the policy and the session of the peer,
and at nothing that an announcement changes. -/
theorem Warrants.congr (h : e.Warrants ip pfx a) (hc : e'.config = e.config)
    (hpol : e'.policy = e.policy) (hrib : e'.rib = e.rib)
    (hpeer : ∀ p : Peer, e.peers[ip]? = some p → ∃ q : Peer, e'.peers[ip]? = some q ∧
      q.state = p.state ∧ q.remoteAs = p.remoteAs ∧ q.here = p.here ∧ q.config = p.config) :
    e'.Warrants ip pfx a := by
  obtain ⟨p, hp, hs, hpath, hroute⟩ := h
  obtain ⟨q, hq, hqs, hqr, hqh, hqc⟩ := hpeer p hp
  have hexport (r : Route) : e'.exportRoute ip q pfx r = e.exportRoute ip p pfx r := by
    unfold exportRoute
    rw [hc, hpol, hqr, hqh, hqc]
  have hdefault : e'.exportDefault q = e.exportDefault p := by
    unfold exportDefault
    rw [hc, hpol, hqr, hqh, hqc]
  refine ⟨q, hq, hqs.trans hs, hqr ▸ hpath, ?_⟩
  rw [hrib, hdefault]
  rcases hroute with ⟨r, hr, -, hroute⟩ | hroute
  · have hroute' : e'.exportRoute ip q pfx r = some a := (hexport r).trans hroute
    exact Or.inl ⟨r, hr, (exportable_of_exportRoute hroute').1, hroute'⟩
  · exact Or.inr hroute

theorem Warrants.advertise {force : Bool} (h : e.Warrants ip pfx a) (hp : e.peers[ip']? = some p)
    (hs : p.state = .established) : (e.advertise ip' force).Warrants ip pfx a := by
  rw [advertise_eq force hp hs]
  refine h.congr rfl rfl rfl fun q hq => ?_
  rw [emit_peers, getElem?_setPeer]
  by_cases heq : ip' = ip
  · subst heq
    obtain rfl := Option.some.inj (hp.symm.trans hq)
    exact ⟨_, if_pos rfl, rfl, rfl, rfl, rfl⟩
  · exact ⟨q, (if_neg heq).trans hq, rfl, rfl, rfl, rfl⟩

/-! ## The queue -/

/-- Each route in the UPDATEs of a list of actions may go to its peer. -/
def Warranted (e : Engine) (acts : List Action) : Prop :=
  ∀ ip b withdrawn a nlri, .send ip b (.update withdrawn a nlri) ∈ acts →
    ∀ pfx ∈ nlri, e.Warrants ip pfx a

/-- Between two engines only warranted UPDATEs have been queued. -/
def Queues (e e' : Engine) : Prop :=
  ∃ acts, e'.actions = e.actions ++ acts ∧ e'.Warranted acts

theorem warranted_nil : e.Warranted [] := fun _ _ _ _ _ h => absurd h List.not_mem_nil

theorem queues_of_actions_eq (h : e'.actions = e.actions) : e.Queues e' :=
  ⟨[], h.trans (List.append_nil _).symm, warranted_nil⟩

theorem Queues.refl : e.Queues e := queues_of_actions_eq rfl

/-- A message without routes. -/
theorem queues_send (ip : Ipv4Addr) {m : Message} (hm : ∀ w a nlri, m ≠ .update w a nlri) :
    e.Queues (e.send ip m) := by
  unfold send
  split
  · exact .refl
  · dsimp only
    split_ifs
    · refine ⟨_, rfl, fun ip b w a nlri hmem => ?_⟩
      cases List.mem_singleton.mp hmem
      exact absurd rfl (hm w a nlri)
    · exact queues_of_actions_eq rfl

/-- An announcement queues what may go to its peer. -/
theorem warranted_announcements {force : Bool} (hp : e.peers[ip]? = some p)
    (hs : p.state = .established) :
    e.Warranted (e.sends ip p (e.announcements ip p force)) := by
  intro ip' b withdrawn a nlri hmem pfx hpfx
  obtain ⟨m, hm, heq⟩ := List.mem_map.mp hmem
  obtain ⟨hm, -⟩ := List.mem_filter.mp hm
  cases heq
  rcases List.mem_append.mp hm with hm | hm
  · split_ifs at hm
    · cases List.mem_singleton.mp hm
      cases hpfx
    · cases hm
  · obtain ⟨⟨q, d⟩, hq, heq⟩ := List.mem_map.mp hm
    cases heq
    obtain rfl := List.mem_singleton.mp hpfx
    have hd := Std.ExtTreeMap.mem_toList_iff_getElem?_eq_some.mp (List.mem_filter.mp hq).1
    exact warrants_of_desired hp hs hd

/-- What was warranted before an announcement is warranted after it, and so is what
it queues. -/
theorem Queues.advertise {e₀ : Engine} (h : e₀.Queues e) (ip : Ipv4Addr) (force : Bool) :
    e₀.Queues (e.advertise ip force) := by
  by_cases hest : ∃ p, e.peers[ip]? = some p ∧ p.state = .established
  · obtain ⟨p, hp, hs⟩ := hest
    obtain ⟨acts, hacts, hwarranted⟩ := h
    refine ⟨acts ++ e.sends ip p (e.announcements ip p force), ?_, ?_⟩
    · rw [advertise_eq force hp hs, emit_actions, setPeer_actions, hacts, List.append_assoc]
    · intro ip' b withdrawn a nlri hmem pfx hpfx
      refine Warrants.advertise ?_ hp hs
      rcases List.mem_append.mp hmem with hmem | hmem
      · exact hwarranted ip' b withdrawn a nlri hmem pfx hpfx
      · exact warranted_announcements hp hs ip' b withdrawn a nlri hmem pfx hpfx
  · rw [advertise_of_not_established fun p hp hs => hest ⟨p, hp, hs⟩]
    exact h

theorem queues_recompute {e₀ : Engine} (h : e.actions = e₀.actions) : e₀.Queues e.recompute := by
  refine recompute_induction (fun _ => queues_of_actions_eq h) ?_ fun _ ip h => h.advertise ip false
  refine ⟨[.routesChanged], ?_, fun ip b w a nlri hmem => ?_⟩
  · rw [push_actions, h]
  · cases List.mem_singleton.mp hmem

theorem queues_disconnected (ip : Ipv4Addr) (now : ℤ) : e.Queues (e.disconnected ip now) := by
  obtain ⟨blocked, peers, heq, -⟩ := exists_disconnected e ip now
  rw [heq]
  exact queues_recompute rfl

/-- **Every move queues only UPDATEs that its outcome warrants.** -/
theorem Move.queues (h : Move connectable e e') : e.Queues e' := by
  cases h with
  | push h =>
    refine ⟨_, rfl, fun ip b w a nlri hmem => ?_⟩
    exact absurd (List.mem_singleton.mp hmem).symm (h ip b _)
  | block _ => exact .refl
  | setPeer _ _ => exact queues_of_actions_eq rfl
  | addPeer _ => exact queues_of_actions_eq rfl
  | control ip hm =>
    refine queues_send ip fun w a nlri heq => ?_
    rw [heq] at hm
    cases hm
  | @connect ip p q =>
    obtain ⟨acts, hacts, hwarranted⟩ :
      (e.setPeer ip q).Queues ((e.setPeer ip q).send ip e.opening) :=
      queues_send ip fun _ _ _ heq => Message.noConfusion heq
    exact ⟨acts, hacts, hwarranted⟩
  | opened _ _ _ _ _ => exact queues_of_actions_eq rfl
  | establish _ _ _ _ => exact (queues_of_actions_eq rfl).advertise _ true
  | refresh ip => exact Queues.refl.advertise ip true
  | learn _ _ _ => exact queues_recompute rfl
  | drop ip now => exact queues_disconnected ip now
  | originate _ => exact queues_recompute rfl

/-! ## Runs -/

/-- The engines that a run passes, those within an event too. -/
def Passed (e : Engine) : Prop :=
  ∃ config policy now, Moves (· ≠ .established) (Engine.new config policy now) e

theorem Passed.loopFree (h : e.Passed) : e.LoopFree := by
  obtain ⟨config, policy, now, hmoves⟩ := h
  have hboth : e.Guards ∧ e.Chosen := by
    induction hmoves with
    | refl => exact ⟨guards_new config policy now, chosen_new config policy now⟩
    | tail _ hmove ih => exact ⟨ih.1.move hmove, ih.2.move hmove⟩
  exact loopFree_of_chosen hboth.1 hboth.2

theorem Reachable.passed (h : Reachable OneSession e) : e.Passed := by
  induction h with
  | new config policy now => exact ⟨config, policy, now, .refl⟩
  | @step e now ev _ hev ih =>
    obtain ⟨config, policy, now₀, hmoves⟩ := ih
    refine ⟨config, policy, now₀, hmoves.trans (step_moves now ev fun ip here p heq hp => ?_)⟩
    subst heq
    exact hev p hp

/-- **The move that queued an UPDATE warrants it.**  The place of the UPDATE in the
queue says which move that was. -/
theorem exists_move_of_update (h : e.Passed) {i : ℕ} {bytes : List Byte}
    {withdrawn nlri : List Prefix}
    (hi : e.actions[i]? = some (.send ip bytes (.update withdrawn a nlri))) (hpfx : pfx ∈ nlri) :
    ∃ e₀ e₁ : Engine, e₀.Passed ∧ Move (· ≠ .established) e₀ e₁ ∧
      Moves (· ≠ .established) e₁ e ∧ e₀.actions.length ≤ i ∧ i < e₁.actions.length ∧
      e₁.Warrants ip pfx a := by
  obtain ⟨config, policy, now, hmoves⟩ := h
  induction hmoves with
  | refl => cases hi
  | @tail e e' hpassed hmove ih =>
    obtain ⟨acts, hacts, hwarranted⟩ := hmove.queues
    rw [hacts] at hi
    by_cases hlt : i < e.actions.length
    · rw [List.getElem?_append_left hlt] at hi
      obtain ⟨e₀, e₁, h₀, h₁, hrest, hplace⟩ := ih hi
      exact ⟨e₀, e₁, h₀, h₁, hrest.tail hmove, hplace⟩
    · have hle : e.actions.length ≤ i := not_lt.mp hlt
      rw [List.getElem?_append_right hle] at hi
      obtain ⟨hbound, -⟩ := List.getElem?_eq_some_iff.mp hi
      refine ⟨e, e', ⟨config, policy, now, hpassed⟩, hmove, .refl, hle, ?_, ?_⟩
      · rw [hacts, List.length_append]
        omega
      · exact hwarranted ip bytes withdrawn a nlri (List.mem_of_getElem? hi) pfx hpfx

/-- **Loops and leaks are prevented along every run** in which a connection is
reported for a peer only where its last session is over. -/
theorem loops_and_leaks (h : Reachable OneSession e) :
    e.LoopFree ∧ ∀ (i : ℕ) (ip : Ipv4Addr) (bytes : List Byte) (withdrawn : List Prefix)
      (a : Attributes) (nlri : List Prefix),
      e.actions[i]? = some (.send ip bytes (.update withdrawn a nlri)) → ∀ pfx ∈ nlri,
        ∃ e₀ e₁ : Engine, e₀.Passed ∧ Move (· ≠ .established) e₀ e₁ ∧
          Moves (· ≠ .established) e₁ e ∧ e₀.actions.length ≤ i ∧ i < e₁.actions.length ∧
          e₁.LoopFree ∧ e₁.Warrants ip pfx a := by
  refine ⟨h.passed.loopFree, fun i ip bytes withdrawn a nlri hi pfx hpfx => ?_⟩
  obtain ⟨e₀, e₁, ⟨config, policy, now, h₀⟩, h₁, hrest, hle, hlt, hwarrants⟩ :=
    exists_move_of_update h.passed hi hpfx
  have hpassed : e₁.Passed := ⟨config, policy, now, h₀.tail h₁⟩
  exact ⟨e₀, e₁, ⟨config, policy, now, h₀⟩, h₁, hrest, hle, hlt, hpassed.loopFree, hwarrants⟩

/-- The events by which the first of two neighbors announces a route. -/
def relayEvents : List (ℤ × Event) :=
  handshake 1 1 2 ++ handshake 2 2 3 ++
    [routeFrom 1 { Attributes.default with path := [1], nextHop := speakerIp 1 }]

def relayed : Engine := (speaker [(1, 1), (2, 2)]).run relayEvents

theorem reachable_relayed : Reachable OneSession relayed :=
  (Reachable.new _ _ _).run_of_admits relayEvents (by decide +kernel)

theorem loops_and_leaks_relayed :
    relayed.LoopFree ∧ ∀ (i : ℕ) (ip : Ipv4Addr) (bytes : List Byte) (withdrawn : List Prefix)
      (a : Attributes) (nlri : List Prefix),
      relayed.actions[i]? = some (.send ip bytes (.update withdrawn a nlri)) → ∀ pfx ∈ nlri,
        ∃ e₀ e₁ : Engine, e₀.Passed ∧ Move (· ≠ .established) e₀ e₁ ∧
          Moves (· ≠ .established) e₁ relayed ∧ e₀.actions.length ≤ i ∧ i < e₁.actions.length ∧
          e₁.LoopFree ∧ e₁.Warrants ip pfx a :=
  loops_and_leaks reachable_relayed

/-- An established peer that is connected again keeps its routes. -/
theorem not_idle_always :
    ¬ ∀ (e : Engine) (ip : Ipv4Addr) (p : Peer), Reachable Always e → e.peers[ip]? = some p →
      p.state ≠ .established → p.adjIn = ∅ ∧ p.adjOut = ∅ := by
  intro h
  have hkept :
    ∃ p, (relayed.step 0 (.connected (speakerIp 1) (speakerIp 254))).peers[speakerIp 1]? =
      some p ∧ p.state = .openSent ∧ p.adjIn.size = 1 := by
    have hview :
      ((relayed.step 0 (.connected (speakerIp 1) (speakerIp 254))).peers[speakerIp 1]?).map
        (fun p => (p.state, p.adjIn.size)) = some (.openSent, 1) := by
      decide +kernel
    obtain ⟨p, hp, hpair⟩ := Option.map_eq_some_iff.mp hview
    exact ⟨p, hp, congrArg Prod.fst hpair, congrArg Prod.snd hpair⟩
  obtain ⟨p, hp, hs, hsize⟩ := hkept
  have hreachable : Reachable Always (relayed.step 0 (.connected (speakerIp 1) (speakerIp 254))) :=
    ((Reachable.new _ _ _).run relayEvents).step 0 _ trivial
  have hempty := (h _ _ p hreachable hp (by rw [hs]; exact State.noConfusion)).1
  rw [hempty] at hsize
  cases hsize

end EvansComputer.Bgp.Engine
