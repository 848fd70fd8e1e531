import EvansComputer.Bgp.Moves
import EvansComputer.Library.Champion

/-!
# The decision process

`recompute` lets the routes for a prefix challenge each other one after the
other.  The result is the champion of the candidates in the sense of the library,
as long as there is room for all prefixes, and the table always holds it.

The comparison `better` is not a linear order.  Its first four criteria are: where
a route comes from, its local preference, the length of its path and its origin
(`rank`).  The next one, the MED, is compared only between routes whose paths begin
with the same AS, so that three routes of equal rank can beat each other in a
circle.  Where that cannot happen (`MedOrdered`) the route in the table beats
every other candidate, in whatever order the peers are visited.
-/

namespace EvansComputer.Bgp

/-! ## The comparison of two routes -/

/-- The criteria that come before the MED; less is better. -/
def rank (r : Route) : ℕ ×ₗ ℕ ×ₗ ℕ ×ₗ ℕ :=
  toLex (if r.peer.isNone then 0 else 1,
    toLex (4294967295 - r.attributes.localPref.toNat,
      toLex (r.attributes.pathLength, r.attributes.origin.toNat)))

/-- The peer of a route, as it is ordered: no peer comes first. -/
def peerKey (r : Route) : WithBot Ipv4Addr :=
  match r.peer with
  | none => ⊥
  | some p => (p : WithBot Ipv4Addr)

/-- The criteria that come after the MED; less is better. -/
def lastCriteria (r : Route) : ℕ ×ₗ Ipv4Addr ×ₗ WithBot Ipv4Addr :=
  toLex (if r.external then 0 else 1, toLex (r.routerId, peerKey r))

theorem tieBreak_iff {r s : Route} :
    tieBreak r s ↔ toLex (r.routerId, peerKey r) < toLex (s.routerId, peerKey s) := by
  rw [Prod.Lex.toLex_lt_toLex]
  unfold tieBreak peerKey
  by_cases hid : r.routerId = s.routerId
  · rw [if_neg (not_not.mpr hid)]
    have hlt : ¬ r.routerId < s.routerId := hid ▸ lt_irrefl _
    cases hr : r.peer with
    | none =>
      cases hs : s.peer with
      | none => simp [hid]
      | some q => simp [hid]
    | some p =>
      cases hs : s.peer with
      | none => simp [hid]
      | some q => simp [hid]
  · rw [if_pos hid]
    simp [hid]

theorem rank_lt_iff {r s : Route} :
    rank r < rank s ↔
      if r.peer.isNone ≠ s.peer.isNone then r.peer.isNone
      else if r.attributes.localPref ≠ s.attributes.localPref then
        s.attributes.localPref < r.attributes.localPref
      else if r.attributes.pathLength ≠ s.attributes.pathLength then
        r.attributes.pathLength < s.attributes.pathLength
      else r.attributes.origin < s.attributes.origin := by
  have hpref : r.attributes.localPref = s.attributes.localPref ↔
      r.attributes.localPref.toNat = s.attributes.localPref.toNat := UInt32.toNat_inj.symm
  have hr := r.attributes.localPref.toNat_lt
  have hs := s.attributes.localPref.toNat_lt
  unfold rank
  simp only [Prod.Lex.toLex_lt_toLex, ne_eq, hpref, UInt32.lt_iff_toNat_lt, UInt8.lt_iff_toNat_lt]
  cases r.peer.isNone <;> cases s.peer.isNone <;> simp <;> split_ifs <;> omega

theorem rank_eq_iff {r s : Route} :
    rank r = rank s ↔
      r.peer.isNone = s.peer.isNone ∧ r.attributes.localPref = s.attributes.localPref ∧
        r.attributes.pathLength = s.attributes.pathLength ∧
        r.attributes.origin = s.attributes.origin := by
  have hpref : r.attributes.localPref = s.attributes.localPref ↔
      r.attributes.localPref.toNat = s.attributes.localPref.toNat := UInt32.toNat_inj.symm
  have horigin : r.attributes.origin = s.attributes.origin ↔
      r.attributes.origin.toNat = s.attributes.origin.toNat := UInt8.toNat_inj.symm
  have hr := r.attributes.localPref.toNat_lt
  have hs := s.attributes.localPref.toNat_lt
  unfold rank
  simp only [toLex_inj, Prod.mk.injEq, hpref, horigin]
  cases r.peer.isNone <;> cases s.peer.isNone <;> simp <;> omega

/-- The MED decides between two routes. -/
def MedDecides (a b : Route) : Prop :=
  a.attributes.path.head? = b.attributes.path.head? ∧ a.attributes.med ≠ b.attributes.med

instance {a b : Route} : Decidable (MedDecides a b) := inferInstanceAs (Decidable (_ ∧ _))

/-- The decision process is the rank, then the MED where it decides, then the last
criteria. -/
theorem better_iff {a b : Route} :
    better a b ↔ rank a < rank b ∨ rank a = rank b ∧
      if MedDecides a b then a.attributes.med.toNat < b.attributes.med.toNat
      else lastCriteria a < lastCriteria b := by
  have hlast : lastCriteria a < lastCriteria b ↔
      if a.external ≠ b.external then a.external else tieBreak a b := by
    unfold lastCriteria
    rw [Prod.Lex.toLex_lt_toLex, ← tieBreak_iff]
    cases a.external <;> cases b.external <;> simp
  rw [hlast, rank_lt_iff, rank_eq_iff, ← UInt32.lt_iff_toNat_lt]
  unfold better MedDecides
  by_cases h₁ : a.peer.isNone = b.peer.isNone
  · by_cases h₂ : a.attributes.localPref = b.attributes.localPref
    · by_cases h₃ : a.attributes.pathLength = b.attributes.pathLength
      · by_cases h₄ : a.attributes.origin = b.attributes.origin
        · simp only [h₁, h₂, h₃, h₄, ne_eq, not_true_eq_false, if_false, and_self, true_and]
          split_ifs <;> simp_all
        · simp [h₁, h₂, h₃, h₄]
      · simp [h₁, h₂, h₃]
    · simp [h₁, h₂]
  · simp [h₁]

theorem ranked_better : Ranked better rank where
  wins h := better_iff.mpr (Or.inl h)
  loses := by
    intro a b h
    refine Bool.eq_false_iff.mpr fun hbetter => ?_
    rcases better_iff.mp hbetter with hlt | ⟨heq, -⟩
    · exact lt_asymm h hlt
    · exact absurd heq h.ne'

theorem better_asymm (a b : Route) (h : better a b) : better b a = false := by
  refine Bool.eq_false_iff.mpr fun hba => ?_
  have hmed : MedDecides b a ↔ MedDecides a b := by
    unfold MedDecides
    rw [eq_comm, ne_comm]
  rcases better_iff.mp h with hlt | ⟨heq, hab⟩
  · exact Bool.eq_false_iff.mp (ranked_better.loses hlt) hba
  · rcases better_iff.mp hba with hlt | ⟨-, hba⟩
    · exact absurd heq hlt.ne'
    · rw [if_congr hmed rfl rfl] at hba
      split_ifs at hab hba
      · exact lt_asymm hab hba
      · exact lt_asymm hab hba

/-- Among the best candidates the MED decides between none, or all have paths that
begin with the same AS. -/
def MedOrdered (l : List Route) : Prop :=
  ∀ a b c, IsTop rank l a → IsTop rank l b → IsTop rank l c → MedDecides a b →
    c.attributes.path.head? = a.attributes.path.head?

/-- Routes from different peers differ in the last criteria. -/
theorem lastCriteria_ne {a b : Route} (h : a.peer ≠ b.peer) :
    lastCriteria a ≠ lastCriteria b := by
  intro heq
  unfold lastCriteria at heq
  simp only [toLex_inj, Prod.mk.injEq] at heq
  refine h ?_
  have hkey := heq.2.2
  unfold peerKey at hkey
  cases ha : a.peer with
  | none =>
    cases hb : b.peer with
    | none => rfl
    | some q => simp [ha, hb] at hkey
  | some p =>
    cases hb : b.peer with
    | none => simp [ha, hb] at hkey
    | some q => simpa [ha, hb] using hkey

/-- **Where MEDs make no circle the comparison is a strict linear order** on the
best candidates. -/
theorem decides_of_medOrdered {l : List Route} (hmed : MedOrdered l)
    (hpeer : ∀ a ∈ l, ∀ b ∈ l, a ≠ b → a.peer ≠ b.peer) : Decides better rank l := by
  have htop {a b : Route} (ha : IsTop rank l a) (hb : IsTop rank l b) :
      better a b ↔ if MedDecides a b then a.attributes.med.toNat < b.attributes.med.toNat
        else lastCriteria a < lastCriteria b := by
    rw [better_iff, ha.rank_eq hb]
    simp only [lt_irrefl, false_or, true_and]
  constructor
  · intro a b ha hb hne
    have hsymm : MedDecides b a ↔ MedDecides a b := by
      unfold MedDecides
      rw [eq_comm, ne_comm]
    rw [htop ha hb, htop hb ha, if_congr hsymm rfl rfl]
    split_ifs with h
    · exact lt_or_gt_of_ne fun heq => h.2 (UInt32.toNat_inj.mp heq)
    · exact lt_or_gt_of_ne (lastCriteria_ne (hpeer a ha.1 b hb.1 hne))
  · intro a b c ha hb hc hab hbc
    by_cases hsome : ∃ x y, IsTop rank l x ∧ IsTop rank l y ∧ MedDecides x y
    · -- All the best routes come from one AS: the MED, then the last criteria.
      obtain ⟨x, y, hx, hy, hxy⟩ := hsome
      have hhead {z w : Route} (hz : IsTop rank l z) (hw : IsTop rank l w) :
          z.attributes.path.head? = w.attributes.path.head? :=
        (hmed x y z hx hy hz hxy).trans (hmed x y w hx hy hw hxy).symm
      have hlex {z w : Route} (hz : IsTop rank l z) (hw : IsTop rank l w) :
          better z w ↔ toLex (z.attributes.med.toNat, lastCriteria z) <
            toLex (w.attributes.med.toNat, lastCriteria w) := by
        rw [htop hz hw, Prod.Lex.toLex_lt_toLex]
        unfold MedDecides
        by_cases heq : z.attributes.med = w.attributes.med
        · simp [heq]
        · simp [heq, hhead hz hw, UInt32.toNat_inj]
      rw [hlex ha hc]
      exact ((hlex ha hb).mp hab).trans ((hlex hb hc).mp hbc)
    · have hlast {z w : Route} (hz : IsTop rank l z) (hw : IsTop rank l w) :
          better z w ↔ lastCriteria z < lastCriteria w := by
        rw [htop hz hw, if_neg fun h => hsome ⟨z, w, hz, hw, h⟩]
      rw [hlast ha hc]
      exact ((hlast ha hb).mp hab).trans ((hlast hb hc).mp hbc)

/-! ## The candidates -/

namespace Engine

variable {e e' : Engine} {ip : Ipv4Addr} {p : Peer} {q : Prefix} {r : Route} {now : ℤ}

/-- A local network as a route. -/
def localRoute (e : Engine) (pfx : Prefix) (a : Attributes) : Route where
  pfx := pfx
  attributes := a
  peer := none
  external := false
  routerId := e.config.routerId

/-- A route that a peer has sent. -/
def learnedRoute (e : Engine) (ip : Ipv4Addr) (p : Peer) (pfx : Prefix) (a : Attributes) :
    Route where
  pfx := pfx
  attributes := a
  peer := some ip
  external := p.remoteAs != e.config.asn
  routerId := p.routerId

/-- The routes of the established peers, in the order in which they are visited. -/
def learned (e : Engine) : List Route :=
  e.peers.toList.flatMap fun x => offers e.config.asn x.1 x.2

/-- All routes that the decision process chooses from. -/
def offered (e : Engine) : List Route :=
  (e.origins.toList.map fun x => e.localRoute x.1 x.2) ++ e.learned

/-- The routes for one prefix. -/
def candidates (e : Engine) (q : Prefix) : List Route := e.offered.filter fun r => r.pfx = q

/-- A prefix is held by the local origins or by an established peer. -/
def Holds (e : Engine) (q : Prefix) : Prop :=
  q ∈ e.origins ∨
    ∃ (ip : Ipv4Addr) (p : Peer), e.peers[ip]? = some p ∧ p.state = .established ∧ q ∈ p.adjIn

theorem mem_offers : r ∈ offers e.config.asn ip p ↔
    p.state = .established ∧ ∃ q a, p.adjIn[q]? = some a ∧ r = e.learnedRoute ip p q a := by
  unfold offers
  by_cases hs : p.state = .established
  · rw [if_neg (not_not.mpr hs), List.mem_map]
    constructor
    · rintro ⟨⟨q, a⟩, hmem, rfl⟩
      exact ⟨hs, q, a, Std.ExtTreeMap.mem_toList_iff_getElem?_eq_some.mp hmem, rfl⟩
    · rintro ⟨-, q, a, ha, rfl⟩
      exact ⟨(q, a), Std.ExtTreeMap.mem_toList_iff_getElem?_eq_some.mpr ha, rfl⟩
  · rw [if_pos hs]
    exact ⟨fun h => absurd h List.not_mem_nil, fun h => absurd h.1 hs⟩

/-- A candidate is a local network or what an established peer has sent. -/
theorem mem_candidates : r ∈ e.candidates q ↔
    (∃ a, e.origins[q]? = some a ∧ r = e.localRoute q a) ∨
      ∃ (ip : Ipv4Addr) (p : Peer) (a : Attributes), e.peers[ip]? = some p ∧
        p.state = .established ∧ p.adjIn[q]? = some a ∧ r = e.learnedRoute ip p q a := by
  unfold candidates offered learned
  rw [List.mem_filter, decide_eq_true_eq, List.mem_append, List.mem_map, List.mem_flatMap]
  constructor
  · rintro ⟨⟨⟨q', a⟩, hmem, rfl⟩ | ⟨⟨ip, p⟩, hmem, hr⟩, rfl⟩
    · exact Or.inl ⟨a, Std.ExtTreeMap.mem_toList_iff_getElem?_eq_some.mp hmem, rfl⟩
    · obtain ⟨hs, q', a, ha, rfl⟩ := mem_offers.mp hr
      exact Or.inr ⟨ip, p, a, Std.ExtTreeMap.mem_toList_iff_getElem?_eq_some.mp hmem, hs, ha, rfl⟩
  · rintro (⟨a, ha, rfl⟩ | ⟨ip, p, a, hp, hs, ha, rfl⟩)
    · exact ⟨Or.inl ⟨(q, a), Std.ExtTreeMap.mem_toList_iff_getElem?_eq_some.mpr ha, rfl⟩, rfl⟩
    · exact ⟨Or.inr ⟨(ip, p), Std.ExtTreeMap.mem_toList_iff_getElem?_eq_some.mpr hp,
        mem_offers.mpr ⟨hs, q, a, ha, rfl⟩⟩, rfl⟩

theorem candidates_ne_nil (h : e.Holds q) : e.candidates q ≠ [] := by
  have hmem : ∃ r, r ∈ e.candidates q := by
    rcases h with h | ⟨ip, p, hp, hs, h⟩
    · obtain ⟨a, ha⟩ := Option.isSome_iff_exists.mp (Std.ExtTreeMap.mem_iff_isSome_getElem?.mp h)
      exact ⟨_, mem_candidates.mpr (Or.inl ⟨a, ha, rfl⟩)⟩
    · obtain ⟨a, ha⟩ := Option.isSome_iff_exists.mp (Std.ExtTreeMap.mem_iff_isSome_getElem?.mp h)
      exact ⟨_, mem_candidates.mpr (Or.inr ⟨ip, p, a, hp, hs, ha, rfl⟩)⟩
  obtain ⟨r, hr⟩ := hmem
  exact List.ne_nil_of_mem hr

/-- Two candidates for one prefix come from two places. -/
theorem peer_ne_of_candidates {a b : Route} (ha : a ∈ e.candidates q) (hb : b ∈ e.candidates q)
    (hne : a ≠ b) : a.peer ≠ b.peer := by
  intro heq
  refine hne ?_
  rcases mem_candidates.mp ha with ⟨x, hx, rfl⟩ | ⟨ip, p, x, hp, -, hx, rfl⟩
  · rcases mem_candidates.mp hb with ⟨y, hy, rfl⟩ | ⟨ip, p, y, hp, -, hy, rfl⟩
    · rw [Option.some.inj (hx.symm.trans hy)]
    · cases heq
  · rcases mem_candidates.mp hb with ⟨y, hy, rfl⟩ | ⟨ip', p', y, hp', -, hy, rfl⟩
    · cases heq
    · obtain rfl : ip = ip' := Option.some.inj heq
      obtain rfl : p = p' := Option.some.inj (hp.symm.trans hp')
      rw [Option.some.inj (hx.symm.trans hy)]

/-! ## The table that is built -/

/-- There is room for a prefix among no more than `maxPrefixes`. -/
theorem has_room {rib : OrderedMap Prefix Route} {K : List Prefix} (hrib : ∀ q ∈ rib, q ∈ K)
    (hK : K.dedup.length ≤ maxPrefixes) (hq : q ∈ K) :
    rib.size < maxPrefixes ∨ q ∈ rib := by
  by_contra hfull
  obtain ⟨hsize, hnew⟩ := not_or.mp hfull
  have hnodup : (q :: rib.keys).Nodup :=
    List.nodup_cons.mpr ⟨fun h => hnew (Std.ExtTreeMap.mem_keys.mp h), OrderedMap.nodup_keys⟩
  have hsub : q :: rib.keys ⊆ K.dedup := by
    intro a ha
    rcases List.mem_cons.mp ha with rfl | ha
    · exact List.mem_dedup.mpr hq
    · exact List.mem_dedup.mpr (hrib a (Std.ExtTreeMap.mem_keys.mp ha))
  have hlength := (List.subperm_of_subset hnodup hsub).length_le
  rw [List.length_cons, Std.ExtTreeMap.length_keys] at hlength
  omega

/-- A challenge for one prefix leaves the others alone. -/
theorem getElem?_consider {rib : OrderedMap Prefix Route}
    (hroom : rib.size < maxPrefixes ∨ r.pfx ∈ rib) :
    (consider rib r)[q]? = if r.pfx = q then challenge better rib[q]? r else rib[q]? := by
  have hroom' : (decide (rib.size < maxPrefixes) || rib.contains r.pfx) = true := by
    rw [Bool.or_eq_true, decide_eq_true_eq]
    exact hroom
  unfold consider
  rw [hroom', Bool.and_true]
  by_cases hq : r.pfx = q
  · subst hq
    rw [if_pos rfl]
    unfold challenge
    cases hold : rib[r.pfx]? with
    | none =>
      dsimp only
      rw [if_pos rfl, OrderedMap.getElem?_insert', if_pos rfl]
    | some old =>
      dsimp only
      split_ifs
      · rw [OrderedMap.getElem?_insert', if_pos rfl]
      · exact hold
  · rw [if_neg hq]
    split_ifs
    · rw [OrderedMap.getElem?_insert', if_neg hq]
    · rfl

theorem getElem?_foldl_consider {K : List Prefix} (hK : K.dedup.length ≤ maxPrefixes)
    {l : List Route} {rib : OrderedMap Prefix Route} (hrib : ∀ q ∈ rib, q ∈ K)
    (hl : ∀ r ∈ l, r.pfx ∈ K) :
    (l.foldl consider rib)[q]? =
      (l.filter fun r => r.pfx = q).foldl (challenge better) rib[q]? := by
  induction l generalizing rib with
  | nil => rfl
  | cons r l ih =>
    have hr : r.pfx ∈ K := hl r List.mem_cons_self
    have hlookup := fun q => getElem?_consider (q := q) (has_room hrib hK hr)
    have hrib' : ∀ q ∈ consider rib r, q ∈ K := by
      intro a ha
      by_cases hra : r.pfx = a
      · exact hra ▸ hr
      · rw [Std.ExtTreeMap.mem_iff_isSome_getElem?, hlookup, if_neg hra,
          ← Std.ExtTreeMap.mem_iff_isSome_getElem?] at ha
        exact hrib a ha
    rw [List.foldl_cons, ih hrib' fun r' hr' => hl r' (List.mem_cons_of_mem r hr'), hlookup,
      List.filter_cons]
    by_cases hq : r.pfx = q
    · rw [if_pos hq, if_pos (decide_eq_true hq), List.foldl_cons]
    · rw [if_neg hq, if_neg (mt of_decide_eq_true hq)]

/-- **The table holds the champion of the candidates for each prefix**, where there
is room for all prefixes. -/
theorem getElem?_bestRoutes (hroom : (e.offered.map Route.pfx).dedup.length ≤ maxPrefixes) :
    e.bestRoutes[q]? = champion better (e.candidates q) := by
  let start : OrderedMap Prefix Route := e.origins.map fun pfx a => e.localRoute pfx a
  have hbest : e.bestRoutes = e.learned.foldl consider start := by
    unfold learned
    rw [List.foldl_flatMap]
    rfl
  have hstart : start[q]? = (e.origins[q]?).map (e.localRoute q) := Std.ExtTreeMap.getElem?_map
  have hlocal : ((e.origins.toList.map fun x => e.localRoute x.1 x.2).filter fun r => r.pfx = q) =
      (e.origins[q]?).toList.map (e.localRoute q) := by
    rw [List.filter_map]
    have hkeys : ((fun r : Route => decide (r.pfx = q)) ∘ fun x : Prefix × Attributes =>
        e.localRoute x.1 x.2) = fun x => decide (x.1 = q) := rfl
    rw [hkeys, OrderedMap.filter_toList, List.map_map]
    rfl
  rw [hbest, getElem?_foldl_consider hroom, hstart]
  · unfold champion candidates offered
    rw [List.filter_append, List.foldl_append, hlocal]
    cases e.origins[q]? <;> rfl
  · intro a ha
    rw [Std.ExtTreeMap.mem_iff_isSome_getElem?] at ha
    obtain ⟨r, hr⟩ := Option.isSome_iff_exists.mp ha
    have hr' : (e.origins[a]?).map (e.localRoute a) = some r := by
      rw [← hr]
      exact Std.ExtTreeMap.getElem?_map.symm
    obtain ⟨x, hx, rfl⟩ := Option.map_eq_some_iff.mp hr'
    refine List.mem_map.mpr ⟨e.localRoute a x, List.mem_append_left _ (List.mem_map.mpr ?_), rfl⟩
    exact ⟨(a, x), Std.ExtTreeMap.mem_toList_iff_getElem?_eq_some.mpr hx, rfl⟩
  · intro r hr
    exact List.mem_map.mpr ⟨r, List.mem_append_right _ hr, rfl⟩

/-! ## The table is up to date after every event -/

/-- A connection is reported for a peer only where its last session is over. -/
def OneSession (e : Engine) : Event → Prop
  | .connected ip _ => ∀ p, e.peers[ip]? = some p → p.state ≠ .established
  | _ => True

instance {e : Engine} {ev : Event} : Decidable (OneSession e ev) :=
  match ev with
  | .connected ip _ =>
    match hp : e.peers[ip]? with
    | none => isTrue fun p h => by rw [hp] at h; cases h
    | some p =>
      if hs : p.state = .established then isFalse fun h => h p hp hs
      else isTrue fun q hq => by rw [hp] at hq; cases hq; exact hs
  | .accept _ | .disconnected _ | .receive _ _ | .poll | .setOrigins _ | .clear _ => isTrue trivial

/-- Every event of a run is admissible where it happens. -/
def admits (e : Engine) : List (ℤ × Event) → Bool
  | [] => true
  | ev :: evs => decide (OneSession e ev.2) && admits (e.step ev.1 ev.2) evs

theorem Reachable.run_of_admits (h : Reachable OneSession e) (evs : List (ℤ × Event))
    (hadm : e.admits evs) : Reachable OneSession (e.run evs) := by
  induction evs generalizing e with
  | nil => exact h
  | cons ev evs ih =>
    obtain ⟨hev, hevs⟩ := (Bool.and_eq_true _ _).mp hadm
    exact ih (h.step ev.1 ev.2 (of_decide_eq_true hev)) hevs

/-- The table is the one that would be built again, and only established peers have
routes. -/
structure Chosen (e : Engine) : Prop where
  settled : e.rib = e.bestRoutes
  silent : ∀ (ip : Ipv4Addr) (p : Peer), e.peers[ip]? = some p → p.state ≠ .established →
    p.adjIn = ∅

theorem bestRoutes_congr (hc : e'.config = e.config) (horigins : e'.origins = e.origins)
    (hoffers : ∀ a : Ipv4Addr, e'.peers[a]?.elim [] (offers e.config.asn a) =
      e.peers[a]?.elim [] (offers e.config.asn a)) : e'.bestRoutes = e.bestRoutes := by
  have hlearned : e'.learned = e.learned := by
    unfold learned
    rw [hc]
    exact OrderedMap.flatMap_toList_congr hoffers
  have hbest (e : Engine) : e.bestRoutes = e.learned.foldl consider
      (e.origins.map fun pfx a => e.localRoute pfx a) := by
    unfold learned
    rw [List.foldl_flatMap]
    rfl
  have hlocal : e'.localRoute = e.localRoute := by
    unfold localRoute
    rw [hc]
  rw [hbest, hbest, hlearned, horigins, hlocal]

/-- A change after which every peer offers what it offered. -/
theorem Chosen.keep (h : e.Chosen) (hc : e'.config = e.config) (hrib : e'.rib = e.rib)
    (horigins : e'.origins = e.origins)
    (hoffers : ∀ a : Ipv4Addr, e'.peers[a]?.elim [] (offers e.config.asn a) =
      e.peers[a]?.elim [] (offers e.config.asn a))
    (hsilent : ∀ (a : Ipv4Addr) (p : Peer), e'.peers[a]? = some p → p.state ≠ .established →
      p.adjIn = ∅) : e'.Chosen where
  settled := by rw [hrib, bestRoutes_congr hc horigins hoffers, h.settled]
  silent := hsilent

theorem offers_of_not_established (hs : p.state ≠ .established) (asn : UInt32) :
    offers asn ip p = [] := if_pos hs

theorem offers_of_tended {q : Peer} (h : p.Tended q) (asn : UInt32) :
    offers asn ip q = offers asn ip p := by
  obtain ⟨hr, hs | ⟨hp, hq⟩⟩ := h
  · unfold offers
    rw [hs, Peer.adjIn_of_routing hr, Peer.remoteAs_of_routing hr, Peer.routerId_of_routing hr]
  · have hne {s : State} (h : s.unconnected) : s ≠ .established := by
      rintro rfl
      cases h
    rw [offers_of_not_established (hne hp), offers_of_not_established (hne hq)]

/-- A change of one peer to one that offers the same. -/
theorem Chosen.setPeer {q : Peer} (h : e.Chosen)
    (hoffers : offers e.config.asn ip q = e.peers[ip]?.elim [] (offers e.config.asn ip))
    (hsilent : q.state ≠ .established → q.adjIn = ∅) : (e.setPeer ip q).Chosen := by
  refine h.keep rfl rfl rfl (fun a => ?_) fun a p hp => ?_
  · rw [getElem?_setPeer]
    split_ifs with heq
    · rw [← heq, ← hoffers]
      rfl
    · rfl
  · rw [getElem?_setPeer] at hp
    split_ifs at hp with heq
    · cases hp
      exact hsilent
    · exact h.silent a p hp

theorem Chosen.tended {q : Peer} (h : e.Chosen) (hp : e.peers[ip]? = some p) (hpq : p.Tended q) :
    (e.setPeer ip q).Chosen := by
  refine h.setPeer ?_ fun hs => ?_
  · rw [hp]
    exact offers_of_tended hpq e.config.asn
  · rw [Peer.adjIn_of_routing hpq.1]
    refine h.silent ip p hp ?_
    obtain ⟨-, hsame | ⟨hun, -⟩⟩ := hpq
    · exact hsame ▸ hs
    · rintro hest
      rw [hest] at hun
      cases hun

theorem Chosen.emit (h : e.Chosen) (acts : List Action) : (e.emit acts).Chosen :=
  h.keep rfl rfl rfl (fun _ => rfl) h.silent

theorem Chosen.send (h : e.Chosen) (ip : Ipv4Addr) (m : Message) : (e.send ip m).Chosen := by
  obtain ⟨hc, -, hrib, horigins, -, hsession⟩ := send_frame ip m e
  have hview (a : Ipv4Addr) (o : Option Peer) :
      o.elim [] (offers e.config.asn a) =
        (o.map Peer.session).elim [] (offers e.config.asn a) := by
    cases o <;> rfl
  refine h.keep hc hrib horigins (fun a => ?_) fun a p hp hs => ?_
  · rw [hview, hsession, ← hview]
  · have hsame := hsession a
    rw [hp, Option.map_some] at hsame
    obtain ⟨p', hp', heq⟩ := Option.map_eq_some_iff.mp hsame.symm
    have hstate : (Peer.session p').state = (Peer.session p).state := by rw [heq]
    have hadjIn : (Peer.session p').adjIn = (Peer.session p).adjIn := by rw [heq]
    exact hadjIn.symm.trans (h.silent a p' hp' fun hest => hs (hstate.symm.trans hest))

theorem Chosen.advertise (h : e.Chosen) (ip : Ipv4Addr) (force : Bool) :
    (e.advertise ip force).Chosen := by
  by_cases hest : ∃ p, e.peers[ip]? = some p ∧ p.state = .established
  · obtain ⟨p, hp, hs⟩ := hest
    rw [advertise_eq force hp hs]
    refine Chosen.emit (h.setPeer ?_ ?_) _
    · rw [hp]
      rfl
    · exact fun hne => absurd hs hne
  · rw [advertise_of_not_established fun p hp hs => hest ⟨p, hp, hs⟩]
    exact h

/-- Choosing again makes the table right, whatever it was. -/
theorem chosen_recompute
    (hsilent : ∀ (ip : Ipv4Addr) (p : Peer), e.peers[ip]? = some p → p.state ≠ .established →
      p.adjIn = ∅) : e.recompute.Chosen :=
  recompute_induction (fun heq => ⟨heq.symm, hsilent⟩) ⟨rfl, hsilent⟩
    fun _ ip h => h.advertise ip false

theorem chosen_disconnected (h : e.Chosen) (ip : Ipv4Addr) (now : ℤ) :
    (e.disconnected ip now).Chosen := by
  obtain ⟨blocked, peers, heq, hpeers⟩ := exists_disconnected e ip now
  rw [heq]
  refine chosen_recompute fun a q hq => ?_
  obtain ⟨hq, -⟩ | ⟨-, p, rfl⟩ := hpeers a q hq
  · exact h.silent a q hq
  · exact fun _ => rfl

/-- **Every move keeps the table up to date**, where no established peer is
connected again. -/
theorem Chosen.move (h : e.Chosen) (hmove : Move (· ≠ .established) e e') : e'.Chosen := by
  cases hmove with
  | push ha => exact h.emit _
  | block blocked => exact h.keep rfl rfl rfl (fun _ => rfl) h.silent
  | setPeer hp hpq => exact h.tended hp hpq
  | addPeer hp =>
    refine h.setPeer ?_ fun _ => rfl
    rw [hp]
    rfl
  | control ip hm => exact h.send ip _
  | @connect ip p q hp hne hs hr =>
    have hq : q.state ≠ .established := by rw [hs]; decide
    have hin : q.routing.adjIn = p.routing.adjIn := by rw [hr]
    refine (h.setPeer ?_ fun _ => ?_).send ip _
    · rw [hp, offers_of_not_established hq]
      exact (offers_of_not_established hne _).symm
    · exact hin.trans (h.silent ip p hp hne)
  | @opened ip p q hp hs hs' hin hout =>
    have hne : p.state ≠ .established := by rw [hs]; decide
    have hq : q.state ≠ .established := by rw [hs']; decide
    refine h.setPeer ?_ fun _ => ?_
    · rw [hp, offers_of_not_established hq]
      exact (offers_of_not_established hne _).symm
    · exact hin.trans (h.silent ip p hp hne)
  | @establish ip p q hp hs hs' hr =>
    -- A session that begins has no routes yet.
    have hne : p.state ≠ .established := by rw [hs]; decide
    refine (h.setPeer ?_ fun hq => absurd hs' hq).advertise ip true
    have hin : q.adjIn = ∅ := (Peer.adjIn_of_routing hr).trans (h.silent ip p hp hne)
    have hoffers : offers e.config.asn ip q = [] := by
      unfold offers
      rw [hin, if_neg (not_not.mpr hs')]
      rfl
    rw [hp, hoffers]
    exact (offers_of_not_established hne _).symm
  | refresh ip => exact h.advertise ip true
  | @learn ip p hp hs =>
    refine chosen_recompute fun a q hq => ?_
    rw [getElem?_setPeer] at hq
    split_ifs at hq
    · cases hq
      exact fun hne => absurd hs hne
    · exact h.silent a q hq
  | drop ip now => exact chosen_disconnected h ip now
  | originate horigins => exact chosen_recompute h.silent

theorem chosen_new (config : Config) (policy : Policy) (now : ℤ) :
    (Engine.new config policy now).Chosen := by
  have hidle (ip : Ipv4Addr) (p : Peer) (hp : (Engine.new config policy now).peers[ip]? = some p) :
      p.state ≠ .established ∧ p.adjIn = ∅ := by
    unfold Engine.new at hp
    dsimp only at hp
    rw [Std.ExtTreeMap.getElem?_filterMap', Option.bind_eq_some_iff] at hp
    obtain ⟨n, -, hn⟩ := hp
    obtain ⟨rule, -, rfl⟩ := Option.map_eq_some_iff.mp hn
    exact ⟨State.noConfusion, rfl⟩
  have hempty : ({ Engine.new config policy now with peers := ∅ } : Engine).Chosen :=
    ⟨rfl, fun ip p hp => absurd (Std.ExtTreeMap.getElem?_empty.symm.trans hp)
      (Option.some_ne_none p).symm⟩
  refine hempty.keep rfl rfl rfl (fun a => ?_) fun a p hp _ => (hidle a p hp).2
  cases hp : (Engine.new config policy now).peers[a]? with
  | none => rfl
  | some p => exact offers_of_not_established (hidle a p hp).1 config.asn

theorem Reachable.chosen (h : Reachable OneSession e) : e.Chosen :=
  Reachable.invariant (· ≠ .established) Chosen
    (fun _ _ _ _ hadm hp => hadm _ hp) chosen_new (fun _ _ h hmove => h.move hmove) h

/-- **The decision process chooses the best route.**  For a prefix that is held,
the table has a route of the held ones, which no other exceeds in the criteria
before the MED.  Where MEDs make no circle it beats every other, and any order of
visiting the candidates chooses it. -/
theorem rib_best (h : Reachable OneSession e)
    (hroom : (e.offered.map Route.pfx).dedup.length ≤ maxPrefixes) (hq : e.Holds q) :
    ∃ r, e.rib[q]? = some r ∧ r ∈ e.candidates q ∧
      (∀ c ∈ e.candidates q, rank r ≤ rank c) ∧
      (MedOrdered (e.candidates q) →
        (∀ c ∈ e.candidates q, c ≠ r → better r c ∧ better c r = false) ∧
        ∀ l : List Route, l.Perm (e.candidates q) → champion better l = some r) := by
  obtain ⟨r, hr, -⟩ := exists_champion ranked_better (candidates_ne_nil hq)
  have hrib : e.rib[q]? = some r := by
    rw [h.chosen.settled, getElem?_bestRoutes hroom, hr]
  refine ⟨r, hrib, mem_of_champion ranked_better hr, rank_le_of_champion ranked_better hr,
    fun hmed => ?_⟩
  have hdec : Decides better rank (e.candidates q) :=
    decides_of_medOrdered hmed fun a ha b hb => peer_ne_of_candidates ha hb
  constructor
  · intro c hc hne
    have hwin : better r c := beats_of_champion ranked_better hdec hr c hc hne
    exact ⟨hwin, better_asymm r c hwin⟩
  · intro l hperm
    rw [champion_perm ranked_better hdec better_asymm hperm, hr]

/-- The events by which three neighbors announce a route each.  The first and the
third are of AS 1 and differ in the MED, the second is of AS 2. -/
def circleEvents : List (ℤ × Event) :=
  handshake 1 1 2 ++ handshake 2 2 3 ++ handshake 3 1 4 ++
    [routeFrom 1 { Attributes.default with path := [1], nextHop := speakerIp 1, med := 10 },
      routeFrom 2 { Attributes.default with path := [2], nextHop := speakerIp 2, med := 0 },
      routeFrom 3 { Attributes.default with path := [1], nextHop := speakerIp 3, med := 5 }]

def circle : Engine := (speaker [(1, 1), (2, 2), (3, 1)]).run circleEvents

/-- The first and the third neighbor alone, both of AS 1. -/
def pairEvents : List (ℤ × Event) :=
  handshake 1 1 2 ++ handshake 3 1 4 ++
    [routeFrom 1 { Attributes.default with path := [1], nextHop := speakerIp 1, med := 10 },
      routeFrom 3 { Attributes.default with path := [1], nextHop := speakerIp 3, med := 5 }]

def pair : Engine := (speaker [(1, 1), (2, 2), (3, 1)]).run pairEvents

theorem reachable_circle : Reachable OneSession circle :=
  (Reachable.new _ _ _).run_of_admits circleEvents (by decide +kernel)

/-- The prefix of the three routes. -/
def circlePrefix : Prefix := Prefix.new ⟨198, 51, 100, 0⟩ 24

/-- What the run comes to: there is room for all prefixes, the first peer holds the
one of the routes, and some candidate beats the route in the table. -/
theorem circle_outcome :
    (circle.offered.map Route.pfx).dedup.length ≤ maxPrefixes ∧
      (circle.peers[speakerIp 1]?).any (fun p =>
        p.state = .established && p.adjIn.contains circlePrefix) ∧
      (circle.rib[circlePrefix]?).any fun r =>
        (circle.candidates circlePrefix).any fun c => better c r := by
  decide +kernel

theorem circle_holds : circle.Holds circlePrefix := by
  obtain ⟨p, hp, hheld⟩ := (Option.any_eq_true _ _).mp circle_outcome.2.1
  obtain ⟨hs, hmem⟩ := (Bool.and_eq_true _ _).mp hheld
  exact Or.inr ⟨speakerIp 1, p, hp, of_decide_eq_true hs, hmem⟩

/-- Between the routes of one AS the MED decides, in whatever order they are visited. -/
theorem rib_best_pair :
    ∃ r, pair.rib[circlePrefix]? = some r ∧ r.attributes.med = 5 ∧
      (pair.candidates circlePrefix).length = 2 ∧
      (∀ c ∈ pair.candidates circlePrefix, rank r ≤ rank c) ∧
      (∀ c ∈ pair.candidates circlePrefix, c ≠ r → better r c ∧ better c r = false) ∧
      ∀ l : List Route, l.Perm (pair.candidates circlePrefix) → champion better l = some r := by
  have hpair : (pair.offered.map Route.pfx).dedup.length ≤ maxPrefixes ∧
      (pair.peers[speakerIp 1]?).any
        (fun p => p.state = .established && p.adjIn.contains circlePrefix) ∧
      (pair.rib[circlePrefix]?).all (fun r => r.attributes.med = 5) ∧
      (pair.candidates circlePrefix).length = 2 ∧
      (pair.candidates circlePrefix).all fun c => c.attributes.path.head? = some 1 := by
        decide +kernel
  obtain ⟨hroom, hheld, hmed, hlength, hsame⟩ := hpair
  have hpath (c : Route) (hc : c ∈ pair.candidates circlePrefix) :
    c.attributes.path.head? = some 1 :=
    of_decide_eq_true (List.all_eq_true.mp hsame c hc)
  obtain ⟨p, hp, hheld⟩ := (Option.any_eq_true _ _).mp hheld
  obtain ⟨hs, hmem⟩ := (Bool.and_eq_true _ _).mp hheld
  have hreach : Reachable OneSession pair :=
    (Reachable.new _ _ _).run_of_admits pairEvents (by decide +kernel)
  obtain ⟨r, hr, -, hrank, hbest⟩ :=
    rib_best hreach hroom (Or.inr ⟨speakerIp 1, p, hp, of_decide_eq_true hs, hmem⟩)
  rw [hr] at hmed
  obtain ⟨hbeats, hperm⟩ := hbest fun a b c ha _ hc _ => (hpath c hc.1).trans (hpath a ha.1).symm
  exact ⟨r, hr, of_decide_eq_true hmed, hlength, hrank, hbeats, hperm⟩

/-- The route in the table is not always one that no candidate beats. -/
theorem rib_not_always_unbeaten :
    ¬ ∀ (e : Engine) (q : Prefix), Reachable OneSession e →
      (e.offered.map Route.pfx).dedup.length ≤ maxPrefixes → e.Holds q →
      ∃ r, e.rib[q]? = some r ∧ r ∈ e.candidates q ∧
        ∀ c ∈ e.candidates q, better c r = false := by
  intro h
  obtain ⟨r, hr, -, hunbeaten⟩ :=
    h circle circlePrefix reachable_circle circle_outcome.1 circle_holds
  obtain ⟨r', hr', hbeaten⟩ := (Option.any_eq_true _ _).mp circle_outcome.2.2
  cases hr.symm.trans hr'
  obtain ⟨c, hc, hwin⟩ := List.any_eq_true.mp hbeaten
  rw [hunbeaten c hc] at hwin
  cases hwin

end EvansComputer.Bgp.Engine
