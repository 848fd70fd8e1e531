import EvansComputer.Bgp.BestPath

/-!
# The buffers of the peers

Between the events an engine keeps, for each peer, the bytes that are not yet a
whole message.  No method looks at a buffer but the loop of `receive`: putting more
bytes into one commutes with all the others (`feed`), except that a session which
ends loses its buffer.  The other half of the same fact is that no method but
`receive` fills a buffer (`Quiet`), which bounds them all.
-/

namespace EvansComputer.Bgp.Engine

variable {e e' e'' : Engine} {ip a : Ipv4Addr} {p q : Peer} {m : Message} {now : ℤ} {s : List Byte}

/-! ## What announcements leave of a peer -/

/-- A session without what an announcement changes. -/
def Peer.standing (p : Peer) : Peer := { Peer.session p with adjOut := ∅ }

theorem standing_send (e : Engine) (ip : Ipv4Addr) (m : Message) (a : Ipv4Addr) :
    (e.send ip m).peers[a]?.map Peer.standing = e.peers[a]?.map Peer.standing := by
  obtain ⟨-, -, -, -, -, hsession⟩ := send_frame ip m e
  have hview (o : Option Peer) : o.map Peer.standing =
      (o.map Peer.session).map fun p => { p with adjOut := ∅ } := by
    cases o <;> rfl
  rw [hview, hsession, ← hview]

theorem standing_setPeer (hp : e.peers[ip]? = some p) (h : Peer.standing q = Peer.standing p) :
    (e.setPeer ip q).peers[a]?.map Peer.standing = e.peers[a]?.map Peer.standing := by
  rw [getElem?_setPeer]
  split_ifs with heq
  · rw [← heq, hp, Option.map_some, Option.map_some, h]
  · rfl

theorem standing_advertise (e : Engine) (ip : Ipv4Addr) (force : Bool) (a : Ipv4Addr) :
    (e.advertise ip force).peers[a]?.map Peer.standing = e.peers[a]?.map Peer.standing := by
  by_cases hest : ∃ p, e.peers[ip]? = some p ∧ p.state = .established
  · obtain ⟨p, hp, hs⟩ := hest
    rw [advertise_eq force hp hs]
    exact standing_setPeer hp rfl
  · rw [advertise_of_not_established fun p hp hs => hest ⟨p, hp, hs⟩]

theorem standing_recompute (e : Engine) (a : Ipv4Addr) :
    e.recompute.peers[a]?.map Peer.standing = e.peers[a]?.map Peer.standing :=
  recompute_induction
    (P := fun e' => e'.peers[a]?.map Peer.standing = e.peers[a]?.map Peer.standing)
    (fun _ => rfl) rfl fun e' ip h => (standing_advertise e' ip false a).trans h

/-- A peer with the same standing. -/
theorem exists_of_standing (h : e'.peers[a]?.map Peer.standing = e.peers[a]?.map Peer.standing)
    (hq : e'.peers[a]? = some q) :
    ∃ p, e.peers[a]? = some p ∧ p.state = q.state ∧ p.input = q.input ∧ p.adjIn = q.adjIn := by
  rw [hq, Option.map_some] at h
  obtain ⟨p, hp, hpq⟩ := Option.map_eq_some_iff.mp h.symm
  have hadj : (Peer.standing p).adjIn = (Peer.standing q).adjIn := by rw [hpq]
  have hstate : (Peer.standing p).state = (Peer.standing q).state := by rw [hpq]
  have hinput : (Peer.standing p).input = (Peer.standing q).input := by rw [hpq]
  exact ⟨p, hp, hstate, hinput, hadj⟩

/-! ## Sessions that go on and sessions that end -/

theorem alive_eq (e : Engine) (ip : Ipv4Addr) :
    e.alive ip = (e.peers[ip]?.map fun p => decide (p.state ≠ .idle ∧ p.state ≠ .active)).getD
      false := by
  unfold alive
  cases e.peers[ip]? with
  | none => rfl
  | some p => simp

theorem alive_of_standing
    (h : e'.peers[ip]?.map Peer.standing = e.peers[ip]?.map Peer.standing) :
    e'.alive ip = e.alive ip := by
  have hview (o : Option Peer) :
      o.map (fun p => decide (p.state ≠ .idle ∧ p.state ≠ .active)) =
        (o.map Peer.standing).map fun p => decide (p.state ≠ .idle ∧ p.state ≠ .active) := by
    cases o <;> rfl
  rw [alive_eq, alive_eq, hview, h, ← hview]

theorem alive_setPeer : (e.setPeer ip p).alive ip = true ↔ p.state ≠ .idle ∧ p.state ≠ .active := by
  rw [alive_eq, getElem?_setPeer_self]
  simp

/-- A connection that is gone leaves no live session, an empty buffer and no routes. -/
theorem peer_of_disconnected (hq : (e.disconnected ip now).peers[ip]? = some q) :
    (q.state = .idle ∨ q.state = .active) ∧ q.input = [] ∧ q.adjIn = ∅ := by
  obtain ⟨blocked, peers, heq, hpeers⟩ := exists_disconnected e ip now
  rw [heq] at hq
  obtain ⟨p, hp, hstate, hinput, hadj⟩ := exists_of_standing (standing_recompute _ ip) hq
  rw [← hstate, ← hinput, ← hadj]
  obtain ⟨-, hne⟩ | ⟨-, r, rfl⟩ := hpeers ip p hp
  · exact absurd rfl hne
  · refine ⟨?_, rfl, rfl⟩
    unfold Peer.down
    dsimp only
    split_ifs
    · exact Or.inl rfl
    · exact Or.inr rfl

theorem alive_disconnected : (e.disconnected ip now).alive ip = false := by
  cases hq : (e.disconnected ip now).peers[ip]? with
  | none =>
    unfold alive
    rw [hq]
  | some q =>
    unfold alive
    rw [hq]
    rcases (peer_of_disconnected hq).1 with h | h <;> simp [h]

/-! ## Methods that fill no buffer -/

/-- Every buffer is empty or as it was. -/
def Quiet (e e' : Engine) : Prop :=
  ∀ (a : Ipv4Addr) (q : Peer), e'.peers[a]? = some q →
    q.input = [] ∨ ∃ p, e.peers[a]? = some p ∧ p.input = q.input

theorem Quiet.refl (e : Engine) : e.Quiet e := fun _ q hq => Or.inr ⟨q, hq, rfl⟩

theorem Quiet.trans (h : e.Quiet e') (h' : e'.Quiet e'') : e.Quiet e'' := by
  intro a q hq
  rcases h' a q hq with hempty | ⟨p, hp, hpq⟩
  · exact Or.inl hempty
  · rcases h a p hp with hempty | ⟨r, hr, hrp⟩
    · exact Or.inl (hpq ▸ hempty)
    · exact Or.inr ⟨r, hr, hrp.trans hpq⟩

theorem quiet_of_standing
    (h : ∀ a : Ipv4Addr, e'.peers[a]?.map Peer.standing = e.peers[a]?.map Peer.standing) :
    e.Quiet e' := by
  intro a q hq
  obtain ⟨p, hp, -, hinput, -⟩ := exists_of_standing (h a) hq
  exact Or.inr ⟨p, hp, hinput⟩

theorem quiet_setPeer (h : q.input = [] ∨ ∃ p, e.peers[ip]? = some p ∧ p.input = q.input) :
    e.Quiet (e.setPeer ip q) := by
  intro a r hr
  rw [getElem?_setPeer] at hr
  split_ifs at hr with heq
  · cases hr
    exact heq ▸ h
  · exact Or.inr ⟨r, hr, rfl⟩

/-- A change of a peer that leaves its buffer. -/
theorem quiet_tend (hp : e.peers[ip]? = some p) (h : p.input = q.input) :
    e.Quiet (e.setPeer ip q) := quiet_setPeer (Or.inr ⟨p, hp, h⟩)

theorem quiet_send (ip : Ipv4Addr) (m : Message) : e.Quiet (e.send ip m) :=
  quiet_of_standing (standing_send e ip m)

theorem quiet_advertise (ip : Ipv4Addr) (force : Bool) : e.Quiet (e.advertise ip force) :=
  quiet_of_standing (standing_advertise e ip force)

theorem quiet_recompute : e.Quiet e.recompute := quiet_of_standing (standing_recompute e)

theorem quiet_disconnected (ip : Ipv4Addr) (now : ℤ) : e.Quiet (e.disconnected ip now) := by
  obtain ⟨blocked, peers, heq, hpeers⟩ := exists_disconnected e ip now
  rw [heq]
  refine Quiet.trans (fun a q hq => ?_) quiet_recompute
  obtain ⟨hq, -⟩ | ⟨-, p, rfl⟩ := hpeers a q hq
  · exact Or.inr ⟨q, hq, rfl⟩
  · exact Or.inl rfl

theorem quiet_fail (ip : Ipv4Addr) (code subcode : Byte) (now : ℤ) :
    e.Quiet (e.fail ip code subcode now) :=
  (quiet_send ip (.notification code subcode)).trans (quiet_disconnected ip now)

theorem quiet_foldl {α : Type} {f : Engine → α → Engine} (h : ∀ e a, Quiet e (f e a))
    (l : List α) (e : Engine) : e.Quiet (l.foldl f e) := by
  induction l generalizing e with
  | nil => exact .refl e
  | cons a l ih => exact (h e a).trans (ih (f e a))

theorem quiet_clearPeer (now : ℤ) (ip : Ipv4Addr) : e.Quiet (e.clearPeer now ip) := by
  unfold clearPeer
  cases hp : e.peers[ip]? with
  | none => exact .refl e
  | some p =>
    dsimp only
    have hlift : e.Quiet (e.setPeer ip { p with prefixBlock := none }) := quiet_tend hp rfl
    refine hlift.trans ?_
    generalize e.setPeer ip { p with prefixBlock := none } = e
    have hnotify : e.Quiet
        (if p.state ≠ .idle ∧ p.state ≠ .active ∧ p.state ≠ .connect then
          e.send ip (.notification 6 4)
        else e) := by
      split_ifs
      · exact quiet_send ip _
      · exact .refl e
    refine hnotify.trans ?_
    generalize (if p.state ≠ .idle ∧ p.state ≠ .active ∧ p.state ≠ .connect then
      e.send ip (.notification 6 4) else e) = e
    have hdrop : e.Quiet ((e.push (.close ip)).disconnected ip now) :=
      quiet_disconnected (e := e.push (.close ip)) ip now
    refine hdrop.trans ?_
    intro a q hq
    have hq : (_ : OrderedMap Ipv4Addr Peer)[a]? = some q := hq
    rw [OrderedMap.getElem?_modify'] at hq
    split_ifs at hq
    · obtain ⟨r, hr, rfl⟩ := Option.map_eq_some_iff.mp hq
      exact Or.inr ⟨r, hr, rfl⟩
    · exact Or.inr ⟨q, hq, rfl⟩

theorem quiet_clear (ip : Option Ipv4Addr) (now : ℤ) : e.Quiet (e.clear ip now) :=
  quiet_foldl (fun _ ip => quiet_clearPeer now ip) _ _

theorem quiet_pollState (hp : e.peers[ip]? = some p) : e.Quiet (e.pollState ip p now).1 := by
  unfold pollState
  cases p.state with
  | idle | active | connect =>
    dsimp only
    split_ifs
    · exact quiet_tend hp rfl
    · exact .refl e
  | openSent | openConfirm =>
    dsimp only
    split_ifs
    · exact quiet_fail ip 4 0 now
    · exact .refl e
  | established =>
    dsimp only
    split_ifs
    · exact quiet_fail ip 4 0 now
    · refine Quiet.trans ?_ (quiet_send ip .keepalive)
      exact quiet_tend hp rfl
    · exact .refl e

theorem quiet_pollPeer (now : ℤ) (s : Engine × ℤ) (ip : Ipv4Addr) :
    Quiet s.1 (pollPeer now s ip).1 := by
  obtain ⟨e, deadline⟩ := s
  unfold pollPeer
  dsimp only
  cases hp : e.peers[ip]? with
  | none => exact .refl e
  | some p =>
    dsimp only
    have hinput : p.input = (Peer.unblocked p now).input := by
      unfold Peer.unblocked
      cases p.prefixBlock <;> rfl
    have hquiet : e.Quiet
        ((e.setPeer ip (Peer.unblocked p now)).pollState ip (Peer.unblocked p now) now).1 :=
      (quiet_tend hp hinput).trans (quiet_pollState getElem?_setPeer_self)
    split_ifs
    · exact .refl e
    · exact .refl e
    · exact hquiet
    · split <;> exact hquiet

theorem quiet_poll : e.Quiet (e.poll now).1 := by
  unfold poll
  have h (ips : List Ipv4Addr) (s : Engine × ℤ) : Quiet s.1 (ips.foldl (pollPeer now) s).1 := by
    induction ips generalizing s with
    | nil => exact .refl s.1
    | cons ip ips ih => exact (quiet_pollPeer now s ip).trans (ih _)
  exact h e.peers.keys (e, never)

theorem quiet_accept (ip : Ipv4Addr) (now : ℤ) : e.Quiet (e.accept ip now).1 := by
  unfold accept
  cases hp : e.peers[ip]? with
  | some p =>
    dsimp only
    split_ifs <;> exact .refl e
  | none =>
    have hsame : e.Quiet { e with blocked := e.blocked.erase ip } := fun _ q hq =>
      Or.inr ⟨q, hq, rfl⟩
    dsimp only
    split_ifs
    · exact .refl e
    · split
      · exact hsame
      · split
        · exact hsame
        · split_ifs
          · exact hsame
          · exact hsame
          · refine hsame.trans ?_
            exact quiet_setPeer (Or.inl rfl)

theorem quiet_connected (ip here : Ipv4Addr) (now : ℤ) : e.Quiet (e.connected ip here now) := by
  unfold connected
  cases hp : e.peers[ip]? with
  | none => exact .refl e
  | some p =>
    dsimp only
    split_ifs
    · exact .refl e
    · refine Quiet.trans ?_ (quiet_send ip _)
      exact quiet_setPeer (Or.inl rfl)

theorem quiet_setOrigins (prefixes : List Prefix) : e.Quiet (e.setOrigins prefixes) := by
  unfold setOrigins
  dsimp only
  split_ifs
  · exact Quiet.trans (fun _ q hq => Or.inr ⟨q, hq, rfl⟩) quiet_recompute
  · exact .refl e

/-! ## Messages fill no buffer -/

theorem quiet_update (hp : e.peers[ip]? = some p) (withdrawn : List Prefix) (b : Attributes)
    (nlri : List Prefix) : e.Quiet (e.update ip p withdrawn b nlri now) := by
  unfold update
  dsimp only
  generalize (if (p.remoteAs != e.config.asn) = true then { b with localPref := 100 } else b) = b
  generalize e.install p b nlri _ = r
  split_ifs
  · refine Quiet.trans ?_ (quiet_fail ip 6 1 now)
    exact quiet_tend hp rfl
  · split
    · refine Quiet.trans ?_ (quiet_fail ip 6 1 now)
      exact quiet_tend hp rfl
    · refine Quiet.trans ?_ quiet_recompute
      exact quiet_tend hp rfl

theorem quiet_opened (hp : e.peers[ip]? = some p) (asn : UInt32) (hold : UInt16) (id : Ipv4Addr)
    (as4 refresh : Bool) : e.Quiet (e.opened ip p asn hold id as4 refresh now) := by
  unfold opened
  dsimp only
  split_ifs
  · exact quiet_fail ip 2 2 now
  · exact quiet_fail ip 2 3 now
  all_goals
    refine Quiet.trans ?_ (quiet_send ip .keepalive)
    exact quiet_tend hp rfl

theorem quiet_establish (hp : e.peers[ip]? = some p) : e.Quiet (e.establish ip p now) := by
  unfold establish
  refine Quiet.trans ?_ (quiet_advertise ip true)
  exact quiet_tend hp rfl

theorem quiet_answer (hp : e.peers[ip]? = some p) (m : Message) :
    e.Quiet (e.answer ip p m now) := by
  have hfail : e.Quiet (e.fail ip 5 0 now) := quiet_fail ip 5 0 now
  have hnotified (state : State) (err : Option LastError) : e.Quiet
      (((e.setPeer ip { p with state := state, lastError := err }).push
        (.close ip)).disconnected ip now) := by
    refine Quiet.trans ?_ (quiet_disconnected ip now)
    exact quiet_tend hp rfl
  unfold answer
  cases p.state with
  | idle | connect | active =>
    cases m with
    | notification code subcode => exact hnotified _ _
    | _ => exact hfail
  | openSent =>
    cases m with
    | «open» asn hold id as4 refresh => exact quiet_opened hp asn hold id as4 refresh
    | notification code subcode => exact hnotified _ _
    | _ => exact hfail
  | openConfirm =>
    cases m with
    | keepalive => exact quiet_establish hp
    | notification code subcode => exact hnotified _ _
    | _ => exact hfail
  | established =>
    cases m with
    | keepalive => exact .refl e
    | update withdrawn b nlri => exact quiet_update hp withdrawn b nlri
    | notification code subcode => exact hnotified _ _
    | «open» asn hold id as4 refresh => exact hfail
    | refresh =>
      dsimp only
      split_ifs
      · exact quiet_advertise ip true
      · exact hfail

theorem quiet_message (ip : Ipv4Addr) (m : Message) (now : ℤ) :
    e.Quiet (e.message ip m now) := by
  unfold message
  cases hp : e.peers[ip]? with
  | none => exact .refl e
  | some p =>
    have hinput : p.input = (Peer.heard p now).input := by
      unfold Peer.heard
      split_ifs <;> rfl
    exact (quiet_tend hp hinput).trans (quiet_answer getElem?_setPeer_self m)

end EvansComputer.Bgp.Engine
