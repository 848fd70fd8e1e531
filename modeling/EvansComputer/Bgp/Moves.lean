import EvansComputer.Bgp.Run
import Mathlib.Logic.Relation

/-!
# What the engine's methods can do

An event runs through many methods, and each invariant of the engine would have
to be carried through all of them.  Instead the whole engine is read once as a
small transition system: a `Move` is one elementary change, and every event is a
sequence of moves (`step_moves`).  An invariant then owes one argument for each
move.

A move is as large as it has to be for the invariants to hold between moves.
Where a method changes what a peer offers and then chooses routes again, the two
are one move; so are the change of state and the announcement that establish a
session.  Everything about timers, counters, buffers and the states without a
connection is the single move `setPeer`, for which `Peer.Tended` says what stays.
-/

namespace EvansComputer.Bgp

/-- The states in which a peer has no connection. -/
def State.unconnected : State → Bool
  | .idle | .connect | .active => true
  | .openSent | .openConfirm | .established => false

namespace Peer

/-- A peer without its state, its timers, its buffer and its counters. -/
def routing (p : Peer) : Peer :=
  { p with
    state := .idle
    retry := 0
    holdDeadline := 0
    keepaliveDeadline := 0
    negotiatedHold := 0
    msgsIn := 0
    msgsOut := 0
    since := 0
    lastError := none
    prefixBlock := none
    input := [] }

/-- `q` is `p` after a change that is not about routes and opens no connection. -/
def Tended (p q : Peer) : Prop :=
  p.routing = q.routing ∧ (q.state = p.state ∨ p.state.unconnected ∧ q.state.unconnected)

theorem Tended.of_state {p q : Peer} (hr : p.routing = q.routing) (hs : q.state = p.state) :
    p.Tended q := ⟨hr, Or.inl hs⟩

section

variable {p q : Peer} (h : p.routing = q.routing)

include h

theorem config_of_routing : q.config = p.config := (congrArg Peer.config h).symm
theorem remoteAs_of_routing : q.remoteAs = p.remoteAs := (congrArg Peer.remoteAs h).symm
theorem routerId_of_routing : q.routerId = p.routerId := (congrArg Peer.routerId h).symm
theorem adjIn_of_routing : q.adjIn = p.adjIn := (congrArg Peer.adjIn h).symm
theorem adjOut_of_routing : q.adjOut = p.adjOut := (congrArg Peer.adjOut h).symm

end

end Peer

namespace Engine

variable {e e' : Engine} {ip : Ipv4Addr} {p q : Peer} {now : ℤ}

/-- The OPEN that the engine sends. -/
def opening (e : Engine) : Message := .open e.config.asn e.config.hold e.config.routerId true true

/-- Messages that carry nothing about routes and open no session. -/
def control : Message → Bool
  | .keepalive | .notification _ _ => true
  | .open _ _ _ _ _ | .update _ _ _ | .refresh => false

/-- A table that an UPDATE without failure leaves a peer with. -/
def Takes (e : Engine) (p : Peer) (adjIn : OrderedMap Prefix Attributes) : Prop :=
  overLimit { p with adjIn := adjIn } = none ∧
    ∃ (withdrawn : List Prefix) (a : Attributes) (nlri : List Prefix),
      e.install p a nlri (withdrawn.foldl (fun adjIn pfx => adjIn.erase pfx) p.adjIn) =
        (adjIn, false)

/-- One elementary change of an engine.  A peer may be connected in a state that
`connectable` allows. -/
inductive Move (connectable : State → Prop) (e : Engine) : Engine → Prop
  | push {a : Action} (h : ∀ ip b m, a ≠ .send ip b m) : Move connectable e (e.push a)
  | block (blocked : OrderedMap Ipv4Addr ℤ) : Move connectable e { e with blocked := blocked }
  | setPeer {ip : Ipv4Addr} {p q : Peer} (hp : e.peers[ip]? = some p) (h : p.Tended q) :
      Move connectable e (e.setPeer ip q)
  | addPeer {ip : Ipv4Addr} (hp : e.peers[ip]? = none) (config : Neighbor) (remoteAs : UInt32)
      (dynamic : Option String) (hold : UInt16) (now : ℤ) :
      Move connectable e (e.setPeer ip (Peer.new config remoteAs dynamic hold now))
  | control (ip : Ipv4Addr) {m : Message} (h : control m) : Move connectable e (e.send ip m)
  | connect {ip : Ipv4Addr} {p q : Peer} (hp : e.peers[ip]? = some p) (hc : connectable p.state)
      (hs : q.state = .openSent) (hr : q.routing = { p.routing with here := q.here }) :
      Move connectable e ((e.setPeer ip q).send ip e.opening)
  | opened {ip : Ipv4Addr} {p q : Peer} (hp : e.peers[ip]? = some p) (h : p.state = .openSent)
      (hs : q.state = .openConfirm) (hin : q.adjIn = p.adjIn) (hout : q.adjOut = p.adjOut) :
      Move connectable e (e.setPeer ip q)
  | establish {ip : Ipv4Addr} {p q : Peer} (hp : e.peers[ip]? = some p)
      (h : p.state = .openConfirm) (hs : q.state = .established) (hr : p.routing = q.routing) :
      Move connectable e ((e.setPeer ip q).advertise ip true)
  | refresh (ip : Ipv4Addr) : Move connectable e (e.advertise ip true)
  | learn {ip : Ipv4Addr} {p : Peer} (hp : e.peers[ip]? = some p) (hs : p.state = .established)
      {adjIn : OrderedMap Prefix Attributes} (h : e.Takes p adjIn) :
      Move connectable e (e.setPeer ip { p with adjIn := adjIn }).recompute
  | drop (ip : Ipv4Addr) (now : ℤ) : Move connectable e (e.disconnected ip now)
  | originate {origins : OrderedMap Prefix Attributes} (h : origins.size ≤ maxPrefixes) :
      Move connectable e ({ e with origins := origins }).recompute

variable {connectable : State → Prop}

variable (connectable) in
/-- Moves one after the other. -/
abbrev Moves : Engine → Engine → Prop := Relation.ReflTransGen (Move connectable)

theorem Move.moves (h : Move connectable e e') : Moves connectable e e' := .single h

/-! ## Failures -/

theorem notification_fits (code subcode : Byte) :
    (e.wire p (.notification code subcode)).length ≤ maxMessage := by
  unfold wire
  simp [Message.encodeForPeer, Message.body, frame, maxMessage]

/-- A NOTIFICATION is always sent. -/
theorem send_notification (code subcode : Byte) :
    (e.setPeer ip p).send ip (.notification code subcode) =
      (e.setPeer ip
        { p with
          lastError := some ⟨true, code, subcode, p.since⟩
          msgsOut := p.msgsOut + 1 }).push
        (.send ip (e.wire p (.notification code subcode)) (.notification code subcode)) := by
  have hfits : (e.wire p (.notification code subcode)).length ≤ maxMessage :=
    notification_fits code subcode
  unfold send
  rw [getElem?_setPeer_self]
  dsimp only
  refine (if_pos hfits).trans ?_
  rw [setPeer_setPeer]
  rfl

theorem disconnected_setPeer :
    (e.setPeer ip p).disconnected ip now =
      (if p.isDynamic then
        { e with
          blocked := match p.prefixBlock with
            | some t => e.blocked.insert ip t
            | none => e.blocked
          peers := e.peers.erase ip }
      else e.setPeer ip (Peer.down p now)).recompute := by
  have herase : (e.peers.insert ip p).erase ip = e.peers.erase ip := by
    apply Std.ExtTreeMap.ext_getElem?
    intro a
    simp only [OrderedMap.getElem?_erase', OrderedMap.getElem?_insert']
    split_ifs <;> rfl
  unfold disconnected
  rw [getElem?_setPeer_self]
  dsimp only
  split_ifs
  · rw [← herase]
    rfl
  · rw [setPeer_setPeer]

/-- A connection that is gone leaves the other peers as they are, and its own one
down, if at all. -/
theorem exists_disconnected (e : Engine) (ip : Ipv4Addr) (now : ℤ) :
    ∃ blocked peers,
      e.disconnected ip now = ({ e with blocked := blocked, peers := peers } : Engine).recompute ∧
        ∀ (a : Ipv4Addr) (q : Peer), peers[a]? = some q →
          e.peers[a]? = some q ∧ a ≠ ip ∨ a = ip ∧ ∃ p, q = Peer.down p now := by
  unfold disconnected
  cases hp : e.peers[ip]? with
  | none =>
    refine ⟨e.blocked, e.peers, rfl, fun a q hq => Or.inl ⟨hq, ?_⟩⟩
    rintro rfl
    cases hp.symm.trans hq
  | some p =>
    dsimp only
    split_ifs
    · refine ⟨_, e.peers.erase ip, rfl, fun a q hq => ?_⟩
      rw [OrderedMap.getElem?_erase'] at hq
      split_ifs at hq with hne
      exact Or.inl ⟨hq, Ne.symm hne⟩
    · refine ⟨e.blocked, e.peers.insert ip (Peer.down p now), rfl, fun a q hq => ?_⟩
      rw [OrderedMap.getElem?_insert'] at hq
      split_ifs at hq with hip
      · cases hq
        exact Or.inr ⟨hip.symm, p, rfl⟩
      · exact Or.inl ⟨hq, Ne.symm hip⟩

/-- What holds of the new table, and what an announcement keeps, holds once the routes
are chosen again. -/
theorem recompute_induction {P : Engine → Prop} (hsame : e.bestRoutes = e.rib → P e)
    (hnew : P ({ e with rib := e.bestRoutes }.push .routesChanged))
    (hstep : ∀ e ip, P e → P (e.advertise ip false)) : P e.recompute := by
  unfold recompute
  dsimp only
  split_ifs with hchanged
  · generalize { e with rib := e.bestRoutes }.push .routesChanged = e' at hnew
    generalize e'.peers.keys = ips
    induction ips generalizing e' with
    | nil => exact hnew
    | cons ip ips ih => exact ih _ (hstep e' ip hnew)
  · exact hsame (not_not.mp hchanged)

theorem setPeer_push {a : Action} : (e.setPeer ip p).push a = (e.push a).setPeer ip p := rfl

/-- A failure forgets what the peer had sent and been sent. -/
theorem fail_setPeer (code subcode : Byte) :
    (e.setPeer ip p).fail ip code subcode now =
      (e.setPeer ip { p with adjIn := ∅, adjOut := ∅, input := [] }).fail ip code subcode now := by
  have hwire (m : Message) :
    e.wire { p with adjIn := ∅, adjOut := ∅, input := [] } m = e.wire p m :=
    rfl
  unfold fail
  rw [send_notification, send_notification, hwire]
  simp only [setPeer_push, disconnected_setPeer]
  rfl

/-! ## Methods as moves -/

theorem moves_setPeer (hp : e.peers[ip]? = some p) (h : p.Tended q) :
    Moves connectable e (e.setPeer ip q) := (Move.setPeer hp h).moves

theorem moves_push {a : Action} (h : ∀ ip b m, a ≠ .send ip b m) :
    Moves connectable e (e.push a) := (Move.push h).moves

theorem moves_close (ip : Ipv4Addr) : Moves connectable e (e.push (.close ip)) :=
  moves_push fun _ _ _ h => Action.noConfusion h

theorem moves_connect (ip : Ipv4Addr) : Moves connectable e (e.push (.connect ip)) :=
  moves_push fun _ _ _ h => Action.noConfusion h

theorem moves_disconnected (ip : Ipv4Addr) (now : ℤ) :
    Moves connectable e (e.disconnected ip now) := (Move.drop ip now).moves

theorem moves_fail (ip : Ipv4Addr) (code subcode : Byte) (now : ℤ) :
    Moves connectable e (e.fail ip code subcode now) :=
  ((Move.control ip (m := .notification code subcode) rfl).moves.trans (moves_close ip)).trans
    (moves_disconnected ip now)

theorem modify_eq (hp : e.peers[ip]? = some p) (f : Peer → Peer) :
    { e with peers := e.peers.modify ip f } = e.setPeer ip (f p) := by
  have hpeers : e.peers.modify ip f = e.peers.insert ip (f p) := by
    apply Std.ExtTreeMap.ext_getElem?
    intro a
    rw [OrderedMap.getElem?_modify', OrderedMap.getElem?_insert']
    split_ifs with heq
    · rw [← heq, hp, Option.map_some]
    · rfl
  rw [hpeers]
  rfl

theorem modify_eq_self (hp : e.peers[ip]? = none) (f : Peer → Peer) :
    { e with peers := e.peers.modify ip f } = e := by
  have hpeers : e.peers.modify ip f = e.peers := by
    apply Std.ExtTreeMap.ext_getElem?
    intro a
    rw [OrderedMap.getElem?_modify']
    split_ifs with heq
    · rw [← heq, hp, Option.map_none]
    · rfl
  rw [hpeers]

/-- A change to one peer, where there is such a peer. -/
theorem moves_modify {f : Peer → Peer} (h : ∀ p, e.peers[ip]? = some p → p.Tended (f p)) :
    Moves connectable e { e with peers := e.peers.modify ip f } := by
  cases hp : e.peers[ip]? with
  | none =>
    rw [modify_eq_self hp]
  | some p =>
    rw [modify_eq hp]
    exact moves_setPeer hp (h p hp)

theorem moves_clearPeer (now : ℤ) (ip : Ipv4Addr) : Moves connectable e (e.clearPeer now ip) := by
  unfold clearPeer
  cases hp : e.peers[ip]? with
  | none => exact .refl
  | some p =>
    dsimp only
    refine (moves_setPeer hp (q := { p with prefixBlock := none }) (.of_state rfl rfl)).trans ?_
    generalize e.setPeer ip { p with prefixBlock := none } = e
    have hnotify : Moves connectable e
        (if p.state ≠ .idle ∧ p.state ≠ .active ∧ p.state ≠ .connect then
          e.send ip (.notification 6 4)
        else e) := by
      split_ifs
      · exact (Move.control ip rfl).moves
      · exact .refl
    refine hnotify.trans (((moves_close ip).trans (moves_disconnected ip now)).trans ?_)
    exact moves_modify fun p _ => .of_state rfl rfl

theorem moves_foldl {α : Type} {f : Engine → α → Engine} (h : ∀ e a, Moves connectable e (f e a))
    (l : List α) (e : Engine) : Moves connectable e (l.foldl f e) := by
  induction l generalizing e with
  | nil => exact .refl
  | cons a l ih => exact (h e a).trans (ih (f e a))

theorem moves_clear (ip : Option Ipv4Addr) (now : ℤ) : Moves connectable e (e.clear ip now) := by
  unfold clear
  exact (Move.block _).moves.trans (moves_foldl (fun _ ip => moves_clearPeer now ip) _ _)

theorem moves_pollState (hp : e.peers[ip]? = some p) :
    Moves connectable e (e.pollState ip p now).1 := by
  unfold pollState
  cases hs : p.state with
  | idle | active =>
    dsimp only
    split_ifs
    · have htended : p.Tended { p with state := .connect, retry := now + 5000 } :=
        ⟨rfl, Or.inr ⟨by rw [hs]; rfl, rfl⟩⟩
      refine (moves_setPeer hp htended).trans ?_
      exact moves_connect ip
    · exact .refl
  | connect =>
    dsimp only
    split_ifs
    · refine (moves_close ip).trans (moves_setPeer hp ⟨rfl, Or.inr ?_⟩)
      exact ⟨by rw [hs]; rfl, rfl⟩
    · exact .refl
  | openSent | openConfirm =>
    dsimp only
    split_ifs
    · exact moves_fail ip 4 0 now
    · exact .refl
  | established =>
    dsimp only
    split_ifs
    · exact moves_fail ip 4 0 now
    · have htended : p.Tended
          { p with
            state := .established
            keepaliveDeadline :=
              now + keepaliveInterval e.config.keepalive p.negotiatedHold } :=
        .of_state rfl hs.symm
      refine (moves_setPeer hp htended).trans ?_
      exact (Move.control ip (m := .keepalive) rfl).moves
    · exact .refl

theorem moves_pollPeer (now : ℤ) (s : Engine × ℤ) (ip : Ipv4Addr) :
    Moves connectable s.1 (pollPeer now s ip).1 := by
  obtain ⟨e, deadline⟩ := s
  unfold pollPeer
  dsimp only
  cases hp : e.peers[ip]? with
  | none => exact .refl
  | some p =>
    dsimp only
    have htended : p.Tended (Peer.unblocked p now) := by
      unfold Peer.unblocked
      cases p.prefixBlock <;> exact .of_state rfl rfl
    have hmoves : Moves connectable e
        ((e.setPeer ip (Peer.unblocked p now)).pollState ip (Peer.unblocked p now) now).1 :=
      (moves_setPeer hp htended).trans (moves_pollState getElem?_setPeer_self)
    split_ifs
    · exact .refl
    · exact .refl
    · exact hmoves
    · split <;> exact hmoves

theorem moves_poll : Moves connectable e (e.poll now).1 := by
  unfold poll
  have h (ips : List Ipv4Addr) (s : Engine × ℤ) :
      Moves connectable s.1 (ips.foldl (pollPeer now) s).1 := by
    induction ips generalizing s with
    | nil => exact .refl
    | cons ip ips ih => exact (moves_pollPeer now s ip).trans (ih _)
  exact h e.peers.keys (e, never)

/-! ## Messages as moves -/

theorem moves_update (hp : e.peers[ip]? = some p) (hs : p.state = .established)
    (withdrawn : List Prefix) (a : Attributes) (nlri : List Prefix) (now : ℤ) :
    Moves connectable e (e.update ip p withdrawn a nlri now) := by
  unfold update
  dsimp only
  -- The routes that a failing UPDATE had put into the table go with the session.
  have hfail (adjIn : OrderedMap Prefix Attributes) (block : Option ℤ) :
      Moves connectable e
        ((e.setPeer ip { p with adjIn := adjIn, prefixBlock := block }).fail ip 6 1 now) := by
    have h : (e.setPeer ip { p with adjIn := adjIn, prefixBlock := block }).fail ip 6 1 now =
        (e.setPeer ip { p with prefixBlock := block }).fail ip 6 1 now := by
      rw [fail_setPeer]
      exact (fail_setPeer (p := { p with prefixBlock := block }) 6 1).symm
    rw [h]
    have htended : p.Tended { p with prefixBlock := block } := .of_state rfl rfl
    refine (moves_setPeer hp htended).trans ?_
    exact moves_fail ip 6 1 now
  generalize (if (p.remoteAs != e.config.asn) = true then { a with localPref := 100 } else a) = a
  rcases hinstalled : e.install p a nlri _ with ⟨adjIn, full⟩
  dsimp only
  split_ifs with hfull
  · exact hfail _ p.prefixBlock
  · rw [Bool.not_eq_true] at hfull
    subst hfull
    split
    next m _ => exact hfail _ _
    next hlimit => exact (Move.learn hp hs ⟨hlimit, withdrawn, a, nlri, hinstalled⟩).moves

theorem moves_opened (hp : e.peers[ip]? = some p) (hs : p.state = .openSent) (asn : UInt32)
    (hold : UInt16) (id : Ipv4Addr) (as4 refresh : Bool) (now : ℤ) :
    Moves connectable e (e.opened ip p asn hold id as4 refresh now) := by
  unfold opened
  dsimp only
  split_ifs
  · exact moves_fail ip 2 2 now
  · exact moves_fail ip 2 3 now
  all_goals
    refine Relation.ReflTransGen.trans ?_ (Move.control ip (m := .keepalive) rfl).moves
    refine (Move.opened hp hs ?_ ?_ ?_).moves <;> rfl

theorem moves_establish (hp : e.peers[ip]? = some p) (hs : p.state = .openConfirm) (now : ℤ) :
    Moves connectable e (e.establish ip p now) := by
  unfold establish
  refine (Move.establish hp hs ?_ ?_).moves <;> rfl

theorem moves_answer (hp : e.peers[ip]? = some p) (m : Message) (now : ℤ) :
    Moves connectable e (e.answer ip p m now) := by
  have hnotified {s : State} (hs : p.state = s) (code subcode : Byte) : Moves connectable e
      (((e.setPeer ip { p with state := s, lastError := some ⟨false, code, subcode, now⟩ }).push
        (.close ip)).disconnected ip now) := by
    refine Relation.ReflTransGen.trans ?_ (moves_disconnected ip now)
    refine Relation.ReflTransGen.trans ?_ (moves_close ip)
    exact moves_setPeer hp (.of_state rfl hs.symm)
  have hfail : Moves connectable e (e.fail ip 5 0 now) := moves_fail ip 5 0 now
  unfold answer
  cases hs : p.state with
  | idle | connect | active =>
    cases m with
    | notification code subcode => exact hnotified hs code subcode
    | _ => exact hfail
  | openSent =>
    cases m with
    | «open» asn hold id as4 refresh => exact moves_opened hp hs asn hold id as4 refresh now
    | notification code subcode => exact hnotified hs code subcode
    | _ => exact hfail
  | openConfirm =>
    cases m with
    | keepalive => exact moves_establish hp hs now
    | notification code subcode => exact hnotified hs code subcode
    | _ => exact hfail
  | established =>
    cases m with
    | keepalive => exact .refl
    | update withdrawn a nlri => exact moves_update hp hs withdrawn a nlri now
    | notification code subcode => exact hnotified hs code subcode
    | «open» asn hold id as4 refresh => exact hfail
    | refresh =>
      dsimp only
      split_ifs
      · exact (Move.refresh ip).moves
      · exact hfail

theorem moves_message (ip : Ipv4Addr) (m : Message) (now : ℤ) :
    Moves connectable e (e.message ip m now) := by
  unfold message
  cases hp : e.peers[ip]? with
  | none => exact .refl
  | some p =>
    have htended : p.Tended (Peer.heard p now) := by
      unfold Peer.heard
      split_ifs <;> exact .of_state rfl rfl
    exact (moves_setPeer hp htended).trans (moves_answer getElem?_setPeer_self m now)

theorem moves_receiveTurn (ip : Ipv4Addr) (now : ℤ) :
    Moves connectable e (e.receiveTurn ip now).1 := by
  unfold receiveTurn
  cases hp : e.peers[ip]? with
  | none => exact .refl
  | some p =>
    dsimp only
    split
    · exact .refl
    · exact moves_fail ip _ _ now
    · refine Relation.ReflTransGen.trans ?_ (moves_message ip _ now)
      exact moves_setPeer hp (.of_state rfl rfl)

theorem moves_receiveLoop (ip : Ipv4Addr) (now : ℤ) (fuel : ℕ)
    (h : receiveLoop ip now fuel e = some e') :
    Moves connectable e e' := by
  induction fuel generalizing e with
  | zero => cases h
  | succ fuel ih =>
    have hturn : Moves connectable e (e.receiveTurn ip now).1 := moves_receiveTurn ip now
    unfold receiveLoop at h
    split at h
    next e₁ heq =>
      rw [heq] at hturn
      exact hturn.trans (ih h)
    next e₁ heq =>
      rw [heq] at hturn
      exact Option.some.inj h ▸ hturn

theorem moves_receive (ip : Ipv4Addr) (data : List Byte) (now : ℤ) :
    Moves connectable e (e.receive ip data now) := by
  unfold receive
  cases hp : e.peers[ip]? with
  | none => exact .refl
  | some p =>
    dsimp only
    split_ifs
    · exact (moves_close ip).trans (moves_disconnected ip now)
    · refine (moves_setPeer hp (q := { p with input := p.input ++ data }) (.of_state rfl rfl)).trans
        ?_
      cases hloop : receiveLoop ip now ((p.input ++ data).length + 1)
          (e.setPeer ip { p with input := p.input ++ data }) with
      | none => exact .refl
      | some e' => exact moves_receiveLoop ip now _ hloop

theorem moves_accept (ip : Ipv4Addr) (now : ℤ) : Moves connectable e (e.accept ip now).1 := by
  unfold accept
  cases hp : e.peers[ip]? with
  | some p =>
    dsimp only
    split_ifs <;> exact .refl
  | none =>
    dsimp only
    split_ifs
    · exact .refl
    · have hblock : Moves connectable e { e with blocked := e.blocked.erase ip } :=
        (Move.block _).moves
      split
      · exact hblock
      · split
        · exact hblock
        · split_ifs
          · exact hblock
          · exact hblock
          · refine hblock.trans ?_
            exact (Move.addPeer (e := { e with blocked := e.blocked.erase ip }) hp _ _ _ _ _).moves

theorem moves_connected (ip here : Ipv4Addr) (now : ℤ)
    (h : ∀ p, e.peers[ip]? = some p → connectable p.state) :
    Moves connectable e (e.connected ip here now) := by
  unfold connected
  cases hp : e.peers[ip]? with
  | none => exact .refl
  | some p =>
    dsimp only
    split_ifs
    · exact moves_close ip
    · refine (Move.connect hp (h p hp) ?_ ?_).moves <;> rfl

theorem size_origins_le (prefixes : List Prefix) (origins : OrderedMap Prefix Attributes) :
    (prefixes.foldl (fun origins pfx => origins.insert pfx Attributes.default) origins).size ≤
      origins.size + prefixes.length := by
  induction prefixes generalizing origins with
  | nil => exact le_rfl
  | cons pfx prefixes ih =>
    rw [List.foldl_cons, List.length_cons]
    have h := ih (origins.insert pfx Attributes.default)
    have hinsert : (origins.insert pfx Attributes.default).size ≤ origins.size + 1 :=
      Std.ExtTreeMap.size_insert_le
    omega

theorem moves_setOrigins (prefixes : List Prefix) :
    Moves connectable e (e.setOrigins prefixes) := by
  unfold setOrigins
  dsimp only
  split_ifs
  · refine (Move.originate ((size_origins_le _ _).trans ?_)).moves
    rw [Std.ExtTreeMap.size_empty, Nat.zero_add, List.length_take]
    exact Nat.min_le_left _ _
  · exact .refl

/-- **Every event is a sequence of moves.** -/
theorem step_moves (now : ℤ) (ev : Event)
    (h : ∀ ip here p, ev = .connected ip here → e.peers[ip]? = some p → connectable p.state) :
    Moves connectable e (e.step now ev) := by
  cases ev with
  | accept ip => exact moves_accept ip now
  | connected ip here => exact moves_connected ip here now fun p hp => h ip here p rfl hp
  | disconnected ip => exact moves_disconnected ip now
  | receive ip data => exact moves_receive ip data now
  | poll => exact moves_poll
  | setOrigins prefixes => exact moves_setOrigins prefixes
  | clear ip => exact moves_clear ip now

/-- **The rule for invariants.**  What holds of a new engine and survives every
move holds of every engine that a run reaches. -/
theorem Reachable.invariant {admissible : Engine → Event → Prop} (connectable : State → Prop)
    (I : Engine → Prop)
    (hadm : ∀ e ip here p, admissible e (.connected ip here) → e.peers[ip]? = some p →
      connectable p.state)
    (hnew : ∀ config policy now, I (Engine.new config policy now))
    (hmove : ∀ e e', I e → Move connectable e e' → I e') (h : Reachable admissible e) : I e := by
  induction h with
  | new config policy now => exact hnew config policy now
  | @step e now ev _ hev ih =>
    have hmoves : Moves connectable e (e.step now ev) :=
      step_moves now ev fun ip here p heq hp => hadm e ip here p (heq ▸ hev) hp
    generalize e.step now ev = e' at hmoves
    induction hmoves with
    | refl => exact ih
    | tail _ hm ih => exact hmove _ _ ih hm

end EvansComputer.Bgp.Engine
