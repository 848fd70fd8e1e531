import EvansComputer.Bgp.Engine

/-!
# Runs of the engine

The events an engine answers to, and the engines that a run of them reaches.

Most of what a method does leaves most of the engine alone, and the lemmas here
say so once.  `send` changes only the counters of a session, which
`Peer.session` forgets; `advertise_eq` gives the whole effect of an announcement
on one peer.  The invariants of the later modules are proved from these and never
unfold a method that only calls others.
-/

namespace EvansComputer.Bgp

variable {a : Action} {acts : List Action}

/-- What the transport, the timers and the operator do to an engine. -/
inductive Event where
  | accept (ip : Ipv4Addr)
  | connected (ip here : Ipv4Addr)
  | disconnected (ip : Ipv4Addr)
  | receive (ip : Ipv4Addr) (data : List Byte)
  | poll
  | setOrigins (prefixes : List Prefix)
  | clear (ip : Option Ipv4Addr)

namespace Engine

/-- The engine after an event. -/
def step (e : Engine) (now : ℤ) : Event → Engine
  | .accept ip => (e.accept ip now).1
  | .connected ip here => e.connected ip here now
  | .disconnected ip => e.disconnected ip now
  | .receive ip data => e.receive ip data now
  | .poll => (e.poll now).1
  | .setOrigins prefixes => e.setOrigins prefixes
  | .clear ip => e.clear ip now

/-- The engines that events lead to from a new one, each event being admissible
where it happens. -/
inductive Reachable (admissible : Engine → Event → Prop) : Engine → Prop
  | new (config : Config) (policy : Policy) (now : ℤ) :
      Reachable admissible (Engine.new config policy now)
  | step {e : Engine} (now : ℤ) (ev : Event) :
      Reachable admissible e → admissible e ev → Reachable admissible (e.step now ev)

/-- Any event at any time. -/
abbrev Always : Engine → Event → Prop := fun _ _ => True

/-- An engine after timed events. -/
def run (e : Engine) (evs : List (ℤ × Event)) : Engine :=
  evs.foldl (fun e ev => e.step ev.1 ev.2) e

theorem Reachable.run {e : Engine} (h : Reachable Always e) (evs : List (ℤ × Event)) :
    Reachable Always (e.run evs) := by
  induction evs generalizing e with
  | nil => exact h
  | cons ev evs ih => exact ih (h.step ev.1 ev.2 trivial)

end Engine

/-! ## External speakers, for runs on fixed inputs -/

/-- The address `10.0.0.n`. -/
def speakerIp (n : Byte) : Ipv4Addr := ⟨10, 0, 0, n⟩

/-- A speaker of AS 65000 with active neighbors `10.0.0.n` of the given AS
numbers. -/
def speakerConfig (neighbors : List (Byte × UInt32)) : Config where
  asn := 65000
  routerId := ⟨1, 1, 1, 1⟩
  keepalive := 60
  hold := 180
  neighbors := neighbors.foldl (fun t n =>
    t.insert (speakerIp n.1)
      { remoteAs := some (.asn n.2)
        active := true
        defaultOriginate := false
        inbound := none
        outbound := none
        maximumPrefix := none
        peerGroup := none }) ∅
  groups := fun _ => none
  listen := []
  listenLimit := none

/-- The speaker before any event. -/
def speaker (neighbors : List (Byte × UInt32)) : Engine :=
  Engine.new (speakerConfig neighbors) ⟨fun _ => none, fun _ => none⟩ 0

/-- The events that establish the session of a neighbor `10.0.0.n` whose router
identifier is `0.0.0.id`. -/
def handshake (n : Byte) (asn : UInt32) (id : Byte) : List (ℤ × Event) :=
  [(0, .connected (speakerIp n) (speakerIp 254)),
    (0, .receive (speakerIp n)
      ((Message.open asn 180 ⟨0, 0, 0, id⟩ true true).encode true ++
        Message.keepalive.encode true))]

/-- The route `198.51.100.0/24` from a neighbor `10.0.0.n`. -/
def routeFrom (n : Byte) (a : Attributes) : ℤ × Event :=
  (0, .receive (speakerIp n)
    ((Message.update [] a [Prefix.new ⟨198, 51, 100, 0⟩ 24]).encodeForPeer true false))

/-! ## Peers by address -/

namespace Engine

variable {e : Engine} {ip ip' : Ipv4Addr} {p q : Peer} {m : Message}

theorem getElem?_setPeer :
    (e.setPeer ip p).peers[ip']? = if ip = ip' then some p else e.peers[ip']? :=
  OrderedMap.getElem?_insert'

@[simp] theorem getElem?_setPeer_self : (e.setPeer ip p).peers[ip]? = some p := by
  rw [getElem?_setPeer, if_pos rfl]

@[simp] theorem setPeer_actions : (e.setPeer ip p).actions = e.actions := rfl

@[simp] theorem push_actions : (e.push a).actions = e.actions ++ [a] := rfl

/-- An engine with more actions in its queue. -/
def emit (e : Engine) (acts : List Action) : Engine := { e with actions := e.actions ++ acts }

@[simp] theorem emit_peers : (e.emit acts).peers = e.peers := rfl
@[simp] theorem emit_actions :
    (e.emit acts).actions = e.actions ++ acts := rfl

theorem emit_nil : e.emit [] = e := by simp only [emit, List.append_nil]

theorem emit_emit {acts' : List Action} : (e.emit acts).emit acts' = e.emit (acts ++ acts') := by
  simp only [emit, List.append_assoc]

theorem setPeer_emit :
    (e.emit acts).setPeer ip p = (e.setPeer ip p).emit acts := rfl

theorem setPeer_setPeer : (e.setPeer ip p).setPeer ip q = e.setPeer ip q := by
  have hpeers : (e.peers.insert ip p).insert ip q = e.peers.insert ip q := by
    apply Std.ExtTreeMap.ext_getElem?
    intro a
    simp only [OrderedMap.getElem?_insert']
    split_ifs <;> rfl
  simp only [setPeer, hpeers]

theorem setPeer_self (h : e.peers[ip]? = some p) : e.setPeer ip p = e := by
  have hpeers : e.peers.insert ip p = e.peers := by
    apply Std.ExtTreeMap.ext_getElem?
    intro a
    rw [OrderedMap.getElem?_insert']
    split_ifs with heq
    · rw [← heq, h]
    · rfl
  simp only [setPeer, hpeers]

/-! ## Sending -/

/-- The frame of a message for a peer. -/
def wire (e : Engine) (p : Peer) (m : Message) : List Byte :=
  m.encodeForPeer p.as4 (p.remoteAs == e.config.asn)

/-- A peer that has been sent `n` more messages. -/
def counted (p : Peer) (n : ℕ) : Peer := { p with msgsOut := p.msgsOut + n }

/-- The actions that send messages to a peer: those whose frame is not too
long. -/
def sends (e : Engine) (ip : Ipv4Addr) (p : Peer) (ms : List Message) : List Action :=
  (ms.filter fun m => (e.wire p m).length ≤ maxMessage).map fun m => .send ip (e.wire p m) m

theorem sends_cons {ms : List Message} :
    e.sends ip p (m :: ms) = e.sends ip p [m] ++ e.sends ip p ms := by
  unfold sends
  rw [← List.map_append, ← List.filter_append]
  rfl

theorem sends_singleton :
    e.sends ip p [m] =
      if (e.wire p m).length ≤ maxMessage then [.send ip (e.wire p m) m] else [] := by
  unfold sends
  split_ifs with h <;> simp [h]

/-- Sending a message that is not a NOTIFICATION. -/
theorem send_eq (hp : e.peers[ip]? = some p)
    (hm : ∀ code subcode, m ≠ .notification code subcode) :
    e.send ip m = (e.setPeer ip (counted p (e.sends ip p [m]).length)).emit (e.sends ip p [m]) := by
  have hnote : Peer.noteSent p m = p := by
    cases m with
    | notification code subcode => exact absurd rfl (hm code subcode)
    | _ => rfl
  have hwire : m.encodeForPeer p.as4 (p.remoteAs == e.config.asn) = e.wire p m := rfl
  unfold send
  rw [hp, sends_singleton]
  dsimp only
  rw [hnote, hwire]
  split_ifs
  · rfl
  · exact (emit_nil).symm

/-- Sending messages that are not NOTIFICATIONs, one after the other. -/
theorem foldl_send {ms : List Message} (hp : e.peers[ip]? = some p)
    (hms : ∀ m ∈ ms, ∀ code subcode, m ≠ .notification code subcode) :
    ms.foldl (fun e m => e.send ip m) e =
      (e.setPeer ip (counted p (e.sends ip p ms).length)).emit (e.sends ip p ms) := by
  induction ms generalizing e p with
  | nil => exact ((emit_nil).trans (setPeer_self hp)).symm
  | cons m ms ih =>
    have hcons : e.sends ip p (m :: ms) = e.sends ip p [m] ++ e.sends ip p ms := sends_cons
    rw [List.foldl_cons, send_eq hp (hms m List.mem_cons_self), hcons, List.length_append]
    generalize e.sends ip p [m] = acts
    have hget : ((e.setPeer ip (counted p acts.length)).emit acts).peers[ip]? =
        some (counted p acts.length) := getElem?_setPeer_self
    rw [ih hget fun m' hm' => hms m' (List.mem_cons_of_mem m hm')]
    have hsends : ((e.setPeer ip (counted p acts.length)).emit acts).sends ip
        (counted p acts.length) ms = e.sends ip p ms := rfl
    rw [hsends, setPeer_emit, setPeer_setPeer, emit_emit]
    simp only [counted, Nat.add_assoc]

/-- A session without what every message changes. -/
def Peer.session (p : Peer) : Peer := { p with msgsOut := 0, lastError := none }

theorem session_noteSent : Peer.session (Peer.noteSent p m) = Peer.session p := by
  cases m <;> rfl

/-- Sending leaves everything but the counters of the session and the queue. -/
theorem send_frame (ip : Ipv4Addr) (m : Message) (e : Engine) :
    (e.send ip m).config = e.config ∧ (e.send ip m).policy = e.policy ∧
      (e.send ip m).rib = e.rib ∧ (e.send ip m).origins = e.origins ∧
      (e.send ip m).blocked = e.blocked ∧
      ∀ a : Ipv4Addr, ((e.send ip m).peers[a]?).map Peer.session =
        (e.peers[a]?).map Peer.session := by
  unfold send
  cases hp : e.peers[ip]? with
  | none => exact ⟨rfl, rfl, rfl, rfl, rfl, fun _ => rfl⟩
  | some p =>
    dsimp only
    have hsession (q : Peer) (hq : Peer.session q = Peer.session p) (a : Ipv4Addr) :
        ((e.setPeer ip q).peers[a]?).map Peer.session = (e.peers[a]?).map Peer.session := by
      rw [getElem?_setPeer]
      split_ifs with heq
      · rw [← heq, hp, Option.map_some, Option.map_some, hq]
      · rfl
    have hnote : Peer.session (Peer.noteSent p m) = Peer.session p := session_noteSent
    split_ifs
    · exact ⟨rfl, rfl, rfl, rfl, rfl, hsession _ hnote⟩
    · exact ⟨rfl, rfl, rfl, rfl, rfl, hsession _ hnote⟩

/-! ## Announcing -/

theorem announcements_ne_notification {force : Bool} (hm : m ∈ e.announcements ip p force)
    (code subcode : Byte) : m ≠ .notification code subcode := by
  rintro rfl
  rcases List.mem_append.mp hm with hm | hm
  · split_ifs at hm
    · cases List.mem_singleton.mp hm
    · cases hm
  · obtain ⟨u, -, hu⟩ := List.mem_map.mp hm
    cases hu

/-- **The effect of an announcement**, on an established session. -/
theorem advertise_eq (force : Bool) (hp : e.peers[ip]? = some p) (hs : p.state = .established) :
    e.advertise ip force =
      (e.setPeer ip
        { counted p (e.sends ip p (e.announcements ip p force)).length with
          adjOut := e.desired ip p }).emit
        (e.sends ip p (e.announcements ip p force)) := by
  unfold advertise
  rw [hp]
  dsimp only
  rw [if_neg (not_not.mpr hs), foldl_send hp fun m hm => announcements_ne_notification hm]
  generalize e.sends ip p (e.announcements ip p force) = acts
  have hpeers : (e.peers.insert ip (counted p acts.length)).modify ip
      (fun q => { q with adjOut := e.desired ip p }) =
      e.peers.insert ip { counted p acts.length with adjOut := e.desired ip p } := by
    apply Std.ExtTreeMap.ext_getElem?
    intro a
    rw [OrderedMap.getElem?_modify', OrderedMap.getElem?_insert', OrderedMap.getElem?_insert']
    split_ifs <;> rfl
  simp only [emit, setPeer, hpeers]

theorem advertise_of_not_established {force : Bool}
    (h : ∀ p, e.peers[ip]? = some p → p.state ≠ .established) : e.advertise ip force = e := by
  unfold advertise
  cases hp : e.peers[ip]? with
  | none => rfl
  | some p => exact if_pos (h p hp)

end EvansComputer.Bgp.Engine
