import EvansComputer.Cell.Core
import Mathlib.Logic.Function.Basic
import Mathlib.Logic.Relation

/-!
# The core as its network sees it

Most of what the core keeps is of no concern to the claims about its sessions: timers,
counters, logs, bytes on the way.  `Carrier` is what is: who holds which session, which
addresses and temporary identities lead where, which sites are registered, who is revoked,
and which contexts, handover commands and packets have gone out.

A `Move` is one change of that.  Everything a call to the core does is a sequence of moves
(`Cell.CoreMoves`), so what every move keeps, every run keeps.  The moves that a claim may
want to restrict have a label of their own; all others are `quiet`.
-/

namespace EvansComputer.Cell

/-- A session, less its timers, counters and buffers. -/
structure Seat where
  id : UInt32
  imsi : Str
  ip : Ipv4Addr
  imsIp : Option Ipv4Addr
  tmsi : UInt32
  epoch : UInt32
  serving : Option Serving
  ho : Option Ho
  deriving DecidableEq

/-- An output that a claim speaks of. -/
inductive Said where
  /-- `UeAccept`: a key context for a session at a site. -/
  | accept (c : ConnId) (session epoch : UInt32)
  /-- `HoRequest`: a key context for a session at a target cell. -/
  | request (c : ConnId) (ho session cell epoch : UInt32)
  /-- `HoCommand`: the phone is to go to a cell, with an epoch. -/
  | command (c : ConnId) (ho session cell epoch : UInt32)
  /-- A packet of a session for the LAN. -/
  | up (session : UInt32)
  /-- A datagram with a packet for a session. -/
  | down (session : UInt32)
  deriving DecidableEq

@[ext] structure Carrier where
  sessions : UInt32 → Option Seat
  byIp : Ipv4Addr → Option UInt32
  byTmsi : UInt32 → Option UInt32
  /-- The connections, and the site that has registered on each. -/
  conns : ConnId → Option (Option SiteReg)
  nextSession : UInt32
  nextHo : UInt32
  /-- Of the subscribers there are, which are revoked. -/
  revoked : Str → Option Bool
  said : List Said

/-- The addresses of a session. -/
def Seat.Holds (a : Seat) (ip : Ipv4Addr) : Prop := a.ip = ip ∨ a.imsIp = some ip

instance (a : Seat) (ip : Ipv4Addr) : Decidable (a.Holds ip) := inferInstanceAs (Decidable (_ ∨ _))

/-- The connections a session depends on: that of its serving site and that of the target
of a handover. -/
def Seat.Uses (a : Seat) (c : ConnId) : Prop :=
  a.serving.map (·.conn) = some c ∨ a.ho.map (·.target.conn) = some c

/-- What the answer of a target changes. -/
def Seat.acknowledged (ho : UInt32) (c : ConnId) (a : Seat) : Seat :=
  { a with ho := a.ho.map fun h =>
      if h.id = ho ∧ h.target.conn = c then { h with acked := true } else h }

/-- The session is the same, and depends on no connection that it did not depend on. -/
structure Seat.Keeps (a a' : Seat) : Prop where
  id : a'.id = a.id
  imsi : a'.imsi = a.imsi
  ip : a'.ip = a.ip
  imsIp : a'.imsIp = a.imsIp
  tmsi : a'.tmsi = a.tmsi
  epoch : a'.epoch = a.epoch
  serving : a'.serving = a.serving ∨ a'.serving = none
  ho : a'.ho = a.ho ∨ a'.ho = none

theorem Seat.Keeps.refl (a : Seat) : Seat.Keeps a a :=
  ⟨rfl, rfl, rfl, rfl, rfl, rfl, .inl rfl, .inl rfl⟩

namespace Carrier

/-- A live connection with a registered site. -/
def Registered (v : Carrier) (c : ConnId) : Prop := ∃ reg, v.conns c = some (some reg)

/-- No subscriber of that identity may attach. -/
def Barred (v : Carrier) (imsi : Str) : Prop := v.revoked imsi ≠ some false

/-- Both indexes lead to live sessions. -/
def Indexed (v : Carrier) : Prop :=
  (∀ t id, v.byTmsi t = some id → v.sessions id ≠ none) ∧ ∀ ip id, v.byIp ip = some id →
    v.sessions id ≠ none

/-! ## What a move does -/

/-- A session takes another shape. -/
def seat (v : Carrier) (id : UInt32) (a : Seat) : Carrier :=
  { v with sessions := Function.update v.sessions id (some a) }

def say (v : Carrier) (s : Said) : Carrier := { v with said := v.said ++ [s] }

/-- A session ends. -/
def ended (v : Carrier) (id : UInt32) : Carrier :=
  match v.sessions id with
  | none => v
  | some a =>
    { v with
      sessions := Function.update v.sessions id none
      byIp := fun ip => if a.Holds ip then none else v.byIp ip
      byTmsi := Function.update v.byTmsi a.tmsi none }

/-- A session begins. -/
def created (v : Carrier) (a : Seat) : Carrier :=
  { v with
    sessions := Function.update v.sessions a.id (some a)
    byIp := fun ip => if a.Holds ip then some a.id else v.byIp ip
    byTmsi := Function.update v.byTmsi a.tmsi (some a.id)
    nextSession := max (a.id + 1) 1 }

def withConn (v : Carrier) (c : ConnId) (conn : Option (Option SiteReg)) : Carrier :=
  { v with conns := Function.update v.conns c conn }

/-! ## Moves -/

/-- A kind of move that a claim may restrict. -/
inductive Label where
  | quiet
  /-- A session begins. -/
  | created (a : Seat)
  /-- A session is resumed. -/
  | served (id : UInt32)
  /-- The target of a handover has answered for it. -/
  | acked (c : ConnId) (ho : UInt32)
  /-- The target of a handover has the phone. -/
  | switched (c : ConnId) (ho session : UInt32)
  /-- A subscriber may attach who could not. -/
  | unbarred (imsi : Str)

inductive Move : Carrier → Label → Carrier → Prop
  | ended (v : Carrier) (id : UInt32) : Move v .quiet (v.ended id)
  /-- Sessions go idle, or handovers come to nothing. -/
  | kept {v : Carrier} (f : UInt32 → Seat → Seat)
      (hkeeps : ∀ id a, v.sessions id = some a → Seat.Keeps a (f id a)) :
      Move v .quiet { v with sessions := fun id => (v.sessions id).map (f id) }
  | connected {v : Carrier} {c : ConnId} (hc : v.conns c = none) :
      Move v .quiet (v.withConn c (some none))
  | registered {v : Carrier} {c : ConnId} (reg : SiteReg) (hc : v.conns c = some none) :
      Move v .quiet (v.withConn c (some (some reg)))
  /-- A connection goes once nothing depends on it. -/
  | gone {v : Carrier} {c : ConnId} (hunused : ∀ id a, v.sessions id = some a → ¬ a.Uses c) :
      Move v .quiet (v.withConn c none)
  /-- A packet of a session is forwarded. -/
  | up {v : Carrier} {id : UInt32} {a : Seat} (ha : v.sessions id = some a) :
      Move v .quiet (v.say (.up id))
  | down {v : Carrier} {id : UInt32} {a : Seat} (ha : v.sessions id = some a) :
      Move v .quiet (v.say (.down id))
  /-- Subscribers come, go, or are revoked, but none is let in. -/
  | barring {v : Carrier} (r : Str → Option Bool)
      (hbarred : ∀ imsi, v.Barred imsi → r imsi ≠ some false) :
        Move v .quiet { v with revoked := r }
  | unbarred {v : Carrier} (r : Str → Option Bool) (imsi : Str)
      (hbarred : ∀ imsi', imsi' ≠ imsi → v.Barred imsi' → r imsi' ≠ some false) :
      Move v (.unbarred imsi) { v with revoked := r }
  /-- A subscriber who has answered the challenge gets a session and a context. -/
  | created {v : Carrier} {a : Seat} {s : Serving} (hid : a.id = v.nextSession)
      (htmsi : v.byTmsi a.tmsi = none) (hnew : ∀ id b, v.sessions id = some b → b.imsi ≠ a.imsi)
      (hsub : v.revoked a.imsi ≠ none) (hserving : a.serving = some s) (hsite : v.Registered s.conn)
      (hho : a.ho = none) :
      Move v (.created a) ((v.created a).say (.accept s.conn a.id a.epoch))
  /-- A service request moves a session to a site, with a new context. -/
  | served {v : Carrier} {id : UInt32} {a : Seat} {s : Serving} (ha : v.sessions id = some a)
      (hsite : v.Registered s.conn) :
      Move v (.served id)
        ((v.seat id { a with epoch := a.epoch + 1, serving := some s }).say
          (.accept s.conn id (a.epoch + 1)))
  /-- A handover begins, with a context for the target. -/
  | prepared {v : Carrier} {id : UInt32} {a : Seat} {target : Serving} (now : ℕ)
      (ha : v.sessions id = some a) (hfree : a.ho = none) (hsite : v.Registered target.conn) :
      Move v .quiet
        ({ v.seat id { a with
            epoch := a.epoch + 1
            ho := some { id := v.nextHo, target, acked := false, startedMs := now } } with
          nextHo := max (v.nextHo + 1) 1 }.say
          (.request target.conn v.nextHo id target.cell (a.epoch + 1)))
  /-- The target answers. -/
  | acked (v : Carrier) (c : ConnId) (ho : UInt32) :
      Move v (.acked c ho)
        { v with sessions := fun id => (v.sessions id).map (Seat.acknowledged ho c) }
  /-- The serving site is told to send the phone to the target. -/
  | commanded {v : Carrier} {id : UInt32} {a : Seat} {h : Ho} {s : Serving}
      (ha : v.sessions id = some a) (hho : a.ho = some h) (hserving : a.serving = some s) :
      Move v (.acked h.target.conn h.id)
        (v.say (.command s.conn h.id a.id h.target.cell a.epoch))
  /-- The target has the phone. -/
  | switched {v : Carrier} {id : UInt32} {a : Seat} {h : Ho} (ha : v.sessions id = some a)
      (hho : a.ho = some h) :
      Move v (.switched h.target.conn h.id id)
        (v.seat id { a with serving := some h.target, ho := none })

/-- A sequence of moves, each allowed where it is made. -/
def Moves (allowed : Carrier → Label → Prop) : Carrier → Carrier → Prop :=
  Relation.ReflTransGen fun v v' => ∃ l, allowed v l ∧ Move v l v'

variable {allowed allowed' : Carrier → Label → Prop} {v v' v'' : Carrier}

theorem Moves.refl : Moves allowed v v := Relation.ReflTransGen.refl

theorem Moves.of_eq (h : v = v') : Moves allowed v v' := h ▸ Moves.refl

theorem Moves.trans (h : Moves allowed v v') (h' : Moves allowed v' v'') : Moves allowed v v'' :=
  Relation.ReflTransGen.trans h h'

theorem Moves.single {l : Label} (h : Move v l v') (hl : allowed v l) : Moves allowed v v' :=
  Relation.ReflTransGen.single ⟨l, hl, h⟩

theorem Moves.mono (h : Moves allowed v v') (hsub : ∀ v l, allowed v l → allowed' v l) :
    Moves allowed' v v' := by
  refine Relation.ReflTransGen.mono (fun v v' => ?_) _ _ h
  rintro ⟨l, hl, hmove⟩
  exact ⟨l, hsub v l hl, hmove⟩

/-- **What every allowed move keeps, a sequence of them keeps.** -/
theorem Moves.induction {I : Carrier → Prop} (h : Moves allowed v v')
    (hmove : ∀ v l v', allowed v l → Move v l v' → I v → I v') (hv : I v) : I v' := by
  induction h with
  | refl => exact hv
  | tail _ hstep ih =>
    obtain ⟨l, hl, hmove'⟩ := hstep
    exact hmove _ l _ hl hmove' ih

/-! ## Lookups -/

@[simp] theorem sessions_seat (v : Carrier) (id : UInt32) (a : Seat) :
    (v.seat id a).sessions = Function.update v.sessions id (some a) := rfl

/-- Taking the shape it has changes nothing. -/
theorem seat_self {id : UInt32} {a : Seat} (h : v.sessions id = some a) : v.seat id a = v := by
  rw [seat, ← h, Function.update_eq_self]

theorem ended_of_none {id : UInt32} (h : v.sessions id = none) : v.ended id = v := by
  rw [ended, h]

theorem sessions_ended (v : Carrier) (id : UInt32) :
    (v.ended id).sessions = Function.update v.sessions id none := by
  unfold ended
  cases h : v.sessions id with
  | none => exact (Function.update_eq_self_iff.mpr h.symm).symm
  | some a => rfl

theorem conns_ended (v : Carrier) (id : UInt32) : (v.ended id).conns = v.conns := by
  unfold ended
  cases v.sessions id <;> rfl

/-- The end of a session has nothing to do with the connections. -/
theorem ended_withConn (v : Carrier) (id : UInt32) (c : ConnId) (conn : Option (Option SiteReg)) :
    (v.withConn c conn).ended id = (v.ended id).withConn c conn := by
  unfold ended withConn
  dsimp only
  cases v.sessions id <;> rfl

/-- The moves for one session whose shape changes. -/
theorem Move.kept_one {id : UInt32} {a a' : Seat} (ha : v.sessions id = some a)
    (hkeeps : Seat.Keeps a a') : Move v .quiet (v.seat id a') := by
  have hmove := Move.kept (v := v) (fun id' b => if id' = id then a' else b) fun id' b hb => by
    by_cases h : id' = id
    · subst h
      rw [if_pos rfl, ← Option.some.inj (ha.symm.trans hb)]
      exact hkeeps
    · rw [if_neg h]
      exact Seat.Keeps.refl b
  have heq : v.seat id a' = { v with
      sessions := fun id' => (v.sessions id').map fun b => if id' = id then a' else b } := by
    unfold seat
    congr 1
    funext id'
    by_cases h : id' = id
    · subst h
      rw [Function.update_self, ha, Option.map_some, if_pos rfl]
    · rw [Function.update_of_ne h]
      simp only [if_neg h, Option.map_id']
  rw [heq]
  exact hmove

end Carrier

/-! ## The core's view -/

def Session.seat (s : Session) : Seat where
  id := s.id
  imsi := s.imsi
  ip := s.ip
  imsIp := s.imsIp
  tmsi := s.tmsi
  epoch := s.epoch
  serving := s.serving
  ho := s.ho

/-- What a control message to a site says. -/
def Ctl.said (c : ConnId) : Ctl → Option Said
  | .ueAccept _ session _ _ ctx _ _ => some (.accept c session ctx.epoch)
  | .hoRequest ho session _ cell _ _ ctx _ => some (.request c ho session cell ctx.epoch)
  | .hoCommand ho session cell _ _ _ epoch _ _ => some (.command c ho session cell epoch)
  | _ => none

/-- What an output says. -/
def CoreOut.said : CoreOut → Option Said
  | send c m _ => m.said c
  | toLan session _ => some (.up session)
  | tunnel session _ _ => some (.down session)
  | _ => none

/-- What the network sees of the core. -/
def Core.carrier (core : Core) : Carrier where
  sessions id := (core.sessions[id]?).map Session.seat
  byIp ip := core.byIp[ip]?
  byTmsi t := core.byTmsi[t]?
  conns c := (core.conns[c]?).map (·.site)
  nextSession := core.nextSession
  nextHo := core.nextHo
  revoked imsi := (core.db.subs[imsi]?).map (·.revoked)
  said := core.out.filterMap CoreOut.said

end EvansComputer.Cell
