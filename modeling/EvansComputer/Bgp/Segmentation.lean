import EvansComputer.Bgp.Buffers
import EvansComputer.Library.Framing

/-!
# How the stream of a peer is cut

TCP delivers the bytes of a peer in pieces of any size.  The loop of `receive`
takes messages off the front of the peer's buffer, and each message may change how
the next is decoded, end the session or remove the peer.  Nothing of that depends
on what is in the buffer behind the message: `feed_message`.

With that, `receive` is a reader of the library, whose state is the engine without
the peer's buffer, and the independence of the cut is the library's.
-/

namespace EvansComputer.Bgp.Engine

variable {e : Engine} {ip a : Ipv4Addr} {p q : Peer} {m : Message} {now : ℤ} {s t : List Byte}
  {force : Bool}

variable {d : Engine} {b : List Byte} {as4 : Bool} {fuel : ℕ}

/-! ## More bytes in a buffer -/

/-- An engine in which a peer has sent more bytes. -/
def feed (e : Engine) (ip : Ipv4Addr) (s : List Byte) : Engine :=
  { e with peers := e.peers.modify ip fun p => { p with input := p.input ++ s } }

@[simp] theorem feed_config : (e.feed ip s).config = e.config := rfl
@[simp] theorem feed_rib : (e.feed ip s).rib = e.rib := rfl

theorem getElem?_feed : (e.feed ip s).peers[a]? =
    if ip = a then e.peers[a]?.map fun p => { p with input := p.input ++ s } else e.peers[a]? :=
  OrderedMap.getElem?_modify'

theorem getElem?_feed_self (hp : e.peers[ip]? = some p) :
    (e.feed ip s).peers[ip]? = some { p with input := p.input ++ s } := by
  rw [getElem?_feed, if_pos rfl, hp]
  rfl

theorem feed_eq_setPeer (hp : e.peers[ip]? = some p) :
    e.feed ip s = e.setPeer ip { p with input := p.input ++ s } := modify_eq hp _

theorem feed_eq_self (hp : e.peers[ip]? = none) : e.feed ip s = e := modify_eq_self hp _

theorem setPeer_feed_self (hp : e.peers[ip]? = some p) :
    (e.feed ip s).setPeer ip q = e.setPeer ip q := by
  rw [feed_eq_setPeer hp, setPeer_setPeer]

theorem feed_setPeer_self :
    (e.setPeer ip p).feed ip s = e.setPeer ip { p with input := p.input ++ s } := by
  rw [feed_eq_setPeer getElem?_setPeer_self, setPeer_setPeer]

theorem feed_setPeer_of_ne (hne : a ≠ ip) :
    (e.setPeer a p).feed ip s = (e.feed ip s).setPeer a p := by
  have hpeers : ((e.setPeer a p).feed ip s).peers = ((e.feed ip s).setPeer a p).peers := by
    apply Std.ExtTreeMap.ext_getElem?
    intro b
    rw [getElem?_feed, getElem?_setPeer, getElem?_setPeer, getElem?_feed]
    by_cases hb : a = b
    · rw [if_pos hb, if_neg fun h => hne (hb.trans h.symm), if_pos hb]
    · rw [if_neg hb, if_neg hb]
  unfold feed setPeer at hpeers ⊢
  simp only at hpeers ⊢
  rw [hpeers]

theorem feed_emit {acts : List Action} : (e.emit acts).feed ip s = (e.feed ip s).emit acts := rfl

theorem feed_push {act : Action} : (e.push act).feed ip s = (e.feed ip s).push act := rfl

/-! ## Methods that do not look at the buffer -/

theorem feed_send : (e.feed ip s).send a m = (e.send a m).feed ip s := by
  unfold send
  rw [getElem?_feed]
  cases hp : e.peers[a]? with
  | none => split_ifs <;> rfl
  | some p =>
    by_cases ha : ip = a
    · subst ha
      have hnote : Peer.noteSent { p with input := p.input ++ s } m =
          { Peer.noteSent p m with input := (Peer.noteSent p m).input ++ s } := by
        cases m <;> rfl
      rw [if_pos rfl, Option.map_some]
      dsimp only
      rw [hnote, feed_config]
      split_ifs
      · rw [feed_push, feed_setPeer_self, setPeer_feed_self hp]
      · rw [feed_setPeer_self, setPeer_feed_self hp]
    · rw [if_neg ha]
      dsimp only
      rw [feed_config]
      split_ifs
      · rw [feed_push, feed_setPeer_of_ne (Ne.symm ha)]
      · rw [feed_setPeer_of_ne (Ne.symm ha)]

theorem feed_advertise : (e.feed ip s).advertise a force = (e.advertise a force).feed ip s := by
  by_cases hest : ∃ p, e.peers[a]? = some p ∧ p.state = .established
  · obtain ⟨p, hp, hs⟩ := hest
    rw [advertise_eq force hp hs, feed_emit]
    by_cases ha : ip = a
    · subst ha
      have hs' : ({ p with input := p.input ++ s } : Peer).state = .established := hs
      rw [advertise_eq force (getElem?_feed_self hp) hs', setPeer_feed_self hp, feed_setPeer_self]
      rfl
    · have hp' : (e.feed ip s).peers[a]? = some p := by
        rw [getElem?_feed, if_neg ha, hp]
      rw [advertise_eq force hp' hs, feed_setPeer_of_ne (Ne.symm ha)]
      rfl
  · have hnot : ∀ p, e.peers[a]? = some p → p.state ≠ .established :=
      fun p hp hs => hest ⟨p, hp, hs⟩
    rw [advertise_of_not_established hnot, advertise_of_not_established]
    intro p hp
    rw [getElem?_feed] at hp
    split_ifs at hp
    · obtain ⟨q, hq, rfl⟩ := Option.map_eq_some_iff.mp hp
      exact hnot q hq
    · exact hnot p hp

theorem feed_bestRoutes : (e.feed ip s).bestRoutes = e.bestRoutes := by
  refine bestRoutes_congr rfl rfl fun b => ?_
  rw [getElem?_feed]
  split_ifs
  · cases e.peers[b]? <;> rfl
  · rfl

theorem feed_keys : (e.feed ip s).peers.keys = e.peers.keys := by
  have hkeys (t : OrderedMap Ipv4Addr Peer) : t.keys = (t.map fun _ _ => ()).keys :=
    Std.ExtTreeMap.keys_map.symm
  have hmap : (e.feed ip s).peers.map (fun _ _ => ()) = e.peers.map fun _ _ => () :=
    OrderedMap.map_modify fun _ _ => rfl
  rw [hkeys, hmap, ← hkeys]

theorem feed_recompute : (e.feed ip s).recompute = e.recompute.feed ip s := by
  have hfold (ips : List Ipv4Addr) (e : Engine) :
      ips.foldl (fun e a => e.advertise a false) (e.feed ip s) =
        (ips.foldl (fun e a => e.advertise a false) e).feed ip s := by
    induction ips generalizing e with
    | nil => rfl
    | cons b ips ih => rw [List.foldl_cons, List.foldl_cons, feed_advertise, ih]
  unfold recompute
  dsimp only
  rw [feed_bestRoutes, feed_rib]
  split_ifs
  · have hkeys : ({ e.feed ip s with rib := e.bestRoutes }.push .routesChanged).peers.keys =
        ({ e with rib := e.bestRoutes }.push .routesChanged).peers.keys := feed_keys
    rw [hkeys]
    exact hfold _ ({ e with rib := e.bestRoutes }.push .routesChanged)
  · rfl

/-- A session that fails loses its buffer. -/
theorem feed_fail (code subcode : Byte) :
    (e.feed ip s).fail ip code subcode now = e.fail ip code subcode now := by
  cases hp : e.peers[ip]? with
  | none => rw [feed_eq_self hp]
  | some p =>
    have he : e = e.setPeer ip p := (setPeer_self hp).symm
    rw [feed_eq_setPeer hp, fail_setPeer]
    conv_rhs => rw [he, fail_setPeer]

/-! ## A message with more bytes behind it -/

/-- What a method leaves, `d`, against what it leaves, `e`, when there are fewer
bytes in the buffer: they wait there still, unless the session has ended. -/
def Resumes (ip : Ipv4Addr) (s : List Byte) (e d : Engine) : Prop :=
  d = if e.alive ip then e.feed ip s else e

theorem resumes_of_alive (h : e.alive ip = true) (hd : d = e.feed ip s) :
    Resumes ip s e d := by
  unfold Resumes
  rw [if_pos h, hd]

theorem resumes_of_dead (h : e.alive ip = false) (hd : d = e) :
    Resumes ip s e d := by
  unfold Resumes
  rw [h, hd]
  rfl

theorem resumes_fail (code subcode : Byte) :
    Resumes ip s (e.fail ip code subcode now) ((e.feed ip s).fail ip code subcode now) :=
  resumes_of_dead alive_disconnected (feed_fail code subcode)

theorem install_congr (d e : Engine) (q p : Peer) (hc : d.config = e.config)
    (hpol : d.policy = e.policy) (hr : q.remoteAs = p.remoteAs) (hcfg : q.config = p.config)
    (a : Attributes) (nlri : List Prefix) (adjIn : OrderedMap Prefix Attributes) :
    d.install q a nlri adjIn = e.install p a nlri adjIn := by
  induction nlri generalizing adjIn with
  | nil => rfl
  | cons r nlri ih =>
    unfold install
    rw [hc, hpol, hr, hcfg]
    simp only [ih]

/-- The attributes of an UPDATE as a peer's table takes them. -/
def localized (e : Engine) (p : Peer) (a : Attributes) : Attributes :=
  if p.remoteAs != e.config.asn then { a with localPref := 100 } else a

/-- The routes of an UPDATE after its withdrawals. -/
def installed (e : Engine) (p : Peer) (withdrawn : List Prefix) (a : Attributes)
    (nlri : List Prefix) : OrderedMap Prefix Attributes × Bool :=
  e.install p (e.localized p a) nlri (withdrawn.foldl (fun adjIn pfx => adjIn.erase pfx) p.adjIn)

/-- What is left to do of an UPDATE when its routes are in the table. -/
def conclude (e : Engine) (ip : Ipv4Addr) (p : Peer)
    (r : OrderedMap Prefix Attributes × Bool) (now : ℤ) : Engine :=
  let p := { p with adjIn := r.1 }
  if r.2 then (e.setPeer ip p).fail ip 6 1 now
  else
    match overLimit p with
    | some m =>
      let block := match m.restart with
        | some secs => now + secs.toNat * 1000
        | none => never
      (e.setPeer ip { p with prefixBlock := some block }).fail ip 6 1 now
    | none => (e.setPeer ip p).recompute

theorem update_eq (e : Engine) (ip : Ipv4Addr) (p : Peer) (withdrawn : List Prefix)
    (a : Attributes) (nlri : List Prefix) (now : ℤ) :
    e.update ip p withdrawn a nlri now = e.conclude ip p (e.installed p withdrawn a nlri) now := rfl

theorem feed_installed (withdrawn : List Prefix) (a : Attributes) (nlri : List Prefix) :
    (e.feed ip s).installed { p with input := p.input ++ s } withdrawn a nlri =
      e.installed p withdrawn a nlri :=
  install_congr (e.feed ip s) e { p with input := p.input ++ s } p rfl rfl rfl rfl _ nlri _

section

variable (hp : e.peers[ip]? = some p)
include hp

theorem feed_update (hs : p.state = .established) (withdrawn : List Prefix) (a : Attributes)
    (nlri : List Prefix) :
    Resumes ip s (e.update ip p withdrawn a nlri now)
      ((e.feed ip s).update ip { p with input := p.input ++ s } withdrawn a nlri now) := by
  rw [update_eq, update_eq, feed_installed]
  generalize e.installed p withdrawn a nlri = r
  have hfail (block : Option ℤ) : Resumes ip s
      ((e.setPeer ip { p with adjIn := r.1, prefixBlock := block }).fail ip 6 1 now)
      (((e.feed ip s).setPeer ip { p with
        adjIn := r.1, input := p.input ++ s, prefixBlock := block }).fail ip 6 1 now) := by
    refine resumes_of_dead alive_disconnected ?_
    rw [setPeer_feed_self hp, fail_setPeer]
    exact (fail_setPeer (p := { p with adjIn := r.1, prefixBlock := block }) 6 1).symm
  have hlimit : overLimit { p with adjIn := r.1, input := p.input ++ s } =
      overLimit { p with adjIn := r.1 } := rfl
  unfold conclude
  dsimp only
  rw [hlimit]
  split_ifs
  · exact hfail p.prefixBlock
  · split
    · exact hfail _
    · refine resumes_of_alive ?_ ?_
      · rw [alive_of_standing (standing_recompute _ ip)]
        exact alive_setPeer.mpr (by rw [hs]; decide)
      · rw [setPeer_feed_self hp, ← feed_recompute, feed_setPeer_self]

theorem feed_opened (asn : UInt32) (hold : UInt16) (id : Ipv4Addr) (as4 refresh : Bool) :
    Resumes ip s (e.opened ip p asn hold id as4 refresh now)
      ((e.feed ip s).opened ip { p with input := p.input ++ s } asn hold id as4 refresh now) := by
  have haccept : (e.feed ip s).asAcceptable ip { p with input := p.input ++ s } asn =
      e.asAcceptable ip p asn := rfl
  unfold opened
  dsimp only
  rw [haccept, feed_config]
  split_ifs
  · exact resumes_fail 2 2
  · exact resumes_fail 2 3
  all_goals
    refine resumes_of_alive ?_ ?_
    · rw [alive_of_standing (standing_send _ ip .keepalive ip)]
      exact alive_setPeer.mpr ⟨(fun h => nomatch h), (fun h => nomatch h)⟩
    · rw [setPeer_feed_self hp, ← feed_send, feed_setPeer_self]

theorem feed_establish :
    Resumes ip s (e.establish ip p now)
      ((e.feed ip s).establish ip { p with input := p.input ++ s } now) := by
  unfold establish
  refine resumes_of_alive ?_ ?_
  · rw [alive_of_standing (standing_advertise _ ip true ip)]
    exact alive_setPeer.mpr ⟨(fun h => nomatch h), (fun h => nomatch h)⟩
  · rw [setPeer_feed_self hp, ← feed_advertise, feed_setPeer_self]
    rfl

theorem feed_notified (state : State) (err : LastError) :
    Resumes ip s
      (((e.setPeer ip { p with state := state, lastError := some err }).push
        (.close ip)).disconnected ip now)
      ((((e.feed ip s).setPeer ip
        { p with state := state, lastError := some err, input := p.input ++ s }).push
          (.close ip)).disconnected ip now) := by
  refine resumes_of_dead alive_disconnected ?_
  rw [setPeer_feed_self hp, setPeer_push, setPeer_push, disconnected_setPeer, disconnected_setPeer]
  rfl

theorem feed_answer (m : Message) :
    Resumes ip s (e.answer ip p m now)
      ((e.feed ip s).answer ip { p with input := p.input ++ s } m now) := by
  have hfail : Resumes ip s (e.fail ip 5 0 now) ((e.feed ip s).fail ip 5 0 now) := resumes_fail 5 0
  have halive (hs : p.state = .established) : e.alive ip = true := by
    unfold alive
    rw [hp]
    simp [hs]
  generalize hq : ({ p with input := p.input ++ s } : Peer) = q
  have hqs : q.state = p.state := by rw [← hq]
  have hqr : q.refresh = p.refresh := by rw [← hq]
  unfold answer
  rw [hqs]
  cases hs : p.state with
  | idle | connect | active =>
    cases m with
    | notification code subcode => exact hq ▸ feed_notified hp _ _
    | _ => exact hfail
  | openSent =>
    cases m with
    | «open» asn hold id as4 refresh => exact hq ▸ feed_opened hp asn hold id as4 refresh
    | notification code subcode => exact hq ▸ feed_notified hp _ _
    | _ => exact hfail
  | openConfirm =>
    cases m with
    | keepalive => exact hq ▸ feed_establish hp
    | notification code subcode => exact hq ▸ feed_notified hp _ _
    | _ => exact hfail
  | established =>
    cases m with
    | keepalive => exact resumes_of_alive (halive hs) rfl
    | update withdrawn a nlri => exact hq ▸ feed_update hp hs withdrawn a nlri
    | notification code subcode => exact hq ▸ feed_notified hp _ _
    | «open» asn hold id as4 refresh => exact hfail
    | refresh =>
      dsimp only
      rw [hqr]
      split_ifs
      · refine resumes_of_alive ?_ feed_advertise
        rw [alive_of_standing (standing_advertise e ip true ip), halive hs]
      · exact hfail

/-- **A message does the same whatever is behind it in the buffer.** -/
theorem feed_message (m : Message) :
    Resumes ip s (e.message ip m now) ((e.feed ip s).message ip m now) := by
  have hheard : Peer.heard { p with input := p.input ++ s } now =
      { Peer.heard p now with input := (Peer.heard p now).input ++ s } := by
    unfold Peer.heard
    split_ifs <;> rfl
  unfold message
  rw [hp, getElem?_feed_self hp]
  dsimp only
  rw [hheard, setPeer_feed_self hp, ← feed_setPeer_self]
  exact feed_answer getElem?_setPeer_self m

end

/-! ## Messages in the buffer -/

theorem getD_append_left {c : List Byte} {k : ℕ} (h : k < b.length) (x : Byte) :
    (b ++ c).getD k x = b.getD k x := by
  rw [List.getD_eq_getElem?_getD, List.getD_eq_getElem?_getD, List.getElem?_append_left h]

/-- A frame is decoded as soon as it is there. -/
theorem decode_append (h : Message.decode b as4 ≠ .ok none) (c : List Byte) :
    Message.decode (b ++ c) as4 = Message.decode b as4 := by
  unfold Message.decode at h ⊢
  by_cases hshort : b.length < 19
  · exact absurd (if_pos hshort) h
  · have hlong : ¬ (b ++ c).length < 19 := by
      rw [List.length_append]
      omega
    have htake (k : ℕ) (hk : k ≤ b.length) : (b ++ c).take k = b.take k :=
      List.take_append_of_le_length hk
    rw [if_neg hshort, if_neg hlong, htake 16 (by omega), getD_append_left (by omega),
      getD_append_left (by omega), getD_append_left (by omega)]
    rw [if_neg hshort] at h
    split_ifs at h ⊢ with hmarker
    · rfl
    · dsimp only at h ⊢
      split_ifs at h ⊢ with hlen hmore hless hless
      · rfl
      · exact absurd rfl h
      · rw [List.length_append] at hmore
        omega
      · exact absurd rfl h
      · rw [htake _ (by omega)]

/-- The length that a header gives. -/
def frameLength (b : List Byte) : ℕ := (u16FromBe (b.getD 16 0) (b.getD 17 0)).toNat

theorem decode_bounds {n : ℕ} (h : Message.decode b as4 = .ok (some (m, n))) :
    19 ≤ n ∧ n ≤ b.length := by
  unfold Message.decode at h
  dsimp only at h
  split_ifs at h
  · cases h
  · cases h
  · split at h
    · cases h
    · cases h
      omega

/-- What waits in a buffer is less than the longest message. -/
theorem length_of_decode_none (h : Message.decode b as4 = .ok none) : b.length < maxMessage := by
  unfold Message.decode at h
  dsimp only at h
  have hmax : maxMessage = 4096 := rfl
  split_ifs at h
  · omega
  · omega
  · split at h <;> cases h

/-- An error in an UPDATE is found when all of it is there. -/
theorem complete_of_decode_error {err : WireError} (h : Message.decode b as4 = .error err)
    (hcode : err.code = 3) :
    19 ≤ b.length ∧ frameLength b ≤ b.length := by
  unfold Message.decode at h
  dsimp only at h
  unfold frameLength
  split_ifs at h
  · cases h
    cases hcode
  · cases h
    cases hcode
  · omega

theorem withdraw_append (hlong : 19 ≤ b.length) (hall : frameLength b ≤ b.length) (c : List Byte) :
    withdrawMalformedUpdate (b ++ c) = withdrawMalformedUpdate b := by
  unfold frameLength at hall
  have htake : (b ++ c).take (u16FromBe (b.getD 16 0) (b.getD 17 0)).toNat =
      b.take (u16FromBe (b.getD 16 0) (b.getD 17 0)).toNat := List.take_append_of_le_length hall
  have hlength : (b ++ c).length = b.length + c.length := List.length_append
  unfold withdrawMalformedUpdate
  rw [getD_append_left (by omega), getD_append_left (by omega), getD_append_left (by omega)]
  dsimp only
  rw [htake]
  by_cases hkind : b.getD 18 0 = 2
  · by_cases hshort : b.length < 23
    · -- Too short for an UPDATE, whatever follows.
      rw [if_pos (Or.inl hshort)]
      split_ifs with h h'
      · rfl
      · rfl
      · omega
    · rw [if_neg (not_or.mpr ⟨by omega, not_not.mpr hkind⟩),
        if_neg (not_or.mpr ⟨hshort, not_not.mpr hkind⟩)]
      have hiff : ((b ++ c).length < (u16FromBe (b.getD 16 0) (b.getD 17 0)).toNat ∨
          (u16FromBe (b.getD 16 0) (b.getD 17 0)).toNat < 23) ↔
          (b.length < (u16FromBe (b.getD 16 0) (b.getD 17 0)).toNat ∨
            (u16FromBe (b.getD 16 0) (b.getD 17 0)).toNat < 23) := by
        rw [hlength]
        omega
      rw [if_congr hiff rfl rfl]
  · rw [if_pos (Or.inr hkind), if_pos (Or.inr hkind)]

theorem withdraw_bounds {n : ℕ} (h : withdrawMalformedUpdate b = some (m, n)) :
    19 ≤ n ∧ n ≤ b.length := by
  unfold withdrawMalformedUpdate at h
  dsimp only at h
  split_ifs at h
  simp only [Option.bind_eq_bind, Option.bind_eq_some_iff, Option.pure_def, Option.some_inj,
    Prod.mk.injEq] at h
  obtain ⟨-, -, -, -, -, -, -, -, -, hn⟩ := h
  omega

theorem nextMessage_append {p : Peer} (h : nextMessage { p with input := b } ≠ .ok none)
    (c : List Byte) :
    nextMessage { p with input := b ++ c } = nextMessage { p with input := b } := by
  unfold nextMessage at h ⊢
  dsimp only at h ⊢
  have hsame : Message.decode (b ++ c) p.as4 = Message.decode b p.as4 := by
    refine decode_append (fun hnone => ?_) c
    rw [hnone] at h
    exact h rfl
  rw [hsame]
  cases hdecode : Message.decode b p.as4 with
  | ok r => rfl
  | error err =>
    dsimp only
    split_ifs with hcode
    · obtain ⟨hlong, hall⟩ := complete_of_decode_error hdecode hcode.1
      rw [withdraw_append hlong hall]
    · rfl

theorem nextMessage_bounds {p : Peer} {n : ℕ}
    (h : nextMessage { p with input := b } = .ok (some (m, n))) : 0 < n ∧ n ≤ b.length := by
  have hbounds : 19 ≤ n ∧ n ≤ b.length := by
    unfold nextMessage at h
    dsimp only at h
    cases hdecode : Message.decode b p.as4 with
    | ok r =>
      rw [hdecode] at h
      cases h
      exact decode_bounds hdecode
    | error err =>
      rw [hdecode] at h
      dsimp only at h
      split_ifs at h
      cases hwithdraw : withdrawMalformedUpdate b with
      | none =>
        rw [hwithdraw] at h
        cases h
      | some r =>
        rw [hwithdraw] at h
        cases h
        exact withdraw_bounds hwithdraw
  omega

theorem length_of_nextMessage_none {p : Peer} (h : nextMessage { p with input := b } = .ok none) :
    b.length < maxMessage := by
  unfold nextMessage at h
  dsimp only at h
  cases hdecode : Message.decode b p.as4 with
  | ok r =>
    rw [hdecode] at h
    cases h
    exact length_of_decode_none hdecode
  | error err =>
    rw [hdecode] at h
    dsimp only at h
    split_ifs at h
    cases hwithdraw : withdrawMalformedUpdate b with
    | none =>
      rw [hwithdraw] at h
      cases h
    | some r =>
      rw [hwithdraw] at h
      cases h

/-! ## `receive` as a reader -/

/-- An engine in which a message has been taken from a buffer that is put aside. -/
def took (e : Engine) (ip : Ipv4Addr) (p : Peer) : Engine :=
  e.setPeer ip { p with input := [], msgsIn := p.msgsIn + 1 }

/-- One turn of the loop, with the buffer apart from the engine. -/
def readerTurn (ip : Ipv4Addr) (now : ℤ) (e : Engine) (b : List Byte) : Turn Engine Engine :=
  match e.peers[ip]? with
  | none => .halt e
  | some p =>
    match nextMessage { p with input := b } with
    | .ok none => .wait
    | .error err => .halt (e.fail ip err.code err.subcode now)
    | .ok (some (m, n)) =>
      if ((e.took ip p).message ip m now).alive ip then .next ((e.took ip p).message ip m now) n
      else .halt ((e.took ip p).message ip m now)

/-- The receiver of a peer's stream. -/
def reader (ip : Ipv4Addr) (now : ℤ) : Reader Engine Engine Byte where
  turn := readerTurn ip now
  consumes := by
    intro e b e' n h
    unfold readerTurn at h
    split at h
    · cases h
    · split at h
      · cases h
      · cases h
      next hmessage =>
        split_ifs at h
        cases h
        exact nextMessage_bounds hmessage
  stable := by
    intro e b c h
    unfold readerTurn at h ⊢
    split
    · rfl
    next p hp =>
      rw [hp] at h
      rw [nextMessage_append fun hnone => h (by dsimp only; rw [hnone])]

/-- The peer's buffer, which has been put aside, is empty. -/
def Aside (ip : Ipv4Addr) (e : Engine) : Prop :=
  ∀ p, e.peers[ip]? = some p → p.input = []

theorem Aside.of_quiet (h : Aside ip e) (hquiet : e.Quiet d) : Aside ip d := by
  intro q hq
  rcases hquiet ip q hq with hempty | ⟨p, hp, hpq⟩
  · exact hempty
  · rw [← hpq]
    exact h p hp

/-- The engine at the end of the reading, its buffer put back. -/
def restored (ip : Ipv4Addr) : Engine ⊕ Engine × List Byte → Engine
  | .inl d => d
  | .inr (e, b) => e.feed ip b

theorem quiet_took : e.Quiet (e.took ip p) :=
  quiet_setPeer (Or.inl rfl)

theorem alive_feed : (e.feed ip s).alive ip = e.alive ip := by
  unfold alive
  rw [getElem?_feed, if_pos rfl]
  cases e.peers[ip]? <;> rfl

/-- The loop of `receive` is the reader. -/
theorem receiveLoop_eq (h : Aside ip e) :
    receiveLoop ip now fuel (e.feed ip b) =
      ((reader ip now).drain fuel e b).map (restored ip) := by
  induction fuel generalizing e b with
  | zero => rfl
  | succ fuel ih =>
    unfold receiveLoop receiveTurn Reader.drain
    have hturn : (reader ip now).turn e b = readerTurn ip now e b := rfl
    rw [hturn, readerTurn]
    cases hp : e.peers[ip]? with
    | none =>
      have hnone : (e.feed ip b).peers[ip]? = none := by rw [feed_eq_self hp, hp]
      rw [hnone]
      exact congrArg some (feed_eq_self hp)
    | some p =>
      have hbuffer : ({ p with input := p.input ++ b } : Peer) = { p with input := b } := by
        rw [h p hp, List.nil_append]
      rw [getElem?_feed_self hp, hbuffer]
      dsimp only
      cases nextMessage { p with input := b } with
      | error err => exact congrArg some (feed_fail err.code err.subcode)
      | ok r =>
        cases r with
        | none => rfl
        | some mn =>
          obtain ⟨m, n⟩ := mn
          have htook : (e.feed ip b).setPeer ip
              { p with input := b.drop n, msgsIn := p.msgsIn + 1 } =
                (e.took ip p).feed ip (b.drop n) := by
            rw [setPeer_feed_self hp, took, feed_setPeer_self]
            rfl
          have hmessage : Resumes ip (b.drop n) ((e.took ip p).message ip m now)
              (((e.took ip p).feed ip (b.drop n)).message ip m now) :=
            feed_message getElem?_setPeer_self m
          have haside : Aside ip ((e.took ip p).message ip m now) :=
            h.of_quiet (quiet_took.trans (quiet_message ip m now))
          unfold Resumes at hmessage
          dsimp only
          rw [htook, hmessage]
          generalize (e.took ip p).message ip m now = e' at haside
          cases halive : e'.alive ip with
          | true =>
            rw [if_pos rfl, if_pos rfl, alive_feed, halive]
            exact ih haside
          | false =>
            rw [if_neg Bool.false_ne_true, if_neg Bool.false_ne_true, halive]
            rfl

theorem quiet_of_drain {r : Engine ⊕ Engine × List Byte}
    (h : (reader ip now).drain fuel e b = some r) : e.Quiet (r.elim id Prod.fst) := by
  induction fuel generalizing e b with
  | zero => cases h
  | succ fuel ih =>
    unfold Reader.drain at h
    have hturn : (reader ip now).turn e b = readerTurn ip now e b := rfl
    rw [hturn, readerTurn] at h
    cases hp : e.peers[ip]? with
    | none =>
      rw [hp] at h
      cases h
      exact .refl e
    | some p =>
      rw [hp] at h
      dsimp only at h
      cases hnext : nextMessage { p with input := b } with
      | error err =>
        rw [hnext] at h
        cases h
        exact quiet_fail ip err.code err.subcode now
      | ok o =>
        rw [hnext] at h
        cases o with
        | none =>
          cases h
          exact .refl e
        | some mn =>
          have hmessage : e.Quiet ((e.took ip p).message ip mn.1 now) :=
            quiet_took.trans (quiet_message ip mn.1 now)
          dsimp only at h
          split_ifs at h
          · exact hmessage.trans (ih h)
          · cases h
            exact hmessage

/-- A reading that has ended leaves no live session. -/
theorem dead_of_drain (h : (reader ip now).drain fuel e b = some (.inl d)) :
    d.alive ip = false := by
  induction fuel generalizing e b with
  | zero => cases h
  | succ fuel ih =>
    unfold Reader.drain at h
    have hturn : (reader ip now).turn e b = readerTurn ip now e b := rfl
    rw [hturn, readerTurn] at h
    cases hp : e.peers[ip]? with
    | none =>
      rw [hp] at h
      cases h
      unfold alive
      rw [hp]
    | some p =>
      rw [hp] at h
      dsimp only at h
      cases hnext : nextMessage { p with input := b } with
      | error err =>
        rw [hnext] at h
        cases h
        exact alive_disconnected
      | ok o =>
        rw [hnext] at h
        cases o with
        | none => cases h
        | some mn =>
          dsimp only at h
          split_ifs at h with halive
          · exact ih h
          · cases h
            exact Bool.eq_false_iff.mpr halive

/-- A receiver that waits has a peer, and less in its buffer than a message. -/
theorem waits_of_drain {b' : List Byte} {e' : Engine}
    (h : (reader ip now).drain fuel e b = some (.inr (e', b'))) :
    (∃ p, e'.peers[ip]? = some p) ∧ b'.length < maxMessage := by
  have hwait : readerTurn ip now e' b' = .wait := Reader.turn_of_drain h
  unfold readerTurn at hwait
  cases hp : e'.peers[ip]? with
  | none =>
    rw [hp] at hwait
    cases hwait
  | some p =>
    rw [hp] at hwait
    dsimp only at hwait
    refine ⟨⟨p, rfl⟩, ?_⟩
    cases hnext : nextMessage { p with input := b' } with
    | error err =>
      rw [hnext] at hwait
      cases hwait
    | ok o =>
      rw [hnext] at hwait
      cases o with
      | none => exact length_of_nextMessage_none hnext
      | some mn =>
        dsimp only at hwait
        split_ifs at hwait

/-- An engine with one peer's buffer put aside. -/
def emptied (e : Engine) (ip : Ipv4Addr) (p : Peer) : Engine :=
  e.setPeer ip { p with input := [] }

theorem aside_emptied : Aside ip (e.emptied ip p) := by
  intro q hq
  unfold emptied at hq
  rw [getElem?_setPeer_self] at hq
  cases hq
  rfl

theorem emptied_feed (hp : e.peers[ip]? = some p) (h : Aside ip e) :
    (e.feed ip b).emptied ip { p with input := p.input ++ b } = e := by
  unfold emptied
  rw [setPeer_feed_self hp]
  have hsame : ({ p with input := [] } : Peer) = p := by
    rw [← h p hp]
  exact (congrArg (e.setPeer ip) hsame).trans (setPeer_self hp)

/-- **`receive` ends, and is the reader on the whole buffer.** -/
theorem receive_eq (now : ℤ) (hp : e.peers[ip]? = some p)
    (hlen : p.input.length + s.length ≤ 65536) :
    ∃ fuel r, (reader ip now).drain fuel (e.emptied ip p) (p.input ++ s) = some r ∧
      e.receive ip s now = restored ip r := by
  obtain ⟨r, hr⟩ := (reader ip now).exists_drain (s := e.emptied ip p)
    (Nat.lt_succ_self (p.input ++ s).length)
  refine ⟨_, r, hr, ?_⟩
  have hfeed : e.setPeer ip { p with input := p.input ++ s } =
      (e.emptied ip p).feed ip (p.input ++ s) := by
    rw [emptied, feed_setPeer_self]
    rfl
  unfold receive
  rw [hp]
  dsimp only
  rw [if_neg (by omega), hfeed, receiveLoop_eq aside_emptied, hr]
  rfl

/-! ## The bound on the buffers -/

/-- Every buffer holds less than the longest message. -/
def Bounded (e : Engine) : Prop :=
  ∀ (a : Ipv4Addr) (p : Peer), e.peers[a]? = some p → p.input.length < maxMessage

theorem Bounded.of_quiet (h : e.Bounded) (hquiet : e.Quiet d) : d.Bounded := by
  intro a q hq
  rcases hquiet a q hq with hempty | ⟨p, hp, hpq⟩
  · rw [hempty]
    decide
  · rw [← hpq]
    exact h a p hp

theorem Bounded.receive (h : e.Bounded) (ip : Ipv4Addr) (data : List Byte) (now : ℤ) :
    (e.receive ip data now).Bounded := by
  cases hp : e.peers[ip]? with
  | none =>
    have hsame : e.receive ip data now = e := by
      unfold Engine.receive
      rw [hp]
    rw [hsame]
    exact h
  | some p =>
    by_cases hlen : p.input.length + data.length ≤ 65536
    · obtain ⟨fuel, r, hr, hreceive⟩ := receive_eq now hp hlen
      have hquiet : e.Quiet (r.elim id Prod.fst) :=
        Quiet.trans (quiet_setPeer (Or.inl rfl)) (quiet_of_drain hr)
      rw [hreceive]
      cases r with
      | inl d => exact h.of_quiet hquiet
      | inr eb =>
        obtain ⟨e', b'⟩ := eb
        have haside : Aside ip e' := aside_emptied.of_quiet (quiet_of_drain hr)
        intro a q hq
        unfold restored at hq
        rw [getElem?_feed] at hq
        split_ifs at hq with ha
        · obtain ⟨q', hq', rfl⟩ := Option.map_eq_some_iff.mp hq
          dsimp only
          rw [haside q' (ha ▸ hq'), List.nil_append]
          exact (waits_of_drain hr).2
        · exact h.of_quiet hquiet a q hq
    · have hclosed : e.receive ip data now = (e.push (.close ip)).disconnected ip now := by
        unfold Engine.receive
        rw [hp]
        exact if_pos (by omega)
      rw [hclosed]
      exact h.of_quiet (quiet_disconnected (e := e.push (.close ip)) ip now)

/-- The bound holds along any run. -/
theorem Reachable.bounded (h : Reachable Always e) : e.Bounded := by
  induction h with
  | new config policy now =>
    intro ip p hp
    unfold Engine.new at hp
    dsimp only at hp
    rw [Std.ExtTreeMap.getElem?_filterMap', Option.bind_eq_some_iff] at hp
    obtain ⟨n, -, hn⟩ := hp
    obtain ⟨rule, -, rfl⟩ := Option.map_eq_some_iff.mp hn
    exact Nat.zero_lt_succ _
  | step now ev _ _ ih =>
    cases ev with
    | accept ip => exact ih.of_quiet (quiet_accept ip now)
    | connected ip here => exact ih.of_quiet (quiet_connected ip here now)
    | disconnected ip => exact ih.of_quiet (quiet_disconnected ip now)
    | receive ip data => exact ih.receive ip data now
    | poll => exact ih.of_quiet quiet_poll
    | setOrigins prefixes => exact ih.of_quiet (quiet_setOrigins prefixes)
    | clear ip => exact ih.of_quiet (quiet_clear ip now)

/-! ## Independence of the cut -/

/-- Two pieces at once are the first and then the second, where the session lives
in between. -/
theorem receive_append (h : e.Bounded) (hlen : (s ++ t).length ≤ 60000)
    (halive : (e.receive ip s now).alive ip) :
    e.receive ip (s ++ t) now = (e.receive ip s now).receive ip t now := by
  rw [List.length_append] at hlen
  have hmax : maxMessage = 4096 := rfl
  cases hp : e.peers[ip]? with
  | none =>
    have hsame : e.receive ip s now = e := by
      unfold receive
      rw [hp]
    rw [hsame] at halive
    unfold alive at halive
    rw [hp] at halive
    cases halive
  | some p =>
    have hbuffer := h ip p hp
    obtain ⟨fuel₁, r₁, hr₁, hfirst⟩ := receive_eq now (s := s) hp (by omega)
    obtain ⟨fuel₂, r₂, hr₂, hboth⟩ := receive_eq now (s := s ++ t) hp
      (by rw [List.length_append]; omega)
    rw [hboth]
    cases r₁ with
    | inl d =>
      have hdead : d.alive ip = false := dead_of_drain hr₁
      have hd : e.receive ip s now = d := hfirst
      rw [hd, hdead] at halive
      cases halive
    | inr eb =>
      obtain ⟨e', b'⟩ := eb
      obtain ⟨⟨p', hp'⟩, hb'⟩ := waits_of_drain hr₁
      have haside : Aside ip e' := aside_emptied.of_quiet (quiet_of_drain hr₁)
      have hget : (e'.feed ip b').peers[ip]? = some { p' with input := p'.input ++ b' } :=
        getElem?_feed_self hp'
      have hinput : p'.input ++ b' = b' := by rw [haside p' hp', List.nil_append]
      obtain ⟨fuel₃, r₃, hr₃, hsecond⟩ := receive_eq now (s := t) hget
        (by dsimp only; rw [hinput]; omega)
      rw [emptied_feed hp' haside] at hr₃
      dsimp only at hr₃
      rw [hinput] at hr₃
      obtain ⟨fuel, hall⟩ := Reader.drain_append hr₁ hr₃
      rw [List.append_assoc] at hall
      rw [hfirst, Reader.drain_unique hr₂ hall]
      exact hsecond.symm

/-- The loop of a call of `receive` comes to an end. -/
def Ends (e : Engine) (ip : Ipv4Addr) (data : List Byte) (now : ℤ) : Prop :=
  ∀ p, e.peers[ip]? = some p → p.input.length + data.length ≤ 65536 →
    (receiveLoop ip now ((p.input ++ data).length + 1)
      (e.setPeer ip { p with input := p.input ++ data })).isSome

theorem ends (e : Engine) (ip : Ipv4Addr) (data : List Byte) (now : ℤ) : e.Ends ip data now := by
  intro p hp _
  have hfeed : e.setPeer ip { p with input := p.input ++ data } =
      (e.emptied ip p).feed ip (p.input ++ data) := by
    rw [emptied, feed_setPeer_self]
    rfl
  obtain ⟨r, hr⟩ := (reader ip now).exists_drain (s := e.emptied ip p)
    (Nat.lt_succ_self (p.input ++ data).length)
  rw [hfeed, receiveLoop_eq aside_emptied, hr]
  rfl

/-- Pieces of a stream, one after the other. -/
def receiveAll (e : Engine) (ip : Ipv4Addr) (chunks : List (List Byte)) (now : ℤ) : Engine :=
  chunks.foldl (fun e c => e.receive ip c now) e

theorem receiveAll_eq {chunks : List (List Byte)} (h : e.Bounded) (hne : chunks ≠ [])
    (hlen : chunks.flatten.length ≤ 60000)
    (halive : ∀ k, 0 < k → k < chunks.length → (e.receiveAll ip (chunks.take k) now).alive ip) :
    e.receiveAll ip chunks now = e.receive ip chunks.flatten now := by
  induction chunks generalizing e with
  | nil => exact absurd rfl hne
  | cons c rest ih =>
    cases hrest : rest with
    | nil => rw [List.flatten_singleton]; rfl
    | cons c' rest' =>
      rw [← hrest]
      have hpos : 0 < rest.length := by
        rw [hrest]
        exact Nat.zero_lt_succ _
      rw [List.flatten_cons] at hlen ⊢
      have hfirst : (e.receive ip c now).alive ip :=
        halive 1 Nat.one_pos (by rw [List.length_cons]; omega)
      rw [receive_append h hlen hfirst]
      refine ih (h.receive ip c now) (List.ne_nil_of_length_pos hpos) ?_ fun k hk hlt => ?_
      · rw [List.length_append] at hlen
        omega
      · exact halive (k + 1) (Nat.succ_pos k) (by rw [List.length_cons]; omega)

/-- **The cut of a peer's stream makes no difference**: all pieces at once leave
the engine that they leave one after the other, with the same actions, where the
session lives after each piece but the last.  And every call ends, with less in
the peer's buffer than the longest message. -/
theorem receive_segmentation (h : Reachable Always e) (ip : Ipv4Addr) (now : ℤ) :
    (∀ chunks : List (List Byte), chunks ≠ [] → chunks.flatten.length ≤ 60000 →
      (∀ k, 0 < k → k < chunks.length → (e.receiveAll ip (chunks.take k) now).alive ip) →
      e.receiveAll ip chunks now = e.receive ip chunks.flatten now) ∧
    ∀ data : List Byte, e.Ends ip data now ∧
      ∀ p, (e.receive ip data now).peers[ip]? = some p → p.input.length < maxMessage :=
  ⟨fun _ hne hlen halive => receiveAll_eq h.bounded hne hlen halive,
    fun data => ⟨ends e ip data now, h.bounded.receive ip data now ip⟩⟩

/-- A neighbor whose connection is up, and its OPEN in two pieces. -/
def greeted : Engine := (speaker [(1, 1)]).run [(0, .connected (speakerIp 1) (speakerIp 254))]

def greeting : List (List Byte) :=
  let b := (Message.open 1 180 ⟨0, 0, 0, 2⟩ true true).encode true
  [b.take 17, b.drop 17]

theorem receive_segmentation_greeting :
    greeted.receiveAll (speakerIp 1) greeting 0 =
        greeted.receive (speakerIp 1) greeting.flatten 0 ∧
      greeted.Ends (speakerIp 1) greeting.flatten 0 := by
  have h := receive_segmentation ((Reachable.new _ _ _).run _ : Reachable Always greeted)
    (speakerIp 1) 0
  refine ⟨h.1 greeting (by decide) (by decide +kernel) fun k hpos hlt => ?_, (h.2 _).1⟩
  obtain rfl : k = 1 := by
    have hlength : greeting.length = 2 := rfl
    omega
  decide +kernel

/-- **No peer makes the engine keep more than a message**, whatever comes and in whatever order. -/
theorem input_shorter_than_message (config : Config) (policy : Policy) (now : ℤ)
    (evs : List (ℤ × Event)) (a : Ipv4Addr) : ((Engine.new config policy now).run evs).peers[a]?.all
    (·.input.length < maxMessage) = true := by
  rw [Option.all_eq_true]
  exact fun p hp => decide_eq_true (((Reachable.new config policy now).run evs).bounded a p hp)

end EvansComputer.Bgp.Engine
