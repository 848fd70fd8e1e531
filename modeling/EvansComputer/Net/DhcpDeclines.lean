import EvansComputer.Net.DhcpLeases

/-!
# Declined addresses

A declined address is parked: its lease is given to the hardware address zero and kept
for the hold time.  Nothing in `handle` tells this owner from a client, so a client
whose hardware address is zero may release the lease, take it over, or have its own
leases replaced and the parked one with them (`not_always_parked`).  No other message
does (`declined_stays_parked`).
-/

namespace EvansComputer.Dhcp.LeaseDb

variable {pool : PoolSpec} {reservations : List Reservation} {m : Message} {server a : Ipv4Addr}
  {t now till : ℤ} {db db' : LeaseDb} {name : List Char} {r : Option Message}

/-- The server acts on the message. -/
def Heeds (pool : PoolSpec) (m : Message) (server : Ipv4Addr) : Prop :=
  m.reply = false ∧ m.relay.isUnspecified = true ∧ server.isUnspecified = false ∧
    pool.isValid = true ∧ m.server.any (· ≠ server) = false

/-- A DECLINE of an address is accepted: the client has a live lease of it. -/
def Declines (db : LeaseDb) (pool : PoolSpec) (m : Message) (server a : Ipv4Addr) (t : ℤ) : Prop :=
  Heeds pool m server ∧ m.kind = decline ∧ m.requested = some a ∧
    ∃ l ∈ db.leases, t < l.expires ∧ l.mac = m.mac ∧ l.address = a ∧ l.pool = pool.name

/-- The message may reach the parked lease of an address: it comes from the hardware
address zero and releases the address or asks for one, or it is for another pool whose
subnet has the address too. -/
def Disturbs (name : List Char) (a : Ipv4Addr) (pool : PoolSpec) (m : Message) (server : Ipv4Addr) :
    Prop :=
  if pool.name = name then
    Heeds pool m server ∧ m.mac = .zero ∧
      (m.kind = release ∧ m.ciaddr = a ∨ m.kind = discover ∨ m.kind = request)
  else pool.inSubnet a = true

/-- A stretch of a run after a time and before the hold time has passed, without
messages that disturb. -/
inductive Undisturbed (name : List Char) (a : Ipv4Addr) (t : ℤ) (db : LeaseDb) : LeaseDb → Prop
  | refl : Undisturbed name a t db db
  | step {db' : LeaseDb} (pool : PoolSpec) (reservations : List Reservation) (m : Message)
      (server : Ipv4Addr) (now : ℤ) (h : Undisturbed name a t db db') (hle : t ≤ now)
      (hnow : now < t + declineHoldMs) (hm : ¬Disturbs name a pool m server) :
      Undisturbed name a t db (db'.handle pool reservations m server now).1

/-- The address is parked until then. -/
def Parked (name : List Char) (a : Ipv4Addr) (till : ℤ) (leases : List Lease) : Prop :=
  ∃ l ∈ leases, l.pool = name ∧ l.mac = .zero ∧ l.address = a ∧ l.offered = false ∧ till ≤ l.expires

/-! ## Parking -/

theorem mem_modifyFirst_of_any {p : Lease → Bool} {f : Lease → Lease} {leases : List Lease}
    (h : ∃ l ∈ leases, p l = true) : ∃ l ∈ leases, p l = true ∧ f l ∈ modifyFirst p f leases := by
  induction leases with
  | nil =>
    obtain ⟨l, hl, _⟩ := h
    cases hl
  | cons k leases ih =>
    rw [modifyFirst]
    by_cases hk : p k = true
    · rw [if_pos hk]
      exact ⟨k, List.mem_cons_self, hk, List.mem_cons_self⟩
    · rw [if_neg hk]
      obtain ⟨l, hl, hp⟩ := h
      have hrest : l ∈ leases := by
        rcases List.mem_cons.mp hl with rfl | hl
        · exact absurd hp hk
        · exact hl
      obtain ⟨l, hl, hp, hmem⟩ := ih ⟨l, hrest, hp⟩
      exact ⟨l, List.mem_cons_of_mem _ hl, hp, List.mem_cons_of_mem _ hmem⟩

theorem parked_of_declines (h : Declines db pool m server a t) :
    Parked pool.name a (t + declineHoldMs) (db.handle pool reservations m server t).1.leases := by
  obtain ⟨⟨hreply, hrelay, hserver, hvalid, hother⟩, hkind, hrequested, l, hl, hlive, hlease⟩ := h
  have hhandle : (db.handle pool reservations m server t).1.leases = modifyFirst
      (fun l => decide (l.mac = m.mac ∧ some l.address = m.requested ∧ l.pool = pool.name))
      (fun l => { l with mac := .zero, offered := false, expires := t + declineHoldMs })
      (db.expire t).1.leases := by
    unfold handle
    rw [if_neg (by simp [hreply, hrelay, hserver, hvalid])]
    dsimp only
    rw [if_neg (by rw [hother]; exact Bool.false_ne_true), if_neg (by rw [hkind]; decide),
      if_pos hkind]
  rw [hhandle]
  obtain ⟨k, _, hk, hmem⟩ := mem_modifyFirst_of_any
    (p := fun l => decide (l.mac = m.mac ∧ some l.address = m.requested ∧ l.pool = pool.name))
    (f := fun l => { l with mac := .zero, offered := false, expires := t + declineHoldMs })
    ⟨l, mem_expire.mpr ⟨hl, hlive⟩, decide_eq_true ⟨hlease.1, by rw [hlease.2.1, hrequested],
      hlease.2.2⟩⟩
  obtain ⟨_, haddress, hpool⟩ := of_decide_eq_true hk
  rw [hrequested] at haddress
  exact ⟨_, hmem, hpool, rfl, Option.some.inj haddress, rfl, Int.le_refl _⟩

theorem Parked.mono {leases leases' : List Lease} (h : Parked name a till leases)
    (hkeep : ∀ l ∈ leases, l.pool = name → l.mac = .zero → l.address = a → l.offered = false →
      l ∈ leases') : Parked name a till leases' := by
  obtain ⟨l, hl, hpool, hmac, haddr, hoff, htill⟩ := h
  exact ⟨l, hkeep l hl hpool hmac haddr hoff, hpool, hmac, haddr, hoff, htill⟩

theorem Parked.expire (h : Parked name a till db.leases) (hnow : now < till) :
    Parked name a till (db.expire now).1.leases := by
  obtain ⟨l, hl, hpool, hmac, haddr, hoff, htill⟩ := h
  exact ⟨l, mem_expire.mpr ⟨hl, Int.lt_of_lt_of_le hnow htill⟩, hpool, hmac, haddr, hoff, htill⟩

theorem Parked.modifyFirst {p : Lease → Bool} {f : Lease → Lease} {leases : List Lease}
    (h : Parked name a till leases)
    (hf : ∀ l ∈ leases, p l = true → l.pool = name → l.address = a → (f l).pool = name ∧
      (f l).mac = .zero ∧ (f l).address = a ∧ (f l).offered = false ∧ till ≤ (f l).expires) :
    Parked name a till (modifyFirst p f leases) := by
  induction leases with
  | nil => exact h
  | cons k leases ih =>
    obtain ⟨l, hl, hpool, hmac, haddr, hoff, htill⟩ := h
    rw [LeaseDb.modifyFirst]
    by_cases hk : p k = true
    · rw [if_pos hk]
      rcases List.mem_cons.mp hl with rfl | hl
      · exact ⟨_, List.mem_cons_self, hf l List.mem_cons_self hk hpool haddr⟩
      · exact ⟨l, List.mem_cons_of_mem _ hl, hpool, hmac, haddr, hoff, htill⟩
    · rw [if_neg hk]
      rcases List.mem_cons.mp hl with rfl | hl
      · exact ⟨l, List.mem_cons_self, hpool, hmac, haddr, hoff, htill⟩
      · obtain ⟨l, hl, hlease⟩ := ih ⟨l, hl, hpool, hmac, haddr, hoff, htill⟩ fun l hl =>
          hf l (List.mem_cons_of_mem _ hl)
        exact ⟨l, List.mem_cons_of_mem _ hl, hlease⟩

/-- A message of a client that has an address of its own, or for another pool, leaves the
address parked. -/
theorem Answer.parked (h : Answer db pool reservations m server now db' r)
    (hparked : Parked name a till db.leases) (hnow : now < till)
    (hother : ¬(m.mac = .zero ∧ pool.name = name)) : Parked name a till db'.leases := by
  have hexp := hparked.expire hnow
  have hmine (l : Lease) (hpool : l.pool = name) (hmac : l.mac = .zero) :
      ¬(l.mac = m.mac ∧ l.pool = pool.name) :=
    fun hl => hother ⟨hl.1.symm.trans hmac, hl.2.symm.trans hpool⟩
  cases h with
  | ignored => exact hparked
  | plain => exact hexp
  | withdrawn =>
    refine hexp.mono fun l hl hpool hmac _ _ =>
      List.mem_filter.mpr ⟨hl, decide_eq_true fun hw => ?_⟩
    exact hmine l hpool hmac hw.2
  | released dirty hkind =>
    refine hexp.mono fun l hl hpool hmac _ _ =>
      List.mem_filter.mpr ⟨hl, decide_eq_true fun hw => ?_⟩
    exact hmine l hpool hmac ⟨hw.1, hw.2.2⟩
  | declined dirty hkind =>
    refine hexp.mono fun l hl hpool hmac _ _ => mem_modifyFirst hl (decide_eq_false fun hw => ?_)
    exact hmine l hpool hmac ⟨hw.1, hw.2.2⟩
  | granted b isOffer havail =>
    rcases (db.expire now).1.bind_leases pool m.mac b isOffer now with
      ⟨-, -, hsame⟩ | ⟨-, k, -, -, -, -, -, hnew⟩
    · rw [hsame]
      exact hexp
    · rw [hnew]
      exact hexp.mono fun l hl hpool hmac _ _ => List.mem_append_left _
        (List.mem_filter.mpr ⟨hl, decide_eq_true (hmine l hpool hmac)⟩)

theorem heeds_of_not
    (hguard : ¬(m.reply || !m.relay.isUnspecified || server.isUnspecified || !pool.isValid) = true)
    (hserver : ¬m.server.any (· ≠ server) = true) : Heeds pool m server := by
  rw [Bool.not_eq_true] at hserver
  refine ⟨?_, ?_, ?_, ?_, hserver⟩
  all_goals simp_all

/-- So does a message from the hardware address zero, unless it releases the address or
asks for one. -/
theorem Parked.handle_zero (hparked : Parked pool.name a till db.leases) (hnow : now < till)
    (htill : till ≤ now + declineHoldMs)
    (hm : ¬(Heeds pool m server ∧ m.mac = .zero ∧
      (m.kind = release ∧ m.ciaddr = a ∨ m.kind = discover ∨ m.kind = request)))
        (hmac : m.mac = .zero) :
    Parked pool.name a till (db.handle pool reservations m server now).1.leases ∧
      ∀ r, (db.handle pool reservations m server now).2 = some r → r.handsOut ≠ some a := by
  have hexp := hparked.expire hnow
  generalize hold : (db.expire now).1 = old at hexp
  unfold handle
  rw [hold]
  split_ifs with hguard hserver hreq hrel hdec hinf hsub hdis hreq'
  · exact ⟨hparked, fun _ hr => nomatch hr⟩
  · refine ⟨hexp.mono fun l hl _ _ _ hoff => List.mem_filter.mpr ⟨hl, ?_⟩, fun _ hr => nomatch hr⟩
    rw [hoff]
    simp
  · exact ⟨hexp, fun _ hr => nomatch hr⟩
  · have hheeds := heeds_of_not hguard hserver
    refine ⟨hexp.mono fun l hl _ _ haddr _ => List.mem_filter.mpr ⟨hl, ?_⟩, fun _ hr => nomatch hr⟩
    have hciaddr : a ≠ m.ciaddr := fun heq => hm ⟨hheeds, hmac, .inl ⟨hrel, heq.symm⟩⟩
    rw [haddr]
    simp [hciaddr]
  · refine ⟨hexp.modifyFirst fun l _ _ hpool haddr => ?_, fun _ hr => nomatch hr⟩
    exact ⟨hpool, rfl, haddr, rfl, htill⟩
  · refine ⟨hexp, fun r hr => ?_⟩
    rw [← Option.some.inj hr, handsOut_inform]
    exact (Option.some_ne_none a).symm
  · exact ⟨hexp, fun _ hr => nomatch hr⟩
  · exact absurd ⟨heeds_of_not hguard hserver, hmac, .inr (.inl hdis)⟩ hm
  · exact absurd ⟨heeds_of_not hguard hserver, hmac, .inr (.inr hreq')⟩ hm
  · exact ⟨hexp, fun _ hr => nomatch hr⟩

/-- A message that does not disturb leaves the address parked, and does not hand it out. -/
theorem Parked.handle (h : Parked name a till db.leases) (hnow : now < till)
    (htill : till ≤ now + declineHoldMs) (hm : ¬Disturbs name a pool m server) :
    Parked name a till (db.handle pool reservations m server now).1.leases ∧
      ∀ r, (db.handle pool reservations m server now).2 = some r → r.handsOut ≠ some a := by
  unfold Disturbs at hm
  by_cases hname : pool.name = name
  · rw [if_pos hname] at hm
    by_cases hmac : m.mac = .zero
    · rw [← hname] at h ⊢
      exact h.handle_zero hnow htill hm hmac
    · refine ⟨(answer_handle ..).parked h hnow fun hz => hmac hz.1, fun r hr ha => ?_⟩
      obtain ⟨havail, -⟩ := available_of_handsOut hr ha
      obtain ⟨l, hl, hpool, hlmac, haddr, -, -⟩ := h.expire hnow
      exact hmac ((havail.leased l hl (hpool.trans hname.symm) haddr).symm.trans hlmac)
  · rw [if_neg hname] at hm
    refine ⟨(answer_handle ..).parked h hnow fun hz => hname hz.2, fun r hr ha => ?_⟩
    exact hm (available_of_handsOut hr ha).1.inSubnet

theorem Undisturbed.parked (h : Undisturbed name a t db db')
    (hparked : Parked name a (t + declineHoldMs) db.leases) :
    Parked name a (t + declineHoldMs) db'.leases := by
  induction h with
  | refl => exact hparked
  | step pool reservations m server now _ hle hnow hm ih =>
    exact (ih.handle hnow (by omega) hm).1

/-- **A declined address stays parked**: after an accepted DECLINE, and before the hold
time has passed, no message hands the address out, in every run in which no message
disturbs it. -/
theorem declined_stays_parked (h : Declines db pool m server a t)
    (hrun : Undisturbed pool.name a t (db.handle pool reservations m server t).1 db')
    {pool' : PoolSpec} {reservations' : List Reservation} {m' : Message} {server' : Ipv4Addr}
    (hle : t ≤ now) (hnow : now < t + declineHoldMs) (hm' : ¬Disturbs pool.name a pool' m' server')
    {r : Message} (hr : (db'.handle pool' reservations' m' server' now).2 = some r) :
    r.handsOut ≠ some a :=
  ((hrun.parked (parked_of_declines h)).handle hnow (by omega) hm').2 r hr

/-- The DECLINE of the first client. -/
def firstDecline : Message :=
  { Message.new decline 8 ⟨2, 0, 0, 0, 0, 1⟩ with requested := some smallPool.start }

theorem declines_firstDecline :
    Declines leasedOnce smallPool firstDecline ⟨192, 168, 50, 1⟩ smallPool.start 1 := by
  refine ⟨⟨rfl, rfl, rfl, by decide +kernel, rfl⟩, rfl, rfl,
    ⟨smallPool.name, ⟨2, 0, 0, 0, 0, 1⟩, smallPool.start, 3600000, false⟩,
      ?_, by decide, rfl, rfl, rfl⟩
  decide +kernel

/-- The address is not offered to the next client. -/
theorem declined_stays_parked_next :
    (((leasedOnce.handle smallPool [] firstDecline ⟨192, 168, 50, 1⟩ 1).1.handle smallPool []
      (.new discover 9 ⟨2, 0, 0, 0, 0, 2⟩) ⟨192, 168, 50, 1⟩ 2).2.map (·.handsOut)) ≠
      some (some smallPool.start) := by
  intro heq
  obtain ⟨r, hr, ha⟩ := Option.map_eq_some_iff.mp heq
  refine declined_stays_parked declines_firstDecline .refl (by decide) (by decide) ?_ hr ha
  rw [Disturbs, if_pos rfl]
  exact fun hd => absurd hd.2.1 (by decide)

/-- **A parked address is not always parked**: it is offered to a client whose hardware
address is zero. -/
theorem not_always_parked :
    Declines leasedOnce smallPool firstDecline ⟨192, 168, 50, 1⟩ smallPool.start 1 ∧
      ((leasedOnce.handle smallPool [] firstDecline ⟨192, 168, 50, 1⟩ 1).1.handle smallPool []
        (.new discover 9 .zero) ⟨192, 168, 50, 1⟩ 2).2.map (fun r => (r.kind, r.handsOut)) =
          some (offer, some smallPool.start) :=
  ⟨declines_firstDecline, by decide +kernel⟩

end EvansComputer.Dhcp.LeaseDb
