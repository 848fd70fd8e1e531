import EvansComputer.Net.DhcpTable

/-!
# Leases are exclusive

The runs of a lease table of one pool: messages of any clients, expiry, and the
table read back from its saved form, into itself or into an empty table, with a
clock that does not go back.

An acknowledged address is held by a bound lease of the client (`Holds`).  No message
of another client takes that lease away, and while it is there the address is
available to nobody else; this is `no_other_while_held`, and the rest follows from
what `available` means.
-/

namespace EvansComputer.Dhcp

open Text

/-- What happens to a table. -/
inductive Event where
  | handle (m : Message) (server : Ipv4Addr)
  | expire
  /-- The table reads its own saved form. -/
  | restore
  /-- A new table reads the saved form of this one. -/
  | restart

namespace LeaseDb

/-- The table and the reply after an event. -/
def step (db : LeaseDb) (pool : PoolSpec) (reservations : List Reservation) (now : ℤ) :
    Event → LeaseDb × Option Message
  | .handle m server => db.handle pool reservations m server now
  | .expire => ((db.expire now).1, none)
  | .restore => (db.restore db.render now, none)
  | .restart => (new.restore db.render now, none)

/-- The tables that a run leads to, with its clock. -/
inductive Reachable (pool : PoolSpec) (reservations : List Reservation) : ℤ → LeaseDb → Prop
  | new (now : ℤ) : Reachable pool reservations now new
  | step {t now : ℤ} {db : LeaseDb} (ev : Event) : Reachable pool reservations t db → t ≤ now →
      Reachable pool reservations now (db.step pool reservations now ev).1

/-- The client gives the address up: it releases or declines it, or is acknowledged
another one. -/
def GivesUp (c : MacAddr) (a : Ipv4Addr) (r : Option Message) : Event → Prop
  | .handle m _ => m.mac = c ∧
      (m.kind = release ∧ m.ciaddr = a ∨ m.kind = decline ∧ m.requested = some a ∨
        ∃ r' b, r = some r' ∧ r'.kind = ack ∧ r'.handsOut = some b ∧ b ≠ a)
  | _ => False

/-- A new table takes in the whole saved form: the pool's name is one word, and there
are no more leases than it may hold. -/
def Restartable (pool : PoolSpec) (db : LeaseDb) : Prop :=
  IsWord pool.name ∧ db.saved.length ≤ maxLeases

/-- A stretch of a run in which the client does not give the address up. -/
inductive Since (pool : PoolSpec) (reservations : List Reservation) (c : MacAddr) (a : Ipv4Addr)
    (t : ℤ) (db : LeaseDb) : ℤ → LeaseDb → Prop
  | refl : Since pool reservations c a t db t db
  | step {t' now : ℤ} {db' : LeaseDb} (ev : Event) : Since pool reservations c a t db t' db' →
      t' ≤ now → ¬ GivesUp c a (db'.step pool reservations now ev).2 ev →
      (ev = .restart → Restartable pool db') →
      Since pool reservations c a t db now (db'.step pool reservations now ev).1

/-- The client has a bound lease of the address until then. -/
def Holds (pool : PoolSpec) (c : MacAddr) (a : Ipv4Addr) (till : ℤ) (leases : List Lease) : Prop :=
  ∃ l ∈ leases, l.pool = pool.name ∧ l.mac = c ∧ l.address = a ∧ l.offered = false ∧
    till ≤ l.expires

variable {pool : PoolSpec} {reservations : List Reservation} {m : Message} {server a : Ipv4Addr}
  {t now till : ℤ} {db db' : LeaseDb} {c : MacAddr} {r : Option Message} {ev : Event}

/-! ## What every reachable table keeps -/

/-- One lease an address, and only leases of the pool where its name can be saved. -/
structure Sound (pool : PoolSpec) (db : LeaseDb) : Prop where
  unique : Unique db.leases
  pools : IsWord pool.name → ∀ l ∈ db.leases, l.pool = pool.name

theorem sound_new (pool : PoolSpec) : Sound pool new :=
  ⟨List.nodup_nil, fun _ _ hl => absurd hl List.not_mem_nil⟩

/-- Reading a saved form leaves only leases of the pool. -/
theorem Sound.pools_restore (h : Sound pool db) (hword : IsWord pool.name) {db₀ : LeaseDb}
    (h₀ : ∀ l ∈ db₀.leases, l.pool = pool.name) :
    ∀ l ∈ (db₀.restore db.render now).leases, l.pool = pool.name := by
  have hall : ∀ k ∈ db.leases, IsWord k.pool := fun k hk => h.pools hword k hk ▸ hword
  have hread : ∀ line ∈ lines db.render, ∀ l, readLease line = some l → l.pool = pool.name := by
    intro line hline l hl
    rw [lines_render hall] at hline
    obtain ⟨k, hk, rfl⟩ := List.mem_map.mp hline
    have hmem := (List.mem_filter.mp hk).1
    rw [readLease_renderLease (hall k hmem)] at hl
    cases hl
    exact h.pools hword k hmem
  unfold LeaseDb.restore
  dsimp only
  generalize db₀.leases = leases at h₀
  generalize lines db.render = ls at hread
  induction ls generalizing leases with
  | nil => exact h₀
  | cons line rest ih =>
    refine ih _ ?_ fun x hx => hread x (List.mem_cons_of_mem _ hx)
    intro l hl
    rcases restoreLease_cases now leases line with heq | ⟨k, hk, -, heq⟩
    · rw [heq] at hl
      exact h₀ l hl
    · rw [heq] at hl
      rcases List.mem_append.mp hl with hl | hl
      · exact h₀ l (List.mem_filter.mp hl).1
      · rw [List.mem_singleton.mp hl]
        exact hread line List.mem_cons_self k hk

theorem Sound.step (h : Sound pool db) (now : ℤ) (ev : Event) :
    Sound pool (db.step pool reservations now ev).1 := by
  cases ev with
  | handle m server =>
    have hanswer := answer_handle db pool reservations m server now
    exact ⟨hanswer.unique h.unique, fun hword => hanswer.pools (h.pools hword)⟩
  | expire =>
    exact ⟨h.unique.filter _, fun hword l hl => h.pools hword l (mem_expire.mp hl).1⟩
  | restore =>
    exact ⟨h.unique.restore _ _, fun hword => h.pools_restore hword (h.pools hword)⟩
  | restart =>
    refine ⟨Unique.restore (sound_new pool).unique _ _, fun hword => h.pools_restore hword ?_⟩
    exact fun _ hl => absurd hl List.not_mem_nil

theorem Reachable.sound (h : Reachable pool reservations t db) : Sound pool db := by
  induction h with
  | new => exact sound_new pool
  | step ev _ _ ih => exact ih.step _ ev

/-! ## A held address -/

theorem Holds.mono {leases leases' : List Lease} (h : Holds pool c a till leases)
    (hkeep : ∀ l ∈ leases, l.pool = pool.name → l.mac = c → l.address = a → l.offered = false →
      l ∈ leases') : Holds pool c a till leases' := by
  obtain ⟨l, hl, hpool, hmac, haddr, hoff, htill⟩ := h
  exact ⟨l, hkeep l hl hpool hmac haddr hoff, hpool, hmac, haddr, hoff, htill⟩

theorem Holds.expire (h : Holds pool c a till db.leases) (hnow : now < till) :
    Holds pool c a till (db.expire now).1.leases := by
  obtain ⟨l, hl, hpool, hmac, haddr, hoff, htill⟩ := h
  exact ⟨l, mem_expire.mpr ⟨hl, Int.lt_of_lt_of_le hnow htill⟩, hpool, hmac, haddr, hoff, htill⟩

/-- No message takes a lease away before its time, unless the client gives it up. -/
theorem Answer.holds (h : Answer db pool reservations m server now db' r)
    (hholds : Holds pool c a till db.leases) (hnow : now < till)
    (hterm : till ≤ now + (pool.leaseSecs.toNat : ℤ) * 1000)
    (hkeep : ¬ GivesUp c a r (.handle m server)) : Holds pool c a till db'.leases := by
  have hexp := hholds.expire hnow
  cases h with
  | ignored => exact hholds
  | plain => exact hexp
  | withdrawn =>
    refine hexp.mono fun l hl _ _ _ hoff => List.mem_filter.mpr ⟨hl, decide_eq_true fun hw => ?_⟩
    rw [hoff] at hw
    exact Bool.false_ne_true hw.1
  | released dirty hkind =>
    refine hexp.mono fun l hl _ hmac haddr _ =>
      List.mem_filter.mpr ⟨hl, decide_eq_true fun hrel => hkeep ?_⟩
    exact ⟨hrel.1.symm.trans hmac, .inl ⟨hkind, hrel.2.1.symm.trans haddr⟩⟩
  | declined dirty hkind =>
    refine hexp.mono fun l hl _ hmac haddr _ =>
      mem_modifyFirst hl (decide_eq_false fun hdec => hkeep ?_)
    exact ⟨hdec.1.symm.trans hmac, .inr (.inl ⟨hkind, hdec.2.1.symm.trans (haddr ▸ rfl)⟩)⟩
  | granted b isOffer havail =>
    rcases (db.expire now).1.bind_leases pool m.mac b isOffer now with
      ⟨-, -, hsame⟩ | ⟨hnone, k, hkpool, hkmac, hkaddr, hkoff, hkexp, hnew⟩
    · rw [hsame]
      exact hexp
    · rw [hnew]
      by_cases hmine : m.mac = c
      · -- the client itself: an offer would have left its lease, so it is acknowledged
        obtain ⟨l, hl, hpool, hmac, haddr, hoff, htill⟩ := hexp
        have hack : isOffer = false := by
          cases isOffer with
          | false => rfl
          | true =>
            rw [hnone rfl l hl (hmac.trans hmine.symm) hpool] at hoff
            exact hoff
        subst hack
        have hhands := handsOut_grant m pool server (.inr rfl : ack = offer ∨ ack = ack)
          (ne_zero_of_inSubnet havail.inSubnet)
        have hsame : b = a := by
          by_contra hne
          exact hkeep ⟨hmine, .inr (.inr ⟨_, b, rfl, grant_kind .., hhands, hne⟩)⟩
        refine ⟨k, List.mem_append_right _ (List.mem_singleton_self _), hkpool,
          hkmac.trans hmine, hkaddr.trans hsame, hkoff, ?_⟩
        rw [hkexp]
        exact hterm
      · refine hexp.mono fun l hl _ hmac _ _ => List.mem_append_left _
          (List.mem_filter.mpr ⟨hl, decide_eq_true fun hm => hmine (hm.1.symm.trans hmac)⟩)

/-- Reading its own saved form leaves a held lease. -/
theorem Sound.holds_restore (h : Sound pool db) (hholds : Holds pool c a till db.leases) (now : ℤ) :
    Holds pool c a till (db.restore db.render now).leases := by
  obtain ⟨l, hl, hpool, hmac, haddr, hoff, htill⟩ := hholds
  -- a line for the same address is a line of this lease
  have hread : ∀ line ∈ lines db.render, ∀ k, readLease line = some k → k.pool = l.pool →
      k.address = l.address → k = l := by
    intro line hline k hk hkp hka
    have hmem := (mem_of_readLease_render h.pools hline hk (hkp.trans hpool)).1
    exact h.unique.eq hmem hl hkp hka
  refine ⟨l, ?_, hpool, hmac, haddr, hoff, htill⟩
  unfold LeaseDb.restore
  dsimp only
  generalize db.leases = leases at hl
  generalize lines db.render = ls at hread
  induction ls generalizing leases with
  | nil => exact hl
  | cons line rest ih =>
    refine ih _ ?_ fun x hx => hread x (List.mem_cons_of_mem _ hx)
    rcases restoreLease_cases now leases line with heq | ⟨k, hk, -, heq⟩
    · rw [heq]
      exact hl
    · rw [heq]
      by_cases hkey : l.pool = k.pool ∧ l.address = k.address
      · rw [hread line List.mem_cons_self k hk hkey.1.symm hkey.2.symm]
        exact List.mem_append_right _ (List.mem_singleton_self _)
      · exact List.mem_append_left _ (List.mem_filter.mpr ⟨hl, decide_eq_true hkey⟩)

/-- A table that can be restarted comes back with its live bound leases. -/
theorem Sound.restart (h : Sound pool db) (hre : Restartable pool db) (now : ℤ) :
    (new.restore db.render now).leases = db.saved.filter (now < ·.expires) := by
  have hall : ∀ k ∈ db.leases, IsWord k.pool := fun k hk => h.pools hre.1 k hk ▸ hre.1
  have hfold : (db.saved.map renderLease).foldl (restoreLease now) []
      = [] ++ db.saved.filter (now < ·.expires) := by
    refine foldl_restoreLease (fun l hl => hall l (List.mem_filter.mp hl).1) (fun l hl => ?_)
      (h.unique.filter _) ?_
    · simpa using (List.mem_filter.mp hl).2
    · rw [List.length_nil, Nat.zero_add]
      exact hre.2
  rw [← lines_render hall] at hfold
  exact hfold

theorem Sound.holds_step (h : Sound pool db) (hholds : Holds pool c a till db.leases)
    (hnow : now < till) (hterm : till ≤ now + (pool.leaseSecs.toNat : ℤ) * 1000)
    (hkeep : ¬ GivesUp c a (db.step pool reservations now ev).2 ev)
    (hre : ev = .restart → Restartable pool db) :
    Holds pool c a till (db.step pool reservations now ev).1.leases := by
  cases ev with
  | handle m server =>
    exact (answer_handle db pool reservations m server now).holds hholds hnow hterm hkeep
  | expire => exact hholds.expire hnow
  | restore => exact h.holds_restore hholds now
  | restart =>
    change Holds pool c a till (new.restore db.render now).leases
    rw [h.restart (hre rfl)]
    obtain ⟨l, hl, hpool, hmac, haddr, hoff, htill⟩ := hholds
    refine ⟨l, ?_, hpool, hmac, haddr, hoff, htill⟩
    rw [List.mem_filter, saved, List.mem_filter]
    exact ⟨⟨hl, by rw [hoff]; rfl⟩, decide_eq_true (Int.lt_of_lt_of_le hnow htill)⟩

theorem Since.clock (h : Since pool reservations c a t db now db') : t ≤ now := by
  induction h with
  | refl => exact Int.le_refl _
  | step ev _ hle _ _ ih => exact Int.le_trans ih hle

theorem Since.sound (h : Since pool reservations c a t db now db') (hs : Sound pool db) :
    Sound pool db' := by
  induction h with
  | refl => exact hs
  | step ev _ _ _ _ ih => exact ih.step _ ev

/-- A held lease is there as long as its client does not give it up and its time has
not come. -/
theorem Since.holds (h : Since pool reservations c a t db now db') (hs : Sound pool db)
    (hholds : Holds pool c a till db.leases) (hnow : now < till)
    (hterm : till ≤ t + (pool.leaseSecs.toNat : ℤ) * 1000) : Holds pool c a till db'.leases := by
  induction h with
  | refl => exact hholds
  | step ev hsince hle hkeep hre ih =>
    have hclock := hsince.clock
    exact (hsince.sound hs).holds_step (ih (Int.lt_of_le_of_lt hle hnow)) hnow (by omega) hkeep hre

/-- While a client holds an address, it is handed out to nobody else. -/
theorem no_other_while_held {r : Message} (hholds : Holds pool c a till db.leases)
    (hnow : now < till) (hr : (db.handle pool reservations m server now).2 = some r)
    (ha : r.handsOut = some a) : r.mac = c := by
  obtain ⟨havail, hmac⟩ := available_of_handsOut hr ha
  obtain ⟨l, hl, hpool, hlmac, haddr, -, -⟩ := hholds.expire hnow
  rw [hmac, ← havail.leased l hl hpool haddr, hlmac]

/-- An acknowledged address is held for the time of a lease. -/
theorem Answer.holds_of_ack {r : Message}
    (h : Answer db pool reservations m server now db' (some r)) (hkind : r.kind = ack)
    (ha : r.handsOut = some a) :
    Holds pool r.mac a (now + (pool.leaseSecs.toNat : ℤ) * 1000) db'.leases := by
  cases h with
  | plain h => exact absurd ((h r rfl).symm.trans ha) (fun h => nomatch h)
  | granted b isOffer havail =>
    have hack : isOffer = false := by
      cases isOffer with
      | false => rfl
      | true => exact absurd ((grant_kind ..).symm.trans hkind) (by decide)
    subst hack
    have hhands := handsOut_grant m pool server (.inr rfl : ack = offer ∨ ack = ack)
      (ne_zero_of_inSubnet havail.inSubnet)
    cases hhands.symm.trans ha
    rcases (db.expire now).1.bind_leases pool m.mac a false now with
      ⟨hoffer, -, -⟩ | ⟨-, k, hkpool, hkmac, hkaddr, hkoff, hkexp, hnew⟩
    · exact absurd hoffer Bool.false_ne_true
    · rw [hnew]
      refine ⟨k, List.mem_append_right _ (List.mem_singleton_self _), hkpool,
        hkmac.trans (grant_mac ..).symm, hkaddr, hkoff, ?_⟩
      rw [hkexp]
      exact Int.le_refl _

theorem holds_of_ack {r : Message} (hr : (db.handle pool reservations m server now).2 = some r)
    (hkind : r.kind = ack) (ha : r.handsOut = some a) :
    Holds pool r.mac a (now + (pool.leaseSecs.toNat : ℤ) * 1000)
      (db.handle pool reservations m server now).1.leases := by
  have hanswer := answer_handle db pool reservations m server now
  rw [hr] at hanswer
  exact hanswer.holds_of_ack hkind ha

/-! ## Exclusivity -/

/-- **Leases are exclusive.**  In every run over one pool: no address has leases of
two clients; an acknowledged address goes to nobody else before its time, unless the
client gives it up; a reserved address goes only to whom it is reserved for; and
whatever is handed out is a host of the subnet, is not the server, and is in the range
or reserved for the client. -/
theorem leases_exclusive (pool : PoolSpec) (reservations : List Reservation) {t : ℤ} {db : LeaseDb}
    (h : Reachable pool reservations t db) :
    (∀ l ∈ db.leases, ∀ k ∈ db.leases, l.pool = k.pool → l.address = k.address → l.mac = k.mac) ∧
    (∀ now m server r a, t ≤ now → (db.handle pool reservations m server now).2 = some r →
      r.handsOut = some a →
      (r.kind = ack → ∀ t' db', Since pool reservations r.mac a now
          (db.handle pool reservations m server now).1 t' db' →
        ∀ now' m' server' r', t' ≤ now' → now' < now + (pool.leaseSecs.toNat : ℤ) * 1000 →
          (db'.handle pool reservations m' server' now').2 = some r' → r'.handsOut = some a →
          r'.mac = r.mac) ∧
      (∀ res ∈ reservations, res.address = a → res.mac = r.mac) ∧
      pool.inSubnet a = true ∧ a ≠ server ∧
      (pool.inRange a = true ∨ ⟨r.mac, a⟩ ∈ reservations)) := by
  have hsound := h.sound
  refine ⟨fun l hl k hk hpool haddr => congrArg _ (hsound.unique.eq hl hk hpool haddr), ?_⟩
  intro now m server r a _ hr ha
  obtain ⟨havail, hmac⟩ := available_of_handsOut hr ha
  refine ⟨?_, ?_, havail.inSubnet, havail.ne_server, ?_⟩
  · intro hack t' db' hsince now' m' server' r' hle hbefore hr' ha'
    have hsound' : Sound pool (db.handle pool reservations m server now).1 :=
      hsound.step now (.handle m server)
    have hheld := hsince.holds hsound' (holds_of_ack hr hack ha) (Int.lt_of_le_of_lt hle hbefore)
      (Int.le_refl _)
    exact no_other_while_held hheld hbefore hr' ha'
  · rw [hmac]
    exact havail.reserved
  · rw [hmac]
    exact havail.inRange

/-- A pool of three addresses. -/
def smallPool : PoolSpec where
  name := ['e', 't', 'h', '0']
  start := ⟨192, 168, 50, 10⟩
  «end» := ⟨192, 168, 50, 12⟩
  prefixLen := 24
  router := none
  dns := none
  domain := none
  leaseSecs := 3600

/-- The last address of the pool is reserved. -/
def reserved : List Reservation := [⟨⟨2, 0, 0, 0, 0, 2⟩, smallPool.end⟩]

/-- What a client says to the server `192.168.50.1`. -/
def asks (n : Byte) (a : Ipv4Addr) : Event :=
  .handle { Message.new request 7 ⟨2, 0, 0, 0, 0, n⟩ with requested := some a } ⟨192, 168, 50, 1⟩

/-- The table in which the first client has the first address of the pool. -/
def leasedOnce : LeaseDb := (new.step smallPool reserved 0 (asks 1 smallPool.start)).1

/-- The second client has the address that is reserved for it. -/
def leasedTwice : LeaseDb := (leasedOnce.step smallPool reserved 1000 (asks 2 smallPool.end)).1

/-- Two clients have a lease.  The first address goes to no other client within the
hour, over a third one's request and a restart, and the reserved one to its owner. -/
theorem leases_exclusive_hour :
    leasedTwice.leases = [⟨smallPool.name, ⟨2, 0, 0, 0, 0, 1⟩, smallPool.start, 3600000, false⟩,
      ⟨smallPool.name, ⟨2, 0, 0, 0, 0, 2⟩, smallPool.end, 3601000, false⟩] ∧
    (∀ l ∈ leasedTwice.leases, ∀ k ∈ leasedTwice.leases, l.pool = k.pool → l.address = k.address →
      l.mac = k.mac) ∧
    (∀ now m server r, 3000 ≤ now → now < 3600000 →
      (((leasedTwice.step smallPool reserved 2000 (asks 3 smallPool.start)).1.step smallPool
        reserved 3000 .restart).1.handle smallPool reserved m server now).2 = some r →
      r.handsOut = some smallPool.start → r.mac = ⟨2, 0, 0, 0, 0, 1⟩) ∧
    ∀ now m server r, 1000 ≤ now → (leasedTwice.handle smallPool reserved m server now).2 = some r →
      r.handsOut = some smallPool.end → r.mac = ⟨2, 0, 0, 0, 0, 2⟩ := by
  have hnew : Reachable smallPool reserved 0 new := .new 0
  have honce : Reachable smallPool reserved 0 leasedOnce := .step _ hnew (Int.le_refl 0)
  have htwice : Reachable smallPool reserved 1000 leasedTwice := .step _ honce (by decide)
  obtain ⟨hpairs, hreplies⟩ := leases_exclusive smallPool reserved htwice
  refine ⟨by decide +kernel, hpairs, ?_, ?_⟩
  · intro now m server r hle hbefore hr ha
    obtain ⟨first, hfirst⟩ : ∃ first, (new.step smallPool reserved 0 (asks 1 smallPool.start)).2 =
        some first ∧ first.handsOut = some smallPool.start ∧ first.kind = ack ∧
        first.mac = ⟨2, 0, 0, 0, 0, 1⟩ :=
      ⟨_, (Option.some_get (by decide +kernel)).symm, by decide +kernel⟩
    obtain ⟨hreply, hout, hack, hmac⟩ := hfirst
    obtain ⟨hkeeps, -⟩ := (leases_exclusive smallPool reserved hnew).2 0 _ _ first _
      (Int.le_refl 0) hreply hout
    have hsince : Since smallPool reserved first.mac smallPool.start 0 leasedOnce 3000
        ((leasedTwice.step smallPool reserved 2000 (asks 3 smallPool.start)).1.step smallPool
          reserved 3000 .restart).1 := by
      refine .step _ (.step _ (.step _ .refl (by decide) ?_ Event.noConfusion) (by decide) ?_
        Event.noConfusion) (by decide) id fun _ => ⟨by decide, by decide +kernel⟩
      · exact fun h => absurd (h.1.trans hmac) (by decide)
      · exact fun h => absurd (h.1.trans hmac) (by decide)
    exact (hkeeps hack 3000 _ hsince now m server r hle hbefore hr ha).trans hmac
  · intro now m server r hle hr ha
    obtain ⟨-, hreserved, -⟩ := hreplies now m server r _ hle hr ha
    exact (hreserved _ List.mem_cons_self rfl).symm

end EvansComputer.Dhcp.LeaseDb
