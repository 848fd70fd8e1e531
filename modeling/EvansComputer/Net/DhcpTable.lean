import EvansComputer.Net.Dhcp
import Mathlib.Data.List.Nodup

/-!
# What one message does to the lease table

`Answer` is everything `handle` can do: the later proofs take it apart and never
look into `handle` again.  An address is handed out only where `available` found it,
and from that alone follow the three facts about what is handed out: it is a host of
the subnet, nobody else has it reserved, and nobody else has a lease of it.

The saved form of a table reads back as its bound leases wherever the pool names
are words, which is what names in a configuration are.
-/

namespace EvansComputer.Dhcp

open Text

variable {leases : List Lease} {l : Lease} {p : Lease → Bool} {f : Lease → Lease}

/-- The address that a reply hands out.  The reply to an INFORM has none. -/
def Message.handsOut (r : Message) : Option Ipv4Addr :=
  if (r.kind = offer ∨ r.kind = ack) ∧ r.yiaddr ≠ .zero then some r.yiaddr else none

namespace LeaseDb

variable {pool : PoolSpec} {reservations : List Reservation} {m : Message} {server a : Ipv4Addr}
  {now : ℤ} {db : LeaseDb} {mac : MacAddr}

/-! ## Available addresses -/

/-- No host of the pool's subnet is the address zero. -/
theorem ne_zero_of_inSubnet (h : pool.inSubnet a = true) : a ≠ .zero := by
  rintro rfl
  simp only [PoolSpec.inSubnet, Bool.and_eq_true, decide_eq_true_eq] at h
  obtain ⟨⟨hsame, hnet⟩, -⟩ := h
  refine hnet ?_
  have hmask : pool.start.toU32 &&& (Ipv4Addr.maskFromPrefix pool.prefixLen).toU32 = 0 := by
    have hzero : Ipv4Addr.zero.toU32 = 0 := rfl
    rw [Ipv4Addr.sameSubnetPrefix, Ipv4Addr.sameSubnet, beq_iff_eq, hzero, UInt32.zero_and] at hsame
    exact hsame.symm
  rw [Ipv4Addr.networkAddr, hmask]
  rfl

theorem mem_reservations_of_reservedFor (h : reservedFor pool reservations mac = some a) :
    ⟨mac, a⟩ ∈ reservations := by
  obtain ⟨r, hr, rfl⟩ := Option.map_eq_some_iff.mp h
  have hfound := List.find?_some hr
  have hmac : r.mac = mac := (of_decide_eq_true hfound).1
  have hmem := List.mem_of_find?_eq_some hr
  rwa [← hmac]

/-- What is known of an available address. -/
structure Available (db : LeaseDb) (pool : PoolSpec) (reservations : List Reservation)
    (mac : MacAddr) (server a : Ipv4Addr) : Prop where
  inSubnet : pool.inSubnet a = true
  ne_server : a ≠ server
  inRange : pool.inRange a = true ∨ ⟨mac, a⟩ ∈ reservations
  reserved : ∀ r ∈ reservations, r.address = a → r.mac = mac
  leased : ∀ l ∈ db.leases, l.pool = pool.name → l.address = a → l.mac = mac

theorem available_of_eq_true (h : db.available pool reservations mac server a = true) :
    Available db pool reservations mac server a := by
  simp only [available, Bool.and_eq_true, Bool.or_eq_true, Bool.not_eq_true', List.any_eq_false,
    decide_eq_true_eq, not_and, not_not] at h
  obtain ⟨⟨⟨⟨hsub, hserver⟩, hrange⟩, hres⟩, hlease⟩ := h
  refine ⟨hsub, hserver, hrange.imp_right mem_reservations_of_reservedFor, hres, ?_⟩
  intro l hl hpool haddr
  exact hlease l hl haddr hpool

theorem available_of_choose (h : db.choose pool reservations m server = some a) :
    db.available pool reservations m.mac server a = true := by
  unfold choose at h
  dsimp only at h
  cases hr : reservedFor pool reservations m.mac with
  | some r =>
    rw [hr] at h
    exact (Option.filter_eq_some_iff.mp h).2
  | none =>
    rw [hr] at h
    rcases Option.or_eq_some_iff.mp h with h | ⟨-, h⟩
    · rcases Option.or_eq_some_iff.mp h with h | ⟨-, h⟩
      · exact (Option.filter_eq_some_iff.mp h).2
      · exact (Option.filter_eq_some_iff.mp h).2
    · exact List.find?_some h

/-! ## Everything `handle` does -/

/-- What `handle` leaves of a table and what it replies. -/
inductive Answer (db : LeaseDb) (pool : PoolSpec) (reservations : List Reservation) (m : Message)
    (server : Ipv4Addr) (now : ℤ) : LeaseDb → Option Message → Prop
  | ignored : Answer db pool reservations m server now db none
  | plain {r : Option Message} (h : ∀ r' ∈ r, r'.handsOut = none) :
      Answer db pool reservations m server now (db.expire now).1 r
  | withdrawn : Answer db pool reservations m server now
      { (db.expire now).1 with
        leases := (db.expire now).1.leases.filter fun l =>
          ¬ (l.offered ∧ l.mac = m.mac ∧ l.pool = pool.name) } none
  | released (dirty : Bool) (h : m.kind = release) : Answer db pool reservations m server now
      ⟨(db.expire now).1.leases.filter fun l =>
        ¬ (l.mac = m.mac ∧ l.address = m.ciaddr ∧ l.pool = pool.name), dirty⟩ none
  | declined (dirty : Bool) (h : m.kind = decline) : Answer db pool reservations m server now
      ⟨modifyFirst
          (fun l => decide (l.mac = m.mac ∧ some l.address = m.requested ∧ l.pool = pool.name))
          (fun l => { l with mac := .zero, offered := false, expires := now + declineHoldMs })
          (db.expire now).1.leases, dirty⟩ none
  | granted (a : Ipv4Addr) (isOffer : Bool)
      (h : (db.expire now).1.Available pool reservations m.mac server a) :
      Answer db pool reservations m server now
        ((db.expire now).1.bind pool m.mac a isOffer now)
        (some (grant (if isOffer then offer else ack) m pool server a))

theorem handsOut_nak : (reply nak m pool server).handsOut = none := rfl

theorem handsOut_inform :
    Message.handsOut { reply ack m pool server with yiaddr := .zero } = none :=
  if_neg fun h => h.2 rfl

theorem answer_handle (db : LeaseDb) (pool : PoolSpec) (reservations : List Reservation)
    (m : Message) (server : Ipv4Addr) (now : ℤ) :
    Answer db pool reservations m server now (db.handle pool reservations m server now).1
      (db.handle pool reservations m server now).2 := by
  unfold handle
  split_ifs with hguard hserver hreq hrel hdec hinf hsub hdis hreq'
  · exact .ignored
  · exact .withdrawn
  · exact .plain fun _ h => nomatch h
  · exact .released _ hrel
  · exact .declined _ hdec
  · exact .plain fun r hr => Option.mem_some_iff.mp hr ▸ handsOut_inform
  · exact .plain fun _ h => nomatch h
  · dsimp only
    cases hchoose : (db.expire now).1.choose pool reservations m server with
    | none => exact .plain fun _ h => nomatch h
    | some a => exact .granted a true (available_of_eq_true (available_of_choose hchoose))
  · dsimp only
    cases hwanted : wanted m with
    | none => exact .plain fun r hr => Option.mem_some_iff.mp hr ▸ handsOut_nak
    | some a =>
      dsimp only
      split_ifs with havail
      · exact .granted a false (available_of_eq_true havail.1)
      · exact .plain fun r hr => Option.mem_some_iff.mp hr ▸ handsOut_nak
  · exact .plain fun _ h => nomatch h

section
variable (m : Message) (pool : PoolSpec) (server a : Ipv4Addr) (kind : Byte)

theorem reply_kind : (reply kind m pool server).kind = kind := by
  unfold reply
  dsimp only
  split_ifs <;> rfl

theorem reply_mac : (reply kind m pool server).mac = m.mac := by
  unfold reply
  dsimp only
  split_ifs <;> rfl

theorem grant_kind : (grant kind m pool server a).kind = kind := reply_kind m pool server kind

theorem grant_mac : (grant kind m pool server a).mac = m.mac := reply_mac m pool server kind

variable {kind a}

theorem handsOut_grant (hkind : kind = offer ∨ kind = ack) (ha : a ≠ .zero) :
    (grant kind m pool server a).handsOut = some a :=
  if_pos ⟨(grant_kind m pool server a kind).symm ▸ hkind, ha⟩

end

/-- An address is handed out to the sender of a message, and only when it is available. -/
theorem available_of_handsOut {r : Message}
    (hr : (db.handle pool reservations m server now).2 = some r) (ha : r.handsOut = some a) :
    (db.expire now).1.Available pool reservations m.mac server a ∧ r.mac = m.mac := by
  have hanswer := answer_handle db pool reservations m server now
  generalize db.handle pool reservations m server now = res at hr hanswer
  obtain ⟨db', r'⟩ := res
  cases hr
  cases hanswer with
  | plain h => exact absurd ((h r rfl).symm.trans ha) (fun h => nomatch h)
  | granted b isOffer h =>
    have hkind : (if isOffer = true then offer else ack) = offer ∨
        (if isOffer = true then offer else ack) = ack := by
      cases isOffer
      · exact .inr rfl
      · exact .inl rfl
    rw [handsOut_grant m pool server hkind (ne_zero_of_inSubnet h.inSubnet)] at ha
    cases ha
    exact ⟨h, grant_mac ..⟩

/-! ## One lease an address -/

/-- What tells the leases of a table apart. -/
def key (l : Lease) : List Char × Ipv4Addr := (l.pool, l.address)

/-- Every address of a pool has at most one lease. -/
def Unique (leases : List Lease) : Prop := (leases.map key).Nodup

theorem Unique.filter (h : Unique leases) (p : Lease → Bool) :
    Unique (leases.filter p) :=
  List.Nodup.sublist (List.Sublist.map key List.filter_sublist) h

theorem Unique.eq (h : Unique leases) {k : Lease} (hl : l ∈ leases) (hk : k ∈ leases)
    (hpool : l.pool = k.pool) (haddr : l.address = k.address) : l = k :=
  List.inj_on_of_nodup_map h hl hk (Prod.ext hpool haddr)

theorem Unique.append (h : Unique leases) (hnew : ∀ k ∈ leases, key k ≠ key l) :
    Unique (leases ++ [l]) := by
  rw [Unique, List.map_append]
  refine List.Nodup.append h (List.nodup_singleton _) ?_
  intro x hx hx'
  obtain ⟨k, hk, rfl⟩ := List.mem_map.mp hx
  exact hnew k hk (List.mem_singleton.mp hx')

theorem map_key_modifyFirst (hf : ∀ l, key (f l) = key l) (leases : List Lease) :
    (modifyFirst p f leases).map key = leases.map key := by
  induction leases with
  | nil => rfl
  | cons l leases ih =>
    rw [modifyFirst]
    split_ifs
    · rw [List.map_cons, List.map_cons, hf]
    · rw [List.map_cons, List.map_cons, ih]

theorem Unique.modifyFirst (h : Unique leases) (hf : ∀ l, key (f l) = key l) :
    Unique (modifyFirst p f leases) := by
  rw [Unique, map_key_modifyFirst hf]
  exact h

theorem mem_modifyFirst (hl : l ∈ leases) (hp : p l = false) : l ∈ modifyFirst p f leases := by
  induction leases with
  | nil => exact absurd hl List.not_mem_nil
  | cons k leases ih =>
    rw [modifyFirst]
    rcases List.mem_cons.mp hl with rfl | hl
    · rw [if_neg (by rw [hp]; exact Bool.false_ne_true)]
      exact List.mem_cons_self
    · split_ifs
      · exact List.mem_cons_of_mem _ hl
      · exact List.mem_cons_of_mem _ (ih hl)

theorem pool_of_mem_modifyFirst {name : List Char} (hf : ∀ l, (f l).pool = l.pool)
    (h : ∀ l ∈ leases, l.pool = name) :
    ∀ l ∈ modifyFirst p f leases, l.pool = name := by
  induction leases with
  | nil => exact fun l hl => absurd hl List.not_mem_nil
  | cons k leases ih =>
    have hrest := ih fun l hl => h l (List.mem_cons_of_mem _ hl)
    intro l hl
    rw [modifyFirst] at hl
    split_ifs at hl
    · rcases List.mem_cons.mp hl with rfl | hl
      · rw [hf]
        exact h k List.mem_cons_self
      · exact h l (List.mem_cons_of_mem _ hl)
    · rcases List.mem_cons.mp hl with rfl | hl
      · exact h l List.mem_cons_self
      · exact hrest l hl

/-- The table after an address was handed out: as it was, or with the client's leases
replaced by one of that address. -/
theorem bind_leases (db : LeaseDb) (pool : PoolSpec) (mac : MacAddr) (a : Ipv4Addr)
    (isOffer : Bool) (now : ℤ) :
    (isOffer = true ∧ (∃ l ∈ db.leases, l.mac = mac ∧ l.pool = pool.name ∧ l.offered = false) ∧
        (db.bind pool mac a isOffer now).leases = db.leases) ∨
      ((isOffer = true → ∀ l ∈ db.leases, l.mac = mac → l.pool = pool.name → l.offered = true) ∧
        ∃ l : Lease, l.pool = pool.name ∧ l.mac = mac ∧ l.address = a ∧ l.offered = isOffer ∧
          l.expires = now + (if isOffer then offerHoldMs else (pool.leaseSecs.toNat : ℤ) * 1000) ∧
          (db.bind pool mac a isOffer now).leases
            = db.leases.filter (fun l => ¬ (l.mac = mac ∧ l.pool = pool.name)) ++ [l]) := by
  unfold bind
  dsimp only
  by_cases hskip :
    (isOffer && db.leases.any fun l => l.mac = mac ∧ l.pool = pool.name ∧ ¬ l.offered)
      = true
  · left
    rw [if_pos hskip]
    obtain ⟨hoffer, hany⟩ := Bool.and_eq_true_iff.mp hskip
    obtain ⟨l, hl, hp⟩ := List.any_eq_true.mp hany
    obtain ⟨hmac, hpool, hoff⟩ := of_decide_eq_true hp
    exact ⟨hoffer, ⟨l, hl, hmac, hpool, Bool.not_eq_true _ ▸ hoff⟩, rfl⟩
  · right
    rw [if_neg hskip]
    refine ⟨fun hoffer l hl hmac hpool => ?_, _, rfl, rfl, rfl, rfl, rfl, rfl⟩
    by_contra hoff
    exact hskip (Bool.and_eq_true_iff.mpr
      ⟨hoffer, List.any_eq_true.mpr ⟨l, hl, decide_eq_true ⟨hmac, hpool, hoff⟩⟩⟩)

theorem mem_expire : l ∈ (db.expire now).1.leases ↔ l ∈ db.leases ∧ now < l.expires := by
  rw [show (db.expire now).1.leases = db.leases.filter (now < ·.expires) from rfl, List.mem_filter,
    decide_eq_true_eq]

/-- A message keeps one lease an address. -/
theorem Answer.unique {db' : LeaseDb} {r : Option Message}
    (h : Answer db pool reservations m server now db' r) (hu : Unique db.leases) :
    Unique db'.leases := by
  have hexp : Unique (db.expire now).1.leases := hu.filter _
  cases h with
  | ignored => exact hu
  | plain => exact hexp
  | withdrawn => exact hexp.filter _
  | released => exact hexp.filter _
  | declined => exact hexp.modifyFirst fun _ => rfl
  | granted a isOffer havail =>
    rcases (db.expire now).1.bind_leases pool m.mac a isOffer now with
      ⟨-, -, hsame⟩ | ⟨-, l, hpool, -, haddr, -, -, hnew⟩
    · rw [hsame]
      exact hexp
    · rw [hnew]
      refine (hexp.filter _).append fun k hk heq => ?_
      obtain ⟨hmem, hother⟩ := List.mem_filter.mp hk
      obtain ⟨hp, ha⟩ := Prod.mk.inj heq
      rw [hpool] at hp
      exact of_decide_eq_true hother ⟨havail.leased k hmem hp (ha.trans haddr), hp⟩

/-- A message leaves only leases of the pool it is for. -/
theorem Answer.pools {db' : LeaseDb} {r : Option Message}
    (h : Answer db pool reservations m server now db' r)
    (hp : ∀ l ∈ db.leases, l.pool = pool.name) : ∀ l ∈ db'.leases, l.pool = pool.name := by
  have hexp : ∀ l ∈ (db.expire now).1.leases, l.pool = pool.name :=
    fun l hl => hp l (mem_expire.mp hl).1
  cases h with
  | ignored => exact hp
  | plain => exact hexp
  | withdrawn => exact fun l hl => hexp l (List.mem_filter.mp hl).1
  | released => exact fun l hl => hexp l (List.mem_filter.mp hl).1
  | declined => exact pool_of_mem_modifyFirst (fun _ => rfl) hexp
  | granted a isOffer =>
    rcases (db.expire now).1.bind_leases pool m.mac a isOffer now with
      ⟨-, -, hsame⟩ | ⟨-, l, hpool, -, -, -, -, hnew⟩
    · rw [hsame]
      exact hexp
    · rw [hnew]
      intro k hk
      rcases List.mem_append.mp hk with hk | hk
      · exact hexp k (List.mem_filter.mp hk).1
      · rw [List.mem_singleton.mp hk]
        exact hpool

/-! ## The saved form -/

/-- A line of the saved form reads back as the lease, bound. -/
theorem readLease_renderLease (h : IsWord l.pool) :
    readLease (renderLease l) = some { l with offered := false } := by
  have hwords :
    words (renderLease l) = [l.pool, l.mac.display, l.address.display, signed l.expires] := by
    refine words_unwords fun w hw => ?_
    simp only [List.mem_cons, List.not_mem_nil, or_false] at hw
    rcases hw with rfl | rfl | rfl | rfl
    · exact h
    · exact l.mac.isWord_display
    · exact l.address.isWord_display
    · exact isWord_signed _
  rw [readLease, hwords]
  dsimp only
  rw [MacAddr.parse_display, Ipv4Addr.parse_display, readSigned_signed]

theorem isLine_renderLease (h : IsWord l.pool) : IsLine (renderLease l) := by
  refine isLine_unwords fun w hw => ?_
  simp only [List.mem_cons, List.not_mem_nil, or_false] at hw
  rcases hw with rfl | rfl | rfl | rfl
  · exact h
  · exact l.mac.isWord_display
  · exact l.address.isWord_display
  · exact isWord_signed _

/-- The leases that are saved. -/
def saved (db : LeaseDb) : List Lease := db.leases.filter (!·.offered)

theorem lines_render (h : ∀ l ∈ db.leases, IsWord l.pool) :
    lines db.render = db.saved.map renderLease := by
  have hlines : ∀ l ∈ db.saved.map renderLease, IsLine l := by
    intro l hl
    obtain ⟨k, hk, rfl⟩ := List.mem_map.mp hl
    exact isLine_renderLease (h k (List.mem_filter.mp hk).1)
  rw [← lines_flatMap hlines, List.flatMap_map]
  rfl

/-- What is read from a saved line has a word for its pool. -/
theorem isWord_of_readLease {line : List Char} (h : readLease line = some l) :
    IsWord l.pool := by
  unfold readLease at h
  rcases hw : words line with _ | ⟨p, _ | ⟨x, _ | ⟨y, _ | ⟨z, _ | ⟨v, ws⟩⟩⟩⟩⟩ <;> rw [hw] at h
  case cons.cons.cons.cons.nil =>
    have hp : IsWord p := isWord_of_mem_words (hw ▸ List.mem_cons_self)
    dsimp only at h
    cases hm : MacAddr.parse x with
    | none => rw [hm] at h; cases h
    | some mac =>
      cases hi : Ipv4Addr.parse y with
      | none => rw [hm, hi] at h; cases h
      | some ip =>
        cases hz : readSigned z with
        | none => rw [hm, hi, hz] at h; cases h
        | some e =>
          rw [hm, hi, hz] at h
          cases h
          exact hp
  all_goals cases h

/-- A line of its own saved form that is about the pool is about a bound lease of the
table. -/
theorem mem_of_readLease_render (hp : IsWord pool.name → ∀ l ∈ db.leases, l.pool = pool.name)
    {line : List Char} (hline : line ∈ lines db.render) (hl : readLease line = some l)
    (hpool : l.pool = pool.name) : l ∈ db.leases ∧ l.offered = false := by
  have hword : IsWord pool.name := hpool ▸ isWord_of_readLease hl
  have hall : ∀ k ∈ db.leases, IsWord k.pool := fun k hk => hp hword k hk ▸ hword
  rw [lines_render hall] at hline
  obtain ⟨k, hk, rfl⟩ := List.mem_map.mp hline
  obtain ⟨hmem, hbound⟩ := List.mem_filter.mp hk
  rw [readLease_renderLease (hall k hmem)] at hl
  cases hl
  have hoff : k.offered = false := by simpa using hbound
  rw [show ({ k with offered := false } : Lease) = k from hoff ▸ rfl]
  exact ⟨hmem, hoff⟩

/-- What a line of a saved form does to a table. -/
theorem restoreLease_cases (now : ℤ) (leases : List Lease) (line : List Char) :
    restoreLease now leases line = leases ∨
      ∃ l, readLease line = some l ∧ now < l.expires ∧ restoreLease now leases line
        = leases.filter (fun k => ¬ (k.pool = l.pool ∧ k.address = l.address)) ++ [l] := by
  unfold restoreLease
  split_ifs with hfull
  · exact .inl rfl
  · cases hl : readLease line with
    | none => exact .inl rfl
    | some l =>
      dsimp only
      split_ifs with hlive
      · exact .inr ⟨l, rfl, hlive, rfl⟩
      · exact .inl rfl

theorem Unique.restoreLease (h : Unique leases) (now : ℤ) (line : List Char) :
    Unique (restoreLease now leases line) := by
  rcases restoreLease_cases now leases line with heq | ⟨l, -, -, heq⟩
  · rw [heq]
    exact h
  · rw [heq]
    refine (h.filter _).append fun k hk hkey => ?_
    obtain ⟨hp, ha⟩ := Prod.mk.inj hkey
    exact of_decide_eq_true (List.mem_filter.mp hk).2 ⟨hp, ha⟩

theorem Unique.restore (h : Unique db.leases) (text : List Char) (now : ℤ) :
    Unique (db.restore text now).leases := by
  unfold LeaseDb.restore
  dsimp only
  generalize db.leases = leases at h
  induction lines text generalizing leases with
  | nil => exact h
  | cons line rest ih => exact ih _ (h.restoreLease now line)

/-- Restoring saved leases into a table that has none of their addresses, and room for
them, adds those that are live. -/
theorem foldl_restoreLease {acc ls : List Lease} (hword : ∀ l ∈ ls, IsWord l.pool)
    (hbound : ∀ l ∈ ls, l.offered = false) (hu : Unique (acc ++ ls))
    (hroom : acc.length + ls.length ≤ maxLeases) :
    (ls.map renderLease).foldl (restoreLease now) acc = acc ++ ls.filter (now < ·.expires) := by
  induction ls generalizing acc with
  | nil => simp
  | cons l ls ih =>
    have hl : readLease (renderLease l) = some l := by
      rw [readLease_renderLease (hword l List.mem_cons_self)]
      exact congrArg some (hbound l List.mem_cons_self ▸ rfl)
    have hword' : ∀ k ∈ ls, IsWord k.pool := fun k hk => hword k (List.mem_cons_of_mem _ hk)
    have hbound' : ∀ k ∈ ls, k.offered = false := fun k hk => hbound k (List.mem_cons_of_mem _ hk)
    have hfree :
      acc.filter (fun k => decide ¬ (k.pool = l.pool ∧ k.address = l.address)) = acc := by
      refine List.filter_eq_self.mpr fun k hk => decide_eq_true fun hkey => ?_
      rw [Unique, List.map_append, List.map_cons] at hu
      exact List.disjoint_of_nodup_append hu (List.mem_map_of_mem hk)
        (List.mem_cons.mpr (.inl (Prod.ext hkey.1 hkey.2)))
    rw [List.length_cons] at hroom
    rw [List.map_cons, List.foldl_cons, restoreLease, if_neg (by omega), hl]
    dsimp only
    by_cases hlive : now < l.expires
    · rw [if_pos hlive, hfree, ih hword' hbound' (by rwa [List.append_assoc, List.singleton_append])
        (by rw [List.length_append, List.length_singleton]; omega), List.append_assoc,
        List.singleton_append, List.filter_cons, if_pos (decide_eq_true hlive)]
    · rw [if_neg hlive, ih hword' hbound' ?_ (by omega),
        List.filter_cons, if_neg (by simpa using hlive)]
      exact List.Nodup.sublist (List.Sublist.map key
        (List.Sublist.append_left (List.sublist_cons_self l ls) acc)) hu

end EvansComputer.Dhcp.LeaseDb
