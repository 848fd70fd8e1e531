import EvansComputer.Cell.DbText
import EvansComputer.Net.Masks

/-!
# What changes a database

Everything that writes to the database of a running core writes one subscriber, or drops
one, or changes a value that no subscriber has.  `Db.Sets` says what a subscriber may be
written as: valid, with the addresses it had or free ones of their pools, and with the
number it had or one that nobody has.  `Db.Change` is then the list of the writes, and the
invariants are one induction over them: the database stays valid, and addresses and numbers
that were distinct stay so.

An address or a number is free where no subscriber has it.  Nothing checks this of a file,
so that distinct addresses are an assumption about the file that the core starts from; the
numbers are checked.
-/

namespace EvansComputer.Cell

open Text

variable {len : UInt8} {n b : Str} {t : Subscriber}

/-! ## Addresses of a pool -/

/-- The mask of a network, as `inSubnet` makes it. -/
theorem toNat_subnetMask (h : len.toNat ≤ 32) :
    (if len = 0 then (0 : UInt32) else 0xffffffff <<< (32 - min len 32).toUInt32).toNat =
      2 ^ 32 - 2 ^ (32 - len.toNat) := by
  obtain ⟨k, hk, rfl⟩ : ∃ k ≤ 32, len = UInt8.ofNat k := ⟨len.toNat, h, UInt8.ofNat_toNat.symm⟩
  interval_cases k <;> rfl

/-- Being in a network is having its high bits. -/
theorem inSubnet_iff {ip net : Ipv4Addr} (h : len.toNat ≤ 32) :
    inSubnet ip net len = true ↔ ip.word / 2 ^ (32 - len.toNat) = net.word / 2 ^
      (32 - len.toNat) := by
  unfold inSubnet
  dsimp only
  rw [decide_eq_true_eq, ← UInt32.toNat_inj, UInt32.toNat_and, UInt32.toNat_and, toNat_subnetMask h]
  change ip.word &&& _ = net.word &&& _ ↔ _
  rw [Ipv4Addr.and_mask ip.word_lt (by omega), Ipv4Addr.and_mask net.word_lt (by omega)]
  exact Nat.mul_left_inj (Nat.two_pow_pos _).ne'

namespace Db

theorem toNat_poolBase {pool : Ipv4Addr} (h : isPool (pool, len)) :
    (poolBase pool len).toNat = pool.word / 2 ^ (32 - len.toNat) * 2 ^ (32 - len.toNat) := by
  simp only [isPool, Bool.and_eq_true, decide_eq_true_eq] at h
  have h8 : 8 ≤ len.toNat := UInt8.le_iff_toNat_le.mp h.1
  have h30 : len.toNat ≤ 30 := UInt8.le_iff_toNat_le.mp h.2
  have hmask :
    ((0xffffffff : UInt32) <<< (32 - len).toUInt32).toNat = 2 ^ 32 - 2 ^ (32 - len.toNat) := by
    obtain ⟨k, hk8, hk30, rfl⟩ : ∃ k, 8 ≤ k ∧ k ≤ 30 ∧ len = UInt8.ofNat k :=
      ⟨len.toNat, h8, h30, UInt8.ofNat_toNat.symm⟩
    interval_cases k <;> rfl
  unfold poolBase
  rw [UInt32.toNat_and, hmask]
  exact Ipv4Addr.and_mask pool.word_lt (by omega)

/-- An address at an offset into a pool is in the pool. -/
theorem inSubnet_offset {pool : Ipv4Addr} (h : isPool (pool, len)) {k : ℕ}
    (hk : k < 2 ^ (32 - len.toNat)) :
    inSubnet (.fromU32 (poolBase pool len + UInt32.ofNat k)) pool len = true := by
  have hbase := toNat_poolBase h
  simp only [isPool, Bool.and_eq_true, decide_eq_true_eq] at h
  have h30 : len.toNat ≤ 30 := UInt8.le_iff_toNat_le.mp h.2
  have hword := pool.word_lt
  have hsplit : 2 ^ (32 - len.toNat) * 2 ^ len.toNat = 2 ^ 32 := by
    rw [← Nat.pow_add, Nat.sub_add_cancel (by omega)]
  have hpos : 0 < 2 ^ (32 - len.toNat) := Nat.two_pow_pos _
  rw [inSubnet_iff (by omega), Ipv4Addr.word_fromU32, UInt32.toNat_add, hbase, UInt32.toNat_ofNat']
  generalize 2 ^ (32 - len.toNat) = size at hk hsplit hpos ⊢
  have hquot : pool.word / size < 2 ^ len.toNat := Nat.div_lt_of_lt_mul (by rwa [hsplit])
  have hfits : (pool.word / size + 1) * size ≤ 2 ^ 32 := by
    rw [← hsplit, Nat.mul_comm]
    exact Nat.mul_le_mul_left _ hquot
  rw [Nat.add_mul, Nat.one_mul] at hfits
  rw [Nat.mod_eq_of_lt (by omega : k < 2 ^ 32), Nat.mod_eq_of_lt (by omega), Nat.add_comm,
    Nat.add_mul_div_right _ _ hpos, Nat.div_eq_of_lt hk, Nat.zero_add]

theorem firstFree_spec {free : Ipv4Addr → Bool} {base : UInt32} {n host : ℕ} {ip : Ipv4Addr}
    (h : firstFree free base n host = some ip) :
    free ip = true ∧ ∃ k, k < host + n ∧ ip = .fromU32 (base + UInt32.ofNat k) := by
  induction n generalizing host with
  | zero => cases h
  | succ n ih =>
    rw [firstFree] at h
    split_ifs at h with hfree
    · cases h
      exact ⟨hfree, host, by omega, rfl⟩
    · obtain ⟨hip, k, hk, rfl⟩ := ih h
      exact ⟨hip, k, by omega, rfl⟩

/-! ## A subscriber is written -/

/-- The database with one subscriber written. -/
def setSub (db : Db) (imsi : Str) (s : Subscriber) : Db := { db with subs := db.subs.insert imsi s }

variable {db db' : Db} {imsi : Str} {s : Subscriber}

theorem subs_setSub (a : Str) :
    (db.setSub imsi s).subs[a]? = if imsi = a then some s else db.subs[a]? :=
  OrderedMap.getElem?_insert'

/-- A write of a subscriber who is there. -/
theorem modifySub_eq {f : Subscriber → Subscriber} (h : db.subs[imsi]? = some s) :
    db.modifySub imsi f = db.setSub imsi (f s) := by
  have hsubs : db.subs.modify imsi f = db.subs.insert imsi (f s) := by
    apply Std.ExtTreeMap.ext_getElem?
    intro a
    rw [OrderedMap.getElem?_modify', OrderedMap.getElem?_insert']
    split_ifs with ha
    · rw [← ha, h]
      rfl
    · rfl
  rw [modifySub, hsubs, setSub]

/-- Nobody but `imsi` has what `f` says is `x`. -/
def Free {α : Type} (db : Db) (imsi : Str) (f : Subscriber → α) (x : α) : Prop :=
  ∀ (a : Str) t, a ≠ imsi → db.subs[a]? = some t → f t ≠ x

/-- **What a subscriber may be written as.** -/
structure Sets (db : Db) (imsi : Str) (s : Subscriber) : Prop where
  named : validImsi imsi
  valid : s.Valid
  /-- The address is the one on record, or a free one of the pool. -/
  ip : ∀ x, s.ip = some x → (∃ t, db.subs[imsi]? = some t ∧ t.ip = some x) ∨
    (inSubnet x db.pool db.prefixLen ∧ x ≠ db.gateway) ∧ db.Free imsi (·.ip) (some x)
  imsIp : ∀ x, s.ims.imsIp = some x → (∃ t, db.subs[imsi]? = some t ∧ t.ims.imsIp = some x) ∨
    (∃ i, db.ims = some i ∧ inSubnet x i.pool i.prefixLen) ∧ db.Free imsi (·.ims.imsIp) (some x)
  /-- So is the number. -/
  msisdn : s.ims.msisdn ≠ [] → (∃ t, db.subs[imsi]? = some t ∧ t.ims.msisdn = s.ims.msisdn) ∨
    db.Free imsi (·.ims.msisdn) s.ims.msisdn

theorem Valid.setSub (h : db.Valid) (hs : db.Sets imsi s) : (db.setSub imsi s).Valid := by
  exact
    { h with
      subs := by
        intro a t ha
        rw [subs_setSub] at ha
        split_ifs at ha with heq
        · cases ha
          exact heq ▸ ⟨hs.named, hs.valid⟩
        · exact h.subs a t ha
      ip := by
        intro a t x ha hx
        rw [subs_setSub] at ha
        split_ifs at ha with heq
        · cases ha
          rcases hs.ip x hx with ⟨t, ht, hold⟩ | ⟨hnew, -⟩
          · exact h.ip imsi t x ht hold
          · exact hnew
        · exact h.ip a t x ha hx
      imsIp := by
        intro a t x i ha hx hi
        rw [subs_setSub] at ha
        split_ifs at ha with heq
        · cases ha
          rcases hs.imsIp x hx with ⟨t, ht, hold⟩ | ⟨⟨j, hj, hnew⟩, -⟩
          · exact h.imsIp imsi t x i ht hold hi
          · obtain rfl : j = i := Option.some.inj (hj.symm.trans hi)
            exact hnew
        · exact h.imsIp a t x i ha hx hi
      numbers := by
        have hothers : ∀ (a : Str) t, a ≠ imsi → db.subs[a]? = some t → s.ims.msisdn ≠ [] →
            t.ims.msisdn ≠ s.ims.msisdn := by
          intro a t ha ht hne heq
          rcases hs.msisdn hne with ⟨u, hu, hold⟩ | hfree
          · exact ha (h.numbers a imsi t u ht hu (heq ▸ hne) (heq.trans hold.symm))
          · exact hfree a t ha ht heq
        intro a b t u ha hb hne heq
        rw [subs_setSub] at ha hb
        split_ifs at ha hb with hai hbi hbi
        · rw [← hai, ← hbi]
        · cases ha
          exact absurd heq.symm (hothers b u (Ne.symm hbi) hb hne)
        · cases hb
          exact absurd heq (hothers a t (Ne.symm hai) ha (heq ▸ hne))
        · exact h.numbers a b t u ha hb hne heq }

/-! ## Distinct addresses -/

/-- No two subscribers share what `f` says, where it says something. -/
def Distinct {α : Type} (f : Subscriber → Option α) (db : Db) : Prop :=
  ∀ (a b : Str) s t x, db.subs[a]? = some s → db.subs[b]? = some t → f s = some x →
    f t = some x → a = b

theorem Distinct.setSub {α : Type} {f : Subscriber → Option α} (h : db.Distinct f)
    (hs : ∀ x, f s = some x → (∃ t, db.subs[imsi]? = some t ∧ f t = some x) ∨
      db.Free imsi f (some x)) :
    (db.setSub imsi s).Distinct f := by
  have hothers : ∀ (a : Str) t x, a ≠ imsi → db.subs[a]? = some t → f s = some x →
    f t ≠ some x := by
    intro a t x ha ht hx heq
    rcases hs x hx with ⟨u, hu, hold⟩ | hfree
    · exact ha (h a imsi t u x ht hu heq hold)
    · exact hfree a t ha ht heq
  intro a b t u x ha hb hta hub
  rw [subs_setSub] at ha hb
  split_ifs at ha hb with hai hbi hbi
  · rw [← hai, ← hbi]
  · cases ha
    exact absurd hub (hothers b u x (Ne.symm hbi) hb hta)
  · cases hb
    exact absurd hta (hothers a t x (Ne.symm hai) ha hub)
  · exact h a b t u x ha hb hta hub

/-- No subscriber's IMS address is an address of the data pool. -/
def Apart (db : Db) : Prop :=
  ∀ (a : Str) s x, db.subs[a]? = some s → s.ims.imsIp = some x →
    inSubnet x db.pool db.prefixLen = false

/-- No address is in both pools. -/
def PoolsApart (db : Db) : Prop :=
  ∀ i, db.ims = some i → ∀ x, inSubnet x i.pool i.prefixLen = true →
    inSubnet x db.pool db.prefixLen = false

theorem Apart.setSub (h : db.Apart) (hpools : db.PoolsApart) (hs : db.Sets imsi s) :
    (db.setSub imsi s).Apart := by
  intro a t x ha hx
  rw [subs_setSub] at ha
  split_ifs at ha with heq
  · cases ha
    rcases hs.imsIp x hx with ⟨t, ht, hold⟩ | ⟨⟨i, hi, hnew⟩, -⟩
    · exact h imsi t x ht hold
    · exact hpools i hi x hnew
  · exact h a t x ha hx

/-! ## What the core writes -/

/-- A change of a subscriber that leaves addresses and number. -/
structure Edit (s s' : Subscriber) : Prop where
  ip : s'.ip = s.ip
  imsIp : s'.ims.imsIp = s.ims.imsIp
  msisdn : s'.ims.msisdn = s.ims.msisdn
  ported : s'.ims.ported = s.ims.ported
  valid : s.Valid → s'.Valid

theorem Edit.sets (he : Edit t s) (ht : db.subs[imsi]? = some t) (h : db.Valid) :
    db.Sets imsi s where
  named := (h.subs imsi t ht).1
  valid := he.valid (h.subs imsi t ht).2
  ip _ hx := .inl ⟨t, ht, he.ip ▸ hx⟩
  imsIp _ hx := .inl ⟨t, ht, he.imsIp ▸ hx⟩
  msisdn _ := .inl ⟨t, ht, he.msisdn.symm⟩

/-- What nobody has, nobody else has. -/
theorem free_of_values {α : Type} {f : Subscriber → α} {x : α}
    (h : ∀ (a : Str) t, db.subs[a]? = some t → f t ≠ x) :
    db.Free imsi f x := fun a t _ => h a t

theorem mem_values {α : Type} {a : Str} {f : Subscriber → Option α} {x : α}
    (ht : db.subs[a]? = some t) (hx : f t = some x) : x ∈ db.subs.values.filterMap f :=
  List.mem_filterMap.mpr ⟨t, OrderedMap.mem_values_of_getElem? ht, hx⟩

theorem prefix_of_isPool {pool : Ipv4Addr} (h : isPool (pool, len)) :
    8 ≤ len.toNat ∧ len.toNat ≤ 30 := by
  simp only [isPool, Bool.and_eq_true, decide_eq_true_eq] at h
  exact ⟨UInt8.le_iff_toNat_le.mp h.1, UInt8.le_iff_toNat_le.mp h.2⟩

/-- **The address of a subscriber** is on record, or a free one of the pool is put there. -/
theorem addressFor_eq (imsi : Str) : (db.addressFor imsi).1 = db ∨
    ∃ t x, db.subs[imsi]? = some t ∧ (db.addressFor imsi).1 = db.setSub imsi
      { t with ip := some x } ∧
      (db.Valid → db.Sets imsi { t with ip := some x }) := by
  unfold addressFor
  cases ht : db.subs[imsi]? with
  | none => exact .inl rfl
  | some t =>
    dsimp only
    cases hip : t.ip with
    | some ip => exact .inl rfl
    | none =>
      dsimp only
      split
      · rename_i x hx
        refine .inr ⟨t, x, rfl, modifySub_eq ht, fun h => ?_⟩
        obtain ⟨hfree, k, hk, hxk⟩ := firstFree_spec hx
        simp only [Bool.and_eq_true, decide_eq_true_eq, Bool.not_eq_true',
          List.contains_eq_mem] at hfree
        have hbound := prefix_of_isPool h.pool
        have hpos : 4 ≤ 2 ^ (32 - db.prefixLen.toNat) := by
          refine (Nat.pow_le_pow_right (by decide) (?_ : 2 ≤ 32 - db.prefixLen.toNat) : 2 ^ 2 ≤ _)
          omega
        have hin : inSubnet x db.pool db.prefixLen := by
          rw [hxk]
          refine inSubnet_offset h.pool ?_
          unfold poolSize at hk
          omega
        exact
          { named := (h.subs imsi t ht).1
            valid := { (h.subs imsi t ht).2 with }
            ip := by
              intro y hy
              cases hy
              refine .inr ⟨⟨hin, hfree.1⟩, free_of_values fun a u hu hux => ?_⟩
              have hmem := mem_values hu hux
              rw [decide_eq_false_iff_not] at hfree
              exact hfree.2 hmem
            imsIp := fun y hy => .inl ⟨t, ht, hy⟩
            msisdn := fun _ => .inl ⟨t, ht, rfl⟩ }
      · exact .inl rfl

theorem imsAddressFor_eq (imsi : Str) : (db.imsAddressFor imsi).1 = db ∨
    ∃ t x, db.subs[imsi]? = some t ∧
      (db.imsAddressFor imsi).1 = db.setSub imsi { t with ims := { t.ims with imsIp := some x } } ∧
      (db.Valid → db.Sets imsi { t with ims := { t.ims with imsIp := some x } }) := by
  unfold imsAddressFor
  split
  · rename_i i t hi ht
    split
    · exact .inl rfl
    · dsimp only
      split
      · rename_i x hx
        refine .inr ⟨t, x, ht, modifySub_eq ht, fun h => ?_⟩
        obtain ⟨hfree, k, hk, hxk⟩ := firstFree_spec hx
        simp only [Bool.not_eq_true', List.contains_eq_mem, decide_eq_false_iff_not] at hfree
        have hbound := prefix_of_isPool (h.ims i hi).pool
        have hpos : 4 ≤ 2 ^ (32 - i.prefixLen.toNat) := by
          refine (Nat.pow_le_pow_right (by decide) (?_ : 2 ≤ 32 - i.prefixLen.toNat) : 2 ^ 2 ≤ _)
          omega
        have hin : inSubnet x i.pool i.prefixLen := by
          rw [hxk]
          refine inSubnet_offset (h.ims i hi).pool ?_
          unfold poolSize at hk
          omega
        exact
          { named := (h.subs imsi t ht).1
            valid := { (h.subs imsi t ht).2 with }
            ip := fun y hy => .inl ⟨t, ht, hy⟩
            imsIp := by
              intro y hy
              cases hy
              exact .inr ⟨⟨i, hi, hin⟩, free_of_values fun a u hu hux => hfree (mem_values hu hux)⟩
            msisdn := fun _ => .inl ⟨t, ht, rfl⟩ }
      · exact .inl rfl
  · exact .inl rfl

/-! ## Numbers -/

theorem fourDigits_spec {n : ℕ} (h : n ≤ 9999) :
    (fourDigits n).length = 4 ∧ ∀ c ∈ fourDigits n, c.isDigit = true := by
  have hlen : (decimal n).length ≤ 4 :=
    (Nat.length_toDigits_le_iff (by decide) (by decide)).mpr (by omega)
  refine ⟨?_, fun c hc => ?_⟩
  · rw [fourDigits, List.length_append, List.length_replicate]
    omega
  · rcases List.mem_append.mp hc with hc | hc
    · rw [List.eq_of_mem_replicate hc]
      decide
    · exact Nat.isDigit_of_mem_toDigits (by decide) (by decide) hc

/-- What every number of a block begins with. -/
def blockPrefix (db : Db) (b : Str) : Str :=
  let (x, y) := (splitOnce '-' b).getD (b, [])
  '+' :: db.cc ++ x ++ y

theorem blockNumber_eq (b : Str) (line : ℕ) :
    db.blockNumber b line = db.blockPrefix b ++ fourDigits line := rfl

/-- The prefix of a block is its country code and six digits. -/
theorem blockPrefix_spec (db : Db) (h : validBlock b) :
    ∃ g : Str, g.length = 6 ∧ (∀ c ∈ g, c.isDigit = true) ∧
      db.blockPrefix b = '+' :: db.cc ++ g := by
  unfold validBlock at h
  dsimp only at h
  split at h
  · rename_i x y hsplit
    simp only [Bool.and_eq_true, List.all_eq_true, decide_eq_true_eq] at h
    refine ⟨x ++ y, ?_, fun c hc => ?_, ?_⟩
    · rw [List.length_append, h.1.1.1.1, h.2.1.1.1]
    · rcases List.mem_append.mp hc with hc | hc
      · exact h.1.1.1.2 c hc
      · exact h.2.1.1.2 c hc
    · rw [blockPrefix, hsplit]
      exact List.append_assoc _ _ _
  · cases h

theorem blockOf_take (h : validBlock b) :
    (db.blockNumber b 0).take (2 + db.cc.length + 5) = db.blockPrefix b := by
  obtain ⟨g, hg, -, heq⟩ := blockPrefix_spec db h
  have hlen : (db.blockPrefix b).length = 2 + db.cc.length + 5 := by
    rw [heq, List.length_append, List.length_cons, hg]
    omega
  rw [blockNumber_eq, ← hlen, List.take_left]

/-- A number of a block that is held. -/
theorem blockOf_isSome (hb : b ∈ db.blocks) (h : validBlock b)
    (hn : (db.blockPrefix b).isPrefixOf n = true) :
    (db.blockOf n).isSome = true := by
  unfold blockOf
  rw [List.find?_isSome]
  exact ⟨b, hb, by rw [blockOf_take h]; exact hn⟩

theorem validE164_blockNumber (hcc : validCc db.cc) (h : validBlock b) {line : ℕ}
    (hline : line ≤ 9999) :
    validE164 (db.blockNumber b line) = true := by
  obtain ⟨g, hg, hdigits, heq⟩ := blockPrefix_spec db h
  obtain ⟨hfour, hfourDigits⟩ := fourDigits_spec hline
  simp only [validCc, Bool.and_eq_true, decide_eq_true_eq, List.all_eq_true] at hcc
  rw [blockNumber_eq, heq]
  show validE164 ('+' :: (db.cc ++ g ++ fourDigits line)) = true
  unfold validE164
  simp only [Bool.and_eq_true, decide_eq_true_eq, List.all_eq_true, List.length_append]
  refine ⟨⟨⟨by omega, by omega⟩, fun c hc => ?_⟩, ?_⟩
  · rcases List.mem_append.mp hc with hc | hc
    · rcases List.mem_append.mp hc with hc | hc
      · exact hcc.1.2 c hc
      · exact hdigits c hc
    · exact hfourDigits c hc
  · have hne : db.cc ≠ [] := fun hnil => absurd hcc.1.1.1 (by rw [hnil]; decide)
    rw [List.append_assoc, List.head?_append_of_ne_nil _ hne]
    exact hcc.2

/-- **The next free number** is one of a block, and nobody has it. -/
theorem nextFreeNumber_spec (h : db.nextFreeNumber = some n) :
    ∃ b ∈ db.blocks, ∃ line ≤ 9999, n = db.blockNumber b line ∧
      ∀ (a : Str) t, db.subs[a]? = some t → t.ims.msisdn ≠ n := by
  unfold nextFreeNumber at h
  dsimp only at h
  obtain ⟨b, hb, h⟩ := List.exists_of_findSome?_eq_some h
  obtain ⟨line, hline, h⟩ := List.exists_of_findSome?_eq_some h
  split_ifs at h with hused
  cases h
  refine ⟨b, hb, line, ?_, rfl, fun a t ht heq => hused ?_⟩
  · have hrange := (List.mem_range'_1.mp hline).2
    unfold firstLine at hrange
    omega
  · rw [List.contains_eq_mem, decide_eq_true_eq, ← heq]
    exact List.mem_map.mpr ⟨t, OrderedMap.mem_values_of_getElem? ht, rfl⟩

/-- A number that `byNumber` finds at no one else. -/
theorem free_of_byNumber (h : db.Valid) (hn : n ≠ [])
    (hother : ¬ (db.byNumber n).any (fun other => other ≠ imsi) = true) :
    db.Free imsi (·.ims.msisdn) n := by
  intro a t ha ht heq
  have hmem : (a, t) ∈ db.subs.toList := Std.ExtTreeMap.mem_toList_iff_getElem?_eq_some.mpr ht
  unfold byNumber at hother
  cases hfind : db.subs.toList.find? (fun x => x.2.ims.msisdn = n) with
  | none =>
    have hnone := List.find?_eq_none.mp hfind (a, t) hmem
    exact hnone (decide_eq_true heq)
  | some x =>
    rw [hfind] at hother
    have hx : x.1 = imsi := by simpa using hother
    have hxn : x.2.ims.msisdn = n := by simpa using List.find?_some hfind
    have hxt : db.subs[x.1]? = some x.2 :=
      Std.ExtTreeMap.mem_toList_iff_getElem?_eq_some.mp (List.mem_of_find?_eq_some hfind)
    refine ha ((h.numbers x.1 a x.2 t hxt ht (hxn ▸ hn) (hxn.trans heq.symm)).symm.trans hx)

/-- **A number that is chosen** is a number, nobody else has it, and if it is not ported in it
is of a block that the carrier holds, once it holds one. -/
theorem chooseNumber_spec (h : db.Valid) {requested : Option Str} {ported : Bool}
    (hn : db.chooseNumber imsi requested ported = .ok n) :
    validE164 n = true ∧ db.Free imsi (·.ims.msisdn) n ∧
      (ported = false → db.blocks ≠ [] → (db.blockOf n).isSome = true) := by
  unfold chooseNumber at hn
  cases requested with
  | some r =>
    dsimp only at hn
    rcases ite_eq_iff.mp hn with ⟨-, hn⟩ | ⟨hvalid, hn⟩
    · cases hn
    rcases ite_eq_iff.mp hn with ⟨-, hn⟩ | ⟨hother, hn⟩
    · cases hn
    rcases ite_eq_iff.mp hn with ⟨-, hn⟩ | ⟨-, hn⟩
    · cases hn
    rcases ite_eq_iff.mp hn with ⟨-, hn⟩ | ⟨hours, hn⟩
    · cases hn
    cases hn
    have hr : validE164 n = true := by simpa using hvalid
    refine ⟨hr, free_of_byNumber h (isPlain_of_validE164 hr).1 hother, fun hport hblocks => ?_⟩
    by_contra hnot
    exact hours (by simp [hport, hblocks, hnot])
  | none =>
    dsimp only at hn
    rcases ite_eq_iff.mp hn with ⟨-, hn⟩ | ⟨-, hn⟩
    · cases hn
    obtain ⟨b, hb, line, hline, rfl, hfree⟩ := nextFreeNumber_spec (need_ok hn)
    have hvalid := h.blocks b hb
    refine ⟨validE164_blockNumber h.cc hvalid hline, free_of_values hfree,
      fun _ _ => blockOf_isSome hb hvalid ?_⟩
    rw [blockNumber_eq, List.isPrefixOf_iff_prefix]
    exact List.prefix_append _ _

/-- The subscriber with a number. -/
def numbered (t : Subscriber) (n : Str) (ported : Bool) : Subscriber :=
  { t with ims := { t.ims with msisdn := n, ported } }

/-- **What a subscriber is granted**: a number that was nobody's, and is not ported in, is of a
block that the carrier holds, once it holds one. -/
def Grants (db : Db) (imsi : Str) (s : Subscriber) : Prop :=
  s.ims.msisdn ≠ [] → s.ims.ported = false →
    (∀ (a : Str) t, db.subs[a]? = some t → t.ims.msisdn = s.ims.msisdn → a = imsi ∧
      t.ims.ported = true) →
      db.blocks ≠ [] → (db.blockOf s.ims.msisdn).isSome = true

theorem sets_numbered (h : db.Valid) (ht : db.subs[imsi]? = some t) {ported : Bool}
    (hn : n = [] ∨ validE164 n = true) (hfree : n ≠ [] → db.Free imsi (·.ims.msisdn) n) :
    db.Sets imsi (numbered t n ported) where
  named := (h.subs imsi t ht).1
  valid := { (h.subs imsi t ht).2 with msisdn := hn }
  ip _ hx := .inl ⟨t, ht, hx⟩
  imsIp _ hx := .inl ⟨t, ht, hx⟩
  msisdn hne := .inr (hfree hne)

theorem assignNumber_ok {requested : Option Str} {ported : Bool}
    (h : db.assignNumber imsi requested ported = .ok (db', n)) :
    ∃ t, db.subs[imsi]? = some t ∧ db' = db.setSub imsi (numbered t n ported) ∧
      (db.Valid → db.Sets imsi (numbered t n ported)) ∧
      (db.Valid → ported = false → db.blocks ≠ [] → (db.blockOf n).isSome = true) := by
  unfold assignNumber at h
  rcases ite_eq_iff.mp h with ⟨-, h⟩ | ⟨hsub, h⟩
  · cases h
  obtain ⟨m, hm, h⟩ := exists_of_bind_eq_ok h
  cases h
  have hcontains : imsi ∈ db.subs := by simpa using hsub
  obtain ⟨t, ht⟩ : ∃ t, db.subs[imsi]? = some t :=
    ⟨_, Std.ExtTreeMap.getElem?_eq_some_getElem hcontains⟩
  refine ⟨t, ht, modifySub_eq ht, fun hvalid => ?_, fun hvalid => (chooseNumber_spec hvalid hm).2.2⟩
  obtain ⟨hn, hfree, -⟩ := chooseNumber_spec hvalid hm
  exact sets_numbered hvalid ht (.inr hn) fun _ => hfree

/-! ## The writes -/

/-- A subscriber is written. -/
inductive Write : Db → Db → Prop
  | set {db : Db} {imsi : Str} {s : Subscriber} (hs : db.Valid → db.Sets imsi s) :
  Write db (db.setSub imsi s)

/-- Subscribers are written, one after another. -/
abbrev Writes : Db → Db → Prop := Relation.ReflTransGen Write

theorem Writes.valid (h : Writes db db') (hvalid : db.Valid) : db'.Valid := by
  induction h with
  | refl => exact hvalid
  | tail _ hw ih =>
    cases hw with
    | set hs => exact ih.setSub (hs ih)

/-- **What a write keeps, writes keep.**  The networks stay as they are. -/
theorem Writes.induction {P : Db → Prop} (h : Writes db db') (hvalid : db.Valid) (hP : P db)
    (hset : ∀ db₁ imsi s, db₁.ims = db.ims → db₁.pool = db.pool → db₁.prefixLen = db.prefixLen →
      db₁.blocks = db.blocks →
      db₁.cc = db.cc → db₁.Valid → P db₁ → db₁.Sets imsi s → P (db₁.setSub imsi s)) : P db' := by
  suffices hall : P db' ∧ db'.ims = db.ims ∧ db'.pool = db.pool ∧ db'.prefixLen = db.prefixLen ∧
      db'.blocks = db.blocks ∧ db'.cc = db.cc from hall.1
  induction h with
  | refl => exact ⟨hP, rfl, rfl, rfl, rfl, rfl⟩
  | tail hws hw ih =>
    obtain ⟨hP₁, hims, hpool, hplen, hblocks, hcc⟩ := ih
    have hvalid₁ := Writes.valid hws hvalid
    cases hw with
    | set hs =>
      exact ⟨hset _ _ _ hims hpool hplen hblocks hcc hvalid₁ hP₁ (hs hvalid₁), hims, hpool, hplen,
        hblocks, hcc⟩

theorem writes_fillNumbers (db : Db) : Writes db db.fillNumbers.1 := by
  refine fillNumbers_induction .refl fun db₁ imsi db₂ n h hassign => ?_
  obtain ⟨t, -, rfl, hs, -⟩ := assignNumber_ok hassign
  exact h.tail (.set hs)

theorem writes_moved (h : db.Valid) {source target num : Str} {s : Subscriber}
    (hs : db.subs[source]? = some s) (hnum : s.ims.msisdn = num) (ht : db.subs[target]? = some t)
    (hfree : t.ims.msisdn = []) (hne : num ≠ []) :
    Writes db
      ((db.setSub source (numbered s [] false)).setSub target (numbered t num s.ims.ported)) := by
  have hdiff : source ≠ target := by
    rintro rfl
    rw [hs] at ht
    cases ht
    exact hne (hnum ▸ hfree)
  have hsource : db.Sets source (numbered s [] false) :=
    sets_numbered h hs (.inl rfl) fun hnil => absurd rfl hnil
  have ht₁ : (db.setSub source (numbered s [] false)).subs[target]? = some t := by
    rw [subs_setSub, if_neg hdiff, ht]
  have hvalid : num = [] ∨ validE164 num = true := hnum ▸ (h.subs source s hs).2.msisdn
  refine (Relation.ReflTransGen.single (.set fun _ => hsource)).tail (.set fun h₁ => ?_)
  refine sets_numbered h₁ ht₁ hvalid fun _ a u _ hu heq => ?_
  rw [subs_setSub] at hu
  split_ifs at hu with hsa
  · cases hu
    exact hne heq.symm
  · exact hsa (h.numbers source a s u hs hu (hnum ▸ hne) (hnum.trans heq.symm))

/-- A write that leaves every number: an edit, or an address. -/
inductive Quiet : Db → Db → Prop
  | set {db : Db} {imsi : Str} {s t : Subscriber} (ht : db.subs[imsi]? = some t)
      (hnumber : s.ims.msisdn = t.ims.msisdn ∧ s.ims.ported = t.ims.ported)
      (hs : db.Valid → db.Sets imsi s) :
      Quiet db (db.setSub imsi s)

/-- Quiet writes, one after another. -/
abbrev Quiets : Db → Db → Prop := Relation.ReflTransGen Quiet

/-- **What a step of the core does to its database.** -/
inductive Change (db : Db) : Db → Prop
  | quiet {db' : Db} (h : Quiets db db') : Change db db'
  /-- A new subscriber, or a number given or taken back. -/
  | set {imsi : Str} {s : Subscriber} (hs : db.Valid → db.Sets imsi s)
    (hgrant : db.Valid → db.Grants imsi s) :
      Change db (db.setSub imsi s)
  /-- A number that goes from one subscriber to another. -/
  | moved {source target num : Str} {s t : Subscriber} (hs : db.subs[source]? = some s)
    (hnum : s.ims.msisdn = num)
      (ht : db.subs[target]? = some t) (hfree : t.ims.msisdn = []) (hne : num ≠ []) :
      Change db
        ((db.setSub source (numbered s [] false)).setSub target (numbered t num s.ims.ported))
  | removed (imsi : Str) : Change db { db with subs := db.subs.erase imsi }
  | siteAdded {id : Str} {k : List Byte} (hid : validSiteId id) (hk : k.length = 16) :
      Change db { db with sites := db.sites.insert id k }
  | siteRemoved (id : Str) : Change db { db with sites := db.sites.erase id }
  | enumKey {k : List Byte} (hk : k.length = 16) : Change db { db with enumKey := some k }
  | blockAdded {b : Str} (hb : validBlock b) (hnew : b ∉ db.blocks) :
      Change db { db with blocks := db.blocks ++ [b] }.fillNumbers.1
  | blockRemoved (b : Str) : Change db { db with blocks := db.blocks.filter (· ≠ b) }
  | ims {i : Option ImsConf} (hi : db.Valid → { db with ims := i }.Valid) :
    Change db { db with ims := i }

theorem Quiets.writes (h : Quiets db db') : Writes db db' := by
  induction h with
  | refl => exact .refl
  | tail _ hq ih =>
    cases hq with
    | set _ _ hs => exact ih.tail (.set hs)

theorem isName_of_validSiteId {id : Str} (h : validSiteId id) :
    IsName id ∧ (toUtf8 id).length ≤ 32 := by
  have hplain := isPlain_of_validLabel h
  have hlen := length_toUtf8 fun c hc => utf8_of_isPlain (hplain c hc)
  simp only [validSiteId, validLabel, Bool.and_eq_true, decide_eq_true_eq] at h
  refine ⟨isName_of_isPlain (fun hnil => ?_) hplain, by omega⟩
  rw [hnil] at h
  exact absurd h.1.1 (by decide)

theorem Valid.blockAdded (h : db.Valid) {b : Str} (hb : validBlock b) (hnew : b ∉ db.blocks) :
    ({ db with blocks := db.blocks ++ [b] } : Db).Valid :=
  { h with
    blocks := fun b' hb' => by
      rcases List.mem_append.mp hb' with hb' | hb'
      · exact h.blocks b' hb'
      · rwa [List.mem_singleton.mp hb']
    blocks_nodup := h.blocks_nodup.append (List.nodup_singleton b) (by simpa using hnew) }

theorem getElem?_of_erase {a : Str} {s : Subscriber} (h : (db.subs.erase imsi)[a]? = some s) :
    db.subs[a]? = some s := by
  rw [OrderedMap.getElem?_erase'] at h
  split_ifs at h
  exact h

/-- **Every change keeps a valid database valid.** -/
theorem Change.valid (hc : Change db db') (h : db.Valid) : db'.Valid := by
  cases hc with
  | quiet hq => exact (Quiets.writes hq).valid h
  | set hs _ => exact h.setSub (hs h)
  | moved hs hnum ht hfree hne => exact (writes_moved h hs hnum ht hfree hne).valid h
  | removed imsi =>
    exact
      { h with
        subs := fun a s ha => h.subs a s (getElem?_of_erase ha)
        ip := fun a s x ha => h.ip a s x (getElem?_of_erase ha)
        imsIp := fun a s x i ha => h.imsIp a s x i (getElem?_of_erase ha)
        numbers :=
          fun a b s t ha hb => h.numbers a b s t (getElem?_of_erase ha) (getElem?_of_erase hb) }
  | @siteAdded id k hid hk =>
    refine { h with sites := fun id' k' h' => ?_ }
    rw [OrderedMap.getElem?_insert'] at h'
    split_ifs at h' with heq
    · cases h'
      obtain ⟨hname, hlen⟩ := isName_of_validSiteId hid
      exact heq ▸ ⟨hname, hlen, hk⟩
    · exact h.sites id' k' h'
  | siteRemoved id =>
    refine { h with sites := fun id' k' h' => ?_ }
    rw [OrderedMap.getElem?_erase'] at h'
    split_ifs at h'
    exact h.sites id' k' h'
  | enumKey hk =>
    refine { h with enumKey := fun k' h' => ?_ }
    cases h'
    exact hk
  | blockAdded hb hnew => exact (writes_fillNumbers _).valid (h.blockAdded hb hnew)
  | blockRemoved b =>
    exact { h with
      blocks := fun b' hb' => h.blocks b' (List.mem_filter.mp hb').1
      blocks_nodup := h.blocks_nodup.filter _ }
  | ims hi => exact hi h

/-- **What subscribers have that a change keeps.** -/
theorem Change.induction {P : Db → Prop} (hc : Change db db') (h : db.Valid) (hP : P db)
    (hset : ∀ db₁ imsi s, db₁.ims = db.ims → db₁.pool = db.pool →
      db₁.prefixLen = db.prefixLen → P db₁ →
      db₁.Sets imsi s → P (db₁.setSub imsi s))
    (hframe : ∀ db₁ db₂, db₂.subs = db₁.subs → db₂.pool = db₁.pool → db₂.prefixLen = db₁.prefixLen →
      P db₁ → P db₂)
    (herase : ∀ imsi, P { db with subs := db.subs.erase imsi }) : P db' := by
  have hwrites (db₀ : Db) (hims : db₀.ims = db.ims) (hpool : db₀.pool = db.pool)
    (hplen : db₀.prefixLen = db.prefixLen)
      (hvalid : db₀.Valid) (hP₀ : P db₀) (hw : Writes db₀ db') : P db' :=
    hw.induction hvalid hP₀ fun db₁ imsi s hims₁ hpool₁ hplen₁ _ _ _ hP₁ hs =>
      hset db₁ imsi s (hims₁.trans hims) (hpool₁.trans hpool) (hplen₁.trans hplen) hP₁ hs
  cases hc with
  | quiet hq => exact hwrites db rfl rfl rfl h hP (Quiets.writes hq)
  | set hs _ => exact hset db _ _ rfl rfl rfl hP (hs h)
  | moved hs hnum ht hfree hne =>
    exact hwrites db rfl rfl rfl h hP (writes_moved h hs hnum ht hfree hne)
  | removed imsi => exact herase imsi
  | siteAdded _ _ => exact hframe db _ rfl rfl rfl hP
  | siteRemoved id => exact hframe db _ rfl rfl rfl hP
  | enumKey _ => exact hframe db _ rfl rfl rfl hP
  | @blockAdded b hb hnew =>
    exact hwrites { db with blocks := db.blocks ++ [b] } rfl rfl rfl (h.blockAdded hb hnew)
      (hframe db _ rfl rfl rfl hP) (writes_fillNumbers _)
  | blockRemoved b => exact hframe db _ rfl rfl rfl hP
  | ims _ => exact hframe db _ rfl rfl rfl hP

/-- **Distinct addresses stay distinct.** -/
theorem Change.distinct {α : Type} {f : Subscriber → Option α} (hc : Change db db') (h : db.Valid)
    (hf : ∀ {db₁ : Db} {imsi s}, db₁.Sets imsi s → ∀ x, f s = some x →
      (∃ t, db₁.subs[imsi]? = some t ∧ f t = some x) ∨ db₁.Free imsi f (some x))
    (hd : db.Distinct f) : db'.Distinct f := by
  refine hc.induction h hd (fun db₁ imsi s _ _ _ hd₁ hs => hd₁.setSub (hf hs)) ?_ fun imsi => ?_
  · intro db₁ db₂ hsubs _ _ hd₁
    unfold Distinct
    rw [hsubs]
    exact hd₁
  · intro a b s t x ha hb
    exact hd a b s t x (getElem?_of_erase ha) (getElem?_of_erase hb)

theorem Change.apart (hc : Change db db') (h : db.Valid) (hpools : db.PoolsApart) (ha : db.Apart) :
    db'.Apart := by
  refine hc.induction h ha (fun db₁ imsi s hims hpool hplen ha₁ hs => ha₁.setSub ?_ hs) ?_
    fun imsi => ?_
  · unfold PoolsApart
    rw [hims, hpool, hplen]
    exact hpools
  · intro db₁ db₂ hsubs hpool hplen ha₁
    unfold Apart
    rw [hsubs, hpool, hplen]
    exact ha₁
  · intro a s x hs
    exact ha a s x (getElem?_of_erase hs)

/-! ## Numbers that are given -/

/-- Every number that is new, and not ported in, is of a block that the carrier holds, once it
holds one.  A number is new where nobody had it, or its holder had it as ported in. -/
def Granted (db db' : Db) : Prop :=
  ∀ (imsi : Str) s, db'.subs[imsi]? = some s → s.ims.msisdn ≠ [] → s.ims.ported = false →
    (∀ (a : Str) t, db.subs[a]? = some t → t.ims.msisdn = s.ims.msisdn → a = imsi ∧
      t.ims.ported = true) →
      db'.blocks ≠ [] → (db'.blockOf s.ims.msisdn).isSome = true

/-- A subscriber has the number that it had. -/
def KeptNumber (db : Db) (imsi : Str) (s : Subscriber) : Prop :=
  ∃ t, db.subs[imsi]? = some t ∧ t.ims.msisdn = s.ims.msisdn ∧ t.ims.ported = s.ims.ported

theorem KeptNumber.not_new {s : Subscriber} (hk : db.KeptNumber imsi s)
    (hported : s.ims.ported = false) (hnew : ∀ (a : Str) t, db.subs[a]? = some t →
      t.ims.msisdn = s.ims.msisdn → a = imsi ∧ t.ims.ported = true) :
    False := by
  obtain ⟨t, ht, hnum, hport⟩ := hk
  have hyes := (hnew imsi t ht hnum).2
  rw [hport, hported] at hyes
  exact Bool.false_ne_true hyes

theorem granted_of_kept (h : ∀ (imsi : Str) s, db'.subs[imsi]? = some s → db.KeptNumber imsi s) :
    db.Granted db' :=
  fun imsi s hs _ hported hnew _ => ((h imsi s hs).not_new hported hnew).elim

theorem Quiets.kept (h : Quiets db db') :
    ∀ (imsi : Str) s, db'.subs[imsi]? = some s → db.KeptNumber imsi s := by
  induction h with
  | refl => exact fun imsi s hs => ⟨s, hs, rfl, rfl⟩
  | tail _ hq ih =>
    cases hq with
    | @set imsi₀ s₀ t₀ ht hnumber _ =>
      intro imsi s hs
      rw [subs_setSub] at hs
      split_ifs at hs with heq
      · cases hs
        obtain ⟨u, hu, hnum, hport⟩ := ih imsi₀ t₀ ht
        exact ⟨u, heq ▸ hu, hnum.trans hnumber.1.symm, hport.trans hnumber.2.symm⟩
      · exact ih imsi s hs

/-- **Numbers that are filled in** are of a block that the carrier holds. -/
theorem fillNumbers_spec (h : db.Valid) (hblocks : db.blocks ≠ []) (imsi : Str) (s : Subscriber)
    (hs : db.fillNumbers.1.subs[imsi]? = some s) :
    db.KeptNumber imsi s ∨ (db.fillNumbers.1.blockOf s.ims.msisdn).isSome = true := by
  suffices hfill : db.fillNumbers.1.Valid ∧ db.fillNumbers.1.blocks = db.blocks ∧
      ∀ (imsi : Str) s, db.fillNumbers.1.subs[imsi]? = some s →
        db.KeptNumber imsi s ∨ (db.fillNumbers.1.blockOf s.ims.msisdn).isSome =
          true from hfill.2.2 imsi s hs
  refine fillNumbers_induction (P := fun db₁ => db₁.Valid ∧ db₁.blocks = db.blocks ∧
    ∀ (imsi : Str) s, db₁.subs[imsi]? = some s → db.KeptNumber imsi s ∨
      (db₁.blockOf s.ims.msisdn).isSome = true)
    ⟨h, rfl, fun imsi s hs => .inl ⟨s, hs, rfl, rfl⟩⟩ ?_
  rintro db₁ imsi₁ db₂ n ⟨hvalid, hsame, hall⟩ hassign
  obtain ⟨t, -, rfl, hs, hin⟩ := assignNumber_ok hassign
  refine ⟨hvalid.setSub (hs hvalid), hsame, fun imsi s hs => ?_⟩
  rw [subs_setSub] at hs
  split_ifs at hs
  · cases hs
    exact .inr (hin hvalid rfl (hsame ▸ hblocks))
  · exact hall imsi s hs

theorem granted_fillNumbers (h : db.Valid) : db.Granted db.fillNumbers.1 := by
  by_cases hblocks : db.blocks = []
  · have hsame : db.fillNumbers.1 = db := by
      unfold fillNumbers
      rw [if_pos hblocks]
    rw [hsame]
    exact granted_of_kept fun a s hs => ⟨s, hs, rfl, rfl⟩
  · intro imsi s hs _ hported hnew _
    rcases fillNumbers_spec h hblocks imsi s hs with hkept | hin
    · exact (hkept.not_new hported hnew).elim
    · exact hin

theorem Change.granted (hc : Change db db') (h : db.Valid) : db.Granted db' := by
  cases hc with
  | quiet hq => exact granted_of_kept (Quiets.kept hq)
  | @set imsi₀ s₀ _ hgrant =>
    intro imsi s hs hne hported hnew hblocks
    rw [subs_setSub] at hs
    split_ifs at hs with heq
    · cases hs
      subst heq
      exact hgrant h hne hported hnew hblocks
    · exact (KeptNumber.not_new ⟨s, hs, rfl, rfl⟩ hported hnew).elim
  | @moved source target num s₀ t₀ hs₀ hnum ht₀ hfree hne₀ =>
    intro imsi s hs hne hported hnew hblocks
    rw [subs_setSub] at hs
    split_ifs at hs with htarget
    · cases hs
      obtain ⟨hsame, -⟩ := hnew source s₀ hs₀ hnum
      subst htarget hsame
      rw [hs₀] at ht₀
      cases ht₀
      exact absurd hfree (hnum ▸ hne₀)
    · rw [subs_setSub] at hs
      split_ifs at hs with hsource
      · cases hs
        exact absurd rfl hne
      · exact (KeptNumber.not_new ⟨s, hs, rfl, rfl⟩ hported hnew).elim
  | removed imsi => exact granted_of_kept fun a s hs => ⟨s, getElem?_of_erase hs, rfl, rfl⟩
  | siteAdded _ _ => exact granted_of_kept fun a s hs => ⟨s, hs, rfl, rfl⟩
  | siteRemoved id => exact granted_of_kept fun a s hs => ⟨s, hs, rfl, rfl⟩
  | enumKey _ => exact granted_of_kept fun a s hs => ⟨s, hs, rfl, rfl⟩
  | @blockAdded b hb hnew =>
    -- the blocks are there before the first number is given
    intro imsi s hs hne hported hnew' hblocks
    exact granted_fillNumbers (h.blockAdded hb hnew) imsi s hs hne hported hnew' hblocks
  | blockRemoved b => exact granted_of_kept fun a s hs => ⟨s, hs, rfl, rfl⟩
  | ims _ => exact granted_of_kept fun a s hs => ⟨s, hs, rfl, rfl⟩

end EvansComputer.Cell.Db
