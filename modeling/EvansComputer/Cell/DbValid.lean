import EvansComputer.Cell.Db
import EvansComputer.Library.Cursor

/-!
# What a database that was read is

Every value that the parser takes has passed a check, and some have passed a second one
over the whole file.  `Db.WellFormed` is what the lines see to, each value by itself;
`Db.Valid` is what a parsed database is.

The domain of the IMS bearer is the one value with two sources: the `ims` line, where it is
checked and brought to lower case, and the carrier id, from which it is made when the line
does not say.
-/

namespace EvansComputer.Cell

open Text

variable {s : Str} {st st' : Parse} {db : Db}

theorem Db.fillNumbers_induction {P : Db → Prop} (h : P db)
    (hstep : ∀ db imsi db' n, P db → db.assignNumber imsi none false = .ok (db', n) → P db') :
    P db.fillNumbers.1 := by
  unfold fillNumbers
  split_ifs
  · exact h
  · refine List.foldlRecOn (motive := fun x : Db × ℕ => P x.1) _ _ h fun x hx imsi _ => ?_
    dsimp only
    cases hassign : x.1.assignNumber imsi none false with
    | error e => exact hx
    | ok r => exact hstep x.1 imsi r.1 r.2 hx hassign

/-! ## Values by themselves -/

/-- An id that is one word of a line. -/
def IsName (w : Str) : Prop := IsWord w ∧ '#' ∉ w

structure Subscriber.Valid (s : Subscriber) : Prop where
  key : s.key.length = 16
  label : s.label = [] ∨ validLabel s.label
  msisdn : s.ims.msisdn = [] ∨ validE164 s.ims.msisdn
  cfu : s.ims.cfu = [] ∨ validE164 s.ims.cfu
  cfb : s.ims.cfb = [] ∨ validE164 s.ims.cfb
  cfnr : s.ims.cfnr = [] ∨ validE164 s.ims.cfnr
  cfnrc : s.ims.cfnrc = [] ∨ validE164 s.ims.cfnrc
  blocked : ∀ n ∈ s.ims.blocked, validE164 n
  port : s.ims.port = [] ∨ validPortCode s.ims.port

/-- A domain that an `ims` line may give. -/
def IsDomain (d : Str) : Prop := validDomain d ∧ d.map Char.toLower = d

/-- The domain of a carrier that gives none. -/
def defaultDomain (carrier : Str) : Str := carrier ++ ".ecm".toList

structure ImsConf.Valid (carrier : Str) (i : ImsConf) : Prop where
  pool : isPool (i.pool, i.prefixLen)
  net : i.netPrefix.toNat ≤ 32
  domain : i.domain = defaultDomain carrier ∨ IsDomain i.domain

namespace Db

/-- Each value of the database is one that its line takes. -/
structure WellFormed (db : Db) : Prop where
  mtu : 576 ≤ db.mtu.toNat ∧ db.mtu.toNat ≤ 1500
  cc : validCc db.cc
  blocks : ∀ b ∈ db.blocks, validBlock b
  blocks_nodup : db.blocks.Nodup
  enumKey : ∀ k, db.enumKey = some k → k.length = 16
  sites : ∀ (id : Str) k, db.sites[id]? = some k → IsName id ∧ (toUtf8 id).length ≤ 32 ∧
    k.length = 16
  subs : ∀ (imsi : Str) s, db.subs[imsi]? = some s → validImsi imsi ∧ s.Valid

/-- **What a parsed database is.** -/
structure Valid (db : Db) : Prop extends db.WellFormed where
  carrier : validCarrier db.carrier
  pool : isPool (db.pool, db.prefixLen)
  gateway : inSubnet db.gateway db.pool db.prefixLen
  ims : ∀ i, db.ims = some i → i.Valid db.carrier
  ip : ∀ (imsi : Str) s ip, db.subs[imsi]? = some s → s.ip = some ip →
    inSubnet ip db.pool db.prefixLen ∧ ip ≠ db.gateway
  imsIp : ∀ (imsi : Str) s ip i, db.subs[imsi]? = some s → s.ims.imsIp = some ip → db.ims = some i →
    inSubnet ip i.pool i.prefixLen
  numbers : ∀ (a b : Str) s t, db.subs[a]? = some s → db.subs[b]? = some t → s.ims.msisdn ≠ [] →
    s.ims.msisdn = t.ims.msisdn → a = b

end Db

/-- What the lines read so far have come to. -/
structure Parse.Valid (st : Parse) : Prop where
  db : st.db.WellFormed
  carrier : ∀ c, st.carrier = some c → validCarrier c
  pool : ∀ p, st.pool = some p → isPool p
  ims : ∀ p l, st.ims = some (p, l) → isPool p ∧ (∀ d, l.domain = some d → IsDomain d) ∧
    ∀ n, l.net = some n → n.2.toNat ≤ 32

/-! ## The pieces of a line -/

theorem need_ok {α : Type} {o : Option α} {msg : Str} {a : α} (h : need o msg = .ok a) :
    o = some a := by
  cases o with
  | none => cases h
  | some a' =>
    cases h
    rfl

theorem length_of_unhexPairs {b : List Byte} (h : unhexPairs s = some b) :
    s.length = 2 * b.length ∧ ∀ c ∈ s, (hexDigit c).isSome := by
  fun_induction unhexPairs s generalizing b with
  | case1 =>
    cases h
    exact ⟨rfl, fun _ hc => absurd hc List.not_mem_nil⟩
  | case2 => cases h
  | case3 x y s m l b' hb hl hm ih =>
    cases h
    obtain ⟨hlen, hall⟩ := ih hb
    refine ⟨?_, fun c hc => ?_⟩
    · rw [List.length_cons, List.length_cons, List.length_cons, hlen]
      omega
    · rcases List.mem_cons.mp hc with rfl | hc
      · rw [hm]; rfl
      · rcases List.mem_cons.mp hc with rfl | hc
        · rw [hl]; rfl
        · exact hall c hc
  | case4 => cases h

/-- A hexadecimal digit is one byte. -/
theorem utf8_of_hexDigit {c : Char} (h : (hexDigit c).isSome) :
    (String.utf8EncodeChar c).length = 1 := by
  have hc : c.toNat < 128 := by
    unfold hexDigit at h
    split_ifs at h with hdigit hlower hupper
    · simp only [Char.isDigit, Bool.and_eq_true, decide_eq_true_eq] at hdigit
      have hle : c.toNat ≤ 57 := UInt32.le_iff_toNat_le.mp hdigit.2
      omega
    · omega
    · omega
    · exact absurd h Bool.false_ne_true
  rw [String.length_utf8EncodeChar, Char.utf8Size_eq_one_iff]
  exact UInt32.le_iff_toNat_le.mpr (Nat.le_of_lt_succ hc)

theorem length_toUtf8 (h : ∀ c ∈ s, (String.utf8EncodeChar c).length = 1) :
    (toUtf8 s).length = s.length := by
  induction s with
  | nil => rfl
  | cons c s ih =>
    rw [toUtf8, List.flatMap_cons, List.length_append, h c List.mem_cons_self]
    have htail := ih fun c' hc' => h c' (List.mem_cons_of_mem _ hc')
    rw [toUtf8] at htail
    rw [htail, List.length_cons, Nat.add_comm]

theorem length_of_unhex {n : ℕ} {b : List Byte} (h : unhex n s = some b) : b.length = n := by
  unfold unhex at h
  split_ifs at h with hlen
  obtain ⟨hs, hall⟩ := length_of_unhexPairs h
  rw [length_toUtf8 fun c hc => utf8_of_hexDigit (hall c hc)] at hlen
  omega

theorem prefix_of_parseCidr {p : Ipv4Addr × UInt8} (h : parseCidr s = some p) : p.2.toNat ≤ 32 := by
  unfold parseCidr at h
  cases hi : s.idxOf? '/' with
  | none => rw [hi] at h; cases h
  | some i =>
    rw [hi] at h
    dsimp only at h
    cases hlen : readUnsigned 255 (s.drop (i + 1)) with
    | none => rw [hlen] at h; cases h
    | some len =>
      cases hip : Ipv4Addr.parse (s.take i) with
      | none => rw [hlen, hip] at h; cases h
      | some ip =>
        rw [hlen, hip] at h
        dsimp only at h
        split_ifs at h with hle
        cases h
        change len % 256 ≤ 32
        omega

/-- A number that may be empty. -/
theorem forward_ok {k v w : Str} (h : forward k v = .ok w) : w = [] ∨ validE164 w := by
  unfold forward at h
  split_ifs at h with hbad
  cases h
  by_cases hnil : v = []
  · exact .inl hnil
  · exact .inr (by_contra fun hv => hbad ⟨hnil, by simpa using hv⟩)

theorem blockList_ok {v : Str} {l : List Str} (h : blockList v = .ok l) : ∀ n ∈ l, validE164 n := by
  unfold blockList at h
  generalize (split (· == ',') v).filter (· ≠ []) = parts at h
  induction parts generalizing l with
  | nil =>
    cases h
    exact fun _ hn => absurd hn List.not_mem_nil
  | cons w parts ih =>
    rw [List.mapM_cons] at h
    obtain ⟨w', hw, h⟩ := exists_of_bind_eq_ok h
    obtain ⟨l', hl, h⟩ := exists_of_bind_eq_ok h
    cases h
    split_ifs at hw with hvalid
    cases hw
    intro n hn
    rcases List.mem_cons.mp hn with rfl | hn
    · exact hvalid
    · exact ih hl n hn

theorem Subscriber.valid_of_bind {α : Type} {x : Except Str α} {f : α → Subscriber × Bool}
    {r : Subscriber × Bool} (h : (do return f (← x)) = .ok r)
    (hf : ∀ a, x = .ok a → (f a).1.Valid) : r.1.Valid := by
  obtain ⟨a, ha, h⟩ := exists_of_bind_eq_ok h
  cases h
  exact hf a ha

theorem or_of_ite {α : Type} {p : Prop} [Decidable p] {x y z : α} (h : (if p then x else y) = z) :
    x = z ∨ y = z :=
  (ite_eq_iff.mp h).imp And.right And.right

theorem Subscriber.valid_of_check {v : Bool} {e : Str} {r r' : Subscriber × Bool}
    (h : (if !v then (do throw e; pure r) else pure r : Except Str (Subscriber × Bool)) = .ok r')
    (hr : v → r.1.Valid) : r'.1.Valid := by
  cases v with
  | false => cases h
  | true =>
    cases h
    exact hr rfl

/-- **A field of a subscriber** leaves it valid. -/
theorem Subscriber.Valid.subKey {s s' : Subscriber} {haveKey haveKey' : Bool} {kv : Str}
    (hs : s.Valid) (h : subKey (s, haveKey) kv = .ok (s', haveKey')) : s'.Valid := by
  unfold Cell.subKey at h
  obtain ⟨⟨k, v⟩, -, h⟩ := exists_of_bind_eq_ok h
  dsimp only at h
  rcases or_of_ite h with h | h
  · exact valid_of_bind h fun key hkey => { hs with key := length_of_unhex (need_ok hkey) }
  -- quota, usage, the revocation and the address
  iterate 4
    rcases or_of_ite h with h | h
    · exact valid_of_bind h fun _ _ => { hs with }
  rcases or_of_ite h with h | h
  · exact valid_of_check h fun hv => { hs with label := .inr hv }
  rcases or_of_ite h with h | h
  · exact valid_of_check h fun hv => { hs with msisdn := .inr hv }
  rcases or_of_ite h with h | h
  · exact valid_of_bind h fun _ _ => { hs with }
  rcases or_of_ite h with h | h
  · exact valid_of_bind h fun _ hv => { hs with cfu := forward_ok hv }
  rcases or_of_ite h with h | h
  · exact valid_of_bind h fun _ hv => { hs with cfb := forward_ok hv }
  rcases or_of_ite h with h | h
  · exact valid_of_bind h fun _ hv => { hs with cfnr := forward_ok hv }
  rcases or_of_ite h with h | h
  · exact valid_of_bind h fun _ hv => { hs with cfnrc := forward_ok hv }
  -- the switches
  iterate 4
    rcases or_of_ite h with h | h
    · exact valid_of_bind h fun _ _ => { hs with }
  rcases or_of_ite h with h | h
  · refine valid_of_bind h fun l hl => { hs with blocked := fun n hn => ?_ }
    rcases List.mem_append.mp hn with hn | hn
    · exact hs.blocked n hn
    · exact blockList_ok hl n hn
  rcases or_of_ite h with h | h
  · exact valid_of_check h fun hv => { hs with port := .inr hv }
  rcases or_of_ite h with h | h
  · exact valid_of_bind h fun _ _ => { hs with }
  · cases h

/-! ## The lines -/

/-- What is known of an `ims` line. -/
structure ImsLine.Valid (l : ImsLine) : Prop where
  pool : ∀ p, l.pool = some p → isPool p
  domain : ∀ d, l.domain = some d → IsDomain d
  net : ∀ n, l.net = some n → n.2.toNat ≤ 32

/-- A domain brought to lower case is one. -/
theorem isDomain_toLower {d : Str} (h : validDomain d) : IsDomain (d.map Char.toLower) := by
  simp only [validDomain, Bool.and_eq_true, decide_eq_true_eq, List.all_eq_true,
    Bool.or_eq_true] at h
  obtain ⟨⟨hne, hlen⟩, hall⟩ := h
  constructor
  · simp only [validDomain, Bool.and_eq_true, decide_eq_true_eq, List.all_eq_true, Bool.or_eq_true,
      List.length_map]
    refine ⟨⟨fun hnil => hne (List.map_eq_nil_iff.mp hnil), hlen⟩, fun c hc => ?_⟩
    obtain ⟨c₀, hc₀, rfl⟩ := List.mem_map.mp hc
    rcases hall c₀ hc₀ with (halnum | rfl) | rfl
    · exact .inl (.inl (isAlphanum_toLower halnum))
    · exact .inl (.inr (by decide))
    · exact .inr (by decide)
  · rw [List.map_map]
    exact List.map_congr_left fun c _ => toLower_toLower c

theorem ImsLine.Valid.imsKey {l l' : ImsLine} {kv : Str} (hl : l.Valid) (h : imsKey l kv = .ok l') :
    l'.Valid := by
  unfold Cell.imsKey at h
  obtain ⟨⟨k, v⟩, -, h⟩ := exists_of_bind_eq_ok h
  dsimp only at h
  rcases or_of_ite h with h | h
  · obtain ⟨p, hp, h⟩ := exists_of_bind_eq_ok h
    cases h
    refine { hl with pool := fun p' hp' => ?_ }
    cases hp'
    exact (Option.filter_eq_some_iff.mp (need_ok hp)).2
  rcases or_of_ite h with h | h
  · obtain ⟨_, -, h⟩ := exists_of_bind_eq_ok h
    cases h
    exact { hl with }
  rcases or_of_ite h with h | h
  · cases hv : validDomain v with
    | false => rw [hv] at h; cases h
    | true =>
      rw [hv] at h
      cases h
      refine { hl with domain := fun d hd => ?_ }
      cases hd
      exact isDomain_toLower hv
  rcases or_of_ite h with h | h
  · obtain ⟨n, hn, h⟩ := exists_of_bind_eq_ok h
    cases h
    refine { hl with net := fun n' hn' => ?_ }
    cases hn'
    exact prefix_of_parseCidr (need_ok hn)
  rcases or_of_ite h with h | h
  · obtain ⟨_, -, h⟩ := exists_of_bind_eq_ok h
    cases h
    exact { hl with }
  · cases h

theorem foldlM_ok {α β ε : Type} {f : β → α → Except ε β} {I : β → Prop} {l : List α}
    {b b' : β} (hb : I b) (hf : ∀ b b', ∀ a ∈ l, I b → f b a = .ok b' → I b')
    (h : l.foldlM f b = .ok b') : I b' := by
  induction l generalizing b with
  | nil =>
    cases h
    exact hb
  | cons a l ih =>
    rw [List.foldlM_cons] at h
    obtain ⟨b₁, h₁, h⟩ := exists_of_bind_eq_ok h
    exact ih (hf b b₁ a List.mem_cons_self hb h₁)
      (fun b b' a' ha' => hf b b' a' (List.mem_cons_of_mem _ ha')) h

/-- **An `ims` line** says only what it may, and nothing else changes. -/
theorem imsWords_ok {kvs : List Str} (h : parseWords.imsWords st kvs = .ok st') :
    ∃ p l, st' = { st with ims := some (p, l) } ∧ isPool p ∧ l.Valid := by
  unfold parseWords.imsWords at h
  obtain ⟨l, hl, h⟩ := exists_of_bind_eq_ok h
  obtain ⟨p, hp, h⟩ := exists_of_bind_eq_ok h
  cases h
  have hnew : ImsLine.Valid {} :=
    ⟨fun _ h => (Option.some_ne_none _ h.symm).elim, fun _ h => (Option.some_ne_none _ h.symm).elim,
      fun _ h => (Option.some_ne_none _ h.symm).elim⟩
  have hvalid : l.Valid := foldlM_ok hnew (fun b b' _ _ hb => hb.imsKey) hl
  exact ⟨p, l, rfl, hvalid.pool p (need_ok hp), hvalid⟩

/-- **A `sub` line** adds a subscriber that was not there. -/
theorem subWords_ok {imsi : Str} {kvs : List Str} (h : parseWords.subWords st imsi kvs = .ok st') :
    ∃ s, st' = { st with db := { st.db with subs := st.db.subs.insert imsi s } } ∧ validImsi imsi ∧
      s.Valid := by
  unfold parseWords.subWords at h
  cases himsi : validImsi imsi with
  | false => rw [himsi] at h; cases h
  | true =>
    rw [himsi] at h
    obtain ⟨⟨s, haveKey⟩, hs, h⟩ := exists_of_bind_eq_ok h
    have hnew : Subscriber.Valid { key := List.replicate 16 0 } :=
      ⟨rfl, .inl rfl, .inl rfl, .inl rfl, .inl rfl, .inl rfl, .inl rfl,
        fun _ hn => absurd hn List.not_mem_nil, .inl rfl⟩
    have hvalid : s.Valid :=
      foldlM_ok (I := fun b => b.1.Valid) hnew (fun b b' _ _ hb => hb.subKey) hs
    cases haveKey with
    | false => cases h
    | true =>
      cases htwice : st.db.subs.contains imsi with
      | true => rw [htwice] at h; cases h
      | false =>
        rw [htwice] at h
        cases h
        exact ⟨s, rfl, rfl, hvalid⟩

theorem parseWords_ims (st : Parse) (l w : Str) (ws : List Str) :
    parseWords st l ("ims".toList :: w :: ws) = parseWords.imsWords st (w :: ws) := by
  rcases ws with _ | ⟨v, _ | ⟨v', ws⟩⟩ <;> rfl

theorem parseWords_sub (st : Parse) (l imsi kv : Str) (kvs : List Str) :
    parseWords st l ("sub".toList :: imsi :: kv :: kvs) = parseWords.subWords st imsi
      (kv :: kvs) := by
  cases kvs <;> rfl

theorem Parse.Valid.imsWords {kvs : List Str} (hst : st.Valid)
    (h : parseWords.imsWords st kvs = .ok st') : st'.Valid := by
  obtain ⟨p, i, rfl, hp, hi⟩ := imsWords_ok h
  refine { hst with ims := fun p' l' heq => ?_ }
  cases heq
  exact ⟨hp, hi.domain, hi.net⟩

theorem Parse.Valid.subWords {imsi : Str} {kvs : List Str} (hst : st.Valid)
    (h : parseWords.subWords st imsi kvs = .ok st') : st'.Valid := by
  obtain ⟨s, rfl, himsi, hs⟩ := subWords_ok h
  refine { hst with db := { hst.db with subs := fun imsi' s' h' => ?_ } }
  rw [OrderedMap.getElem?_insert'] at h'
  split_ifs at h' with heq
  · cases h'
    exact heq ▸ ⟨himsi, hs⟩
  · exact hst.db.subs imsi' s' h'

/-- A number block that is not there yet. -/
theorem Parse.Valid.addBlock {v : Str} (hst : st.Valid) (hv : validBlock v)
    (hmem : v ∉ st.db.blocks) :
    Parse.Valid { st with db := { st.db with blocks := st.db.blocks ++ [v] } } := by
  refine { hst with db := { hst.db with blocks := fun b hb => ?_, blocks_nodup := ?_ } }
  · rcases List.mem_append.mp hb with hb | hb
    · exact hst.db.blocks b hb
    · rwa [List.mem_singleton.mp hb]
  · exact hst.db.blocks_nodup.append (List.nodup_singleton v) (by simpa using hmem)

/-- A site, whether it is there or not. -/
theorem Parse.Valid.addSite {id : Str} {secret : List Byte} (hst : st.Valid) (hid : IsName id)
    (hlen : (toUtf8 id).length ≤ 32) (hsecret : secret.length = 16) :
    Parse.Valid { st with db := { st.db with sites := st.db.sites.insert id secret } } := by
  refine { hst with db := { hst.db with sites := fun id' k' h' => ?_ } }
  rw [OrderedMap.getElem?_insert'] at h'
  split_ifs at h' with heq
  · cases h'
    subst heq
    exact ⟨hid, hlen, hsecret⟩
  · exact hst.db.sites id' k' h'

/-- A line of one value behind its key. -/
theorem Parse.Valid.oneValue {l k v : Str} (hst : st.Valid) (h : parseWords st l [k, v] = .ok st') :
    st'.Valid := by
  unfold Cell.parseWords at h
  dsimp only at h
  rcases or_of_ite h with h | h
  · split_ifs at h
    cases h
    exact { hst with }
  rcases or_of_ite h with h | h
  · split_ifs at h with hv
    cases h
    refine { hst with carrier := fun c hc => ?_ }
    cases hc
    exact hv
  rcases or_of_ite h with h | h
  · obtain ⟨p, -, h⟩ := exists_of_bind_eq_ok h
    cases hp : isPool p with
    | false => rw [hp] at h; cases h
    | true =>
      rw [hp] at h
      cases h
      refine { hst with pool := fun p' hp' => ?_ }
      cases hp'
      exact hp
  iterate 2
    rcases or_of_ite h with h | h
    · obtain ⟨_, -, h⟩ := exists_of_bind_eq_ok h
      cases h
      exact { hst with db := { hst.db with } }
  rcases or_of_ite h with h | h
  · obtain ⟨n, hn, h⟩ := exists_of_bind_eq_ok h
    cases h
    have hrange := (Option.filter_eq_some_iff.mp (need_ok hn)).2
    simp only [Bool.and_eq_true, decide_eq_true_eq] at hrange
    refine { hst with db := { hst.db with mtu := ?_ } }
    show 576 ≤ n % 65536 ∧ n % 65536 ≤ 1500
    omega
  rcases or_of_ite h with h | h
  · split_ifs at h with hv
    cases h
    exact { hst with db := { hst.db with cc := hv } }
  rcases or_of_ite h with h | h
  · split_ifs at h with hv hmem
    cases h
    exact hst.addBlock (by simpa using hv) hmem
  rcases or_of_ite h with h | h
  · split_ifs at h
    obtain ⟨key, hkey, h⟩ := exists_of_bind_eq_ok h
    cases h
    refine { hst with db := { hst.db with enumKey := fun k hk => ?_ } }
    cases hk
    exact length_of_unhex (need_ok hkey)
  rcases or_of_ite h with h | h
  · exact hst.imsWords h
  · cases h

/-- **A line** leaves what was read valid. -/
theorem Parse.Valid.parseWords {l : Str} {ws : List Str} (hst : st.Valid) (hws : ∀ w ∈ ws, IsName w)
    (h : parseWords st l ws = .ok st') : st'.Valid := by
  rcases ws with _ | ⟨k, _ | ⟨id, _ | ⟨v, _ | ⟨w, ws⟩⟩⟩⟩
  · cases h
  · cases h
  · exact hst.oneValue h
  · rcases or_of_ite h with h | h
    · obtain ⟨secret, hsecret, h⟩ := exists_of_bind_eq_ok h
      rcases ite_eq_iff.mp h with ⟨-, h⟩ | ⟨hid, h⟩
      · cases h
      rcases or_of_ite h with h | h
      · cases h
      cases h
      exact hst.addSite (hws _ (by simp)) (by omega) (length_of_unhex (need_ok hsecret))
    rcases or_of_ite h with h | h
    · exact hst.subWords h
    rcases or_of_ite h with h | h
    · exact hst.imsWords h
    · cases h
  · rcases or_of_ite h with h | h
    · exact hst.imsWords h
    rcases or_of_ite h with h | h
    · exact hst.subWords h
    · cases h

/-- The beginning. -/
theorem Parse.valid_new : Parse.Valid {} where
  db :=
    { mtu := by decide
      cc := by decide
      blocks := fun _ h => absurd h List.not_mem_nil
      blocks_nodup := List.nodup_nil
      enumKey := fun _ h => (Option.some_ne_none _ h.symm).elim
      sites := fun _ _ h => by simp at h
      subs := fun _ _ h => by simp at h }
  carrier := fun _ h => (Option.some_ne_none _ h.symm).elim
  pool := fun _ h => (Option.some_ne_none _ h.symm).elim
  ims := fun _ _ h => (Option.some_ne_none _ h.symm).elim

/-- Nothing of a trimmed line is new. -/
theorem mem_of_mem_trim {c : Char} {l : Str} (h : c ∈ trim l) : c ∈ l := by
  have hmem := (List.dropWhile_sublist _).mem (List.mem_reverse.mp h)
  exact (List.dropWhile_sublist _).mem (List.mem_reverse.mp hmem)

theorem Parse.Valid.parseLine {line : ℕ × Str} (hst : st.Valid) (h : parseLine st line = .ok st') :
    st'.Valid := by
  unfold Cell.parseLine at h
  dsimp only at h
  rcases or_of_ite h with h | h
  · cases h
    exact hst
  · split at h
    · rename_i st₁ hwords
      cases h
      refine hst.parseWords (fun w hw => ⟨isWord_of_mem_words hw, fun hash => ?_⟩) hwords
      have hmem := mem_of_mem_trim (mem_of_mem_words hw hash)
      exact absurd (List.all_eq_true.mp List.all_takeWhile _ hmem) (by decide)
    · cases h

/-! ## The whole file -/

/-- The addresses of a subscriber are where they have to be. -/
def Db.InPools (db : Db) (s : Subscriber) : Prop :=
  (∀ ip i, s.ims.imsIp = some ip → db.ims = some i → inSubnet ip i.pool i.prefixLen) ∧
    ∀ ip, s.ip = some ip → inSubnet ip db.pool db.prefixLen ∧ ip ≠ db.gateway

theorem ite_throw_iff {α β : Type} {p : Prop} [Decidable p] {e : Str} {f : β → Except Str α}
    {y : Except Str α} {a : α} : (if p then throw e >>= f else y) = .ok a ↔ ¬ p ∧ y = .ok a := by
  by_cases hp : p
  · rw [if_pos hp]
    exact ⟨fun h => (by cases h), fun h => absurd hp h.1⟩
  · rw [if_neg hp]
    exact ⟨fun h => ⟨hp, h⟩, fun h => h.2⟩

theorem pure_eq_ok_iff {α : Type} {a b : α} : (pure a : Except Str α) = .ok b ↔ b = a :=
  ⟨fun h => (Except.ok.inj h).symm, fun h => congrArg Except.ok h.symm⟩

/-- What the check over a file asks of one subscriber. -/
theorem checkSub_ok_iff {numbers ns : List Str} {x : Str × Subscriber} :
    checkSub db numbers x = .ok ns ↔
      ((x.2.ims.msisdn ≠ [] → x.2.ims.msisdn ∉ numbers) ∧ db.InPools x.2) ∧
        ns = if x.2.ims.msisdn = [] then numbers else x.2.ims.msisdn :: numbers := by
  obtain ⟨imsi, s⟩ := x
  unfold checkSub Db.InPools
  dsimp only
  rw [ite_throw_iff, not_and]
  cases himsIp : s.ims.imsIp <;> cases hims : db.ims <;> cases hip : s.ip <;> dsimp only <;>
    simp only [ite_throw_iff, pure_eq_ok_iff] <;> simp [and_assoc]

/-- The numbers given to subscribers. -/
def numbersOf (l : List (Str × Subscriber)) : List Str :=
  (l.filter fun x => x.2.ims.msisdn ≠ []).map (·.2.ims.msisdn)

theorem numbersOf_cons (x : Str × Subscriber) (l : List (Str × Subscriber)) :
    numbersOf (x :: l) = if x.2.ims.msisdn = [] then numbersOf l
      else x.2.ims.msisdn :: numbersOf l := by
  unfold numbersOf
  rw [List.filter_cons]
  split_ifs with h h' h'
  · exact absurd h' (by simpa using h)
  · rfl
  · rfl
  · exact absurd h' (by simpa using h)

/-- **The check over a file**: the addresses are in their pools, and no number is given
twice. -/
theorem checkSubs_ok_iff {l : List (Str × Subscriber)} {numbers : List Str} :
    (∃ ns, l.foldlM (checkSub db) numbers = .ok ns) ↔
      (∀ x ∈ l, db.InPools x.2) ∧ (numbersOf l).Nodup ∧ ∀ n ∈ numbersOf l, n ∉ numbers := by
  induction l generalizing numbers with
  | nil =>
    exact ⟨fun _ =>
      ⟨fun _ h => absurd h List.not_mem_nil, List.nodup_nil, fun _ h => absurd h List.not_mem_nil⟩,
      fun _ => ⟨numbers, rfl⟩⟩
  | cons x l ih =>
    have hsplit : (∃ ns, (x :: l).foldlM (checkSub db) numbers = .ok ns) ↔
        ∃ ns, checkSub db numbers x = .ok ns ∧ ∃ ns', l.foldlM (checkSub db) ns = .ok ns' := by
      rw [List.foldlM_cons]
      constructor
      · rintro ⟨ns, h⟩
        obtain ⟨ns₁, h₁, h⟩ := exists_of_bind_eq_ok h
        exact ⟨ns₁, h₁, ns, h⟩
      · rintro ⟨ns, h, ns', h'⟩
        exact ⟨ns', by rw [h]; exact h'⟩
    rw [hsplit, numbersOf_cons]
    constructor
    · rintro ⟨ns, h, h'⟩
      obtain ⟨⟨hnew, hpools⟩, rfl⟩ := checkSub_ok_iff.mp h
      obtain ⟨hall, hnodup, hdisj⟩ := ih.mp h'
      refine ⟨fun y hy => ?_, ?_⟩
      · rcases List.mem_cons.mp hy with rfl | hy
        · exact hpools
        · exact hall y hy
      · split_ifs with hnil
        · rw [if_pos hnil] at hdisj
          exact ⟨hnodup, hdisj⟩
        · rw [if_neg hnil] at hdisj
          refine ⟨List.nodup_cons.mpr ⟨fun hmem => hdisj _ hmem List.mem_cons_self, hnodup⟩,
            fun n hn => ?_⟩
          rcases List.mem_cons.mp hn with rfl | hn
          · exact hnew hnil
          · exact fun hmem => hdisj n hn (List.mem_cons_of_mem _ hmem)
    · rintro ⟨hall, hnodup, hdisj⟩
      refine ⟨_, checkSub_ok_iff.mpr ⟨⟨fun hne => ?_, hall x List.mem_cons_self⟩, rfl⟩,
        ih.mpr ⟨?_, ?_⟩⟩
      · rw [if_neg hne] at hdisj
        exact hdisj _ List.mem_cons_self
      · exact fun y hy => hall y (List.mem_cons_of_mem _ hy)
      · split_ifs with hnil
        · rw [if_pos hnil] at hnodup hdisj
          exact ⟨hnodup, hdisj⟩
        · rw [if_neg hnil] at hnodup hdisj
          refine ⟨(List.nodup_cons.mp hnodup).2, fun n hn hmem => ?_⟩
          rcases List.mem_cons.mp hmem with rfl | hmem
          · exact (List.nodup_cons.mp hnodup).1 hn
          · exact hdisj n (List.mem_cons_of_mem _ hn) hmem

/-- Numbers that no two entries of a table share. -/
theorem nodup_numbersOf_iff {subs : OrderedMap Str Subscriber} :
    (numbersOf subs.toList).Nodup ↔ ∀ (a b : Str) s t, subs[a]? = some s → subs[b]? = some t →
      s.ims.msisdn ≠ [] → s.ims.msisdn = t.ims.msisdn → a = b := by
  have hmem {a : Str} {s : Subscriber} :
    (a, s) ∈ subs.toList.filter (fun x => x.2.ims.msisdn ≠ []) ↔
      subs[a]? = some s ∧ s.ims.msisdn ≠ [] := by
    rw [List.mem_filter, decide_eq_true_eq, Std.ExtTreeMap.mem_toList_iff_getElem?_eq_some]
  rw [numbersOf, List.nodup_map_iff_inj_on (OrderedMap.nodup_toList.filter _)]
  constructor
  · intro h a b s t ha hb hne heq
    exact congrArg Prod.fst (h _ (hmem.mpr ⟨ha, hne⟩) _ (hmem.mpr ⟨hb, heq ▸ hne⟩) heq)
  · rintro h ⟨a, s⟩ ha ⟨b, t⟩ hb heq
    obtain ⟨hs, hne⟩ := hmem.mp ha
    obtain ⟨ht, -⟩ := hmem.mp hb
    obtain rfl := h a b s t hs ht hne heq
    rw [hs] at ht
    rw [Option.some.inj ht]

/-- The IMS bearer of an `ims` line, with what it leaves to be filled in. -/
def imsOfLine (carrier : Str) (gateway : Ipv4Addr) (x : (Ipv4Addr × UInt8) × ImsLine) : ImsConf :=
  let pcscf := x.2.pcscf.getD gateway
  let net := x.2.net.getD (pcscf, 32)
  { pool := x.1.1, prefixLen := x.1.2, pcscf, domain := x.2.domain.getD (defaultDomain carrier),
    net := net.1, netPrefix := net.2, mmsc := x.2.mmsc }

/-- The database of what was read. -/
def Parse.made (st : Parse) (carrier : Str) (pool : Ipv4Addr × UInt8) (gateway : Ipv4Addr) : Db :=
  { st.db with
    carrier, pool := pool.1, prefixLen := pool.2, gateway, ims :=
      st.ims.map (imsOfLine carrier gateway) }

theorem finish_ok_iff :
    st.finish = .ok db ↔ st.versionSeen = true ∧ ∃ carrier pool gateway, st.carrier = some carrier ∧
      st.pool = some pool ∧ st.gateway = some gateway ∧ inSubnet gateway pool.1 pool.2 = true ∧
      db = st.made carrier pool gateway ∧ ∃ ns, db.subs.toList.foldlM (checkSub db)
        [] = .ok ns := by
  constructor
  · intro h
    unfold Parse.finish at h
    dsimp only at h
    obtain ⟨hversion, h⟩ := ite_throw_iff.mp h
    obtain ⟨carrier, hcarrier, h⟩ := exists_of_bind_eq_ok h
    obtain ⟨pool, hpool, h⟩ := exists_of_bind_eq_ok h
    obtain ⟨gateway, hgateway, h⟩ := exists_of_bind_eq_ok h
    obtain ⟨hinside, h⟩ := ite_throw_iff.mp h
    obtain ⟨ns, hns, h⟩ := exists_of_bind_eq_ok h
    cases h
    exact ⟨by simpa using hversion, carrier, pool, gateway, need_ok hcarrier, need_ok hpool,
      need_ok hgateway,
      by simpa using hinside, rfl, ns, hns⟩
  · rintro ⟨hversion, carrier, pool, gateway, hcarrier, hpool, hgateway, hinside, rfl, ns, hns⟩
    unfold Parse.finish
    dsimp only
    refine ite_throw_iff.mpr ⟨by rw [hversion]; decide, ?_⟩
    rw [hcarrier, hpool, hgateway]
    refine ite_throw_iff.mpr ⟨by rw [hinside]; decide, ?_⟩
    change ((st.made carrier pool gateway).subs.toList.foldlM
      (checkSub (st.made carrier pool gateway)) [] >>=
      fun _ => pure (st.made carrier pool gateway)) = _
    rw [hns]
    rfl

/-- **What was read, and passed the checks over the whole of it, is valid.** -/
theorem valid_of_finish (hst : st.Valid) (h : st.finish = .ok db) : db.Valid := by
  obtain ⟨-, carrier, pool, gateway, hcarrier, hpool, -, hinside, hdb, hchecks⟩ :=
    finish_ok_iff.mp h
  obtain ⟨hpools, hnumbers, -⟩ := checkSubs_ok_iff.mp hchecks
  have hsub : ∀ (imsi : Str) s, db.subs[imsi]? = some s → db.InPools s := fun imsi s hs =>
    hpools (imsi, s) (Std.ExtTreeMap.mem_toList_iff_getElem?_eq_some.mpr hs)
  have hwf : db.WellFormed := by
    rw [hdb]
    exact { hst.db with }
  exact
    { hwf with
      carrier := by rw [hdb]; exact hst.carrier carrier hcarrier
      pool := by rw [hdb]; exact hst.pool pool hpool
      gateway := by rw [hdb]; exact hinside
      ims := by
        rw [hdb]
        intro i hi
        obtain ⟨⟨p, l⟩, hl, rfl⟩ := Option.map_eq_some_iff.mp hi
        obtain ⟨hp, hdomain, hnet⟩ := hst.ims p l hl
        refine ⟨hp, ?_, ?_⟩
        · show (l.net.getD (l.pcscf.getD gateway, 32)).2.toNat ≤ 32
          cases hn : l.net with
          | none => exact Nat.le_refl 32
          | some n => exact hnet n hn
        · show l.domain.getD (defaultDomain carrier) = defaultDomain carrier ∨
            IsDomain (l.domain.getD (defaultDomain carrier))
          cases hd : l.domain with
          | none => exact .inl rfl
          | some d => exact .inr (hdomain d hd)
      ip := fun imsi s ip hs hip => (hsub imsi s hs).2 ip hip
      imsIp := fun imsi s ip i hs hip hi => (hsub imsi s hs).1 ip i hip hi
      numbers := nodup_numbersOf_iff.mp hnumbers }

theorem valid_of_lines {ls : List (Str × ℕ)} (hst : st.Valid)
    (h : ls.foldlM (fun st l => parseLine st (l.2, l.1)) st = .ok st') : st'.Valid :=
  foldlM_ok hst (fun _ _ _ _ hb => hb.parseLine) h

/-- **A parsed database is valid.** -/
theorem Db.valid_of_parse {text : Str} (h : Db.parse text = .ok db) : db.Valid := by
  unfold Db.parse at h
  dsimp only at h
  split at h
  · cases h
  · rename_i st hlines
    split at h
    · rename_i db' hfinish
      cases h
      exact valid_of_finish (valid_of_lines Parse.valid_new hlines) hfinish
    · cases h

end EvansComputer.Cell
