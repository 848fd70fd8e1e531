import EvansComputer.Bgp.Wire
import EvansComputer.Net.Masks
import Mathlib.Data.List.Nodup

/-!
# Messages survive the wire

A message that satisfies the decoder's rules is what its encoding decodes to,
for peers with two-byte and with four-byte AS numbers; what decodes satisfies
the rules.

The two directions share the loops.  Going out, each written item is read back
by one turn of its loop, and `readAll_flatMap` puts the turns together.  Coming
in, each turn keeps what the rules say about the part read so far.
-/

namespace EvansComputer.Bgp

variable {n : ℕ} {p : List UInt32} {data rest v : List Byte} {kind flags : Byte} {as4 : Bool}
  {s s' : UpdateState} {sets : List (ℕ × ℕ)} {a : Attributes} {m : Message}

/-! ## Prefixes -/

/-- At most 32 bits, and none set behind them. -/
structure Prefix.Normal (p : Prefix) : Prop where
  len_le : p.len.toNat ≤ 32
  masked : p.address.networkAddr p.len = p.address

theorem min_len {len : UInt8} (h : len.toNat ≤ 32) : min len 32 = len :=
  if_pos (UInt8.le_iff_toNat_le.mpr h)

theorem Prefix.new_normal {len : UInt8} (ip : Ipv4Addr) (h : len.toNat ≤ 32) :
    (Prefix.new ip len).Normal := by
  unfold Prefix.new
  rw [min_len h]
  refine ⟨h, Ipv4Addr.word_injective ?_⟩
  rw [Ipv4Addr.word_networkAddr _ h, Ipv4Addr.word_networkAddr _ h]
  exact Ipv4Addr.div_mul_div_mul le_rfl

/-- The bytes of an address beyond the first `n` read as zero. -/
theorem word_fromBytes_take (ip : Ipv4Addr) (hn : n ≤ 4) :
    (Ipv4Addr.fromBytes (ip.bytes.take n)).word =
      ip.word / 2 ^ (8 * (4 - n)) * 2 ^ (8 * (4 - n)) := by
  have ha := ip.a.toNat_lt; have hb := ip.b.toNat_lt
  have hc := ip.c.toNat_lt; have hd := ip.d.toNat_lt
  have hz : (0 : UInt8).toNat = 0 := rfl
  rw [Ipv4Addr.word_eq, Ipv4Addr.word_eq]
  interval_cases n
  all_goals simp only [Ipv4Addr.bytes, Ipv4Addr.fromBytes, List.take_succ_cons, List.take_zero,
    List.getD_cons_zero, List.getD_cons_succ, List.getD_nil, hz]
  all_goals omega

/-- A prefix is the one its wire bytes stand for. -/
theorem Prefix.Normal.new_take {p : Prefix} (h : p.Normal) :
    Prefix.new (Ipv4Addr.fromBytes (p.address.bytes.take ((p.len.toNat + 7) / 8))) p.len = p := by
  have hlen := h.len_le
  have haddr : (Ipv4Addr.fromBytes (p.address.bytes.take ((p.len.toNat + 7) / 8))).networkAddr
      p.len = p.address := by
    apply Ipv4Addr.word_injective
    rw [Ipv4Addr.word_networkAddr _ hlen, word_fromBytes_take _ (by omega),
      Ipv4Addr.div_mul_div_mul (by omega), ← Ipv4Addr.word_networkAddr _ hlen, h.masked]
  unfold Prefix.new
  rw [min_len hlen, haddr]

theorem length_putPrefix {p : Prefix} (h : p.Normal) :
    (p.address.bytes.take ((p.len.toNat + 7) / 8)).length = (p.len.toNat + 7) / 8 := by
  have hlen := h.len_le
  have hbytes : p.address.bytes.length = 4 := rfl
  rw [List.length_take]
  omega

theorem prefixItem_putPrefix (ps : List Prefix) {p : Prefix} (h : p.Normal) (rest : List Byte) :
    prefixItem ps (putPrefix p ++ rest) = .ok (ps ++ [p], rest) := by
  have hle : ¬ 32 < p.len := UInt8.not_lt.mpr (UInt8.le_iff_toNat_le.mpr h.len_le)
  have hsplit := splitOff_append (p.address.bytes.take ((p.len.toNat + 7) / 8)) rest
  rw [length_putPrefix h] at hsplit
  simp only [putPrefix, List.cons_append, prefixItem, if_neg hle, hsplit, h.new_take]

/-- What a turn of the prefix loop does. -/
theorem prefixItem_eq_ok {ps ps' : List Prefix} (h : prefixItem ps data = .ok (ps', rest)) :
    rest.length < data.length ∧ ∃ p : Prefix, p.Normal ∧ ps' = ps ++ [p] := by
  cases data with
  | nil => cases h
  | cons bits data =>
    rw [prefixItem] at h
    split_ifs at h with hbits
    split at h
    · cases h
    rename_i bytes rest' hsplit
    obtain ⟨rfl, rfl⟩ := Prod.mk.inj (Except.ok.inj h)
    obtain ⟨rfl, -⟩ := splitOff_eq_some hsplit
    refine ⟨?_, _, Prefix.new_normal _ ?_, rfl⟩
    · simp only [List.length_cons, List.length_append]
      omega
    · exact UInt8.le_iff_toNat_le.mp (UInt8.not_lt.mp hbits)

theorem consumes_prefixItem : Consumes prefixItem :=
  fun _ _ _ _ h => (prefixItem_eq_ok h).1

theorem prefixes_putPrefixes {ps : List Prefix} (h : ∀ p ∈ ps, p.Normal) :
    prefixes (putPrefixes ps) = .ok ps := by
  have hread := readAll_flatMap consumes_prefixItem putPrefix (fun acc p => acc ++ [p]) ps []
    (fun acc p hp rest => prefixItem_putPrefix acc (h p hp) rest) []
  rw [List.append_nil] at hread
  rw [prefixes, putPrefixes, hread, readAll_nil]
  simp only [List.foldl_append_eq_append, List.nil_append, ← List.flatMap_def,
    List.flatMap_singleton']

theorem normal_of_prefixes {ps : List Prefix} (h : prefixes data = .ok ps) :
    ∀ p ∈ ps, p.Normal := by
  refine readAll_invariant (P := fun ps => ∀ p ∈ ps, Prefix.Normal p) ?_ ?_ h
  · intro ps l ps' rest hps hitem
    obtain ⟨-, p, hp, rfl⟩ := prefixItem_eq_ok hitem
    intro q hq
    rcases List.mem_append.mp hq with hq | hq
    · exact hps q hq
    · rwa [List.mem_singleton.mp hq]
  · intro p hp
    cases hp

/-! ## AS paths -/

/-- The sets of a path are in order, apart, inside the path, and of a size that
fits a segment. -/
structure ValidSets (n : ℕ) (sets : List (ℕ × ℕ)) : Prop where
  sorted : sets.Pairwise fun s t => s.1 + s.2 ≤ t.1
  bounds : ∀ s ∈ sets, 1 ≤ s.2 ∧ s.2 ≤ 255 ∧ s.1 + s.2 ≤ n

/-- An AS number as the peer reads it. -/
def wireAsn (as4 : Bool) (asn : UInt32) : UInt32 := if as4 then asn else (asTrans asn).toUInt32

theorem readAsns_putAsn (as4 : Bool) (asns : List UInt32) (rest : List Byte) :
    readAsns as4 asns.length (asns.flatMap (putAsn as4) ++ rest) =
      some (asns.map (wireAsn as4), rest) := by
  induction asns with
  | nil => rfl
  | cons asn asns ih =>
    cases as4
    · simp only [List.flatMap_cons, List.length_cons, List.map_cons, putAsn, u16ToBe,
        Bool.false_eq_true, if_false, List.cons_append, List.nil_append, readAsns,
        u16FromBe_u16ToBe, wireAsn] at ih ⊢
      rw [ih]
      rfl
    · simp only [List.flatMap_cons, List.length_cons, List.map_cons, putAsn, u32ToBe,
        if_true, List.cons_append, List.nil_append, readAsns, u32FromBe_u32ToBe, wireAsn] at ih ⊢
      rw [ih]
      rfl

/-- A segment as `put_path` writes it. -/
def putSegment (as4 : Bool) (kind : Byte) (chunk : List UInt32) : List Byte :=
  kind :: UInt8.ofNat chunk.length :: chunk.flatMap (putAsn as4)

theorem pathItem_putSegment (as4 : Bool) (p : Path) {chunk : List UInt32}
    (hkind : kind = 1 ∨ kind = 2) (hpos : 1 ≤ chunk.length) (hlen : chunk.length ≤ 255)
    (rest : List Byte) :
    pathItem as4 p (putSegment as4 kind chunk ++ rest) =
      .ok ((p.1 ++ chunk.map (wireAsn as4),
        if kind = 1 then p.2 ++ [(p.1.length, chunk.length)] else p.2), rest) := by
  have hcount : (UInt8.ofNat chunk.length).toNat = chunk.length := by
    rw [UInt8.toNat_ofNat']
    omega
  have hne : UInt8.ofNat chunk.length ≠ 0 := by
    intro h
    rw [h] at hcount
    have : (0 : UInt8).toNat = 0 := rfl
    omega
  have hok : ¬ ((kind ≠ 1 ∧ kind ≠ 2) ∨ UInt8.ofNat chunk.length = 0) := by
    rintro (⟨h1, h2⟩ | h)
    · exact hkind.elim h1 h2
    · exact hne h
  simp only [putSegment, List.cons_append, pathItem, if_neg hok, hcount, readAsns_putAsn]

theorem readAsns_eq_some {count : ℕ} {asns : List UInt32}
    (h : readAsns as4 count data = some (asns, rest)) :
    asns.length = count ∧ rest.length ≤ data.length := by
  induction count generalizing data asns with
  | zero =>
    obtain ⟨rfl, rfl⟩ := Prod.mk.inj (Option.some.inj h)
    exact ⟨rfl, le_rfl⟩
  | succ count ih =>
    unfold readAsns at h
    split at h
    · obtain ⟨r, hr, heq⟩ := Option.map_eq_some_iff.mp h
      obtain ⟨rfl, rfl⟩ := Prod.mk.inj heq
      obtain ⟨hlen, hrest⟩ := ih hr
      simp only [List.length_cons]
      omega
    · obtain ⟨r, hr, heq⟩ := Option.map_eq_some_iff.mp h
      obtain ⟨rfl, rfl⟩ := Prod.mk.inj heq
      obtain ⟨hlen, hrest⟩ := ih hr
      simp only [List.length_cons]
      omega
    · cases h

/-- What a turn of the path loop does. -/
theorem pathItem_eq_ok {p p' : Path} (h : pathItem as4 p data = .ok (p', rest)) :
    rest.length < data.length ∧ ∃ (asns : List UInt32) (sets : List (ℕ × ℕ)),
      p' = (p.1 ++ asns, p.2 ++ sets) ∧ 1 ≤ asns.length ∧ asns.length ≤ 255 ∧
        (sets = [] ∨ sets = [(p.1.length, asns.length)]) := by
  unfold pathItem at h
  split at h
  case h_2 => cases h
  case h_1 kind count tail =>
    by_cases hbad : (kind ≠ 1 ∧ kind ≠ 2) ∨ count = 0
    · rw [if_pos hbad] at h
      cases h
    rw [if_neg hbad] at h
    dsimp only at h
    split at h
    · cases h
    rename_i asns tail' hread
    obtain ⟨rfl, rfl⟩ := Prod.mk.inj (Except.ok.inj h)
    obtain ⟨hlen, hle⟩ := readAsns_eq_some hread
    have hcount : count.toNat ≠ 0 := by
      intro hzero
      exact hbad (Or.inr (UInt8.toNat_inj.mp hzero))
    have hlt := count.toNat_lt
    refine ⟨by simp only [List.length_cons]; omega, asns, ?_⟩
    by_cases hkind : kind = 1
    · refine ⟨[(p.1.length, asns.length)], ?_, by omega, by omega, Or.inr rfl⟩
      rw [if_pos hkind, hlen]
    · refine ⟨[], ?_, by omega, by omega, Or.inl rfl⟩
      rw [if_neg hkind, List.append_nil]

theorem consumes_pathItem (as4 : Bool) : Consumes (pathItem as4) :=
  fun _ _ _ _ h => (pathItem_eq_ok h).1

/-- The sets, cut at `start` into those read and those to read. -/
structure Between (sets : List (ℕ × ℕ)) (start : ℕ) (done todo : List (ℕ × ℕ)) : Prop where
  split : sets = done ++ todo
  before : ∀ s ∈ done, s.1 < start
  after : ∀ s ∈ todo, start ≤ s.1

namespace Between

variable {n start : ℕ} {sets done todo : List (ℕ × ℕ)}

theorem bounds (hb : Between sets start done todo) (hv : ValidSets n sets) {s : ℕ × ℕ}
    (hs : s ∈ todo) : 1 ≤ s.2 ∧ s.2 ≤ 255 ∧ s.1 + s.2 ≤ n := by
  apply hv.bounds s
  rw [hb.split]
  exact List.mem_append_right _ hs

theorem sorted (hb : Between sets start done todo) (hv : ValidSets n sets) :
    todo.Pairwise fun s t => s.1 + s.2 ≤ t.1 := by
  have h := hv.sorted
  rw [hb.split] at h
  exact (List.pairwise_append.mp h).2.1

/-- At the end of the path every set has been read. -/
theorem done_eq (hb : Between sets n done todo) (hv : ValidSets n sets) : done = sets := by
  cases todo with
  | nil => rw [hb.split, List.append_nil]
  | cons s todo =>
    have h₁ := hb.bounds hv List.mem_cons_self
    have h₂ := hb.after s List.mem_cons_self
    omega

theorem find (hb : Between sets start done todo) :
    sets.find? (fun s => s.1 == start) = todo.find? (fun s => s.1 == start) := by
  have hnone : done.find? (fun s => s.1 == start) = none := by
    rw [List.find?_eq_none]
    intro s hs heq
    have := hb.before s hs
    rw [beq_iff_eq] at heq
    omega
  rw [hb.split, List.find?_append, hnone, Option.none_or]

/-- A set begins at `start`: the segment is that set. -/
theorem segmentEnd_set {k : ℕ} (hb : Between sets start done ((start, k) :: todo))
    (hv : ValidSets n sets) :
    sets.find? (fun s => s.1 == start) = some (start, k) ∧ segmentEnd n sets start = start + k ∧
      Between sets (start + k) (done ++ [(start, k)]) todo := by
  have hfind : sets.find? (fun s => s.1 == start) = some (start, k) := by
    rw [hb.find, List.find?_cons_of_pos (by simp)]
  refine ⟨hfind, by rw [segmentEnd, hfind], ?_, ?_, ?_⟩
  · rw [hb.split, List.append_assoc, List.singleton_append]
  · intro s hs
    have hk := hb.bounds hv List.mem_cons_self
    rcases List.mem_append.mp hs with hs | hs
    · have := hb.before s hs
      omega
    · rw [List.mem_singleton.mp hs]
      omega
  · intro s hs
    exact List.rel_of_pairwise_cons (hb.sorted hv) hs

/-- No set begins at `start`: the segment is a sequence that ends before the
next set, after 255 at most, or with the path. -/
theorem segmentEnd_sequence (hb : Between sets start done todo) (hv : ValidSets n sets)
    (hlt : start < n) (hne : ∀ s ∈ todo, s.1 ≠ start) :
    sets.find? (fun s => s.1 == start) = none ∧
      start < segmentEnd n sets start ∧ segmentEnd n sets start ≤ n ∧
      segmentEnd n sets start ≤ start + 255 ∧
      Between sets (segmentEnd n sets start) done todo := by
  have hfind : sets.find? (fun s => s.1 == start) = none := by
    rw [hb.find, List.find?_eq_none]
    intro s hs heq
    exact hne s hs (beq_iff_eq.mp heq)
  have hfilter : sets.filter (fun s => start < s.1) = todo := by
    rw [hb.split, List.filter_append, List.filter_eq_nil_iff.mpr, List.nil_append,
      List.filter_eq_self.mpr]
    · intro s hs
      have h₁ := hb.after s hs
      have h₂ := hne s hs
      exact decide_eq_true (by omega)
    · intro s hs hlt
      have h₁ := hb.before s hs
      have h₂ := of_decide_eq_true hlt
      omega
  have hstop : segmentEnd n sets start = min (((todo.map Prod.fst).min?).getD n) (start + 255) := by
    rw [segmentEnd, hfind]
    dsimp only
    rw [hfilter]
  have hmin : start < ((todo.map Prod.fst).min?).getD n ∧ ((todo.map Prod.fst).min?).getD n ≤ n ∧
      ∀ s ∈ todo, ((todo.map Prod.fst).min?).getD n ≤ s.1 := by
    cases hm : (todo.map Prod.fst).min? with
    | none =>
      rw [List.min?_eq_none_iff, List.map_eq_nil_iff] at hm
      subst hm
      exact ⟨hlt, le_rfl, fun s hs => absurd hs List.not_mem_nil⟩
    | some o =>
      obtain ⟨hmem, hle⟩ := List.min?_eq_some_iff.mp hm
      obtain ⟨t, ht, rfl⟩ := List.mem_map.mp hmem
      have h₁ := hb.after t ht
      have h₂ := hne t ht
      have h₃ := hb.bounds hv ht
      refine ⟨by simp only [Option.getD_some]; omega, by simp only [Option.getD_some]; omega, ?_⟩
      intro s hs
      exact hle s.1 (List.mem_map_of_mem hs)
  refine ⟨hfind, by omega, by omega, by omega, hb.split, ?_, ?_⟩
  · intro s hs
    have := hb.before s hs
    omega
  · intro s hs
    have := hmin.2.2 s hs
    omega

end Between

/-- One segment of a path, from `start` to `stop`. -/
theorem readAll_putSegment (as4 : Bool) {start stop : ℕ} (done : List (ℕ × ℕ)) (next : List Byte)
    (hkind : kind = 1 ∨ kind = 2) (hlo : start < stop) (hhi : stop ≤ p.length)
    (h255 : stop ≤ start + 255) :
    readAll (pathItem as4) ((p.take start).map (wireAsn as4), done)
      (putSegment as4 kind ((p.take stop).drop start) ++ next) =
    readAll (pathItem as4) ((p.take stop).map (wireAsn as4),
      if kind = 1 then done ++ [(start, stop - start)] else done) next := by
  have hchunk : ((p.take stop).drop start).length = stop - start := by
    rw [List.length_drop, List.length_take]
    omega
  have hstart : ((p.take start).map (wireAsn as4)).length = start := by
    rw [List.length_map, List.length_take]
    omega
  have hjoin : p.take start ++ (p.take stop).drop start = p.take stop := by
    have h := List.take_append_drop start (p.take stop)
    rwa [List.take_take, min_eq_left hlo.le] at h
  have hpos : 1 ≤ ((p.take stop).drop start).length := by omega
  have hmax : ((p.take stop).drop start).length ≤ 255 := by omega
  rw [readAll_step (consumes_pathItem as4) (pathItem_putSegment as4 _ hkind hpos hmax next)]
  dsimp only
  rw [← List.map_append, hjoin, hstart, hchunk]

/-- What is left to read from `start` on. -/
theorem putPathLoop_read (as4 : Bool) (hv : ValidSets p.length sets) {fuel start : ℕ}
    {done todo : List (ℕ × ℕ)} (hb : Between sets start done todo) (hle : start ≤ p.length)
    (hfuel : p.length - start ≤ fuel) :
    readAll (pathItem as4) ((p.take start).map (wireAsn as4), done)
      (putPathLoop p sets as4 fuel start) = .ok (p.map (wireAsn as4), sets) := by
  induction fuel generalizing start done todo with
  | zero =>
    obtain rfl : start = p.length := by omega
    rw [putPathLoop, readAll_nil, List.take_length, hb.done_eq hv]
  | succ fuel ih =>
    rw [putPathLoop]
    by_cases hlt : start < p.length
    swap
    · obtain rfl : start = p.length := by omega
      rw [if_neg hlt, readAll_nil, List.take_length, hb.done_eq hv]
    rw [if_pos hlt]
    dsimp only
    by_cases hset : ∃ k todo', todo = (start, k) :: todo'
    · obtain ⟨k, todo', rfl⟩ := hset
      obtain ⟨hfind, hstop, hb'⟩ := hb.segmentEnd_set hv
      have hk := hb.bounds hv List.mem_cons_self
      have hread := readAll_putSegment as4 (p := p) done (putPathLoop p sets as4 fuel (start + k))
        (Or.inl rfl) (by omega : start < start + k) (by omega) (by omega)
      rw [hfind, hstop, Option.isSome_some, if_pos rfl]
      rw [Nat.add_sub_cancel_left, if_pos rfl] at hread
      rw [← ih hb' (by omega) (by omega), ← hread]
      rfl
    · have hne : ∀ s ∈ todo, s.1 ≠ start := by
        rintro s hs rfl
        cases todo with
        | nil => cases hs
        | cons t todo =>
          rcases List.mem_cons.mp hs with rfl | hs
          · exact hset ⟨s.2, todo, rfl⟩
          · have h₁ := List.rel_of_pairwise_cons (hb.sorted hv) hs
            have h₂ := hb.bounds hv List.mem_cons_self
            have h₃ := hb.after t List.mem_cons_self
            omega
      obtain ⟨hfind, hlo, hhi, h255, hb'⟩ := hb.segmentEnd_sequence hv hlt hne
      have hread := readAll_putSegment as4 done
        (putPathLoop p sets as4 fuel (segmentEnd p.length sets start)) (Or.inr rfl) hlo hhi h255
      rw [hfind, Option.isSome_none, if_neg Bool.false_ne_true]
      rw [if_neg (by decide)] at hread
      rw [← ih hb' hhi (by omega), ← hread]
      rfl

/-- **A path is read back as it was written**, up to the width of its AS
numbers. -/
theorem path_putPath (as4 : Bool) (hv : ValidSets p.length sets) :
    path (putPath p sets as4) as4 = .ok (p.map (wireAsn as4), sets) := by
  have hb : Between sets 0 [] sets := ⟨rfl, by simp, by simp⟩
  exact putPathLoop_read as4 hv hb (Nat.zero_le _) (Nat.sub_le _ _)

theorem validSets_of_path {value : List Byte} {p : Path} (h : path value as4 = .ok p) :
    ValidSets p.1.length p.2 := by
  refine readAll_invariant (P := fun p : Path => ValidSets p.1.length p.2) ?_ ?_ h
  · intro p l p' rest hp hitem
    obtain ⟨-, asns, sets, rfl, hpos, hmax, hsets⟩ := pathItem_eq_ok hitem
    dsimp only
    rw [List.length_append]
    rcases hsets with rfl | rfl
    · rw [List.append_nil]
      exact ⟨hp.sorted, fun s hs => by have := hp.bounds s hs; omega⟩
    · refine ⟨?_, ?_⟩
      · rw [List.pairwise_append]
        refine ⟨hp.sorted, List.pairwise_singleton _ _, ?_⟩
        intro s hs t ht
        rw [List.mem_singleton.mp ht]
        exact (hp.bounds s hs).2.2
      · intro s hs
        rcases List.mem_append.mp hs with hs | hs
        · have := hp.bounds s hs
          omega
        · rw [List.mem_singleton.mp hs]
          exact ⟨hpos, hmax, le_rfl⟩
  · exact ⟨List.Pairwise.nil, fun s hs => absurd hs List.not_mem_nil⟩

/-! ## Attributes -/

/-- The kinds of attributes that the decoder reads. -/
def knownKinds : List Byte := [1, 2, 3, 4, 5, 8, 14, 15, 17]

theorem length_attr (flags kind : Byte) (v : List Byte) :
    v.length ≤ (attr flags kind v).length := by
  unfold attr
  split_ifs <;> simp only [List.length_append] <;> omega

/-- The flags that an attribute has on the wire. -/
def wireFlags (flags : Byte) (v : List Byte) : Byte :=
  if 255 < v.length then flags ||| 16 else flags

/-- A length survives its two bytes. -/
theorem toNat_u16FromBe (h : n ≤ 65535) :
    (u16FromBe (UInt8.ofNat ((UInt16.ofNat n).toNat / 256))
      (UInt8.ofNat (UInt16.ofNat n).toNat)).toNat = n := by
  rw [u16FromBe_u16ToBe, UInt16.toNat_ofNat']
  omega

theorem readHeader_attr (hv : v.length ≤ 65535) (h₁ : flags &&& 16 = 0)
    (h₂ : (flags ||| 16) &&& 16 ≠ 0) (rest : List Byte) :
    readHeader (attr flags kind v ++ rest) = some (wireFlags flags v, kind, v, rest) := by
  unfold attr wireFlags
  by_cases hlong : 255 < v.length
  · simp only [if_pos hlong, u16ToBe, List.cons_append, List.nil_append, readHeader, h₂, ne_eq,
      not_false_eq_true, if_true, toNat_u16FromBe hv, splitOff_append, Option.map_some]
  · have hlen : (UInt8.ofNat v.length).toNat = v.length := by
      rw [UInt8.toNat_ofNat']
      omega
    simp only [if_neg hlong, List.cons_append, List.nil_append, readHeader, h₁, ne_eq,
      not_true_eq_false, if_false, hlen, splitOff_append, Option.map_some]

/-- An attribute whose flags fit its kind, in both widths of its length. -/
structure FlagsFit (flags kind : Byte) : Prop where
  short : flags &&& 16 = 0
  long : (flags ||| 16) &&& 16 ≠ 0
  good : badFlags flags kind = false
  goodLong : badFlags (flags ||| 16) kind = false

instance (flags kind : Byte) : Decidable (FlagsFit flags kind) :=
  decidable_of_iff (flags &&& 16 = 0 ∧ (flags ||| 16) &&& 16 ≠ 0 ∧ badFlags flags kind = false ∧
      badFlags (flags ||| 16) kind = false)
    ⟨fun h => ⟨h.1, h.2.1, h.2.2.1, h.2.2.2⟩, fun h => ⟨h.short, h.long, h.good, h.goodLong⟩⟩

/-- **A turn of the loop over attributes reads back one of them.** -/
theorem attributeItem_attr (hf : FlagsFit flags kind) (hv : v.length ≤ 65535)
    (hseen : kind ∉ s.seen)
    (hval : readValue as4 { s with seen := kind :: s.seen } (wireFlags flags v) kind v = .ok s')
    (rest : List Byte) : attributeItem as4 s (attr flags kind v ++ rest) = .ok (s', rest) := by
  have hgood : badFlags (wireFlags flags v) kind = false := by
    unfold wireFlags
    split_ifs
    · exact hf.goodLong
    · exact hf.good
  unfold attributeItem
  rw [readHeader_attr hv hf.short hf.long]
  simp only [if_neg hseen, hgood, Bool.false_eq_true, if_false, hval]

theorem readHeader_eq_some (h : readHeader data = some (flags, kind, v, rest)) :
    rest.length < data.length := by
  unfold readHeader at h
  split at h
  case h_2 => cases h
  case h_1 =>
    split_ifs at h
    · split at h
      · cases h
      obtain ⟨r, hr, heq⟩ := Option.map_eq_some_iff.mp h
      obtain ⟨rfl, -⟩ := splitOff_eq_some hr
      cases heq
      simp only [List.length_cons, List.length_append]
      omega
    · obtain ⟨r, hr, heq⟩ := Option.map_eq_some_iff.mp h
      obtain ⟨rfl, -⟩ := splitOff_eq_some hr
      cases heq
      simp only [List.length_cons, List.length_append]
      omega

/-- What a turn of the loop over attributes does. -/
theorem attributeItem_eq_ok (h : attributeItem as4 s data = .ok (s', rest)) :
    rest.length < data.length ∧ ∃ flags kind v, kind ∉ s.seen ∧
      readValue as4 { s with seen := kind :: s.seen } flags kind v = .ok s' := by
  unfold attributeItem at h
  split at h
  · cases h
  rename_i flags kind v rest' hheader
  split_ifs at h with hseen hflags
  split at h
  · cases h
  rename_i s₁ hval
  obtain ⟨rfl, rfl⟩ := Prod.mk.inj (Except.ok.inj h)
  exact ⟨readHeader_eq_some hheader, flags, kind, v, hseen, hval⟩

theorem consumes_attributeItem (as4 : Bool) : Consumes (attributeItem as4) :=
  fun _ _ _ _ h => (attributeItem_eq_ok h).1

theorem flagsFit_unknown (h : kind ∉ knownKinds) : FlagsFit 224 kind := by
  have hnone : requiredFlags kind = none := by
    simp only [knownKinds, List.mem_cons, List.not_mem_nil, or_false, not_or] at h
    simp [requiredFlags, h]
  refine ⟨by decide, by decide, ?_, ?_⟩
  · rw [badFlags, hnone]
    decide
  · rw [badFlags, hnone]
    decide

theorem readValue_unknown (as4 : Bool) (h : kind ∉ knownKinds) :
    readValue as4 s (wireFlags 224 v) kind v = .ok { s with attributes :=
      { s.attributes with
        unknownTransitive := s.attributes.unknownTransitive ++ [(kind, v)] } } := by
  have h128 : ¬ wireFlags 224 v &&& 128 = 0 := by
    unfold wireFlags
    split_ifs <;> decide
  have h64 : wireFlags 224 v &&& 64 ≠ 0 := by
    unfold wireFlags
    split_ifs <;> decide
  simp only [knownKinds, List.mem_cons, List.not_mem_nil, or_false, not_or] at h
  obtain ⟨h1, h2, h3, h4, h5, h8, h14, h15, h17⟩ := h
  unfold readValue
  simp only [if_neg h1, if_neg h2, if_neg h3, if_neg h4, if_neg h5, if_neg h8, if_neg h17,
    if_neg h14, if_neg h15, if_neg h128, if_pos h64]

/-- The state with one more unknown attribute. -/
def UpdateState.addUnknown (s : UpdateState) (u : Byte × List Byte) : UpdateState :=
  { s with
    attributes := { s.attributes with
      unknownTransitive := s.attributes.unknownTransitive ++ [u] }
    seen := u.1 :: s.seen }

/-- The unknown attributes are read back in order. -/
theorem readAll_unknown (us : List (Byte × List Byte)) (s : UpdateState)
    (hnodup : (us.map Prod.fst).Nodup) (hknown : ∀ u ∈ us, u.1 ∉ knownKinds)
    (hseen : ∀ u ∈ us, u.1 ∉ s.seen) (hlen : ∀ u ∈ us, u.2.length ≤ 65535) :
    readAll (attributeItem as4) s (us.flatMap fun u => attr 224 u.1 u.2) =
      .ok (us.foldl UpdateState.addUnknown s) := by
  induction us generalizing s with
  | nil => rfl
  | cons u us ih =>
    rw [List.map_cons, List.nodup_cons] at hnodup
    have hu := hknown u List.mem_cons_self
    have hitem := attributeItem_attr (flagsFit_unknown hu) (hlen u List.mem_cons_self)
      (hseen u List.mem_cons_self) (readValue_unknown as4 hu)
      (us.flatMap fun u => attr 224 u.1 u.2)
    rw [List.flatMap_cons, readAll_step (consumes_attributeItem as4) hitem, List.foldl_cons]
    refine ih (s.addUnknown u) hnodup.2 (fun w hw => hknown w (List.mem_cons_of_mem u hw)) ?_
      (fun w hw => hlen w (List.mem_cons_of_mem u hw))
    intro w hw hmem
    rcases List.mem_cons.mp hmem with heq | hmem
    · exact hnodup.1 (heq ▸ List.mem_map_of_mem hw)
    · exact hseen w (List.mem_cons_of_mem u hw) hmem

theorem foldl_addUnknown (us : List (Byte × List Byte)) (s : UpdateState) :
    (us.foldl UpdateState.addUnknown s).attributes =
        { s.attributes with unknownTransitive := s.attributes.unknownTransitive ++ us } ∧
      (∀ k ∈ s.seen, k ∈ (us.foldl UpdateState.addUnknown s).seen) ∧
      (us.foldl UpdateState.addUnknown s).as4path = s.as4path ∧
      (us.foldl UpdateState.addUnknown s).mpNlri = s.mpNlri ∧
      (us.foldl UpdateState.addUnknown s).mpWithdraw = s.mpWithdraw := by
  induction us generalizing s with
  | nil => exact ⟨by simp, fun _ hk => hk, rfl, rfl, rfl⟩
  | cons u us ih =>
    obtain ⟨ha, hs, h4, hn, hw⟩ := ih (s.addUnknown u)
    refine ⟨?_, fun k hk => hs k (List.mem_cons_of_mem _ hk), h4, hn, hw⟩
    rw [List.foldl_cons, ha]
    simp only [UpdateState.addUnknown, List.append_assoc, List.singleton_append]

theorem readCommunities_flatMap (cs : List UInt32) : readCommunities (cs.flatMap u32ToBe) = cs := by
  induction cs with
  | nil => rfl
  | cons c cs ih =>
    rw [List.flatMap_cons]
    show readCommunities (_ :: _ :: _ :: _ :: cs.flatMap u32ToBe) = c :: cs
    rw [readCommunities, u32FromBe_u32ToBe, ih]

/-- What the rules say of the attributes of an UPDATE. -/
structure Attributes.Legal (a : Attributes) : Prop where
  sets : ValidSets a.path.length a.pathSets
  origin_le : a.origin ≤ 2
  kinds_nodup : (a.unknownTransitive.map Prod.fst).Nodup
  kinds_unknown : ∀ u ∈ a.unknownTransitive, u.1 ∉ knownKinds

section Write

variable {as4 : Bool} {s : UpdateState} (rest : List Byte)

theorem readAll_attr (hf : FlagsFit flags kind) (hv : v.length ≤ 65535) (hseen : kind ∉ s.seen)
    (hval : readValue as4 { s with seen := kind :: s.seen } (wireFlags flags v) kind v = .ok s') :
    readAll (attributeItem as4) s (attr flags kind v ++ rest) =
      readAll (attributeItem as4) s' rest :=
  readAll_step (consumes_attributeItem as4) (attributeItem_attr hf hv hseen hval rest)

theorem readAll_origin {origin : Byte} (h : origin ≤ 2) (hseen : 1 ∉ s.seen) :
    readAll (attributeItem as4) s (attr 64 1 [origin] ++ rest) =
      readAll (attributeItem as4) { s with
        attributes := { s.attributes with origin := origin }, seen := 1 :: s.seen } rest := by
  refine readAll_attr rest (by decide) (by simp) hseen ?_
  simp only [readValue, if_true, if_pos h]

theorem readAll_path (h : ValidSets p.length sets) (hlen : (putPath p sets as4).length ≤ 65535)
    (hseen : 2 ∉ s.seen) :
    readAll (attributeItem as4) s (attr 64 2 (putPath p sets as4) ++ rest) =
      readAll (attributeItem as4) { s with
        attributes := { s.attributes with path := p.map (wireAsn as4), pathSets := sets }
        seen := 2 :: s.seen } rest := by
  refine readAll_attr rest (by decide) hlen hseen ?_
  simp only [readValue, path_putPath as4 h]
  rfl

theorem readAll_nextHop {ip : Ipv4Addr} (hseen : 3 ∉ s.seen) :
    readAll (attributeItem as4) s (attr 64 3 ip.bytes ++ rest) =
      readAll (attributeItem as4) { s with
        attributes := { s.attributes with nextHop := ip }, seen := 3 :: s.seen } rest :=
  readAll_attr rest (by decide) (by simp [Ipv4Addr.bytes]) hseen rfl

/-- The path of four-byte AS numbers, where there is one. -/
theorem readAll_as4path {c : Bool} (h : ValidSets p.length sets)
    (hlen : (if c then attr 192 17 (putPath p sets true) else []).length ≤ 65535)
    (hseen : 17 ∉ s.seen) :
    readAll (attributeItem as4) s
        ((if c then attr 192 17 (putPath p sets true) else []) ++ rest) =
      readAll (attributeItem as4) { s with
        as4path := if c then some (p, sets) else s.as4path
        seen := (if c then [17] else []) ++ s.seen } rest := by
  cases c with
  | false => simp
  | true =>
    have hid : p.map (wireAsn true) = p := List.map_id p
    have hread := path_putPath true h
    have hle := length_attr 192 17 (putPath p sets true)
    rw [if_pos rfl] at hlen
    rw [hid] at hread
    refine readAll_attr rest (by decide) (by omega) hseen ?_
    simp only [readValue, hread]
    rfl

theorem readAll_med {n : UInt32} (hseen : 4 ∉ s.seen) :
    readAll (attributeItem as4) s (attr 128 4 (u32ToBe n) ++ rest) =
      readAll (attributeItem as4) { s with
        attributes := { s.attributes with med := n }, seen := 4 :: s.seen } rest := by
  refine readAll_attr rest (by decide) (by simp) hseen ?_
  simp only [readValue, u32ToBe, u32FromBe_u32ToBe]
  rfl

theorem readAll_localPref {n : UInt32} (hseen : 5 ∉ s.seen) :
    readAll (attributeItem as4) s (attr 64 5 (u32ToBe n) ++ rest) =
      readAll (attributeItem as4) { s with
        attributes := { s.attributes with localPref := n }, seen := 5 :: s.seen } rest := by
  refine readAll_attr rest (by decide) (by simp) hseen ?_
  simp only [readValue, u32ToBe, u32FromBe_u32ToBe]
  rfl

/-- The communities, where there are any. -/
theorem readAll_communities {cs : List UInt32}
    (hlen : (if cs = [] then [] else attr 192 8 (cs.flatMap u32ToBe)).length ≤ 65535)
    (hseen : 8 ∉ s.seen) (hnil : s.attributes.communities = []) :
    readAll (attributeItem as4) s
        ((if cs = [] then [] else attr 192 8 (cs.flatMap u32ToBe)) ++ rest) =
      readAll (attributeItem as4) { s with
        attributes := { s.attributes with communities := cs }
        seen := (if cs = [] then [] else [8]) ++ s.seen } rest := by
  by_cases hcs : cs = []
  · rw [if_pos hcs, if_pos hcs, List.nil_append, List.nil_append, hcs, ← hnil]
  · have hmod : (cs.flatMap u32ToBe).length % 4 = 0 := by
      simp only [List.length_flatMap, length_u32ToBe, List.map_const', List.sum_replicate_nat]
      exact Nat.mul_mod_left _ 4
    have hle := length_attr 192 8 (cs.flatMap u32ToBe)
    rw [if_neg hcs] at hlen
    rw [if_neg hcs, if_neg hcs]
    refine readAll_attr rest (by decide) (by omega) hseen ?_
    simp only [readValue, if_pos hmod, readCommunities_flatMap]
    rfl

end Write

theorem wireAsn_of_le {asn : UInt32} (h : ¬ 65535 < asn) (as4 : Bool) : wireAsn as4 asn = asn := by
  cases as4
  · have hle : asn.toNat ≤ 65535 := UInt32.le_iff_toNat_le.mp (UInt32.not_lt.mp h)
    simp only [wireAsn, asTrans, if_neg h, Bool.false_eq_true, if_false]
    apply UInt32.toNat_inj.mp
    rw [UInt16.toNat_toUInt32, UInt32.toNat_toUInt16]
    omega
  · rfl

/-- The state of the decoder when it has read back the attributes `a`. -/
structure ReadBack (as4 : Bool) (a : Attributes) (s : UpdateState) : Prop where
  merged : mergeAs4 as4 s = .ok a
  seen : 1 ∈ s.seen ∧ 2 ∈ s.seen ∧ 3 ∈ s.seen
  mp : s.mpNlri = [] ∧ s.mpWithdraw = []

/-- The path of four-byte AS numbers takes the place of the whole other one. -/
theorem spliceAs4_all (h : p.length = a.path.length) :
    spliceAs4 a (p, sets) = .ok { a with path := p, pathSets := sets } := by
  have hmap : sets.map (fun s => (s.1 + 0, s.2)) = sets := by
    simp only [Nat.add_zero, Prod.mk.eta, List.map_id']
  have hany : a.pathSets.any (fun s => s.1 < 0 && 0 < s.1 + s.2) = false := by
    rw [List.any_eq_false]
    intro s _
    simp
  unfold spliceAs4
  rw [if_pos (by rw [h]), h, Nat.sub_self]
  dsimp only
  rw [hany, hmap]
  simp only [Bool.false_eq_true, if_false, List.take_zero, List.nil_append, Nat.not_lt_zero,
    decide_false, List.filter_false]

/-- From the attributes with a kind of their own on: the unknown ones are read,
and the path gets its four-byte AS numbers back. -/
theorem readBack_unknown (as4 : Bool) (ha : a.Legal)
    (hlen : ∀ u ∈ a.unknownTransitive, u.2.length ≤ 65535)
    (hattr : s.attributes = { a with path := a.path.map (wireAsn as4), unknownTransitive := [] })
    (has4 : s.as4path = if !as4 && a.path.any (fun asn => 65535 < asn) then
      some (a.path, a.pathSets) else none) (hknown : ∀ k ∈ s.seen, k ∈ knownKinds)
    (hseen : 1 ∈ s.seen ∧ 2 ∈ s.seen ∧ 3 ∈ s.seen) (hmp : s.mpNlri = [] ∧ s.mpWithdraw = []) :
    ∃ s', readAll (attributeItem as4) s (a.unknownTransitive.flatMap fun u => attr 224 u.1 u.2) =
      .ok s' ∧ ReadBack as4 a s' := by
  obtain ⟨ha', hs', h4', hn', hw'⟩ := foldl_addUnknown a.unknownTransitive s
  refine ⟨_, readAll_unknown _ s ha.kinds_nodup ha.kinds_unknown
    (fun u hu hmem => ha.kinds_unknown u hu (hknown _ hmem)) hlen, ?_, ?_, ?_⟩
  · generalize a.unknownTransitive.foldl UpdateState.addUnknown s = s' at ha' h4'
    rw [hattr] at ha'
    rw [has4] at h4'
    simp only [List.nil_append] at ha'
    cases as4 with
    | true =>
      have hid : a.path.map (wireAsn true) = a.path := List.map_id _
      rw [hid] at ha'
      rw [mergeAs4, ha']
      simp
    | false =>
      by_cases hbig : a.path.any (fun asn => 65535 < asn) = true
      · rw [hbig] at h4'
        simp only [mergeAs4, h4', Bool.not_false, Bool.and_self, if_true]
        rw [spliceAs4_all (by rw [ha', List.length_map]), ha']
      · have hid : a.path.map (wireAsn false) = a.path := by
          rw [Bool.not_eq_true, List.any_eq_false] at hbig
          refine (List.map_congr_left fun asn hasn => ?_).trans (List.map_id _)
          exact wireAsn_of_le (fun hlt => hbig asn hasn (decide_eq_true hlt)) false
        rw [hid] at ha'
        simp only [mergeAs4, h4', hbig, Bool.not_false, Bool.and_false, Bool.false_eq_true,
          if_false, ha']
  · exact ⟨hs' 1 hseen.1, hs' 2 hseen.2.1, hs' 3 hseen.2.2⟩
  · exact ⟨hn'.trans hmp.1, hw'.trans hmp.2⟩

/-- **The attributes of an UPDATE are read back as they were written.** -/
theorem readAll_putAttributes (as4 : Bool) (ha : a.Legal)
    (hlen : (putAttributes a as4 true).length ≤ 65535) :
    ∃ s, readAll (attributeItem as4) UpdateState.start (putAttributes a as4 true) = .ok s ∧
      ReadBack as4 a s := by
  unfold putAttributes at hlen ⊢
  simp only [List.length_append] at hlen
  have hpath := length_attr 64 2 (putPath a.path a.pathSets as4)
  have hunknown : ∀ u ∈ a.unknownTransitive, u.2.length ≤ 65535 := by
    intro u hu
    have h₁ := length_attr 224 u.1 u.2
    have h₂ := (List.sublist_flatten_of_mem
      (List.mem_map_of_mem (f := fun u : Byte × List Byte => attr 224 u.1 u.2) hu)).length_le
    rw [← List.flatMap_def] at h₂
    omega
  simp only [List.append_assoc, if_true]
  rw [readAll_origin _ ha.origin_le (show (1 : Byte) ∉ [] by decide),
    readAll_path _ ha.sets (by omega) (show (2 : Byte) ∉ [1] by decide),
    readAll_nextHop _ (show (3 : Byte) ∉ [2, 1] by decide),
    readAll_as4path _ ha.sets (by omega) (show (17 : Byte) ∉ [3, 2, 1] by decide),
    readAll_med _ (by dsimp only; split <;> decide),
    readAll_localPref _ (by dsimp only; split <;> decide),
    readAll_communities _ (by omega) (by dsimp only; split <;> decide) rfl]
  refine readBack_unknown as4 ha hunknown ?_ ?_ ?_ ?_ ⟨rfl, rfl⟩
  · rfl
  · rfl
  · dsimp only
    -- Not by `decide` on the statement, which would run through all bytes.
    split <;> split <;> simp [knownKinds, UpdateState.start]
  · dsimp only
    split <;> split <;> decide

/-! ## Messages -/

/-- What the decoder checks of a message: prefixes are normal, attributes legal,
and the next hop of a route, the hold time and the identifier of an OPEN are
acceptable.  An OPEN without four-byte AS numbers has a two-byte one. -/
def Message.Legal : Message → Prop
  | .open asn hold id as4 _ =>
    hold ≠ 1 ∧ hold ≠ 2 ∧ isBadNextHop id = false ∧ (as4 = false → asn.toNat ≤ 65535)
  | .update withdrawn a nlri =>
    (∀ p ∈ withdrawn, p.Normal) ∧ (∀ p ∈ nlri, p.Normal) ∧ a.Legal ∧
      (nlri ≠ [] → isBadNextHop a.nextHop = false)
  | _ => True

/-- An UPDATE that announces nothing has nothing to say of its attributes. -/
def Message.Settled : Message → Prop
  | .update _ a nlri => nlri = [] → a = Attributes.default
  | _ => True

theorem splitUpdate_append {w : List Byte} (rest : List Byte) (hw : w.length ≤ 65535)
    (hv : v.length ≤ 65535) :
    splitUpdate (u16ToBe (UInt16.ofNat w.length) ++ w ++ u16ToBe (UInt16.ofNat v.length) ++ v ++
      rest) = some (w, v, rest) := by
  have hsplit := splitOff_append w (u16ToBe (UInt16.ofNat v.length) ++ (v ++ rest))
  simp only [List.append_assoc, u16ToBe, List.cons_append, List.nil_append] at hsplit ⊢
  rw [splitUpdate, toNat_u16FromBe hw, hsplit]
  simp only [toNat_u16FromBe hv, splitOff_append, Option.map_some]

/-- The last checks of the decoder pass. -/
theorem finishUpdate_ok {withdrawn nlri : List Prefix} {w : List Byte} (ha : mergeAs4 as4 s = .ok a)
    (hmp : s.mpNlri = [] ∧ s.mpWithdraw = []) (hn : prefixes rest = .ok nlri)
    (hw : prefixes w = .ok withdrawn) (hseen : nlri ≠ [] → 1 ∈ s.seen ∧ 2 ∈ s.seen ∧ 3 ∈ s.seen)
    (hhop : nlri ≠ [] → isBadNextHop a.nextHop = false) :
    finishUpdate as4 w rest s = .ok (.update withdrawn a nlri) := by
  have h₁ : ¬ (nlri ≠ [] ∧ (1 ∉ s.seen ∨ 2 ∉ s.seen ∨ (3 ∉ s.seen ∧ 14 ∉ s.seen))) := by
    rintro ⟨hne, hmissing⟩
    obtain ⟨s1, s2, s3⟩ := hseen hne
    rcases hmissing with h | h | h
    · exact h s1
    · exact h s2
    · exact h.1 s3
  have h₂ : ¬ (nlri ≠ [] ∧ isBadNextHop a.nextHop = true) := by
    rintro ⟨hne, hbad⟩
    rw [hhop hne] at hbad
    cases hbad
  unfold finishUpdate
  simp only [ha, hn, hw, hmp.1, hmp.2, List.append_nil, bind, Except.bind, if_neg h₁, if_neg h₂]
  rfl

theorem decodeUpdate_body {withdrawn nlri : List Prefix}
    (hl : (Message.update withdrawn a nlri).Legal) (hs : (Message.update withdrawn a nlri).Settled)
    (hlen : ((Message.update withdrawn a nlri).body as4 true).2.length ≤ 65535) :
    decodeUpdate as4 ((Message.update withdrawn a nlri).body as4 true).2 =
      .ok (.update withdrawn a nlri) := by
  obtain ⟨hw, hn, ha, hhop⟩ := hl
  simp only [Message.body, List.length_append, length_u16ToBe] at hlen ⊢
  unfold decodeUpdate
  rw [if_neg (by simp only [List.length_append, length_u16ToBe]; omega),
    splitUpdate_append _ (by omega) (by omega)]
  dsimp only
  have hw' := prefixes_putPrefixes hw
  have hn' := prefixes_putPrefixes hn
  by_cases hnil : nlri = []
  · have hdefault := hs hnil
    rw [if_pos hnil, readAll_nil]
    exact finishUpdate_ok (by rw [hdefault]; cases as4 <;> rfl) ⟨rfl, rfl⟩ hn' hw'
      (fun h => absurd hnil h) hhop
  · rw [if_neg hnil] at hlen ⊢
    obtain ⟨s, hread, hback⟩ := readAll_putAttributes as4 ha (by omega)
    rw [hread]
    exact finishUpdate_ok hback.merged hback.mp hn' hw' (fun _ => hback.seen) hhop

theorem isBadNextHop_eq (id : Ipv4Addr) :
    (id.isUnspecified || id.isMulticast || id.isBroadcast) = isBadNextHop id := rfl

/-- The capabilities of an OPEN, read back. -/
theorem readAll_parameter {asn : UInt32} {four : Bool} (refresh : Bool) (s : OpenState)
    (hs : s = ⟨(asTrans asn).toUInt32, false, false⟩) (hasn : four = false → asn.toNat ≤ 65535) :
    readAll parameterItem s (2 :: UInt8.ofNat (putCapabilities asn four refresh).length ::
      putCapabilities asn four refresh) = .ok ⟨asn, four, refresh⟩ := by
  subst hs
  have htrans (h : asn.toNat ≤ 65535) : (asTrans asn).toUInt32 = asn :=
    wireAsn_of_le (UInt32.not_lt.mpr (UInt32.le_iff_toNat_le.mpr h)) false
  cases four with
  | false =>
    rw [htrans (hasn rfl)]
    cases refresh <;> rfl
  | true =>
    have hread := u32FromBe_u32ToBe asn
    cases refresh
    · show Except.ok (OpenState.mk (u32FromBe _ _ _ _) true false) = _
      rw [hread]
    · show Except.ok (OpenState.mk (u32FromBe _ _ _ _) true true) = _
      rw [hread]

theorem decodeOpen_body (as4 : Bool) {asn : UInt32} {hold : UInt16} {id : Ipv4Addr}
    {four refresh : Bool} (hl : (Message.open asn hold id four refresh).Legal) :
    decodeOpen ((Message.open asn hold id four refresh).body as4 true).2 =
      .ok (.open asn hold id four refresh) := by
  obtain ⟨h1, h2, hid, hasn⟩ := hl
  have hhold : ¬ (hold = 1 ∨ hold = 2) := fun h => h.elim h1 h2
  have hlen : (UInt8.ofNat ((putCapabilities asn four refresh).length + 2)).toNat =
      (putCapabilities asn four refresh).length + 2 := by
    cases four <;> cases refresh <;> rfl
  have hbad : ¬ ((4 : Byte) ≠ 4 ∨ (2 :: UInt8.ofNat (putCapabilities asn four refresh).length ::
      putCapabilities asn four refresh).length ≠
      (UInt8.ofNat ((putCapabilities asn four refresh).length + 2)).toNat) := by
    rw [hlen]
    simp
  have hread := readAll_parameter refresh _ rfl hasn
  simp only [Message.body, u16ToBe, Ipv4Addr.bytes, List.cons_append, List.nil_append, decodeOpen,
    u16FromBe_u16ToBe, if_neg hhold, if_neg hbad, isBadNextHop_eq, hid, Bool.false_eq_true,
    if_false, hread]

/-! ## Frames -/

theorem take_frame (n k : ℕ) (kind : Byte) (body : List Byte) :
    (frame n kind body).take (19 + k) = frame n kind (body.take k) := by
  rw [Nat.add_comm]
  rfl

/-- A frame of a legal length, or the beginning of one. -/
theorem decode_frame {body : List Byte} (hn : 19 ≤ n) (hmax : n ≤ maxMessage) :
    Message.decode (frame n kind body) as4 =
      if 19 + body.length < n then .ok none
      else match decodeBody as4 kind (body.take (n - 19)) with
        | .error e => .error e
        | .ok m => .ok (some (m, n)) := by
  have hmax' : n ≤ 4096 := hmax
  have hlen : (u16FromBe ((frame n kind body).getD 16 0) ((frame n kind body).getD 17 0)).toNat =
      n := toNat_u16FromBe (by omega)
  have hmarker : (frame n kind body).take 16 = List.replicate 16 255 := rfl
  have hkind : (frame n kind body).getD 18 0 = kind := rfl
  have hbody : ((frame n kind body).take n).drop 19 = body.take (n - 19) := by
    obtain ⟨k, rfl⟩ := Nat.exists_eq_add_of_le hn
    rw [take_frame, Nat.add_sub_cancel_left]
    rfl
  unfold Message.decode
  simp only [hlen, hmarker, hkind, hbody, length_frame]
  refine (if_neg ?_).trans ((if_neg ?_).trans (if_neg ?_))
  · omega
  · simp
  · unfold maxMessage
    omega

theorem decodeBody_body (as4 : Bool) (hl : m.Legal) (hs : m.Settled)
    (hlen : (m.body as4 true).2.length ≤ 65535) :
    decodeBody as4 (m.body as4 true).1 (m.body as4 true).2 = .ok m := by
  cases m with
  | «open» asn hold id four refresh => exact decodeOpen_body as4 hl
  | update withdrawn a nlri => exact decodeUpdate_body hl hs hlen
  | notification code subcode => rfl
  | keepalive => rfl
  | refresh => rfl

theorem length_encode (m : Message) (as4 : Bool) :
    (m.encode as4).length = 19 + (m.body as4 true).2.length :=
  length_frame _ _ _

theorem decode_encode (as4 : Bool) (hl : m.Legal) (hs : m.Settled)
    (hlen : (m.encode as4).length ≤ maxMessage) :
    Message.decode (m.encode as4) as4 = .ok (some (m, (m.encode as4).length)) := by
  rw [length_encode] at hlen ⊢
  have hmax : 19 + (m.body as4 true).2.length ≤ 4096 := hlen
  unfold Message.encode Message.encodeForPeer
  dsimp only
  rw [decode_frame (by omega) hlen, if_neg (by omega), Nat.add_sub_cancel_left, List.take_length,
    decodeBody_body as4 hl hs (by omega)]

/-- The beginning of a message is incomplete. -/
theorem decode_take (as4 : Bool) (hlen : (m.encode as4).length ≤ maxMessage)
    (hn : n < (m.encode as4).length) :
    Message.decode ((m.encode as4).take n) as4 = .ok none := by
  by_cases h19 : n < 19
  · unfold Message.decode
    rw [if_pos]
    rw [List.length_take]
    omega
  · obtain ⟨k, rfl⟩ := Nat.exists_eq_add_of_le (Nat.not_lt.mp h19)
    rw [length_encode] at hlen hn
    unfold Message.encode Message.encodeForPeer
    dsimp only
    rw [take_frame, decode_frame (by omega) hlen, if_pos]
    rw [List.length_take]
    omega

/-! ## What decodes is legal -/

/-- A two-byte AS number where four-byte ones were not announced. -/
def OpenState.Fits (s : OpenState) : Prop := s.four = false → s.asn.toNat ≤ 65535

theorem fits_capabilityItem {s s' : OpenState} {l : List Byte} (hs : s.Fits)
    (h : capabilityItem s l = .ok (s', rest)) : s'.Fits := by
  unfold capabilityItem at h
  split at h
  case h_2 => cases h
  split at h
  · cases h
  split_ifs at h
  · split at h
    · cases h
      exact fun hfour => Bool.noConfusion hfour
    · cases h
      exact hs
  · cases h
    exact hs
  · cases h
    exact hs

theorem fits_parameterItem {s s' : OpenState} {l : List Byte} (hs : s.Fits)
    (h : parameterItem s l = .ok (s', rest)) : s'.Fits := by
  unfold parameterItem at h
  split at h
  case h_2 => cases h
  split at h
  · cases h
  split_ifs at h
  split at h
  · cases h
  rename_i s₁ hread
  cases h
  exact readAll_invariant (fun _ _ _ _ => fits_capabilityItem) hs hread

theorem legal_of_decodeOpen {p : List Byte} (h : decodeOpen p = .ok m) :
    m.Legal := by
  unfold decodeOpen at h
  split at h
  case h_2 => cases h
  dsimp only at h
  split_ifs at h with hbad hhold hid
  split at h
  · cases h
  rename_i s hread
  cases h
  have hfits : s.Fits := by
    refine readAll_invariant (P := OpenState.Fits) (fun _ _ _ _ => fits_parameterItem) ?_ hread
    intro _
    rw [UInt16.toNat_toUInt32]
    exact Nat.le_of_lt_succ (UInt16.toNat_lt _)
  exact ⟨fun h1 => hhold (Or.inl h1), fun h2 => hhold (Or.inr h2),
    Bool.eq_false_iff.mpr hid, hfits⟩

/-- What the rules say of the attributes read so far. -/
structure UpdateState.Legal (s : UpdateState) : Prop where
  attributes : s.attributes.Legal
  kinds_seen : ∀ u ∈ s.attributes.unknownTransitive, u.1 ∈ s.seen
  as4path : ∀ p, s.as4path = some p → ValidSets p.1.length p.2
  mpNlri : ∀ p ∈ s.mpNlri, p.Normal
  mpWithdraw : ∀ p ∈ s.mpWithdraw, p.Normal

/-- One more attribute was seen, of which the rules say nothing. -/
theorem UpdateState.Legal.seen (hs : s.Legal) (kind : Byte) :
    UpdateState.Legal { s with seen := kind :: s.seen } :=
  ⟨hs.attributes, fun u hu => List.mem_cons_of_mem _ (hs.kinds_seen u hu), hs.as4path, hs.mpNlri,
    hs.mpWithdraw⟩

theorem legal_pushUnknown (hs : s.Legal) (hseen : kind ∉ s.seen) (hkind : kind ∉ knownKinds)
    (v : List Byte) :
    UpdateState.Legal { s with
      seen := kind :: s.seen
      attributes :=
        { s.attributes with unknownTransitive := s.attributes.unknownTransitive ++
        [(kind, v)] } } := by
  obtain ⟨⟨hsets, horigin, hnodup, hunknown⟩, hkinds, has4, hn, hw⟩ := hs
  refine ⟨⟨hsets, horigin, ?_, ?_⟩, ?_, has4, hn, hw⟩
  · rw [List.map_append, List.map_singleton]
    refine hnodup.append (List.nodup_singleton _) fun k hk hk' => ?_
    obtain ⟨u, hu, rfl⟩ := List.mem_map.mp hk
    have hkind := hkinds u hu
    rw [List.mem_singleton.mp hk'] at hkind
    exact hseen hkind
  · intro u hu
    rcases List.mem_append.mp hu with hu | hu
    · exact hunknown u hu
    · rwa [List.mem_singleton.mp hu]
  · intro u hu
    rcases List.mem_append.mp hu with hu | hu
    · exact List.mem_cons_of_mem _ (hkinds u hu)
    · rw [List.mem_singleton.mp hu]
      exact List.mem_cons_self

theorem legal_readValue (hs : s.Legal) (hseen : kind ∉ s.seen)
    (h : readValue as4 { s with seen := kind :: s.seen } flags kind v = .ok s') : s'.Legal := by
  have hpush (hkind : kind ∉ knownKinds) := legal_pushUnknown hs hseen hkind v
  obtain ⟨⟨hsets, horigin, hnodup, hunknown⟩, hkinds, has4, hn, hw⟩ := hs.seen kind
  unfold readValue at h
  dsimp only at h
  rcases ite_eq_iff.mp h with ⟨-, h⟩ | ⟨h1, h⟩
  · -- ORIGIN
    split at h
    · split_ifs at h with hle
      cases h
      exact ⟨⟨hsets, hle, hnodup, hunknown⟩, hkinds, has4, hn, hw⟩
    · cases h
  rcases ite_eq_iff.mp h with ⟨-, h⟩ | ⟨h2, h⟩
  · -- AS_PATH
    split at h
    · cases h
    · rename_i p hpath
      cases h
      exact ⟨⟨validSets_of_path hpath, horigin, hnodup, hunknown⟩, hkinds, has4, hn, hw⟩
  rcases ite_eq_iff.mp h with ⟨-, h⟩ | ⟨h3, h⟩
  · -- NEXT_HOP
    split at h
    · cases h
      exact ⟨⟨hsets, horigin, hnodup, hunknown⟩, hkinds, has4, hn, hw⟩
    · cases h
  rcases ite_eq_iff.mp h with ⟨-, h⟩ | ⟨h4, h⟩
  · -- MED
    split at h
    · cases h
      exact ⟨⟨hsets, horigin, hnodup, hunknown⟩, hkinds, has4, hn, hw⟩
    · cases h
  rcases ite_eq_iff.mp h with ⟨-, h⟩ | ⟨h5, h⟩
  · -- LOCAL_PREF
    split at h
    · cases h
      exact ⟨⟨hsets, horigin, hnodup, hunknown⟩, hkinds, has4, hn, hw⟩
    · cases h
  rcases ite_eq_iff.mp h with ⟨-, h⟩ | ⟨h8, h⟩
  · -- COMMUNITIES
    split_ifs at h
    cases h
    exact ⟨⟨hsets, horigin, hnodup, hunknown⟩, hkinds, has4, hn, hw⟩
  rcases ite_eq_iff.mp h with ⟨-, h⟩ | ⟨h17, h⟩
  · -- AS4_PATH
    split at h
    · cases h
    · rename_i p hpath
      cases h
      refine ⟨⟨hsets, horigin, hnodup, hunknown⟩, hkinds, ?_, hn, hw⟩
      rintro _ ⟨rfl⟩
      exact validSets_of_path hpath
  rcases ite_eq_iff.mp h with ⟨-, h⟩ | ⟨h14, h⟩
  · -- MP_REACH_NLRI
    split at h
    · split at h
      · cases h
      · rename_i ps hps
        cases h
        exact ⟨⟨hsets, horigin, hnodup, hunknown⟩, hkinds, has4, normal_of_prefixes hps, hw⟩
    · cases h
  rcases ite_eq_iff.mp h with ⟨-, h⟩ | ⟨h15, h⟩
  · -- MP_UNREACH_NLRI
    split at h
    · split at h
      · cases h
      · rename_i ps hps
        cases h
        exact ⟨⟨hsets, horigin, hnodup, hunknown⟩, hkinds, has4, hn, normal_of_prefixes hps⟩
    · cases h
  split_ifs at h
  · cases h
    exact hpush (by simp [knownKinds, h1, h2, h3, h4, h5, h8, h14, h15, h17])
  · cases h
    exact hs.seen kind

theorem legal_start : UpdateState.start.Legal where
  attributes :=
    { sets := ⟨List.Pairwise.nil, fun s hs => absurd hs List.not_mem_nil⟩
      origin_le := by decide
      kinds_nodup := List.nodup_nil
      kinds_unknown := fun u hu => absurd hu List.not_mem_nil }
  kinds_seen u hu := absurd hu List.not_mem_nil
  as4path p hp := by cases hp
  mpNlri p hp := absurd hp List.not_mem_nil
  mpWithdraw p hp := absurd hp List.not_mem_nil

theorem legal_readAll (h : readAll (attributeItem as4) UpdateState.start data = .ok s) :
    s.Legal := by
  refine readAll_invariant (P := UpdateState.Legal) ?_ legal_start h
  intro s l s' rest hs hitem
  obtain ⟨-, flags, kind, v, hseen, hval⟩ := attributeItem_eq_ok hitem
  exact legal_readValue hs hseen hval

/-- The spliced path: the sets kept end before the splice, the others begin at
it. -/
theorem legal_spliceAs4 {a' : Attributes} {p : Path} (ha : a.Legal) (hp : ValidSets p.1.length p.2)
    (h : spliceAs4 a p = .ok a') : a'.Legal := by
  unfold spliceAs4 at h
  by_cases hle : p.1.length ≤ a.path.length
  swap
  · rw [if_neg hle] at h
    cases h
    exact ha
  rw [if_pos hle] at h
  dsimp only at h
  split_ifs at h with hcut
  cases h
  refine ⟨?_, ha.origin_le, ha.kinds_nodup, ha.kinds_unknown⟩
  have hlen : (a.path.take (a.path.length - p.1.length) ++ p.1).length = a.path.length := by
    rw [List.length_append, List.length_take]
    omega
  have hkept (s : ℕ × ℕ) (hs : s ∈ a.pathSets.filter fun s => s.1 < a.path.length - p.1.length) :
      s ∈ a.pathSets ∧ s.1 + s.2 ≤ a.path.length - p.1.length := by
    obtain ⟨hmem, hlt⟩ := List.mem_filter.mp hs
    refine ⟨hmem, ?_⟩
    by_contra hgt
    apply hcut
    rw [List.any_eq_true]
    refine ⟨s, hmem, ?_⟩
    rw [hlt, Bool.true_and]
    exact decide_eq_true (by omega)
  refine ⟨?_, ?_⟩
  · rw [List.pairwise_append]
    refine ⟨ha.sets.sorted.filter _, ?_, ?_⟩
    · rw [List.pairwise_map]
      exact hp.sorted.imp fun hst => by dsimp only; omega
    · intro s hs t ht
      obtain ⟨t, -, rfl⟩ := List.mem_map.mp ht
      have := (hkept s hs).2
      dsimp only
      omega
  · rw [hlen]
    intro s hs
    rcases List.mem_append.mp hs with hs | hs
    · exact ha.sets.bounds s (hkept s hs).1
    · obtain ⟨t, ht, rfl⟩ := List.mem_map.mp hs
      have := hp.bounds t ht
      dsimp only
      omega

theorem legal_mergeAs4 (hs : s.Legal) (h : mergeAs4 as4 s = .ok a) : a.Legal := by
  unfold mergeAs4 at h
  split at h
  · rename_i p has4
    exact legal_spliceAs4 hs.attributes (hs.as4path p has4) h
  · cases h
    exact hs.attributes

theorem legal_finishUpdate {w : List Byte} (hs : s.Legal) (h : finishUpdate as4 w rest s = .ok m) :
    m.Legal := by
  unfold finishUpdate at h
  obtain ⟨a, ha, h⟩ := exists_of_bind_eq_ok h
  obtain ⟨nlri, hn, h⟩ := exists_of_bind_eq_ok h
  dsimp only at h
  split_ifs at h with hmissing hbad
  obtain ⟨withdrawn, hw, h⟩ := exists_of_bind_eq_ok h
  cases h
  refine ⟨?_, ?_, legal_mergeAs4 hs ha, ?_⟩
  · intro p hp
    rcases List.mem_append.mp hp with hp | hp
    · exact normal_of_prefixes hw p hp
    · exact hs.mpWithdraw p hp
  · intro p hp
    rcases List.mem_append.mp hp with hp | hp
    · exact normal_of_prefixes hn p hp
    · exact hs.mpNlri p hp
  · intro hne
    rw [Bool.eq_false_iff]
    exact fun hhop => hbad ⟨hne, hhop⟩

theorem legal_of_decodeUpdate {p : List Byte} (h : decodeUpdate as4 p = .ok m) : m.Legal := by
  unfold decodeUpdate at h
  split_ifs at h
  split at h
  · cases h
  obtain ⟨s, hread, h⟩ := exists_of_bind_eq_ok h
  exact legal_finishUpdate (legal_readAll hread) h

theorem legal_of_decodeBody {p : List Byte} (h : decodeBody as4 kind p = .ok m) : m.Legal := by
  unfold decodeBody at h
  split_ifs at h
  · exact legal_of_decodeOpen h
  · cases h
    exact trivial
  · exact legal_of_decodeUpdate h
  · cases h
    exact trivial
  · split at h
    · cases h
      exact trivial
    · cases h

theorem legal_of_decode (h : Message.decode data as4 = .ok (some (m, n))) : m.Legal := by
  unfold Message.decode at h
  dsimp only at h
  split_ifs at h
  · cases h
  · cases h
  split at h
  · cases h
  rename_i m' hbody
  cases h
  exact legal_of_decodeBody hbody

/-- **Messages survive the wire.**  A legal message whose encoding fits a frame,
and which has default attributes if it is an UPDATE that announces nothing, is
what its encoding decodes to, with two-byte and with four-byte AS numbers; every
proper part of its encoding is incomplete.  Whatever decodes is legal. -/
theorem wire_round_trip (as4 : Bool) :
    (∀ m : Message, m.Legal → m.Settled → (m.encode as4).length ≤ maxMessage →
      Message.decode (m.encode as4) as4 = .ok (some (m, (m.encode as4).length)) ∧
      ∀ n < (m.encode as4).length, Message.decode ((m.encode as4).take n) as4 = .ok none) ∧
    ∀ data m n, Message.decode data as4 = .ok (some (m, n)) → m.Legal := by
  refine ⟨?_, fun data m n h => legal_of_decode h⟩
  intro m hl hs hlen
  exact ⟨decode_encode as4 hl hs hlen, fun n hn => decode_take as4 hlen hn⟩

/-- A route through an AS of more than sixteen bits, a set and a third AS. -/
def sampleUpdate : Message :=
  .update [⟨⟨10, 1, 0, 0⟩, 16⟩]
    { path := [70000, 65001, 65002, 65003]
      pathSets := [(1, 2)]
      origin := 2
      med := 5
      localPref := 200
      nextHop := ⟨10, 0, 0, 1⟩
      communities := [4294967041]
      unknownTransitive := [(99, [1, 2, 3])] }
    [⟨⟨10, 9, 0, 0⟩, 16⟩, ⟨⟨0, 0, 0, 0⟩, 0⟩]

theorem wire_round_trip_sample :
    Message.decode (sampleUpdate.encode false) false =
      .ok (some (sampleUpdate, (sampleUpdate.encode false).length)) := by
  refine ((wire_round_trip false).1 sampleUpdate ⟨?_, ?_, ⟨⟨?_, ?_⟩, ?_, ?_, ?_⟩, ?_⟩ ?_ ?_).1
  · rintro p (_ | ⟨_, ⟨⟩⟩)
    exact ⟨by decide +kernel, by decide +kernel⟩
  · rintro p (_ | ⟨_, _ | ⟨_, ⟨⟩⟩⟩)
    · exact ⟨by decide +kernel, by decide +kernel⟩
    · exact ⟨by decide +kernel, by decide +kernel⟩
  · decide +kernel
  · decide +kernel
  · decide +kernel
  · decide +kernel
  · decide +kernel
  · exact fun _ => by decide +kernel
  · exact fun h => absurd h (by decide +kernel)
  · decide +kernel

/-- An OPEN for an AS of more than sixteen bits that does not announce four-byte
AS numbers comes back with another AS, and an UPDATE without NLRI decodes with
the attributes it carries. -/
theorem wire_rules_incomplete :
    (Message.decode ((Message.open 70000 180 ⟨1, 2, 3, 4⟩ false true).encode true) true =
        .ok (some (.open 23456 180 ⟨1, 2, 3, 4⟩ false true, 39)) ∧
      (180 : UInt16) ≠ 1 ∧ (180 : UInt16) ≠ 2 ∧ isBadNextHop ⟨1, 2, 3, 4⟩ = false) ∧
    Message.decode (frame 30 2 [0, 0, 0, 7, 128, 4, 4, 0, 0, 0, 5]) true =
      .ok (some (.update [] { Attributes.default with med := 5 } [], 30)) := by
  decide +kernel

end EvansComputer.Bgp
