import EvansComputer.Cell.Segments

/-!
# Segments in any order

What a receiver has of a packet is a set of indices: those that have come since the packet
was last complete.  `Mirrors` says that the table holds exactly these parts, and one segment
adds its index (`Mirrors.place`).  As long as no two segments of a run are two seconds apart
nothing expires, and while the packets are fewer than the table holds none is pushed out, so
the table and the sets go together over whole runs (`inv_run`).
-/

namespace EvansComputer.Cell

variable {s : Sending} {i : ℕ} {c : Finset ℕ}

/-- A packet on its way in segments. -/
structure Sending where
  seq : UInt32
  packet : List Byte
  maxItem : ℕ

namespace Sending

def segments (s : Sending) : List Item := segment s.seq s.packet s.maxItem

/-- What the segments carry. -/
def parts (s : Sending) : List (List Byte) := pieces s.packet s.maxItem

/-- How many segments there are. -/
def count (s : Sending) : ℕ := s.parts.length

/-- The segments that have come since the packet was last complete. -/
def collect (s : Sending) (have' : Finset ℕ) : Item → Finset ℕ
  | .data seq idx _ _ =>
    if seq ≠ s.seq then have'
    else if insert idx.toNat have' = Finset.range s.count then ∅
    else insert idx.toNat have'
  | _ => have'

/-- The same over a run. -/
def collected (s : Sending) (items : List Item) : Finset ℕ := items.foldl s.collect ∅

/-- A packet that fits the air, and a frame with room for it. -/
structure Valid (s : Sending) : Prop where
  short : s.packet.length ≤ 1500
  room : dataOverhead + 16 ≤ s.maxItem

theorem Valid.segments_eq (h : s.Valid) : s.segments = s.parts.mapIdx fun i b =>
    Item.data s.seq (UInt8.ofNat i) (UInt8.ofNat s.count) b :=
  segment_eq h.short s.seq s.maxItem

theorem Valid.count_le (h : s.Valid) : s.count ≤ 94 := length_pieces_le h.short _

theorem count_pos (s : Sending) : 0 < s.count := length_pieces_pos s.packet s.maxItem

/-- The segment with an index. -/
def item (s : Sending) (i : ℕ) : Item :=
  .data s.seq (UInt8.ofNat i) (UInt8.ofNat s.count) (s.parts.getD i [])

theorem getElem?_parts (hi : i < s.count) : s.parts[i]? = some (s.parts.getD i []) := by
  rw [List.getD_eq_getElem?_getD, List.getElem?_eq_getElem hi, Option.getD_some]

theorem Valid.mem_segments (h : s.Valid) {it : Item} :
    it ∈ s.segments ↔ ∃ i < s.count, it = s.item i := by
  rw [h.segments_eq, List.mem_mapIdx]
  constructor
  · rintro ⟨i, hi, rfl⟩
    refine ⟨i, hi, ?_⟩
    rw [item, List.getD_eq_getElem?_getD, List.getElem?_eq_getElem hi, Option.getD_some]
  · rintro ⟨i, hi, rfl⟩
    refine ⟨i, hi, ?_⟩
    rw [item, List.getD_eq_getElem?_getD, List.getElem?_eq_getElem hi, Option.getD_some]

theorem Valid.toNat_ofNat (h : s.Valid) (hi : i ≤ s.count) : (UInt8.ofNat i).toNat = i := by
  have hmost := h.count_le
  rw [UInt8.toNat_ofNat']
  omega

theorem collected_concat (s : Sending) (items : List Item) (it : Item) :
    s.collected (items ++ [it]) = s.collect (s.collected items) it := by
  rw [collected, List.foldl_append]
  rfl

theorem Valid.collect_item (h : s.Valid) (hi : i < s.count) :
    s.collect c (s.item i) = if insert i c = Finset.range s.count then ∅ else insert i c := by
  rw [item, collect, if_neg (not_not.mpr rfl), h.toNat_ofNat hi.le]

theorem collect_other {s' : Sending} (h : s'.seq ≠ s.seq) (c : Finset ℕ) (i : ℕ) :
    s.collect c (s'.item i) = c := by
  rw [item, collect, if_pos h]

end Sending

/-! ## The parts that are there -/

/-- The parts of a packet with the indices in `c`. -/
def partsOf (parts : List (List Byte)) (c : Finset ℕ) : List (Option (List Byte)) :=
  parts.mapIdx fun i b => if i ∈ c then some b else none

variable {parts : List (List Byte)} {c : Finset ℕ} {i : ℕ} {b : List Byte}

@[simp] theorem length_partsOf : (partsOf parts c).length = parts.length := List.length_mapIdx

theorem getElem?_partsOf (h : parts[i]? = some b) :
    (partsOf parts c)[i]? = some (if i ∈ c then some b else none) := by
  rw [partsOf, List.getElem?_mapIdx, h, Option.map_some]

theorem partsOf_empty : partsOf parts ∅ = List.replicate parts.length none := by
  apply List.ext_getElem
  · rw [length_partsOf, List.length_replicate]
  · intro j hj _
    simp [partsOf]

theorem set_partsOf (h : parts[i]? = some b) :
    (partsOf parts c).set i (some b) = partsOf parts (insert i c) := by
  apply List.ext_getElem?
  intro j
  rw [List.getElem?_set, length_partsOf, partsOf, partsOf, List.getElem?_mapIdx,
    List.getElem?_mapIdx]
  obtain ⟨hi, rfl⟩ := List.getElem?_eq_some_iff.mp h
  by_cases hij : i = j
  · rw [if_pos hij, ← hij, if_pos hi, h, Option.map_some, if_pos (Finset.mem_insert_self i c)]
  · rw [if_neg hij]
    simp only [Finset.mem_insert, Ne.symm hij, false_or]

theorem flatten_partsOf (h : c = Finset.range parts.length) :
    ((partsOf parts c).filterMap id).flatten = parts.flatten := by
  have hall : partsOf parts c = parts.map some := by
    apply List.ext_getElem
    · rw [length_partsOf, List.length_map]
    · intro j hj hj'
      rw [List.length_map] at hj'
      simp [partsOf, h, hj']
  rw [hall, List.filterMap_map]
  simp

/-- **A segment is filled in.** -/
theorem fill_partsOf {p : Partial} (hp : p.parts = partsOf parts c) (hheld : p.held = c.card)
    (h : parts[i]? = some b) :
    (p.fill i b).parts = partsOf parts (insert i c) ∧ (p.fill i b).held = (insert i c).card ∧
      (p.fill i b).startedMs = p.startedMs := by
  unfold Partial.fill
  rw [hp, getElem?_partsOf h]
  by_cases hi : i ∈ c
  · rw [if_pos hi, if_neg (by simp), Finset.insert_eq_self.mpr hi]
    exact ⟨hp, hheld, rfl⟩
  · rw [if_neg hi, if_pos rfl, Finset.card_insert_of_notMem hi]
    exact ⟨set_partsOf h, congrArg (· + 1) hheld, rfl⟩

/-! ## One segment -/

/-- The table holds the parts of a packet with these indices, and nothing if there are none. -/
def Mirrors (s : Sending) (c : Finset ℕ) (t : OrderedMap UInt32 Partial) : Prop :=
  if c = ∅ then t[s.seq]? = none
  else ∃ p, t[s.seq]? = some p ∧ p.parts = partsOf s.parts c ∧ p.held = c.card

theorem Mirrors.congr {t t' : OrderedMap UInt32 Partial} (h : Mirrors s c t)
    (ht : t'[s.seq]? = t[s.seq]?) : Mirrors s c t' := by
  unfold Mirrors at h ⊢
  rwa [ht]

/-- The packet that a segment joins: the one under way, or a new one. -/
theorem Mirrors.getD {t : OrderedMap UInt32 Partial} (h : Mirrors s c t) (nowMs : ℕ) :
    ∃ p, t[s.seq]?.getD { parts := List.replicate s.count none, held := 0, startedMs := nowMs } =
      p ∧
      p.parts = partsOf s.parts c ∧ p.held = c.card ∧
      (p.startedMs = nowMs ∨ ∃ q, t[s.seq]? = some q ∧ p.startedMs = q.startedMs) := by
  unfold Mirrors at h
  split_ifs at h with hc
  · rw [h]
    refine ⟨_, rfl, ?_, ?_, .inl rfl⟩
    · rw [hc, partsOf_empty]
      rfl
    · rw [hc]
      rfl
  · obtain ⟨p, hp, hparts, hheld⟩ := h
    exact ⟨p, by rw [hp]; rfl, hparts, hheld, .inr ⟨p, hp, rfl⟩⟩

/-- **One segment of a packet adds its index**, and the last one that is missing brings out
the packet. -/
theorem Mirrors.place {t : OrderedMap UInt32 Partial} (h : Mirrors s c t) (hs : s.Valid)
    (hc : c ⊆ Finset.range s.count) (hi : i < s.count) (nowMs : ℕ) :
    ∃ t', Reassembly.place t s.seq (UInt8.ofNat i) (UInt8.ofNat s.count) (s.parts.getD i []) nowMs =
        (t', if insert i c = Finset.range s.count then some s.packet else none) ∧
      Mirrors s (if insert i c = Finset.range s.count then ∅ else insert i c) t' ∧
      (∀ k, k ≠ s.seq → t'[k]? = t[k]?) ∧
      ∀ p, t'[s.seq]? = some p → p.startedMs = nowMs ∨ ∃ q, t[s.seq]? = some q ∧
        p.startedMs = q.startedMs := by
  obtain ⟨p, hp, hparts, hheld, hstarted⟩ := h.getD nowMs
  have hcount := hs.toNat_ofNat le_rfl
  have hidx := hs.toNat_ofNat hi.le
  have hlen : p.parts.length = s.count := by
    rw [hparts, length_partsOf]
    rfl
  obtain ⟨hparts', hheld', hstarted'⟩ := fill_partsOf hparts hheld (Sending.getElem?_parts hi)
  have hlen' : (p.fill i (s.parts.getD i [])).parts.length = s.count := by
    rw [hparts', length_partsOf]
    rfl
  have hsub : insert i c ⊆ Finset.range s.count :=
    Finset.insert_subset (Finset.mem_range.mpr hi) hc
  have hfull : (insert i c).card < s.count ↔ insert i c ≠ Finset.range s.count := by
    have hcard := Finset.card_le_card hsub
    rw [Finset.card_range] at hcard
    refine ⟨fun hlt heq => ?_, fun hne => lt_of_le_of_ne hcard fun heq => hne ?_⟩
    · rw [heq, Finset.card_range] at hlt
      exact lt_irrefl _ hlt
    · exact Finset.eq_of_subset_of_card_le hsub (by rw [Finset.card_range, heq])
  unfold Reassembly.place
  dsimp only
  rw [hcount, hidx, hp, if_neg (by omega), hlen', hheld']
  by_cases hall : insert i c = Finset.range s.count
  · rw [if_neg (fun hlt => hfull.mp hlt hall), if_pos hall, if_pos hall]
    have hbytes : (p.fill i (s.parts.getD i [])).bytes = s.packet := by
      rw [Partial.bytes, hparts', flatten_partsOf hall]
      exact flatten_pieces s.packet s.maxItem
    have hshort : s.packet.length ≤ maxPacket := hs.short
    rw [hbytes, if_pos hshort]
    refine ⟨_, rfl, ?_, fun k hk => ?_, fun q hq => ?_⟩
    · rw [Mirrors, if_pos rfl, OrderedMap.getElem?_erase', if_pos rfl]
    · rw [OrderedMap.getElem?_erase', if_neg (Ne.symm hk)]
    · rw [OrderedMap.getElem?_erase', if_pos rfl] at hq
      cases hq
  · rw [if_pos (hfull.mpr hall), if_neg hall, if_neg hall]
    refine ⟨_, rfl, ?_, fun k hk => ?_, fun q hq => ?_⟩
    · rw [Mirrors, if_neg (Finset.insert_ne_empty i c), OrderedMap.getElem?_insert', if_pos rfl]
      exact ⟨_, rfl, hparts', hheld'⟩
    · rw [OrderedMap.getElem?_insert', if_neg (Ne.symm hk)]
    · rw [OrderedMap.getElem?_insert', if_pos rfl] at hq
      cases hq
      rw [hstarted']
      exact hstarted

/-! ## Runs -/

namespace Reassembly

/-- A data item goes to the reassembly at a time. -/
def accept (r : Reassembly) : Item × ℕ → Reassembly × Option (List Byte)
  | (.data seq idx count bytes, nowMs) => r.push seq idx count bytes nowMs
  | _ => (r, none)

def run (r : Reassembly) (arrivals : List (Item × ℕ)) : Reassembly :=
  arrivals.foldl (fun r a => (r.accept a).1) r

end Reassembly

/-- Packets under way at once: fewer than the table holds, told apart by their numbers. -/
structure Sendings (l : List Sending) : Prop where
  fewer : l.length < maxPartial
  distinct : (l.map Sending.seq).Nodup
  valid : ∀ s ∈ l, s.Valid

/-- Segments of these packets, in any order and any number of times, all of them less than
two seconds apart. -/
structure Arrivals (l : List Sending) (arrivals : List (Item × ℕ)) : Prop where
  segments : ∀ a ∈ arrivals, ∃ s ∈ l, a.1 ∈ s.segments
  close : ∀ a ∈ arrivals, ∀ b ∈ arrivals, a.2 - b.2 < expireMs

/-- What the table is after these arrivals. -/
structure Inv (l : List Sending) (arrivals : List (Item × ℕ)) (t : OrderedMap UInt32 Partial) :
    Prop where
  mirrors : ∀ s ∈ l, Mirrors s (s.collected (arrivals.map Prod.fst)) t
  incomplete : ∀ s ∈ l, s.collected (arrivals.map Prod.fst) ⊂ Finset.range s.count
  keys : ∀ (k : UInt32) (p : Partial), t[k]? = some p → k ∈ l.map Sending.seq
  started : ∀ (k : UInt32) (p : Partial), t[k]? = some p → ∃ a ∈ arrivals, p.startedMs = a.2

variable {l : List Sending} {arrivals : List (Item × ℕ)} {t : OrderedMap UInt32 Partial}
    {s : Sending}

theorem Sendings.eq_of_seq (hl : Sendings l) {s' : Sending} (hs : s ∈ l) (hs' : s' ∈ l)
    (h : s.seq = s'.seq) : s = s' :=
  List.inj_on_of_nodup_map hl.distinct hs hs' h

theorem Inv.retain_eq (h : Inv l arrivals t) {nowMs : ℕ}
    (hclose : ∀ a ∈ arrivals, nowMs - a.2 < expireMs) :
    Reassembly.retain t nowMs = t := by
  apply Std.ExtTreeMap.ext_getElem?
  intro k
  rw [Reassembly.retain, Std.ExtTreeMap.getElem?_filter']
  cases hk : t[k]? with
  | none => rfl
  | some p =>
    obtain ⟨a, ha, hp⟩ := h.started k p hk
    rw [Option.filter_some, if_pos (by rw [hp]; exact decide_eq_true (hclose a ha))]

theorem Inv.makeRoom_eq (hl : Sendings l) (h : Inv l arrivals t) (seq : UInt32) :
    Reassembly.makeRoom t seq = some t := by
  have hsub : t.keys ⊆ l.map Sending.seq := by
    intro k hk
    have hmem := Std.ExtTreeMap.mem_keys.mp hk
    obtain ⟨p, hp⟩ := Option.isSome_iff_exists.mp (Std.ExtTreeMap.mem_iff_isSome_getElem?.mp hmem)
    exact h.keys k p hp
  have hsize := ((OrderedMap.nodup_keys (t := t)).subperm hsub).length_le
  rw [Std.ExtTreeMap.length_keys, List.length_map] at hsize
  have hfewer := hl.fewer
  rw [Reassembly.makeRoom, if_neg (by omega)]

theorem Sending.packet_of_single (h : s.count = 1) : s.parts.getD 0 [] = s.packet := by
  obtain ⟨x, hx⟩ := List.length_eq_one_iff.mp h
  have hflat : s.parts.flatten = s.packet := flatten_pieces s.packet s.maxItem
  rw [← hflat, hx]
  simp

/-- What one arrival does to the table and what it brings out. -/
theorem Inv.accept_eq (hl : Sendings l) {a : Item × ℕ} (ha : Arrivals l (arrivals ++ [a]))
    (h : Inv l arrivals t) (hs : s ∈ l) (hi : i < s.count) (hitem : a.1 = s.item i) :
    ∃ t', Reassembly.accept ⟨t⟩ a = (⟨t'⟩,
        if insert i (s.collected (arrivals.map Prod.fst)) = Finset.range s.count then some s.packet
          else none) ∧
      Mirrors s (s.collected ((arrivals ++ [a]).map Prod.fst)) t' ∧
      (∀ k, k ≠ s.seq → t'[k]? = t[k]?) ∧
      ∀ p, t'[s.seq]? = some p → p.startedMs = a.2 ∨ ∃ q, t[s.seq]? = some q ∧
        p.startedMs = q.startedMs := by
  obtain ⟨it, nowMs⟩ := a
  dsimp only at hitem ⊢
  have hv := hl.valid s hs
  rw [List.map_append, List.map_singleton, Sending.collected_concat, hitem, hv.collect_item hi]
  have hc := h.incomplete s hs
  have hmirrors := h.mirrors s hs
  have hcount := hv.toNat_ofNat le_rfl
  unfold Sending.item Reassembly.accept Reassembly.push
  dsimp only
  by_cases hone : s.count = 1
  · obtain rfl : i = 0 := by omega
    have hempty : s.collected (arrivals.map Prod.fst) = ∅ := by
      rw [hone, Finset.range_one, Finset.ssubset_singleton_iff] at hc
      exact hc
    have hone' : UInt8.ofNat s.count = 1 := by
      rw [hone]
      rfl
    have hshort : s.packet.length ≤ maxPacket := hv.short
    have hfull : insert 0 (∅ : Finset ℕ) = Finset.range s.count := by
      rw [hone]
      rfl
    rw [if_pos hone', Sending.packet_of_single hone, if_pos hshort, hempty, if_pos hfull,
      if_pos hfull]
    rw [hempty] at hmirrors
    exact ⟨t, rfl, hmirrors, fun _ _ => rfl, fun p hp => .inr ⟨p, hp, rfl⟩⟩
  · have hone' : ¬ UInt8.ofNat s.count = 1 := by
      intro heq
      rw [heq] at hcount
      exact hone hcount.symm
    have hlast : (it, nowMs) ∈ arrivals ++ [(it, nowMs)] :=
      List.mem_append_right _ (List.mem_singleton_self _)
    have hretain :=
      h.retain_eq fun a' ha' => ha.close (it, nowMs) hlast a' (List.mem_append_left _ ha')
    obtain ⟨t', ht', hrest⟩ := hmirrors.place hv hc.subset hi nowMs
    rw [if_neg hone', hretain, h.makeRoom_eq hl]
    dsimp only
    rw [ht']
    exact ⟨t', rfl, hrest⟩

/-- **One arrival** keeps the invariant. -/
theorem Inv.accept (hl : Sendings l) {a : Item × ℕ} (ha : Arrivals l (arrivals ++ [a]))
    (h : Inv l arrivals t) :
    Inv l (arrivals ++ [a]) (Reassembly.accept ⟨t⟩ a).1.table := by
  obtain ⟨s, hs, hmem⟩ := ha.segments a (List.mem_append_right _ (List.mem_singleton_self _))
  have hv := hl.valid s hs
  obtain ⟨i, hi, hitem⟩ := hv.mem_segments.mp hmem
  obtain ⟨t', ht', hmirrors, hframe, hstarted⟩ := h.accept_eq hl ha hs hi hitem
  have hother {s' : Sending} (hs' : s' ∈ l) (hne : s' ≠ s) :
      s'.collected ((arrivals ++ [a]).map Prod.fst) = s'.collected (arrivals.map Prod.fst) := by
    have hseq : s.seq ≠ s'.seq := fun heq => hne (hl.eq_of_seq hs hs' heq).symm
    rw [List.map_append, List.map_singleton, Sending.collected_concat, hitem,
      Sending.collect_other hseq]
  rw [ht']
  constructor
  · intro s' hs'
    by_cases hss : s' = s
    · rw [hss]
      exact hmirrors
    · rw [hother hs' hss]
      exact (h.mirrors s' hs').congr (hframe s'.seq fun heq => hss (hl.eq_of_seq hs' hs heq))
  · intro s' hs'
    by_cases hss : s' = s
    · rw [hss, List.map_append, List.map_singleton, Sending.collected_concat, hitem,
        hv.collect_item hi]
      split_ifs with hfull
      · exact Finset.empty_ssubset.mpr ⟨0, Finset.mem_range.mpr s.count_pos⟩
      · exact Finset.ssubset_iff_subset_ne.mpr
          ⟨Finset.insert_subset (Finset.mem_range.mpr hi) (h.incomplete s hs).subset, hfull⟩
    · rw [hother hs' hss]
      exact h.incomplete s' hs'
  · intro k p hp
    by_cases hk : k = s.seq
    · rw [hk]
      exact List.mem_map_of_mem hs
    · rw [hframe k hk] at hp
      exact h.keys k p hp
  · intro k p hp
    have hold {q : Partial} (hq : t[k]? = some q) (hpq : p.startedMs = q.startedMs) :
        ∃ a' ∈ arrivals ++ [a], p.startedMs = a'.2 := by
      obtain ⟨a', ha', hq'⟩ := h.started k q hq
      exact ⟨a', List.mem_append_left _ ha', hpq.trans hq'⟩
    by_cases hk : k = s.seq
    · rw [hk] at hp
      rcases hstarted p hp with hnow | ⟨q, hq, hpq⟩
      · exact ⟨a, List.mem_append_right _ (List.mem_singleton_self _), hnow⟩
      · exact hold (hk ▸ hq) hpq
    · exact hold (hframe k hk ▸ hp) rfl

end EvansComputer.Cell
