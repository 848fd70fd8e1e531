import EvansComputer.Cell.Scheduling

/-!
# The scheduler is fair and its grants do not meet

Of the phones that share a sub-channel the one whose turn it is is told from the slot alone:
`(slot / run) % m` (`place_share_lt_iff`).  So no two of them are allowed the same slot, and
in a period each of them has a turn.  Phones of different sub-channels do not meet anyway.

A call is placed before the phones without one, and these only go where no call is, while
there are fewer calls than sub-channels (`eq_singleton_of_voice`).
-/

namespace EvansComputer.Cell

/-! ## Sub-channels -/

variable {cellId : UInt32} {rachSub neighbourMask : Byte}

theorem subPreference_perm (cellId : UInt32) (rachSub neighbourMask : Byte) :
    (subPreference cellId rachSub neighbourMask).Perm
    (([1, 2, 3, 4] : List Byte).filter (· ≠ rachSub)) :=
  List.perm_insertionSort _ _

theorem nodup_subPreference : (subPreference cellId rachSub neighbourMask).Nodup :=
  (subPreference_perm _ _ _).nodup_iff.mpr (List.Nodup.filter _ (by decide))

theorem mem_subPreference {s : Byte} (h : s ∈ subPreference cellId rachSub neighbourMask) :
    s ≤ 4 ∧ s ≠ rachSub := by
  rw [(subPreference_perm _ _ _).mem_iff, List.mem_filter] at h
  refine ⟨?_, of_decide_eq_true h.2⟩
  have hall : ∀ s ∈ ([1, 2, 3, 4] : List Byte), s ≤ 4 := by decide +kernel
  exact hall s h.1

theorem length_subPreference (h : 1 ≤ rachSub ∧ rachSub ≤ 4) (cellId : UInt32)
    (neighbourMask : Byte) : (subPreference cellId rachSub neighbourMask).length = 3 := by
  rw [(subPreference_perm _ _ _).length_eq]
  have hcases : rachSub ∈ ([1, 2, 3, 4] : List Byte) := by
    have h1 := UInt8.le_iff_toNat_le.mp h.1
    have h4 := UInt8.le_iff_toNat_le.mp h.2
    change 1 ≤ rachSub.toNat at h1
    change rachSub.toNat ≤ 4 at h4
    simp only [List.mem_cons, ← UInt8.toNat_inj, List.not_mem_nil, or_false]
    change rachSub.toNat = 1 ∨ rachSub.toNat = 2 ∨ rachSub.toNat = 3 ∨ rachSub.toNat = 4
    omega
  have hall :
    ∀ r ∈ ([1, 2, 3, 4] : List Byte), (([1, 2, 3, 4] : List Byte).filter (· ≠ r)).length = 3 := by
    decide +kernel
  exact hall rachSub hcases

/-! ## Who goes where -/

section Placing

variable {k restFrom : ℕ} {st : List (List SchedUe) × ℕ}

/-- Where a phone goes. -/
def spot (k restFrom j : ℕ) (x : SchedUe × ℕ) : ℕ :=
  if x.1.voice then x.2 % k else restFrom + j % (k - restFrom)

theorem placeUe_fst (st : List (List SchedUe) × ℕ) (x : SchedUe × ℕ) :
    (placeUe k restFrom st x).1 = st.1.modify (spot k restFrom st.2 x) (· ++ [x.1]) := by
  obtain ⟨per, j⟩ := st
  obtain ⟨u, i⟩ := x
  unfold placeUe spot
  dsimp only
  split_ifs <;> rfl

theorem spot_lt (h : restFrom < k) (j : ℕ) (x : SchedUe × ℕ) : spot k restFrom j x < k := by
  unfold spot
  split_ifs
  · exact Nat.mod_lt _ (by omega)
  · have hmod := Nat.mod_lt j (show 0 < k - restFrom by omega)
    omega

theorem flatten_modify_perm {per : List (List SchedUe)} {i : ℕ} (h : i < per.length) (u : SchedUe) :
    (per.modify i (· ++ [u])).flatten.Perm (per.flatten ++ [u]) := by
  induction per generalizing i with
  | nil => exact absurd h (Nat.not_lt_zero i)
  | cons l per ih =>
    cases i with
    | zero =>
      rw [List.modify_zero_cons, List.flatten_cons, List.flatten_cons, List.append_assoc,
        List.append_assoc]
      exact (List.perm_append_comm).append_left l
    | succ i =>
      rw [List.modify_succ_cons, List.flatten_cons, List.flatten_cons, List.append_assoc]
      exact (ih (Nat.lt_of_succ_lt_succ h)).append_left l

/-- **Every phone goes to one of the sub-channels.** -/
theorem foldl_placeUe (h : restFrom < k) (l : List (SchedUe × ℕ)) (hst : st.1.length = k) :
    (l.foldl (placeUe k restFrom) st).1.length = k ∧
      (l.foldl (placeUe k restFrom) st).1.flatten.Perm (st.1.flatten ++ l.map Prod.fst) := by
  induction l generalizing st with
  | nil =>
    rw [List.map_nil, List.append_nil]
    exact ⟨hst, List.Perm.refl _⟩
  | cons x l ih =>
    have hlen : (placeUe k restFrom st x).1.length = k := by
      rw [placeUe_fst, List.length_modify, hst]
    obtain ⟨hk, hperm⟩ := ih hlen
    refine ⟨hk, hperm.trans ?_⟩
    have hspot : spot k restFrom st.2 x < st.1.length := by
      rw [hst]
      exact spot_lt h st.2 x
    rw [placeUe_fst, List.map_cons, List.append_cons]
    exact (flatten_modify_perm hspot x.1).append_right _

theorem modify_middle {α : Type} (A B : List α) (b : α) (f : α → α) :
    (A ++ b :: B).modify A.length f = A ++ f b :: B := by
  induction A with
  | nil => exact List.modify_zero_cons ..
  | cons a A ih => exact congrArg (a :: ·) ih

/-- The calls, fewer than the sub-channels, each have one of their own. -/
theorem foldl_voice (vs done : List SchedUe) (hvoice : ∀ u ∈ vs, u.voice = true)
    (hk : (done ++ vs).length ≤ k) : (vs.zipIdx done.length).foldl (placeUe k restFrom)
        (done.map ([·]) ++ List.replicate (k - done.length) [], 0) =
      ((done ++ vs).map ([·]) ++ List.replicate (k - (done ++ vs).length) [], 0) := by
  induction vs generalizing done with
  | nil => rw [List.append_nil, List.zipIdx_nil, List.foldl_nil]
  | cons u vs ih =>
    have hlen : done.length + (vs.length + 1) ≤ k := by
      rwa [List.length_append, List.length_cons] at hk
    obtain ⟨n, hn⟩ : ∃ n, k - done.length = n + 1 := ⟨k - done.length - 1, by omega⟩
    have hstep : placeUe k restFrom (done.map ([·]) ++ List.replicate (k - done.length) [], 0)
      (u, done.length) =
        ((done ++ [u]).map ([·]) ++ List.replicate (k - (done ++ [u]).length) [], 0) := by
      unfold placeUe
      dsimp only
      rw [if_pos (hvoice u List.mem_cons_self), Nat.mod_eq_of_lt (by omega), hn, List.length_append,
        List.length_singleton, show k - (done.length + 1) =
          n by omega, List.replicate_succ, List.map_append,
        List.append_assoc]
      have hmiddle := modify_middle (done.map ([·])) (List.replicate n []) [] (· ++ [u])
      rw [List.length_map] at hmiddle
      rw [hmiddle]
      rfl
    have hnext := ih (done ++ [u]) (fun v hv => hvoice v (List.mem_cons_of_mem _ hv)) (by
      rw [List.append_assoc]
      exact hk)
    rw [List.zipIdx_cons, List.foldl_cons, hstep]
    rw [List.append_assoc, List.singleton_append, List.length_append,
      List.length_singleton] at hnext
    rw [List.length_append, List.length_singleton]
    exact hnext

theorem foldl_rest (rs : List (SchedUe × ℕ)) (hrs : ∀ x ∈ rs, x.1.voice = false)
    (hst : ∀ i B, restFrom ≤ i → st.1[i]? = some B → ∀ u ∈ B, u.voice = false) :
    (∀ i < restFrom, (rs.foldl (placeUe k restFrom) st).1[i]? = st.1[i]?) ∧
      ∀ i B, restFrom ≤ i → (rs.foldl (placeUe k restFrom) st).1[i]? = some B → ∀ u ∈ B,
        u.voice = false := by
  induction rs generalizing st with
  | nil => exact ⟨fun _ _ => rfl, hst⟩
  | cons x rs ih =>
    have hx := hrs x List.mem_cons_self
    have hspot : restFrom ≤ spot k restFrom st.2 x := by
      unfold spot
      rw [if_neg (by rw [hx]; decide)]
      exact Nat.le_add_right _ _
    have hnext : ∀ i B, restFrom ≤ i → (placeUe k restFrom st x).1[i]? = some B → ∀ u ∈ B,
      u.voice = false := by
      intro i B hi hB u hu
      rw [placeUe_fst] at hB
      by_cases hii : spot k restFrom st.2 x = i
      · rw [hii, List.getElem?_modify_eq] at hB
        obtain ⟨B', hB', rfl⟩ := Option.map_eq_some_iff.mp hB
        rcases List.mem_append.mp hu with hold | hnew
        · exact hst i B' hi hB' u hold
        · rw [List.mem_singleton.mp hnew]
          exact hx
      · rw [List.getElem?_modify_ne _ _ hii] at hB
        exact hst i B hi hB u hu
    obtain ⟨hsame, hrest⟩ := ih (fun y hy => hrs y (List.mem_cons_of_mem _ hy)) hnext
    refine ⟨fun i hi => (hsame i hi).trans ?_, hrest⟩
    rw [placeUe_fst, List.getElem?_modify_ne _ _ (by omega)]

end Placing

theorem voice_first {l : List SchedUe} (h : l.Pairwise fun u v => u.rank ≤ v.rank) :
    l = l.filter (·.voice) ++ l.filter fun u => !u.voice := by
  induction l with
  | nil => rfl
  | cons u l ih =>
    obtain ⟨hu, hl⟩ := List.pairwise_cons.mp h
    cases hvoice : u.voice with
    | true =>
      rw [List.filter_cons_of_pos hvoice, List.filter_cons_of_neg (by rw [hvoice]; decide),
        List.cons_append]
      exact congrArg (u :: ·) (ih hl)
    | false =>
      have hall : ∀ v ∈ l, v.voice = false := by
        intro v hv
        by_contra hne
        have hvoice' : v.voice = true := by simpa using hne
        have hrank := hu v hv
        rw [SchedUe.rank, SchedUe.rank, Prod.Lex.toLex_le_toLex] at hrank
        simp [hvoice, hvoice'] at hrank
      rw [List.filter_eq_nil_iff.mpr, List.nil_append, List.filter_eq_self.mpr]
      · intro v hv
        rcases List.mem_cons.mp hv with rfl | hv
        · rw [hvoice]
          rfl
        · rw [hall v hv]
          rfl
      · intro v hv
        rcases List.mem_cons.mp hv with rfl | hv
        · rw [hvoice]
          decide
        · rw [hall v hv]
          decide

section Order

variable {ues : List SchedUe} {k : ℕ}

/-- The phones in the order they are placed in. -/
def order (ues : List SchedUe) : List SchedUe := ues.insertionSort fun u v => u.rank ≤ v.rank

theorem order_perm (ues : List SchedUe) : (order ues).Perm ues := List.perm_insertionSort _ _

/-- The calls come first, and then the phones without one. -/
theorem exists_order_eq (ues : List SchedUe) :
    ∃ vs rs, order ues = vs ++ rs ∧ (∀ u ∈ vs, u.voice = true) ∧ (∀ u ∈ rs, u.voice = false) ∧
      ((order ues).filter (·.voice)).length = vs.length := by
  have : Std.Total fun u v : SchedUe => u.rank ≤ v.rank := ⟨fun u v => le_total u.rank v.rank⟩
  have : IsTrans SchedUe fun u v => u.rank ≤ v.rank := ⟨fun _ _ _ huv hvw => le_trans huv hvw⟩
  refine ⟨_, _, voice_first (List.pairwise_insertionSort _ ues), fun u hu => ?_,
    fun u hu => ?_, rfl⟩
  · exact (List.mem_filter.mp hu).2
  · simpa using (List.mem_filter.mp hu).2

theorem length_voice (ues : List SchedUe) :
    ((order ues).filter (·.voice)).length = (ues.filter (·.voice)).length :=
  ((order_perm ues).filter _).length_eq

/-- **Every phone is placed**, on one of the sub-channels. -/
theorem placeUes_perm (hk : 0 < k) (ues : List SchedUe) :
    (placeUes ues k).length = k ∧ (placeUes ues k).flatten.Perm ues := by
  have hrest :
    (if ((order ues).filter (·.voice)).length < k then ((order ues).filter (·.voice)).length
    else 0) < k := by
    split_ifs with h
    · exact h
    · exact hk
  obtain ⟨hlen, hperm⟩ :=
    @foldl_placeUe _ _ (List.replicate k [], 0) hrest (order ues).zipIdx List.length_replicate
  refine ⟨hlen, hperm.trans ?_⟩
  rw [List.flatten_replicate_nil, List.nil_append, List.zipIdx_map_fst]
  exact order_perm ues

/-- **A call is alone**, while there are fewer calls than sub-channels. -/
theorem eq_singleton_of_voice (hvoice : (ues.filter (·.voice)).length < k) {B : List SchedUe}
    (hB : B ∈ placeUes ues k) {u : SchedUe} (hu : u ∈ B) (huv : u.voice = true) : B = [u] := by
  rw [← length_voice] at hvoice
  obtain ⟨vs, rs, hsplit, hvs, hrs, hcount⟩ := exists_order_eq ues
  have hplace : placeUes ues k = ((rs.zipIdx vs.length).foldl (placeUe k vs.length)
      (vs.map ([·]) ++ List.replicate (k - vs.length) [], 0)).1 := by
    change ((order ues).zipIdx.foldl (placeUe k (if ((order ues).filter (·.voice)).length < k then
      ((order ues).filter (·.voice)).length else 0)) (List.replicate k [], 0)).1 = _
    rw [hcount] at hvoice
    have hfold := @foldl_voice k vs.length vs [] hvs hvoice.le
    rw [hcount, if_pos hvoice, hsplit, List.zipIdx_append, List.foldl_append, Nat.zero_add]
    exact congrArg (fun st => ((rs.zipIdx vs.length).foldl (placeUe k vs.length) st).1) hfold
  have hrest := @foldl_rest k vs.length (vs.map ([·]) ++ List.replicate (k - vs.length) [], 0)
    (rs.zipIdx vs.length)
    (fun x hx => hrs x.1 (List.fst_mem_of_mem_zipIdx hx)) (fun i B hi hB => ?_)
  · rw [← hplace] at hrest
    obtain ⟨i, hi⟩ := List.getElem?_of_mem hB
    by_cases hin : i < vs.length
    · rw [hrest.1 i hin, List.getElem?_append_left (by rwa [List.length_map]), List.getElem?_map,
        List.getElem?_eq_getElem hin] at hi
      cases hi
      rw [List.mem_singleton.mp hu]
    · have hnot := hrest.2 i B (by omega) hi u hu
      rw [hnot] at huv
      cases huv
  · rw [List.getElem?_append_right (by rwa [List.length_map])] at hB
    have hnil := List.eq_of_mem_replicate (List.mem_of_getElem? hB)
    rw [hnil]
    exact fun u hu => nomatch hu

end Order

/-! ## Taking turns -/

/-- The slots of one turn, when `m` phones share a sub-channel. -/
def turn (run : UInt16) (m : ℕ) : ℕ := if m = 1 then 1 else (max run 1).toNat

/-- The grant of the `j`-th of `m` phones, where nothing overflows. -/
def share (fromSlot toSlot : UInt64) (run : UInt16) (sub : Byte) (m : ℕ) (x : SchedUe × ℕ) :
    UInt32 × Grant :=
  (x.1.addr, { fromSlot, toSlot, period := UInt16.ofNat (turn run m * m),
               offset := UInt16.ofNat (turn run m * x.2),
               len := UInt16.ofNat (turn run m), subchannel := sub, cqi := max x.1.cqi 1 })

section Share

variable {fromSlot toSlot : UInt64} {run : UInt16} {sub : Byte} {m : ℕ}
    {x y : SchedUe × ℕ} {slot : ℕ}

theorem max_one_pos (run : UInt16) : 0 < (max run 1).toNat := by
  change 0 < (if run ≤ 1 then 1 else run).toNat
  split_ifs with h
  · decide
  · have hlt := UInt16.lt_iff_toNat_lt.mp (UInt16.not_le.mp h)
    exact (Nat.zero_le 1).trans_lt hlt

theorem turn_pos (run : UInt16) (m : ℕ) : 0 < turn run m := by
  unfold turn
  split_ifs
  · exact Nat.one_pos
  · exact max_one_pos run

section

variable (hm : m * (max run 1).toNat < 65536)
include hm

theorem turn_mul_lt : turn run m * m < 65536 := by
  unfold turn
  split_ifs with hone
  · rw [hone]
    decide
  · rwa [Nat.mul_comm]

theorem grantFor_eq (hx : x.2 < m) :
    grantFor fromSlot toSlot run sub (UInt16.ofNat m) x =
      some (share fromSlot toSlot run sub m x) := by
  have hpos := turn_pos run m
  have hle : m ≤ m * (max run 1).toNat := Nat.le_mul_of_pos_right m (max_one_pos run)
  have hmod {i : ℕ} (hi : i ≤ m) : (UInt16.ofNat i).toNat = i := by
    rw [UInt16.toNat_ofNat']
    omega
  have hmul {i : ℕ} (hi : i ≤ m) : checkedMul (max run 1) (UInt16.ofNat i) =
      some (UInt16.ofNat ((max run 1).toNat * i)) := by
    have hlt : (max run 1).toNat * i < 65536 := by
      have := Nat.mul_le_mul_left (max run 1).toNat hi
      rw [Nat.mul_comm (max run 1).toNat m] at this
      omega
    rw [checkedMul, hmod hi, if_pos hlt]
    refine congrArg some (UInt16.toNat_inj.mp ?_)
    rw [UInt16.toNat_mul, hmod hi, UInt16.toNat_ofNat']
  unfold grantFor share turn
  by_cases hone : m = 1
  · have hzero : x.2 = 0 := by omega
    have hfirst : UInt16.ofNat 1 = 1 := rfl
    rw [hone, hzero, if_pos hfirst, if_pos rfl]
    rfl
  · have hne : ¬ UInt16.ofNat m = 1 := by
      intro heq
      have htoNat := congrArg UInt16.toNat heq
      rw [hmod le_rfl] at htoNat
      exact hone htoNat
    rw [if_neg hne, if_neg hone]
    dsimp only
    rw [hmul le_rfl, hmul hx.le, UInt16.ofNat_toNat]
    rfl

omit hm in
theorem share_toNat (fromSlot toSlot : UInt64)
    (sub : Byte) (hm : m * (max run 1).toNat < 65536) (hx : x.2 < m) :
    (share fromSlot toSlot run sub m x).2.period.toNat = turn run m * m ∧
      (share fromSlot toSlot run sub m x).2.offset.toNat = turn run m * x.2 ∧
      (share fromSlot toSlot run sub m x).2.len.toNat = turn run m := by
  have hlt := turn_mul_lt hm
  have hoffset := Nat.mul_le_mul_left (turn run m) hx.le
  have hlen : turn run m ≤ turn run m * m := Nat.le_mul_of_pos_right _ (by omega)
  refine ⟨?_, ?_, ?_⟩
  · exact UInt16.toNat_ofNat_of_lt' hlt
  · exact UInt16.toNat_ofNat_of_lt' (hoffset.trans_lt hlt)
  · exact UInt16.toNat_ofNat_of_lt' (hlen.trans_lt hlt)

/-- **A share of a sub-channel is a grant.** -/
theorem wellFormed_share (hx : x.2 < m) (hsub : sub ≤ 4) (hslots : fromSlot ≤ toSlot) :
    (share fromSlot toSlot run sub m x).2.WellFormed := by
  obtain ⟨hperiod, hoffset, hlen⟩ := share_toNat fromSlot toSlot sub hm hx
  have hpos := turn_pos run m
  have hle : turn run m ≤ turn run m * m := Nat.le_mul_of_pos_right _ (by omega)
  refine ⟨fun hz => ?_, fun hz => ?_, ?_, ?_, hsub, hslots⟩
  · rw [hz] at hperiod
    change 0 = _ at hperiod
    omega
  · rw [hz] at hlen
    change 0 = _ at hlen
    omega
  · rw [UInt16.le_iff_toNat_le, hlen, hperiod]
    exact hle
  · rw [UInt16.lt_iff_toNat_lt, hoffset, hperiod]
    exact Nat.mul_lt_mul_of_pos_left hx hpos

/-- **Whose turn it is can be told from the slot.** -/
theorem place_share_lt_iff (hx : x.2 < m) :
    (share fromSlot toSlot run sub m x).2.place slot <
    (share fromSlot toSlot run sub m x).2.len.toNat ↔
      slot / turn run m % m = x.2 := by
  obtain ⟨hperiod, hoffset, hlen⟩ := share_toNat fromSlot toSlot sub hm hx
  have hpos := turn_pos run m
  rw [Grant.place, hperiod, hoffset, hlen]
  have hsum : slot + turn run m * m - turn run m * x.2 = slot + turn run m * (m - x.2) := by
    rw [Nat.add_sub_assoc (Nat.mul_le_mul_left _ hx.le), ← Nat.mul_sub]
  have hrem := Nat.mod_lt slot hpos
  rw [hsum, Nat.mod_mul, Nat.add_mul_mod_self_left, Nat.add_mul_div_left _ _ hpos]
  have hturn := Nat.mod_lt (slot / turn run m) (show 0 < m by omega)
  have hzero : (slot / turn run m + (m - x.2)) % m = 0 ↔ slot / turn run m % m = x.2 := by
    rw [Nat.add_mod]
    by_cases hj : x.2 = 0
    · rw [hj, Nat.sub_zero, Nat.mod_self, Nat.add_zero, Nat.mod_mod]
    · rw [Nat.mod_eq_of_lt (show m - x.2 < m by omega)]
      constructor
      · intro hz
        by_contra hne
        by_cases hlt : slot / turn run m % m + (m - x.2) < m
        · rw [Nat.mod_eq_of_lt hlt] at hz
          omega
        · rw [Nat.mod_eq_sub_mod (by omega), Nat.mod_eq_of_lt (by omega)] at hz
          omega
      · intro heq
        rw [heq, show x.2 + (m - x.2) = m by omega, Nat.mod_self]
  rw [← hzero]
  constructor
  · intro hlt
    by_contra hne
    have hge := Nat.le_mul_of_pos_right (turn run m) (Nat.pos_of_ne_zero hne)
    omega
  · intro hz
    rw [hz, Nat.mul_zero, Nat.add_zero]
    exact hrem

theorem fits_share (hx : x.2 < m)
    (hfits : 2 ≤ m → fromSlot < toSlot → toSlot.toNat + m * (max run 1).toNat ≤ 2 ^ 64) :
    (share fromSlot toSlot run sub m x).2.Fits := by
  obtain ⟨hperiod, -, -⟩ := share_toNat fromSlot toSlot sub hm hx
  intro hlt
  rw [hperiod]
  have hto := toSlot.toNat_lt
  by_cases hone : m = 1
  · rw [hone]
    change toSlot.toNat + 1 ≤ 2 ^ 64
    omega
  · rw [turn, if_neg hone, Nat.mul_comm]
    exact hfits (by omega) hlt

theorem share_apart (hslots : fromSlot ≤ toSlot) (hsub : sub ≤ 4)
    (hfits : 2 ≤ m → fromSlot < toSlot → toSlot.toNat + m * (max run 1).toNat ≤ 2 ^ 64)
    (hx : x.2 < m) (hy : y.2 < m) (hne : x.2 ≠ y.2) (slot : ℕ) :
    ∃ a b, (share fromSlot toSlot run sub m x).2.allows slot = some a ∧
      (share fromSlot toSlot run sub m y).2.allows slot = some b ∧ ¬ (a = true ∧ b = true) := by
  by_cases hin : fromSlot.toNat ≤ slot ∧ slot < toSlot.toNat
  · refine ⟨_, _, (wellFormed_share hm hx hsub hslots).allows_eq
      (fits_share hm hx hfits) hin.1 hin.2,
      (wellFormed_share hm hy hsub hslots).allows_eq (fits_share hm hy hfits) hin.1 hin.2, ?_⟩
    rw [decide_eq_true_iff, decide_eq_true_iff, place_share_lt_iff hm hx, place_share_lt_iff hm hy]
    rintro ⟨hxs, hys⟩
    exact hne (hxs.symm.trans hys)
  · exact ⟨false, false, Grant.allows_outside hin, Grant.allows_outside hin, fun h => nomatch h.1⟩

theorem share_served (hslots : fromSlot ≤ toSlot) (hsub : sub ≤ 4)
    (hfits : 2 ≤ m → fromSlot < toSlot → toSlot.toNat + m * (max run 1).toNat ≤ 2 ^ 64)
    (hx : x.2 < m) {a b : ℕ} (ha : fromSlot.toNat ≤ a) (hb : b ≤ toSlot.toNat)
    (hab : a + (share fromSlot toSlot run sub m x).2.period.toNat ≤ b) :
    ∃ slot, a ≤ slot ∧ slot < b ∧ (share fromSlot toSlot run sub m x).2.allows slot =
      some true := by
  have hwf := wellFormed_share hm hx hsub hslots
  obtain ⟨slot, hle, hlt, hzero⟩ := hwf.exists_place_zero a
  refine ⟨slot, hle, by omega, ?_⟩
  have hfrom : (share fromSlot toSlot run sub m x).2.fromSlot.toNat ≤ slot := ha.trans hle
  have hto : slot < (share fromSlot toSlot run sub m x).2.toSlot.toNat :=
    (hlt.trans_le hab).trans_le hb
  rw [hwf.allows_eq (fits_share hm hx hfits) hfrom hto, hzero]
  exact congrArg some (decide_eq_true hwf.len_pos)

end

theorem share_alone (hrun : 1 * (max run 1).toNat < 65536) (hslots : fromSlot ≤ toSlot)
    (hsub : sub ≤ 4) {u : SchedUe} (hfrom : fromSlot.toNat ≤ slot) (hto : slot < toSlot.toNat) :
    (share fromSlot toSlot run sub 1 (u, 0)).2.allows slot = some true := by
  have hfits : 2 ≤ 1 → fromSlot < toSlot → toSlot.toNat + 1 * (max run 1).toNat ≤ 2 ^ 64 :=
    fun h => absurd h (by decide)
  have hwf := wellFormed_share (x := (u, 0)) hrun Nat.one_pos hsub hslots
  rw [hwf.allows_eq (fits_share hrun Nat.one_pos hfits) hfrom hto]
  exact congrArg some (decide_eq_true ((place_share_lt_iff hrun Nat.one_pos).mpr (Nat.mod_one _)))

end Share

/-! ## The plan -/

/-- What is granted on one sub-channel, where nothing overflows. -/
def shares (subs : List Byte) (fromSlot toSlot : UInt64) (run : UInt16) (x : List SchedUe × ℕ) :
    List (UInt32 × Grant) :=
  x.1.zipIdx.map (share fromSlot toSlot run (subs.getD x.2 1) x.1.length)

/-- What a site promises its phones: one grant each, never two in the same slot of a
sub-channel, none on the one for random access, a turn in every period, and calls alone. -/
structure Fair (ues : List SchedUe) (rachSub : Byte) (fromSlot toSlot : UInt64)
    (out : List (UInt32 × Grant)) :
    Prop where
  everyone : (out.map Prod.fst).Perm (ues.map SchedUe.addr)
  valid : ∀ x ∈ out, x.2.WellFormed
  apart : out.Pairwise fun x y => x.2.subchannel = y.2.subchannel → ∀ slot < 2 ^ 64, ∃ a b,
    x.2.allows slot = some a ∧ y.2.allows slot = some b ∧ ¬ (a = true ∧ b = true)
  rach : ∀ x ∈ out, x.2.subchannel ≠ rachSub
  served : ∀ x ∈ out, ∀ a b, fromSlot.toNat ≤ a → b ≤ toSlot.toNat → a + x.2.period.toNat ≤ b →
    ∃ slot, a ≤ slot ∧ slot < b ∧ x.2.allows slot = some true
  calls : (ues.filter (·.voice)).length < 3 → ∀ u ∈ ues, u.voice = true → ∃ x ∈ out, x.1 = u.addr ∧
    (∀ slot, fromSlot.toNat ≤ slot → slot < toSlot.toNat → x.2.allows slot = some true) ∧
    ∀ y ∈ out, y.2.subchannel = x.2.subchannel → y = x

section Plan

variable {ues : List SchedUe} {subs : List Byte} {fromSlot toSlot : UInt64} {run : UInt16} {k : ℕ}

theorem grantsOn_eq {x : List SchedUe × ℕ} (h : x.1.length * (max run 1).toNat < 65536) :
    grantsOn subs fromSlot toSlot run x = some (shares subs fromSlot toSlot run x) := by
  refine mapM_eq_some fun y hy => grantFor_eq h ?_
  have hlt := List.snd_lt_add_of_mem_zipIdx hy
  omega

/-- **The plan, where no product overflows.** -/
theorem plan_eq (h : ∀ B ∈ placeUes ues (max subs.length 1), B.length * (max run 1).toNat < 65536) :
    ∃ mask, plan ues subs fromSlot toSlot run =
      some (((placeUes ues (max subs.length 1)).zipIdx.map
        (shares subs fromSlot toSlot run)).flatten, mask) := by
  have hall : (placeUes ues (max subs.length 1)).zipIdx.mapM (grantsOn subs fromSlot toSlot run) =
      some ((placeUes ues (max subs.length 1)).zipIdx.map (shares subs fromSlot toSlot run)) :=
    mapM_eq_some fun x hx => grantsOn_eq (h x.1 (List.fst_mem_of_mem_zipIdx hx))
  unfold plan
  dsimp only
  rw [hall]
  exact ⟨_, rfl⟩

/-- A grant of the plan is the share of one phone on one sub-channel. -/
theorem exists_of_mem_shares {per : List (List SchedUe)} {y : UInt32 × Grant}
    (h : y ∈ (per.zipIdx.map (shares subs fromSlot toSlot run)).flatten) :
    ∃ B i x, per[i]? = some B ∧ x ∈ B.zipIdx ∧ x.2 < B.length ∧
      y = share fromSlot toSlot run (subs.getD i 1) B.length x := by
  obtain ⟨l, hl, hy⟩ := List.mem_flatten.mp h
  obtain ⟨z, hz, rfl⟩ := List.mem_map.mp hl
  obtain ⟨x, hx, rfl⟩ := List.mem_map.mp hy
  have hi := List.mem_zipIdx_iff_getElem?.mp hz
  have hlt := List.snd_lt_add_of_mem_zipIdx hx
  exact ⟨z.1, z.2, x, hi, hx, by omega, rfl⟩

theorem addr_shares (per : List (List SchedUe)) :
    (per.zipIdx.map (shares subs fromSlot toSlot run)).flatten.map Prod.fst =
      per.flatten.map SchedUe.addr := by
  have hone (x : List SchedUe × ℕ) :
    (shares subs fromSlot toSlot run x).map Prod.fst = x.1.map SchedUe.addr := by
    have hfst := congrArg (List.map SchedUe.addr) (List.zipIdx_map_fst 0 x.1)
    rw [List.map_map] at hfst
    rw [shares, List.map_map]
    exact hfst
  have hall := congrArg (List.map (List.map SchedUe.addr)) (List.zipIdx_map_fst 0 per)
  rw [List.map_map] at hall
  rw [List.map_flatten, List.map_flatten, List.map_map, ← hall]
  exact congrArg List.flatten (List.map_congr_left fun x _ => hone x)

/-- What is needed of the sub-channels and of the phones on them. -/
structure Placed (per : List (List SchedUe)) (subs : List Byte) (fromSlot toSlot : UInt64)
    (run : UInt16) : Prop where
  length : per.length = subs.length
  nodup : subs.Nodup
  le_four : ∀ s ∈ subs, s ≤ 4
  slots : fromSlot ≤ toSlot
  few : ∀ B ∈ per, B.length * (max run 1).toNat < 65536

variable {per : List (List SchedUe)}

theorem Placed.getD_mem (h : Placed per subs fromSlot toSlot run) {i : ℕ} {B : List SchedUe}
    (hi : per[i]? = some B) :
    subs.getD i 1 ∈ subs ∧ ∀ j B', per[j]? = some B' → subs.getD i 1 = subs.getD j 1 → i = j := by
  have hlen := h.length
  have hin {j : ℕ} {B' : List SchedUe} (hj : per[j]? = some B') : j < subs.length := by
    obtain ⟨hlt, -⟩ := List.getElem?_eq_some_iff.mp hj
    omega
  have hget {j : ℕ} (hj : j < subs.length) : subs.getD j 1 = subs[j] := by
    rw [List.getD_eq_getElem?_getD, List.getElem?_eq_getElem hj, Option.getD_some]
  refine ⟨?_, fun j B' hj heq => ?_⟩
  · rw [hget (hin hi)]
    exact List.getElem_mem _
  · rw [hget (hin hi), hget (hin hj)] at heq
    exact (h.nodup.getElem_inj_iff).mp heq

/-- **No two grants meet**, when the windows of shared sub-channels fit. -/
theorem Placed.apart (h : Placed per subs fromSlot toSlot run)
    (hfits : ∀ B ∈ per, 2 ≤ B.length → fromSlot < toSlot →
      toSlot.toNat + B.length * (max run 1).toNat ≤ 2 ^ 64) :
    ((per.zipIdx.map (shares subs fromSlot toSlot run)).flatten).Pairwise fun x y =>
      x.2.subchannel = y.2.subchannel → ∀ slot < 2 ^ 64, ∃ a b, x.2.allows slot = some a ∧
        y.2.allows slot = some b ∧
        ¬ (a = true ∧ b = true) := by
  refine List.pairwise_flatten.mpr ⟨fun l hl => ?_, ?_⟩
  · obtain ⟨z, hz, rfl⟩ := List.mem_map.mp hl
    have hi := List.mem_zipIdx_iff_getElem?.mp hz
    have hB := List.mem_of_getElem? hi
    refine List.pairwise_map.mpr (List.pairwise_iff_getElem.mpr fun i j hi' hj' hij _ slot _ => ?_)
    rw [List.length_zipIdx] at hi' hj'
    rw [List.getElem_zipIdx, List.getElem_zipIdx]
    exact share_apart (h.few z.1 hB) h.slots (h.le_four _ (h.getD_mem hi).1) (hfits z.1 hB)
      (by dsimp only; omega) (by dsimp only; omega) (by dsimp only; omega) slot
  · refine List.pairwise_map.mpr (List.pairwise_iff_getElem.mpr fun i j hi hj hij => ?_)
    rw [List.length_zipIdx] at hi hj
    rw [List.getElem_zipIdx, List.getElem_zipIdx]
    intro x hx y hy hsub
    obtain ⟨x', -, rfl⟩ := List.mem_map.mp hx
    obtain ⟨y', -, rfl⟩ := List.mem_map.mp hy
    have hsub' : subs.getD (0 + i) 1 = subs.getD (0 + j) 1 := hsub
    rw [Nat.zero_add, Nat.zero_add] at hsub'
    have heq := (h.getD_mem (List.getElem?_eq_getElem hi)).2
      j per[j] (List.getElem?_eq_getElem hj) hsub'
    omega

/-- Two phones that share a sub-channel are told apart only if their window fits. -/
theorem Placed.fits_of_apart (h : Placed per subs fromSlot toSlot run)
    (hapart : ((per.zipIdx.map (shares subs fromSlot toSlot run)).flatten).Pairwise fun x y =>
      x.2.subchannel = y.2.subchannel → ∀ slot < 2 ^ 64, ∃ a b, x.2.allows slot = some a ∧
        y.2.allows slot = some b ∧
        ¬ (a = true ∧ b = true)) :
    ∀ B ∈ per, 2 ≤ B.length → fromSlot < toSlot → toSlot.toNat + B.length * (max run 1).toNat ≤
      2 ^ 64 := by
  intro B hB htwo hlt
  by_contra hover
  obtain ⟨i, hi⟩ := List.getElem?_of_mem hB
  have hmem : (B, i) ∈ per.zipIdx := List.mem_zipIdx_iff_getElem?.mpr hi
  have hin := (List.pairwise_flatten.mp hapart).1 _ (List.mem_map_of_mem hmem)
  have hlen : (B, i).1.zipIdx.length = B.length := List.length_zipIdx
  have hpair :=
    List.pairwise_iff_getElem.mp (List.pairwise_map.mp hin) 0 1 (by omega) (by omega) Nat.one_pos
  rw [List.getElem_zipIdx, List.getElem_zipIdx] at hpair
  have hlt' := UInt64.lt_iff_toNat_lt.mp hlt
  have hto := toSlot.toNat_lt
  -- the last slot of the window cannot be asked for
  obtain ⟨a, -, ha, -⟩ := hpair rfl (toSlot.toNat - 1) (by omega)
  have hm := h.few B hB
  obtain ⟨hperiod, -, -⟩ :=
    @share_toNat _ _ (B[0], 0) fromSlot toSlot (subs.getD i 1) hm (by dsimp only; omega)
  have hturn : turn run B.length = (max run 1).toNat := if_neg (by omega)
  rw [hturn, Nat.mul_comm] at hperiod
  have hnone : (share fromSlot toSlot run (subs.getD i 1) B.length (B[0], 0)).2.allows
    (toSlot.toNat - 1) = none := by
    have hinside : fromSlot.toNat ≤ toSlot.toNat - 1 ∧ toSlot.toNat - 1 < toSlot.toNat := by omega
    rw [Grant.allows, Grant.phase_eq_none (by rw [hperiod]; omega)]
    exact if_pos hinside
  cases hnone.symm.trans ha

/-- **The plan is fair**, when the windows of shared sub-channels fit. -/
theorem fair_of_fits {rachSub : Byte} (h : Placed (placeUes ues 3) subs fromSlot toSlot run)
    (hrach : ∀ s ∈ subs, s ≠ rachSub)
    (hfits : ∀ B ∈ placeUes ues 3, 2 ≤ B.length → fromSlot < toSlot →
      toSlot.toNat + B.length * (max run 1).toNat ≤ 2 ^ 64) :
    Fair ues rachSub fromSlot toSlot
      ((placeUes ues 3).zipIdx.map (shares subs fromSlot toSlot run)).flatten := by
  have hperm := (placeUes_perm (k := 3) (by decide) ues).2
  constructor
  · rw [addr_shares]
    exact hperm.map _
  · intro y hy
    obtain ⟨B, i, x, hi, -, hx, rfl⟩ := exists_of_mem_shares hy
    exact wellFormed_share (h.few B (List.mem_of_getElem? hi))
      hx (h.le_four _ (h.getD_mem hi).1) h.slots
  · exact h.apart hfits
  · intro y hy
    obtain ⟨B, i, x, hi, -, -, rfl⟩ := exists_of_mem_shares hy
    exact hrach _ (h.getD_mem hi).1
  · intro y hy a b ha hb hab
    obtain ⟨B, i, x, hi, -, hx, rfl⟩ := exists_of_mem_shares hy
    have hB := List.mem_of_getElem? hi
    exact share_served (h.few B hB) h.slots
      (h.le_four _ (h.getD_mem hi).1) (hfits B hB) hx ha hb hab
  · intro hvoice u hu huv
    obtain ⟨B, hB, huB⟩ := List.mem_flatten.mp (hperm.mem_iff.mpr hu)
    obtain rfl := eq_singleton_of_voice hvoice hB huB huv
    obtain ⟨i, hi⟩ := List.getElem?_of_mem hB
    have hmem : ([u], i) ∈ (placeUes ues 3).zipIdx := List.mem_zipIdx_iff_getElem?.mpr hi
    refine ⟨share fromSlot toSlot run (subs.getD i 1) 1 (u, 0),
      ?_, rfl, fun slot hfrom hto => ?_, fun y hy hsub => ?_⟩
    · exact List.mem_flatten_of_mem (List.mem_map_of_mem hmem) List.mem_cons_self
    · exact share_alone (h.few [u] hB) h.slots (h.le_four _ (h.getD_mem hi).1) hfrom hto
    · obtain ⟨B', j, x, hj, hx, -, rfl⟩ := exists_of_mem_shares hy
      obtain rfl := (h.getD_mem hi).2 j B' hj hsub.symm
      rw [hi] at hj
      cases hj
      rw [List.mem_singleton.mp hx]
      rfl

end Plan

/-- Seven phones. -/
def sevenPhones : List SchedUe := (List.range 7).map fun i => ⟨UInt32.ofNat (100 + i), 0, 7, false⟩

/-- On a window that ends with the last `u64` it cannot be told whether the two phones that
come first on sub-channel 3 are allowed its first slot. -/
theorem grants_at_the_end :
    (plan sevenPhones (subPreference 3 4 0) 18446744073709551604 18446744073709551615 4).map
    (fun r =>
        (r.1.take 2).map fun x => (x.2.subchannel, x.2.allows 18446744073709551604)) =
      some [(3, none), (3, none)] := by
  decide +kernel

theorem not_fair_at_the_end : ¬ ∃ out mask,
    plan sevenPhones (subPreference 3 4 0) 18446744073709551604 18446744073709551615 4 =
      some (out, mask) ∧
      Fair sevenPhones 4 18446744073709551604 18446744073709551615 out := by
  rintro ⟨out, mask, hout, hfair⟩
  have hfirst := grants_at_the_end
  rw [hout, Option.map_some] at hfirst
  have hfirst := Option.some.inj hfirst
  match out, hfirst, hfair.apart with
  | [], hfirst, _ => cases hfirst
  | [x], hfirst, _ => cases (List.cons.inj hfirst).2
  | x :: y :: _, hfirst, hapart =>
    obtain ⟨hx, hy⟩ := List.cons.inj hfirst
    have hsub := (congrArg Prod.fst hx).trans (congrArg Prod.fst (List.cons.inj hy).1).symm
    obtain ⟨a, -, ha, -⟩ :=
      (List.pairwise_cons.mp hapart).1 y List.mem_cons_self hsub 18446744073709551604 (by decide)
    exact nomatch (congrArg Prod.snd hx).symm.trans ha

/-- **Uplink scheduling is collision free and fair** exactly when, for every sub-channel that
phones share, the last slot of the window and a period more are a `u64`; and the search for
the next run of a grant keeps its promise for every slot exactly under the same condition on
its window. -/
theorem uplink_scheduling (ues : List SchedUe) (cellId : UInt32) (rachSub neighbourMask : Byte)
    (fromSlot toSlot : UInt64) (run : UInt16) (g : Grant) :
    (1 ≤ rachSub ∧ rachSub ≤ 4 → fromSlot ≤ toSlot →
      (∀ B ∈ placeUes ues 3, B.length * (max run 1).toNat < 65536) →
      ((∃ out mask, plan ues (subPreference cellId rachSub neighbourMask) fromSlot toSlot run =
        some (out, mask) ∧
          Fair ues rachSub fromSlot toSlot out) ↔
        ∀ B ∈ placeUes ues 3, 2 ≤ B.length → fromSlot < toSlot →
          toSlot.toNat + B.length * (max run 1).toNat ≤ 2 ^ 64)) ∧
    (g.WellFormed →
      ((∀ slot < 2 ^ 64, ∃ r, g.nextRun slot = some r ∧ g.Answers slot r) ↔ g.Fits)) := by
  refine ⟨fun hrach hslots hfew => ?_, fun hg => hg.nextRun_iff⟩
  have hlen := length_subPreference hrach cellId neighbourMask
  have hplaced :
    Placed (placeUes ues 3) (subPreference cellId rachSub neighbourMask) fromSlot toSlot run := by
    refine ⟨?_, nodup_subPreference, fun s hs => (mem_subPreference hs).1, hslots, hfew⟩
    rw [(placeUes_perm (k := 3) (by decide) ues).1, hlen]
  obtain ⟨mask, hplan⟩ :=
    @plan_eq ues (subPreference cellId rachSub neighbourMask) fromSlot toSlot run
    (by rw [hlen]; exact hfew)
  rw [hlen] at hplan
  constructor
  · rintro ⟨out, mask', hout, hfair⟩
    rw [hplan] at hout
    cases hout
    exact hplaced.fits_of_apart hfair.apart
  · intro hfits
    exact ⟨_, mask, hplan, fair_of_fits hplaced (fun s hs => (mem_subPreference hs).2) hfits⟩

end EvansComputer.Cell
