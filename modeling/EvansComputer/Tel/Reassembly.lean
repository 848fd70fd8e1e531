import EvansComputer.Tel.Coding

/-!
# Parts that come in any order

What is kept of a text while its parts come, with duplicates and with the parts of other texts
among them.
-/

namespace EvansComputer.Tel.Sms

/-! ## The sets -/

namespace Reassembler

variable {r : Reassembler} {key key' : SetKey} {p : PendingSet}

theorem get_remove : (r.remove key).get key' = if key = key' then none else r.get key' := by
  unfold get remove
  dsimp only
  rw [List.find?_filter]
  by_cases h : key = key'
  · rw [if_pos h, List.find?_eq_none.mpr, Option.map_none]
    intro e _ he
    simp only [decide_eq_true_eq] at he
    exact he.1 (he.2.trans h.symm)
  · rw [if_neg h]
    congr 2
    funext e
    by_cases he : e.1 = key'
    · simp [he, Ne.symm h]
    · simp [he]

theorem get_put : (r.put key p).get key' = if key = key' then some p else r.get key' := by
  have hrest := @get_remove r key key'
  unfold get at *
  unfold put
  dsimp only
  by_cases h : key = key'
  · rw [List.find?_cons_of_pos (by simpa using h), if_pos h]
    rfl
  · rw [List.find?_cons_of_neg (by simpa using h), if_neg h]
    rw [if_neg h] at hrest
    exact hrest

theorem get_expire_of_none (h : r.get key = none) (now : ℕ) : (r.expire now).get key = none := by
  unfold get expire at *
  rw [Option.map_eq_none_iff, List.find?_eq_none] at h ⊢
  exact fun e he => h e (List.mem_of_mem_filter he)

theorem find?_filter_of_pos {α : Type} {q q' : α → Bool} {l : List α} {e : α}
    (h : l.find? q = some e) (he : q' e = true) : (l.filter q').find? q = some e := by
  induction l with
  | nil => cases h
  | cons x l ih =>
    rw [List.find?_cons] at h
    rw [List.filter_cons]
    split at h
    · rename_i hx
      cases h
      rw [if_pos he, List.find?_cons_of_pos hx]
    · rename_i hx
      split
      · rw [List.find?_cons_of_neg (by rw [hx]; exact Bool.false_ne_true)]
        exact ih h
      · exact ih h

theorem get_expire_of_some (h : r.get key = some p) {now : ℕ}
    (hfresh : now - p.firstMs < r.timeoutMs) : (r.expire now).get key = some p := by
  unfold get expire at *
  obtain ⟨e, he, rfl⟩ := Option.map_eq_some_iff.mp h
  exact Option.map_eq_some_iff.mpr ⟨e, find?_filter_of_pos he (decide_eq_true hfresh), rfl⟩

/-- A set that is not complete, when one more part of it comes. -/
def fill (r : Reassembler) (key : SetKey) (i : ℕ) (ud : UserData) (now : ℕ) :
    Option UserData × Reassembler :=
  let p :=
    (r.get key).getD { firstMs := now, parts := List.replicate key.2.2.toNat none, have' := 0 }
  if (p.parts.getD i none).isSome then (none, r.put key p)
  else
    let p := { p with parts := p.parts.set i (some ud), have' := p.have' + 1 }
    if p.have' < key.2.2.toNat then (none, r.put key p)
      else (some (join (p.parts.filterMap id)), r.remove key)

theorem push_eq_fill {sender : List Char} {ud : UserData} {now : ℕ} {reference : UInt16}
    {total seq : UInt8} (hconcat : ud.concat = some (reference, total, seq))
    (hvalid : concatValid total seq = true) (htotal : total ≠ 1)
    (hopen : (r.expire now).sets.length < maxPendingSets) :
    r.push sender ud now = (r.expire now).fill (sender, reference, total)
      (seq.toNat - 1) ud now := by
  have hnot : ¬ (((r.expire now).get (sender, reference, total)).isNone = true ∧
    (r.expire now).sets.length ≥ maxPendingSets) :=
    fun h => absurd h.2 (by omega)
  unfold push
  dsimp only
  rw [hconcat]
  dsimp only
  rw [hvalid, if_neg (by decide), if_neg htotal, if_neg hnot]
  rfl

/-- A part of another set leaves this one, but for its age. -/
theorem get_push_of_ne {sender : List Char} {ud : UserData} {now : ℕ}
    (hother : ∀ reference total seq, ud.concat = some (reference, total, seq) →
      (sender, reference, total) ≠ key)
    (hopen : (r.expire now).sets.length < maxPendingSets) :
    (r.push sender ud now).2.get key = (r.expire now).get key := by
  unfold push
  dsimp only
  split
  · rfl
  rename_i reference total seq hconcat
  have hne := hother reference total seq hconcat
  have hnot : ¬ (((r.expire now).get (sender, reference, total)).isNone = true ∧
    (r.expire now).sets.length ≥ maxPendingSets) :=
    fun h => absurd h.2 (by omega)
  rw [if_neg hnot]
  split
  · rfl
  split
  · rfl
  split
  · exact get_put.trans (if_neg hne)
  split
  · exact get_put.trans (if_neg hne)
  · exact get_remove.trans (if_neg hne)

theorem timeoutMs_push (sender : List Char) (ud : UserData) (now : ℕ)
    (hopen : (r.expire now).sets.length < maxPendingSets) :
    (r.push sender ud now).2.timeoutMs = r.timeoutMs := by
  unfold push
  dsimp only
  split
  · rfl
  rename_i reference total seq _
  have hnot : ¬ (((r.expire now).get (sender, reference, total)).isNone = true ∧
    (r.expire now).sets.length ≥ maxPendingSets) :=
    fun h => absurd h.2 (by omega)
  rw [if_neg hnot]
  split
  · rfl
  split
  · rfl
  split
  · rfl
  split
  · rfl
  · rfl

end Reassembler

/-! ## Arrivals -/

/-- A part that comes. -/
structure Arrival where
  sender : List Char
  ud : UserData
  now : ℕ

namespace Reassembler

def run (r : Reassembler) (as : List Arrival) : Reassembler :=
  as.foldl (fun r a => (r.push a.sender a.ud a.now).2) r

end Reassembler

/-- The parts of one text: who sends it, its reference, and what each part says. -/
structure Sent where
  sender : List Char
  reference : UInt8
  texts : List (List Char)
  two_le : 2 ≤ texts.length
  le_max : texts.length ≤ 255

namespace Sent

variable (m : Sent)

def count : ℕ := m.texts.length

def total : UInt8 := UInt8.ofNat m.count

def part (i : ℕ) : UserData where
  udh := [.concat8 m.reference m.total (UInt8.ofNat i + 1)]
  body := .text (m.texts.getD i [])

def key : SetKey := (m.sender, m.reference.toUInt16, m.total)

/-- The number of a part of this text. -/
def index (a : Arrival) : Option ℕ :=
  (List.range m.count).find? fun i => a.sender = m.sender && a.ud = m.part i

/-- A part of this text, or of another set. -/
def Belongs (a : Arrival) : Prop :=
  (m.index a).isSome = true ∨ ∀ reference total seq, a.ud.concat = some (reference, total, seq) →
    (a.sender, reference, total) ≠ m.key

/-- The parts that came since the text was last complete. -/
def collect (got : List ℕ) (a : Arrival) : List ℕ :=
  match m.index a with
  | none => got
  | some i => if i ∈ got then got else if got.length + 1 = m.count then [] else i :: got

/-- What a part of this text is to be answered with. -/
def answer (got : List ℕ) (i : ℕ) : Option UserData :=
  if i ∉ got ∧ got.length + 1 = m.count then some { udh := [], body := .text m.texts.flatten }
    else none

theorem toNat_total : m.total.toNat = m.count :=
  UserData.toNat_ofNat_length (Nat.lt_succ_of_le m.le_max)

theorem toNat_seq {i : ℕ} (hi : i < m.count) : (UInt8.ofNat i + 1 : UInt8).toNat = i + 1 := by
  have hle : m.count ≤ 255 := m.le_max
  rw [UInt8.toNat_add, UserData.toNat_ofNat_length (by omega)]
  exact Nat.mod_eq_of_lt (by show i + 1 < 256; omega)

theorem concat_part (i : ℕ) :
    (m.part i).concat = some (m.reference.toUInt16, m.total, UInt8.ofNat i + 1) := rfl

theorem total_ne_one : m.total ≠ 1 := by
  intro h
  have htotal := m.toNat_total
  have htwo : 2 ≤ m.count := m.two_le
  rw [h] at htotal
  have : (1 : ℕ) = m.count := htotal
  omega

theorem concatValid_part {i : ℕ} (hi : i < m.count) :
    concatValid m.total (UInt8.ofNat i + 1) = true := by
  have hseq := m.toNat_seq hi
  have htotal := m.toNat_total
  unfold concatValid
  rw [Bool.and_eq_true, Bool.and_eq_true, decide_eq_true_eq, decide_eq_true_eq, decide_eq_true_eq]
  refine ⟨⟨fun h => ?_, fun h => ?_⟩, ?_⟩
  · rw [h] at htotal
    have : (0 : ℕ) = m.count := htotal
    omega
  · rw [h] at hseq
    have : (0 : ℕ) = i + 1 := hseq
    omega
  · rw [UInt8.le_iff_toNat_le, hseq, htotal]
    exact hi

theorem index_eq_some {a : Arrival} {i : ℕ} (h : m.index a = some i) :
    i < m.count ∧ a.sender = m.sender ∧ a.ud = m.part i := by
  have hmem := List.mem_of_find?_eq_some h
  have hpart := List.find?_some h
  simp only [Bool.and_eq_true, decide_eq_true_eq] at hpart
  exact ⟨List.mem_range.mp hmem, hpart⟩

/-- What is kept of the text while it is not complete. -/
structure Keeps (r : Reassembler) (got : List ℕ) (times : List ℕ) : Prop where
  nodup : got.Nodup
  lt : ∀ i ∈ got, i < m.count
  short : got.length < m.count
  empty : got = [] → r.get m.key = none
  pending : got ≠ [] → ∃ p, r.get m.key = some p ∧ p.firstMs ∈ times ∧ p.have' = got.length ∧
    p.parts.length = m.count ∧
    ∀ j < m.count, p.parts.getD j none = if j ∈ got then some (m.part j) else none

/-- All parts are there. -/
theorem mem_of_complete {l : List ℕ} (hnodup : l.Nodup) (hlt : ∀ i ∈ l, i < m.count)
    (hlen : l.length = m.count) {j : ℕ} (hj : j < m.count) : j ∈ l := by
  have hsub : l.Subperm (List.range m.count) :=
    List.subperm_of_subset hnodup fun i hi => List.mem_range.mpr (hlt i hi)
  have hperm := hsub.perm_of_length_le (by rw [List.length_range, hlen])
  exact hperm.mem_iff.mpr (List.mem_range.mpr hj)

theorem join_parts {parts : List (Option UserData)} (hlen : parts.length = m.count)
    (h : ∀ j < m.count, parts.getD j none = some (m.part j)) :
    join (parts.filterMap id) = { udh := [], body := .text m.texts.flatten } := by
  have hparts : parts = ((List.range m.count).map m.part).map some := by
    apply List.ext_getElem?
    intro j
    by_cases hj : j < m.count
    · have hsome := h j hj
      rw [List.getD_eq_getElem?_getD, List.getElem?_eq_getElem (hlen ▸ hj),
        Option.getD_some] at hsome
      rw [List.getElem?_eq_getElem (hlen ▸ hj), hsome, List.getElem?_map, List.getElem?_map,
        List.getElem?_range hj]
      rfl
    · rw [List.getElem?_eq_none (by omega),
        List.getElem?_eq_none (by rw [List.length_map, List.length_map, List.length_range]; omega)]
  have hfilter : parts.filterMap id = (List.range m.count).map m.part := by
    rw [hparts, List.filterMap_map]
    exact List.filterMap_some
  rw [hfilter]
  have hpos : 0 < m.count := Nat.lt_of_lt_of_le (by decide) m.two_le
  have hall : ((List.range m.count).map m.part).all (fun p => p.body.isText) = true := by
    rw [List.all_map]
    exact List.all_eq_true.mpr fun _ _ => rfl
  have htexts :
    ((List.range m.count).map m.part).flatMap (fun p => p.body.chars) = m.texts.flatten := by
    rw [List.flatMap_map]
    have hget : (List.range m.count).map (fun i => m.texts.getD i []) = m.texts := by
      apply List.ext_getElem
      · rw [List.length_map, List.length_range]
        rfl
      · intro j hj hj'
        rw [List.getElem_map, List.getElem_range, List.getD_eq_getElem?_getD,
          List.getElem?_eq_getElem hj', Option.getD_some]
    calc (List.range m.count).flatMap (fun i => m.texts.getD i []) =
      ((List.range m.count).map fun i => m.texts.getD i []).flatten := rfl
      _ = m.texts.flatten := by rw [hget]
  unfold join
  rw [if_pos hall, htexts]
  obtain ⟨n, hn⟩ := Nat.exists_eq_succ_of_ne_zero hpos.ne'
  rw [hn, List.range_succ_eq_map]
  rfl

variable {m} {r : Reassembler} {got times : List ℕ}

/-- A part of this text, when what is kept of it is in order. -/
theorem keeps_fill (h : m.Keeps r got times) {i : ℕ} (hi : i < m.count) (now : ℕ) :
    m.Keeps (r.fill m.key i (m.part i) now).2
        (if i ∈ got then got else if got.length + 1 = m.count then [] else i :: got)
        (times ++ [now]) ∧
      (r.fill m.key i (m.part i) now).1 = m.answer got i := by
  have hpos : 0 < m.count := Nat.lt_of_lt_of_le (by decide) m.two_le
  -- the set, or a new one
  obtain ⟨p, hp, hfirst, hhave, hlen, hparts⟩ : ∃ p, (r.get m.key).getD
      { firstMs := now, parts := List.replicate m.key.2.2.toNat none, have' := 0 } = p ∧
        p.firstMs ∈ times ++ [now] ∧
      p.have' = got.length ∧ p.parts.length = m.count ∧
      ∀ j < m.count, p.parts.getD j none = if j ∈ got then some (m.part j) else none := by
    by_cases hgot : got = []
    · refine ⟨_, by rw [h.empty hgot, Option.getD_none],
        List.mem_append_right _ (List.mem_singleton_self _), by rw [hgot]; rfl, ?_, ?_⟩
      · rw [List.length_replicate]
        exact m.toNat_total
      · intro j hj
        rw [hgot, if_neg List.not_mem_nil]
        show (List.replicate _ none).getD j none = none
        rw [List.getD_eq_getElem?_getD, List.getElem?_replicate]
        split
        · rfl
        · rfl
    · obtain ⟨p, hp, hfirst, hrest⟩ := h.pending hgot
      exact ⟨p, by rw [hp, Option.getD_some], List.mem_append_left _ hfirst, hrest⟩
  have htotal : m.key.2.2.toNat = m.count := m.toNat_total
  unfold Reassembler.fill
  dsimp only
  rw [hp, htotal, hparts i hi]
  by_cases hmem : i ∈ got
  · -- a duplicate
    rw [if_pos hmem, if_pos (by rfl), if_pos hmem]
    refine ⟨⟨h.nodup, h.lt, h.short, fun hgot => ?_, fun _ => ?_⟩, ?_⟩
    · rw [hgot] at hmem
      exact absurd hmem List.not_mem_nil
    · exact ⟨p, Reassembler.get_put.trans (if_pos rfl), hfirst, hhave, hlen, hparts⟩
    · unfold answer
      rw [if_neg fun h => h.1 hmem]
  rw [if_neg hmem, if_neg (by exact Bool.false_ne_true), if_neg hmem, hhave]
  have hnodup : (i :: got).Nodup := List.nodup_cons.mpr ⟨hmem, h.nodup⟩
  have hlt : ∀ j ∈ i :: got, j < m.count :=
    fun j hj => (List.mem_cons.mp hj).elim (fun h => h ▸ hi) (h.lt j)
  have hset : ∀ j < m.count, (p.parts.set i (some (m.part i))).getD j none = if j ∈ i ::
    got then some (m.part j) else none := by
    intro j hj
    rw [List.getD_eq_getElem?_getD, List.getElem?_set]
    by_cases hij : i = j
    · rw [if_pos hij, if_pos (by omega), hij, if_pos List.mem_cons_self, Option.getD_some]
    · rw [if_neg hij, ← List.getD_eq_getElem?_getD, hparts j hj]
      have hmem_iff : j ∈ i :: got ↔ j ∈ got := by
        rw [List.mem_cons]
        exact ⟨fun h => h.resolve_left fun h => hij h.symm, .inr⟩
      simp only [hmem_iff]
  have hshort := h.short
  by_cases hfull : got.length + 1 = m.count
  · -- the last part
    rw [if_pos hfull, if_neg (by omega)]
    refine ⟨⟨List.nodup_nil, fun _ h => absurd h List.not_mem_nil, hpos, fun _ => ?_,
      fun h => absurd rfl h⟩, ?_⟩
    · exact Reassembler.get_remove.trans (if_pos rfl)
    · unfold answer
      rw [if_pos ⟨hmem, hfull⟩]
      refine congrArg some (m.join_parts (by rw [List.length_set, hlen]) fun j hj => ?_)
      rw [hset j hj, if_pos (m.mem_of_complete hnodup hlt hfull hj)]
  · rw [if_neg hfull, if_pos (by omega)]
    refine ⟨⟨hnodup, hlt, by rw [List.length_cons]; omega, fun h => absurd h (List.cons_ne_nil _ _),
      fun _ => ?_⟩, ?_⟩
    · exact ⟨_, Reassembler.get_put.trans (if_pos rfl), hfirst,
        rfl, by rw [List.length_set, hlen], hset⟩
    · unfold answer
      rw [if_neg fun h => hfull h.2]

/-- What is kept while nothing is too old. -/
theorem Keeps.expire (h : m.Keeps r got times) {now : ℕ}
    (hwithin : ∀ t ∈ times, now - t < r.timeoutMs) : m.Keeps (r.expire now) got times where
  nodup := h.nodup
  lt := h.lt
  short := h.short
  empty hgot := Reassembler.get_expire_of_none (h.empty hgot) now
  pending hgot := by
    obtain ⟨p, hp, hfirst, hrest⟩ := h.pending hgot
    exact ⟨p, Reassembler.get_expire_of_some hp (hwithin _ hfirst), hfirst, hrest⟩

theorem Keeps.congr {r' : Reassembler} (h : m.Keeps r got times) (hget : r'.get m.key = r.get m.key)
    (now : ℕ) : m.Keeps r' got (times ++ [now]) where
  nodup := h.nodup
  lt := h.lt
  short := h.short
  empty hgot := hget.trans (h.empty hgot)
  pending hgot := by
    obtain ⟨p, hp, hfirst, hrest⟩ := h.pending hgot
    exact ⟨p, hget.trans hp, List.mem_append_left _ hfirst, hrest⟩

/-- **One arrival.** -/
theorem keeps_push (h : m.Keeps r got times) {a : Arrival} (ha : m.Belongs a)
    (hwithin : ∀ t ∈ times, a.now - t < r.timeoutMs)
    (hopen : (r.expire a.now).sets.length < maxPendingSets) :
    m.Keeps (r.push a.sender a.ud a.now).2 (m.collect got a) (times ++ [a.now]) ∧
      ∀ i, m.index a = some i → (r.push a.sender a.ud a.now).1 = m.answer got i := by
  have hexpire := h.expire hwithin
  unfold collect
  cases hindex : m.index a with
  | some i =>
    obtain ⟨hi, hsender, hud⟩ := m.index_eq_some hindex
    have hpush : r.push a.sender a.ud a.now = (r.expire a.now).fill m.key i (m.part i) a.now := by
      rw [hsender, hud, Reassembler.push_eq_fill (m.concat_part i)
        (m.concatValid_part hi) m.total_ne_one hopen, m.toNat_seq hi,
        Nat.add_sub_cancel]
      rfl
    obtain ⟨hkeeps, hanswer⟩ := keeps_fill hexpire hi a.now
    rw [hpush]
    exact ⟨hkeeps, fun i' h => (Option.some.inj h) ▸ hanswer⟩
  | none =>
    have hother := ha.resolve_left (by rw [hindex]; exact Bool.false_ne_true)
    exact ⟨hexpire.congr (Reassembler.get_push_of_ne hother hopen) a.now, fun i h => nomatch h⟩

/-- Fewer sets than there is room for are open whenever a part comes. -/
def Open (r : Reassembler) : List Arrival → Prop
  | [] => True
  | a :: as => (r.expire a.now).sets.length < maxPendingSets ∧
    Open (r.push a.sender a.ud a.now).2 as

theorem keeps_run (h : m.Keeps r got times) {as : List Arrival} (hbelongs : ∀ a ∈ as, m.Belongs a)
    (hwithin : ∀ a ∈ as, (∀ t ∈ times, a.now - t < r.timeoutMs) ∧ ∀ b ∈ as,
      a.now - b.now < r.timeoutMs) (hopen : Open r as) :
    m.Keeps (r.run as) (as.foldl m.collect got) (times ++ as.map (·.now)) ∧
      (r.run as).timeoutMs = r.timeoutMs := by
  unfold Reassembler.run
  induction as generalizing r got times with
  | nil => exact ⟨by rw [List.map_nil, List.append_nil]; exact h, rfl⟩
  | cons a as ih =>
    have htimeout := Reassembler.timeoutMs_push a.sender a.ud a.now hopen.1
    have hstep :=
      (keeps_push h (hbelongs a List.mem_cons_self) (hwithin a List.mem_cons_self).1 hopen.1).1
    obtain ⟨hkeeps, hsame⟩ :=
      ih hstep (fun b hb => hbelongs b (List.mem_cons_of_mem _ hb)) (fun b hb => by
      obtain ⟨htimes, hothers⟩ := hwithin b (List.mem_cons_of_mem _ hb)
      rw [htimeout]
      refine ⟨fun t ht => ?_, fun c hc => hothers c (List.mem_cons_of_mem _ hc)⟩
      rcases List.mem_append.mp ht with ht | ht
      · exact htimes t ht
      · rw [List.mem_singleton.mp ht]
        exact hothers a List.mem_cons_self) hopen.2
    rw [List.foldl_cons, List.foldl_cons, List.map_cons]
    exact ⟨by rw [List.append_assoc] at hkeeps; exact hkeeps, hsame.trans htimeout⟩

end Sent

end EvansComputer.Tel.Sms
