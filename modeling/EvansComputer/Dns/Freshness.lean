import EvansComputer.Dns.Resolver

/-!
# What the cache knows is the newest

What was learned last of a name and a type is read off the history of the calls (`Newest`); a
record set takes away that the name does not exist.  The cache keeps a record set and that the
name does not exist under two keys, which are stored and run out on their own, and looks at the
second one first.  So an entry may be hidden by another that was learned later: it is known to be
so (`Known`) as long as what hides it stays longer.
-/

namespace EvansComputer.Dns

variable {ttl : UInt32} {entry : Entry}

/-! ## The newest of a history -/

/-- The calls that change the cache. -/
inductive CacheCall where
  | put (rs : List Record)
  | putAll (rs : List Record)
  | putNoData (name : Name) (rtype : UInt16) (soa : Option Record)
  | putNxDomain (name : Name) (soa : Option Record)
  | flush
  | flushName (name : Name)
  | expire

def Cache.call (c : Cache) (now : ℤ) : CacheCall → Cache
  | .put rs => c.put rs now
  | .putAll rs => c.putAll rs now
  | .putNoData name rtype soa => c.putNoData name rtype soa now
  | .putNxDomain name soa => c.putNxDomain name soa now
  | .flush => c.flush
  | .flushName name => c.flushName name
  | .expire => c.expire now

def Cache.run (c : Cache) (calls : List (ℤ × CacheCall)) : Cache :=
  calls.foldl (fun c e => c.call e.1 e.2) c

/-- The lowest TTL of a record set. -/
def setTtl : List Record → UInt32
  | [] => 0
  | r :: rs => rs.foldl (fun ttl r => min ttl r.ttl) r.ttl

/-- What is known for `ttl` seconds from `now` on. -/
def slot (entry : Entry) (ttl : UInt32) (now : ℤ) : Slot :=
  { entry, stored := now, expires := now + (ttl.toNat : ℤ) * 1000 }

def Entry.isNx : Entry → Bool
  | nxDomain _ => true
  | _ => false

/-- The records of an entry. -/
def Entry.shown : Entry → List Record
  | records rs => rs
  | noData soa => soa.toList
  | nxDomain soa => soa.toList

/-- What was learned last of each name and type. -/
abbrev Newest := Name → UInt16 → Option Slot

namespace Newest

/-- A record set is learned, and that the name exists. -/
def put (k : Newest) (rs : List Record) (now : ℤ) : Newest :=
  match rs with
  | [] => k
  | r :: _ => fun n t =>
    if n = r.name ∧ t = r.rtype then some (slot (.records rs) (setTtl rs) now)
    else if n = r.name ∧ (k n t).any (·.entry.isNx) then none
    else k n t

def call (k : Newest) (now : ℤ) : CacheCall → Newest
  | .put rs => k.put rs now
  | .putAll rs => (Cache.groups rs).foldl (fun k g => k.put g now) k
  | .putNoData name rtype soa => fun n t =>
    if n = name ∧ t = rtype then some (slot (.noData soa) (Cache.negativeTtl soa) now) else k n t
  | .putNxDomain name soa => fun n t =>
    if n = name then some (slot (.nxDomain soa) (Cache.negativeTtl soa) now) else k n t
  | .flush => fun _ _ => none
  | .flushName name => fun n t => if n = name then none else k n t
  | .expire => k

def run (k : Newest) (calls : List (ℤ × CacheCall)) : Newest :=
  calls.foldl (fun k e => k.call e.1 e.2) k

end Newest

namespace Cache

variable {c : Cache} {k : Newest} {now : ℤ} {key : Name × UInt16} {s : Slot}

/-! ## When a call does not leave what it supersedes -/

/-- That the name does not exist is in the cache. -/
def SaysNx (c : Cache) (name : Name) (now : ℤ) : Prop :=
  ∃ s, c.live (name, typeNx) now = some s ∧ s.entry.isNx = true

/-- Something is learned of `name` and `rtype` that takes the place of all that it supersedes: the
name is not said not to exist, or just this is replaced and it hides nothing; and what is not to be
kept finds nothing to replace. -/
def Replaces (c : Cache) (name : Name) (rtype : UInt16) (ttl : UInt32) (now : ℤ) : Prop :=
  (c.SaysNx name now → rtype = typeNx ∧ ttl ≠ 0 ∧ ∀ t ≠ typeNx, c.live (name, t) now = none) ∧
    (ttl = 0 → c.live (name, rtype) now = none)

/-- No record is to be kept for a longer time than the entry. -/
def Lasts (rs : List Record) (ttl : UInt32) : Prop := ttl = 0 ∨ ∀ r ∈ rs, r.ttl ≤ ttl

def PutMeets (c : Cache) (now : ℤ) : List Record → Prop
  | [] => True
  | r :: rs => c.Replaces r.name r.rtype (setTtl (r :: rs)) now ∧ Lasts (r :: rs) (setTtl (r :: rs))

def PutsMeet (now : ℤ) : Cache → List (List Record) → Prop
  | _, [] => True
  | c, g :: gs => c.PutMeets now g ∧ PutsMeet now (c.put g now) gs

/-- What a call supersedes, it replaces or outlasts. -/
def Meets (c : Cache) (now : ℤ) : CacheCall → Prop
  | .put rs => c.PutMeets now rs
  | .putAll rs => PutsMeet now c (groups rs)
  | .putNoData name rtype soa => c.Replaces name rtype (negativeTtl soa) now ∧
    Lasts soa.toList (negativeTtl soa)
  | .putNxDomain name soa =>
    (∀ t s, c.live (name, t) now = some s →
      (t = typeNx ∧ negativeTtl soa ≠ 0) ∨ s.expires < now + ((negativeTtl soa).toNat : ℤ) * 1000) ∧
      Lasts soa.toList (negativeTtl soa)
  | _ => True

def RunMeets : Cache → List (ℤ × CacheCall) → Prop
  | _, [] => True
  | c, (now, call) :: calls => c.Meets now call ∧ RunMeets (c.call now call) calls

/-! ## Entries -/

/-- There is one entry for each key. -/
def Keyed (c : Cache) : Prop := (c.map.map Prod.fst).Nodup

theorem Keyed.unique (h : c.Keyed) {s' : Slot} (hs : (key, s) ∈ c.map) (hs' : (key, s') ∈ c.map) :
    s = s' :=
  congrArg Prod.snd (List.inj_on_of_nodup_map h hs hs' rfl)

theorem live_eq_some (h : c.Keyed) :
    c.live key now = some s ↔ (key, s) ∈ c.map ∧ now < s.expires := by
  unfold live
  constructor
  · intro hlive
    obtain ⟨hmap, hexp⟩ := Option.filter_eq_some_iff.mp hlive
    obtain ⟨⟨key', s'⟩, hfind, rfl⟩ := Option.map_eq_some_iff.mp hmap
    obtain rfl : key' = key := by simpa using List.find?_some hfind
    exact ⟨List.mem_of_find?_eq_some hfind, of_decide_eq_true hexp⟩
  · rintro ⟨hmem, hexp⟩
    refine Option.filter_eq_some_iff.mpr ⟨Option.map_eq_some_iff.mpr ?_, decide_eq_true hexp⟩
    cases hfind : c.map.find? (·.1 = key) with
    | none => exact absurd (List.find?_eq_none.mp hfind _ hmem) (by simp)
    | some e =>
      obtain ⟨key', s'⟩ := e
      obtain rfl : key' = key := by simpa using List.find?_some hfind
      exact ⟨_, rfl, h.unique (List.mem_of_find?_eq_some hfind) hmem⟩

/-- The entries of every cache. -/
structure Fits (c : Cache) : Prop where
  keyed : c.Keyed
  size : c.map.length ≤ maxEntries

theorem Fits.sublist {c' : Cache} (h : c.Fits) (hsub : c'.map.Sublist c.map) : c'.Fits where
  keyed := h.keyed.sublist (hsub.map Prod.fst)
  size := hsub.length_le.trans h.size

theorem dropFirst_spec (hne : c.map ≠ []) :
    ∃ e ∈ c.map, (∀ e' ∈ c.map, e.2.expires ≤ e'.2.expires) ∧
    c.dropFirst.map = c.map.filter fun e' => e'.1 ≠ e.1 := by
  unfold dropFirst
  dsimp only
  obtain ⟨m, hm⟩ := Option.ne_none_iff_exists'.mp
    (mt List.argmin_eq_none.mp hne : c.map.argmin (·.2.expires) ≠ none)
  have hfirst : ∀ e' ∈ c.map, m.2.expires ≤ e'.2.expires := fun e' he' =>
    List.le_of_mem_argmin (f := fun e : (Name × UInt16) × Slot => e.2.expires) he' hm
  split
  · rename_i e hfind
    exact ⟨e, List.mem_of_find?_eq_some hfind, by simpa using List.find?_some hfind, rfl⟩
  · rename_i hnone
    refine absurd (List.find?_eq_none.mp hnone m (List.argmin_mem hm)) ?_
    simpa using hfirst

/-- Room is made for a new entry: what goes is over, or the first to be. -/
theorem insert_eq (h : c.Fits) (key : Name × UInt16) (entry : Entry) (httl : ttl ≠ 0) (now : ℤ) :
    ∃ kept : List ((Name × UInt16) × Slot), kept.Sublist c.map ∧
      (kept.length < maxEntries ∨ ∃ e ∈ kept, e.1 = key) ∧
      (∀ e ∈ kept, ∀ e' ∈ c.map, now < e'.2.expires → e.2.expires < e'.2.expires → e' ∈ kept) ∧
      (c.insert key entry ttl now).map = (key, slot entry ttl now) :: kept.filter fun e =>
        e.1 ≠ key := by
  unfold insert
  rw [if_neg httl]
  dsimp only
  split
  · have hexpire : (c.expire now).map.Sublist c.map := List.filter_sublist
    have hlasts : ∀ e' ∈ c.map, now < e'.2.expires → e' ∈ (c.expire now).map := fun e' he' hexp =>
      List.mem_filter.mpr ⟨he', decide_eq_true hexp⟩
    split
    · rename_i hfull
      have hfits := h.sublist hexpire
      have hne : (c.expire now).map ≠ [] := fun hnil => by simp [hnil, maxEntries] at hfull
      obtain ⟨e₀, he₀, hmin, hdrop⟩ := dropFirst_spec hne
      have hsub : (c.expire now).dropFirst.map.Sublist (c.expire now).map :=
        hdrop ▸ List.filter_sublist
      refine ⟨(c.expire now).dropFirst.map, hsub.trans hexpire, .inl ?_,
        fun e he e' he' hexp hlt => ?_, rfl⟩
      · refine lt_of_lt_of_le (lt_of_le_of_ne hsub.length_le fun heq => ?_) hfits.size
        have hin : e₀ ∈ (c.expire now).dropFirst.map := hsub.eq_of_length heq ▸ he₀
        rw [hdrop] at hin
        simpa using (List.mem_filter.mp hin).2
      · have hin := hlasts e' he' hexp
        rw [hdrop]
        refine List.mem_filter.mpr ⟨hin, decide_eq_true fun hkey => ?_⟩
        obtain rfl := List.inj_on_of_nodup_map hfits.keyed hin he₀ hkey
        exact absurd hlt (not_lt.mpr (hmin e (hsub.subset he)))
    · rename_i hroom
      exact ⟨_, hexpire, .inl (Nat.lt_of_not_le hroom), fun e _ e' he' hexp _ =>
        hlasts e' he' hexp, rfl⟩
  · rename_i hfits
    refine ⟨_, List.Sublist.refl _, ?_, fun e _ e' he' _ _ => he', rfl⟩
    by_cases hroom : c.map.length < maxEntries
    · exact .inl hroom
    · have hany : c.map.any (·.1 = key) = true := by
        by_contra hnone
        exact hfits ⟨Nat.le_of_not_lt hroom, hnone⟩
      exact .inr (by simpa using hany)

theorem insert_fits (h : c.Fits) (key : Name × UInt16) (entry : Entry) (ttl : UInt32) (now : ℤ) :
    (c.insert key entry ttl now).Fits := by
  by_cases httl : ttl = 0
  · unfold insert
    rwa [if_pos httl]
  obtain ⟨kept, hsub, hroom, -, hmap⟩ := insert_eq h key entry httl now
  have hothers : (kept.filter fun e => e.1 ≠ key).Sublist kept := List.filter_sublist
  constructor
  · unfold Keyed
    rw [hmap, List.map_cons, List.nodup_cons]
    refine ⟨fun hin => ?_, h.keyed.sublist ((hothers.trans hsub).map Prod.fst)⟩
    obtain ⟨e, he, hkey⟩ := List.mem_map.mp hin
    exact of_decide_eq_true (List.mem_filter.mp he).2 hkey
  · rw [hmap, List.length_cons]
    rcases hroom with hroom | ⟨e, he, hkey⟩
    · exact lt_of_le_of_lt hothers.length_le hroom
    · refine lt_of_lt_of_le (lt_of_le_of_ne hothers.length_le fun heq => ?_)
        (hsub.length_le.trans h.size)
      have hin := hothers.eq_of_length heq ▸ he
      exact of_decide_eq_true (List.mem_filter.mp hin).2 hkey

theorem putAll_fits (h : c.Fits) (now : ℤ) (gs : List (List Record)) :
    (gs.foldl (fun c g => c.put g now) c).Fits := by
  induction gs generalizing c with
  | nil => exact h
  | cons g gs ih =>
    refine ih ?_
    cases g with
    | nil => exact h
    | cons r rs => exact insert_fits h _ _ _ _

/-- **A cache has one entry for each key, and not more than there may be.** -/
theorem call_fits (h : c.Fits) (now : ℤ) (call : CacheCall) : (c.call now call).Fits := by
  cases call with
  | put rs => exact putAll_fits h now [rs]
  | putAll rs => exact putAll_fits h now (groups rs)
  | putNoData name rtype soa => exact insert_fits h _ _ _ _
  | putNxDomain name soa => exact insert_fits h _ _ _ _
  | flush => exact h.sublist (List.nil_sublist _)
  | flushName name => exact h.sublist List.filter_sublist
  | expire => exact h.sublist List.filter_sublist

theorem mem_insert (h : c.Fits) {e : (Name × UInt16) × Slot}
    (he : e ∈ (c.insert key entry ttl now).map) :
    (ttl ≠ 0 ∧ e = (key, slot entry ttl now)) ∨ (e ∈ c.map ∧ (ttl ≠ 0 → e.1 ≠ key)) := by
  by_cases httl : ttl = 0
  · unfold insert at he
    rw [if_pos httl] at he
    exact .inr ⟨he, fun hne => absurd httl hne⟩
  · obtain ⟨kept, hsub, -, -, hmap⟩ := insert_eq h key entry httl now
    rw [hmap] at he
    rcases List.mem_cons.mp he with rfl | he
    · exact .inl ⟨httl, rfl⟩
    · obtain ⟨hin, hkey⟩ := List.mem_filter.mp he
      exact .inr ⟨hsub.subset hin, fun _ => of_decide_eq_true hkey⟩

theorem insert_keeps (h : c.Fits) {e e' : (Name × UInt16) × Slot}
    (he : e ∈ (c.insert key entry ttl now).map) (hkey : e.1 ≠ key) (he' : e' ∈ c.map)
    (hkey' : e'.1 ≠ key) (hexp : now < e.2.expires) (hlt : e.2.expires < e'.2.expires) :
    e' ∈ (c.insert key entry ttl now).map := by
  by_cases httl : ttl = 0
  · unfold insert
    rwa [if_pos httl]
  · obtain ⟨kept, -, -, hkeeps, hmap⟩ := insert_eq h key entry httl now
    rw [hmap] at he ⊢
    refine List.mem_cons_of_mem _ (List.mem_filter.mpr ⟨?_, decide_eq_true hkey'⟩)
    rcases List.mem_cons.mp he with rfl | he
    · exact absurd rfl hkey
    · exact hkeeps e (List.mem_filter.mp he).1 e' he' (hexp.trans hlt) hlt

/-! ## What hides an entry stays longer -/

/-- The entry is the newest, or for as long as it lasts the name is said not to exist. -/
def Known (c : Cache) (k : Newest) (name : Name) (rtype : UInt16) (s : Slot) : Prop :=
  if s.entry.isNx then rtype = typeNx ∧ ∀ t, k name t = some s
  else k name rtype = some s ∨ ∃ s', ((name, typeNx), s') ∈ c.map ∧ s'.entry.isNx = true ∧
    s.expires < s'.expires

/-- No record has a TTL beyond the time of the entry. -/
def Timed (s : Slot) : Prop :=
  ∃ ttl : UInt32, s.expires = s.stored + (ttl.toNat : ℤ) * 1000 ∧ ∀ r ∈ s.entry.shown, r.ttl ≤ ttl

structure Fresh (c : Cache) (k : Newest) (now : ℤ) : Prop extends Fits c where
  timed : ∀ e ∈ c.map, Timed e.2
  known : ∀ e ∈ c.map, now < e.2.expires → c.Known k e.1.1 e.1.2 e.2

section

variable (h : Fresh c k now)
include h

theorem Fresh.later {now' : ℤ} (hle : now ≤ now') : Fresh c k now' :=
  { h with known := fun e he hexp => h.known e he (lt_of_le_of_lt hle hexp) }

theorem Fresh.remove {c' : Cache} {k' : Newest} (hsub : c'.map.Sublist c.map)
    (hnewest : ∀ e ∈ c'.map, ∀ t, k' e.1.1 t = k e.1.1 t)
    (hkeeps : ∀ e ∈ c'.map, ∀ s, ((e.1.1, typeNx), s) ∈ c.map → now < s.expires →
      ((e.1.1, typeNx), s) ∈ c'.map) :
    Fresh c' k' now where
  toFits := h.toFits.sublist hsub
  timed := fun e he => h.timed e (hsub.subset he)
  known := fun e he hexp => by
    have hknown := h.known e (hsub.subset he) hexp
    unfold Known at hknown ⊢
    simp only [hnewest e he]
    split_ifs at hknown ⊢
    · exact hknown
    · rcases hknown with hnew | ⟨s, hs, hnx, hlt⟩
      · exact .inl hnew
      · exact .inr ⟨s, hkeeps e he s hs (hexp.trans hlt), hnx, hlt⟩

theorem timed_insert (hlasts : Lasts entry.shown ttl) {e : (Name × UInt16) × Slot}
    (he : e ∈ (c.insert key entry ttl now).map) : Timed e.2 := by
  rcases mem_insert h.toFits he with ⟨httl, rfl⟩ | ⟨hin, -⟩
  · exact ⟨ttl, rfl, hlasts.resolve_left httl⟩
  · exact h.timed e hin

/-- **What replaces all that it supersedes** is the newest that there is. -/
theorem Fresh.store {name : Name} {rtype : UInt16} {k' : Newest} (hentry : entry.isNx = false)
    (hrep : c.Replaces name rtype ttl now) (hlasts : Lasts entry.shown ttl)
    (hnew : k' name rtype = some (slot entry ttl now))
    (hsame : ∀ n t s, (n, t) ≠ (name, rtype) → k n t = some s → (n = name → s.entry.isNx = false) →
      k' n t = some s) :
    Fresh (c.insert (name, rtype) entry ttl now) k' now where
  toFits := insert_fits h.toFits _ _ _ _
  timed := fun e he => timed_insert h hlasts he
  known := by
    rintro ⟨⟨n, t⟩, s⟩ he hexp
    rcases mem_insert h.toFits he with ⟨-, heq⟩ | ⟨hin, hkey⟩
    · cases heq
      exact (if_neg (by rw [show (slot entry ttl now).entry =
        entry from rfl, hentry]; exact Bool.false_ne_true)).mpr
        (.inl hnew)
    have hknown := h.known _ hin hexp
    have hlive : c.live (n, t) now = some s := (live_eq_some h.keyed).mpr ⟨hin, hexp⟩
    have hne : (n, t) ≠ (name, rtype) := by
      intro heq
      by_cases httl : ttl = 0
      · cases heq
        rw [hrep.2 httl] at hlive
        cases hlive
      · exact hkey httl heq
    -- that this name does not exist is not said, or is what gets replaced
    have hother (s' : Slot) (hs' : ((n, typeNx), s') ∈ c.map) (hexp' : now < s'.expires)
      (hnx : s'.entry.isNx = true) :
        n ≠ name := by
      rintro rfl
      obtain ⟨rfl, -, hnone⟩ := hrep.1 ⟨s', (live_eq_some h.keyed).mpr ⟨hs', hexp'⟩, hnx⟩
      have ht : t ≠ typeNx := fun ht => hne (by rw [ht])
      rw [hnone t ht] at hlive
      cases hlive
    unfold Known at hknown ⊢
    split_ifs at hknown ⊢ with hnx
    · obtain ⟨rfl, hall⟩ := hknown
      have hname := hother s hin hexp hnx
      exact ⟨rfl, fun t' => hsame n t' s (fun heq => hname (congrArg Prod.fst heq))
        (hall t') fun h => absurd h hname⟩
    · rcases hknown with hold | ⟨s', hs', hnx', hlt⟩
      · exact .inl (hsame n t s hne hold fun _ => Bool.eq_false_of_not_eq_true hnx)
      · have hname := hother s' hs' (hexp.trans hlt) hnx'
        refine .inr ⟨s', insert_keeps h.toFits he hne hs'
          (fun heq => hname (congrArg Prod.fst heq)) hexp hlt, hnx', hlt⟩

/-- **That a name does not exist** hides what was known of it for as long as that lasts. -/
theorem Fresh.storeNx {name : Name} {soa : Option Record}
    (hlong : ∀ t s, c.live (name, t) now = some s → (t = typeNx ∧ ttl ≠ 0) ∨
      s.expires < now + (ttl.toNat : ℤ) * 1000)
    (hlasts : Lasts soa.toList ttl) :
    Fresh (c.insert (name, typeNx) (.nxDomain soa) ttl now)
      (fun n t => if n = name then some (slot (.nxDomain soa) ttl now) else k n t) now where
  toFits := insert_fits h.toFits _ _ _ _
  timed := fun e he => timed_insert h (show Lasts (Entry.nxDomain soa).shown ttl from hlasts) he
  known := by
    rintro ⟨⟨n, t⟩, s⟩ he hexp
    rcases mem_insert h.toFits he with ⟨-, heq⟩ | ⟨hin, hkey⟩
    · cases heq
      exact ⟨rfl, fun t => if_pos rfl⟩
    have hknown := h.known _ hin hexp
    unfold Known at hknown ⊢
    dsimp only at hknown hexp hkey ⊢
    by_cases hname : n = name
    · obtain rfl := hname
      rcases hlong t s ((live_eq_some h.keyed).mpr ⟨hin, hexp⟩) with ⟨rfl, httl⟩ | hlt
      · exact absurd rfl (hkey httl)
      have httl : ttl ≠ 0 := by
        rintro rfl
        simp at hlt
        omega
      rw [if_neg fun hnx => ?_]
      · obtain ⟨kept, -, -, -, hmap⟩ := insert_eq h.toFits (n, typeNx) (.nxDomain soa) httl now
        exact .inr ⟨slot (.nxDomain soa) ttl now, hmap ▸ List.mem_cons_self, rfl, hlt⟩
      · rw [if_pos hnx] at hknown
        exact hkey httl (by rw [hknown.1])
    · simp only [if_neg hname]
      split_ifs at hknown ⊢
      · exact hknown
      · rcases hknown with hold | ⟨s', hs', hnx', hlt⟩
        · exact .inl hold
        · have hne (t' : UInt16) : (n, t') ≠ (name, typeNx) :=
            fun heq => hname (congrArg Prod.fst heq)
          exact .inr ⟨s', insert_keeps h.toFits he (hne t) hs' (hne typeNx) hexp hlt, hnx', hlt⟩

/-! ## Runs -/

theorem Fresh.put {rs : List Record} (hmeets : c.PutMeets now rs) :
    Fresh (c.put rs now) (k.put rs now) now := by
  cases rs with
  | nil => exact h
  | cons r rs =>
    refine h.store rfl hmeets.1 hmeets.2 (if_pos ⟨rfl, rfl⟩) fun n t s hne hold hnx => ?_
    show ite _ _ _ = _
    rw [if_neg fun heq => hne (Prod.ext heq.1 heq.2), if_neg, hold]
    rintro ⟨hname, hany⟩
    rw [hold, Option.any_some, hnx hname] at hany
    cases hany

omit h in
theorem Fresh.putAll (gs : List (List Record)) (h : Fresh c k now) (hmeets : PutsMeet now c gs) :
    Fresh (gs.foldl (fun c g => c.put g now) c) (gs.foldl (fun k g => k.put g now) k) now := by
  induction gs generalizing c k with
  | nil => exact h
  | cons g gs ih => exact ih (h.put hmeets.1) hmeets.2

/-- **A call that replaces or outlasts what it supersedes leaves nothing that is not the
newest.** -/
theorem Fresh.call (call : CacheCall) (hmeets : c.Meets now call) :
    Fresh (c.call now call) (k.call now call) now := by
  cases call with
  | put rs => exact h.put hmeets
  | putAll rs => exact h.putAll (groups rs) hmeets
  | putNoData name rtype soa =>
    refine h.store rfl hmeets.1 hmeets.2 (if_pos ⟨rfl, rfl⟩) fun n t s hne hold _ => ?_
    exact (if_neg fun heq => hne (Prod.ext heq.1 heq.2)).trans hold
  | putNxDomain name soa => exact h.storeNx hmeets.1 hmeets.2
  | flush =>
    exact h.remove (List.nil_sublist _) (fun e he => absurd he List.not_mem_nil) fun e he =>
      absurd he List.not_mem_nil
  | flushName name =>
    have hother : ∀ e ∈ (c.flushName name).map, e.1.1 ≠ name :=
      fun e he => of_decide_eq_true (List.mem_filter.mp he).2
    exact h.remove List.filter_sublist (fun e he t => if_neg (hother e he)) fun e he s hs _ =>
      List.mem_filter.mpr ⟨hs, decide_eq_true (hother e he)⟩
  | expire =>
    exact h.remove List.filter_sublist (fun _ _ _ => rfl) fun e _ s hs hexp =>
      List.mem_filter.mpr ⟨hs, decide_eq_true hexp⟩

theorem Fresh.run {calls : List (ℤ × CacheCall)}
    (hsorted : (now :: calls.map Prod.fst).Pairwise (· ≤ ·)) (hmeets : RunMeets c calls) {last : ℤ}
    (hnow : now ≤ last) (hlast : ∀ e ∈ calls, e.1 ≤ last) :
    Fresh (c.run calls) (k.run calls) last := by
  induction calls generalizing c k now with
  | nil => exact h.later hnow
  | cons e calls ih =>
    obtain ⟨now', call⟩ := e
    obtain ⟨hle, hsorted⟩ := List.pairwise_cons.mp hsorted
    refine ih ((h.later (hle now' List.mem_cons_self)).call call hmeets.1) hsorted hmeets.2
      (hlast _ List.mem_cons_self) ?_
    exact fun e he => hlast e (List.mem_cons_of_mem _ he)

end

theorem run_fits (h : c.Fits) (calls : List (ℤ × CacheCall)) : (c.run calls).Fits := by
  induction calls generalizing c with
  | nil => exact h
  | cons e calls ih => exact ih (call_fits h e.1 e.2)

theorem empty_fresh (now : ℤ) : Fresh {} (fun _ _ => none) now where
  keyed := List.nodup_nil
  size := Nat.zero_le _
  timed := fun _ he => absurd he List.not_mem_nil
  known := fun _ he => absurd he List.not_mem_nil

/-! ## What is answered -/

theorem Fresh.get (h : Fresh c k now) {name : Name} {rtype : UInt16} {e : Entry}
    (hget : c.get name rtype now = some e) :
    ∃ s, k name rtype = some s ∧ now < s.expires ∧ e = s.entry.left now s.stored ∧ Timed s := by
  have hlive {t : UInt16} {s : Slot} (hs : c.live (name, t) now = some s) :
    now < s.expires ∧ c.Known k name t s ∧ Timed s := by
    obtain ⟨hin, hexp⟩ := (live_eq_some h.keyed).mp hs
    exact ⟨hexp, h.known _ hin hexp, h.timed _ hin⟩
  unfold Cache.get at hget
  dsimp only at hget
  rcases Option.or_eq_some_iff.mp hget with hnx | ⟨hnone, hslot⟩
  · obtain ⟨s, hs, hsome⟩ := Option.bind_eq_some_iff.mp hnx
    obtain ⟨hexp, hknown, htimed⟩ := hlive hs
    split at hsome
    · rename_i soa hentry
      unfold Known at hknown
      rw [if_pos (by rw [hentry]; rfl)] at hknown
      exact ⟨s, hknown.2 rtype, hexp, (Option.some.inj hsome).symm, htimed⟩
    · cases hsome
  · obtain ⟨s, hs, rfl⟩ := Option.map_eq_some_iff.mp hslot
    obtain ⟨hexp, hknown, htimed⟩ := hlive hs
    refine ⟨s, ?_, hexp, rfl, htimed⟩
    unfold Known at hknown
    split_ifs at hknown with hisnx
    · exact hknown.2 rtype
    · rcases hknown with hnew | ⟨s', hs', hisnx', hlt⟩
      · exact hnew
      · -- what hides it would have been found first
        rw [(live_eq_some h.keyed).mpr ⟨hs', hexp.trans hlt⟩, Option.bind_some] at hnone
        cases hentry : s'.entry with
        | nxDomain soa =>
          rw [hentry] at hnone
          cases hnone
        | records rs =>
          rw [hentry] at hisnx'
          cases hisnx'
        | noData soa =>
          rw [hentry] at hisnx'
          cases hisnx'

theorem shown_left {e : Entry} {stored : ℤ} {r : Record} (hr : r ∈ (e.left now stored).shown) :
    ∃ r₀ ∈ e.shown, r = left now stored r₀ := by
  cases e with
  | records rs =>
    obtain ⟨r₀, hr₀, rfl⟩ := List.mem_map.mp hr
    exact ⟨r₀, hr₀, rfl⟩
  | noData soa =>
    obtain ⟨r₀, hr₀, rfl⟩ := Option.map_eq_some_iff.mp (Option.mem_toList.mp hr)
    exact ⟨r₀, Option.mem_toList.mpr hr₀, rfl⟩
  | nxDomain soa =>
    obtain ⟨r₀, hr₀, rfl⟩ := Option.map_eq_some_iff.mp (Option.mem_toList.mp hr)
    exact ⟨r₀, Option.mem_toList.mpr hr₀, rfl⟩

/-- A TTL is not more than the time that is left, in whole seconds. -/
theorem ttl_left_le (h : Timed s) (hexp : now < s.expires) {r : Record}
    (hr : r ∈ (s.entry.left now s.stored).shown) :
    (r.ttl.toNat : ℤ) ≤ (s.expires - now + 999) / 1000 := by
  obtain ⟨ttl, hexpires, httls⟩ := h
  obtain ⟨r₀, hr₀, rfl⟩ := shown_left hr
  have hle := UInt32.le_iff_toNat_le.mp (httls r₀ hr₀)
  have hmax := ttl.toNat_lt
  unfold left
  dsimp only
  have hgone : ((max (now - s.stored) 0) / 1000).toNat < 2 ^ 32 := by omega
  generalize hg : ((max (now - s.stored) 0) / 1000).toNat = gone at hgone
  have hsmall : (UInt32.ofNat gone).toNat = gone := UInt32.toNat_ofNat_of_lt' hgone
  rw [show min r₀.ttl (UInt32.ofNat gone) = if r₀.ttl ≤ UInt32.ofNat gone then r₀.ttl
    else UInt32.ofNat gone from rfl]
  split_ifs with hover
  · rw [UInt32.sub_self]
    simp only [UInt32.toNat_zero]
    omega
  · have hover : gone ≤ r₀.ttl.toNat := by
      rw [UInt32.le_iff_toNat_le, hsmall] at hover
      exact Nat.le_of_not_le hover
    rw [UInt32.toNat_sub_of_le _ _ (UInt32.le_iff_toNat_le.mpr (hsmall.symm ▸ hover)), hsmall]
    omega

/-- **The cache answers with the newest that it learned.**  It never has more entries than it may;
and where every call replaces or outlasts what it supersedes, what is answered is what was learned
last of the name and the type, before its time is over, with TTLs of at most the time that is
left. -/
theorem get_newest (calls : List (ℤ × CacheCall)) (now : ℤ) :
    (run {} calls).map.length ≤ maxEntries ∧
    ((calls.map Prod.fst).Pairwise (· ≤ ·) → (∀ e ∈ calls, e.1 ≤ now) → RunMeets {} calls →
      ∀ name rtype e, (run {} calls).get name rtype now = some e →
        ∃ s, Newest.run (fun _ _ => none) calls name rtype = some s ∧ now < s.expires ∧
          e = s.entry.left now s.stored ∧
          ∀ r ∈ e.shown, (r.ttl.toNat : ℤ) ≤ (s.expires - now + 999) / 1000) := by
  refine ⟨(run_fits (empty_fresh now).toFits calls).size,
    fun hsorted hlast hmeets name rtype e hget => ?_⟩
  -- a time before all of them
  obtain ⟨start, hstart⟩ : ∃ start : ℤ, start ≤ now ∧ ∀ e ∈ calls, start ≤ e.1 := by
    cases calls with
    | nil => exact ⟨now, le_rfl, fun e he => absurd he List.not_mem_nil⟩
    | cons e calls =>
      refine ⟨e.1, hlast e List.mem_cons_self, fun e' he' => ?_⟩
      rcases List.mem_cons.mp he' with rfl | he'
      · exact le_rfl
      · exact (List.pairwise_cons.mp hsorted).1 _ (List.mem_map_of_mem he')
  have hsorted : (start :: calls.map Prod.fst).Pairwise (· ≤ ·) := List.pairwise_cons.mpr
    ⟨fun t ht => by obtain ⟨e, he, rfl⟩ := List.mem_map.mp ht; exact hstart.2 e he, hsorted⟩
  obtain ⟨s, hs, hexp, rfl, htimed⟩ :=
    ((empty_fresh start).run hsorted hmeets hstart.1 hlast).get hget
  exact ⟨s, hs, hexp, rfl, fun r hr => ttl_left_le htimed hexp hr⟩

/-! ### A name that comes to exist -/

def newName : Name := "www.ring".toList

def newAddress : Record :=
  { name := newName, rtype := typeA, ttl := 300, data := .a ⟨100, 68, 0, 10⟩ }

/-- Its address is learned when that it does not exist is over. -/
def learnedLater : List (ℤ × CacheCall) :=
  [(0, .putNxDomain newName none), (60000, .put [newAddress])]

theorem learnedLater_newest : (run {} learnedLater).map.length ≤ maxEntries ∧
    (((run {} learnedLater).get newName typeA 60500).isSome = true ∧
      ∀ name rtype e, (run {} learnedLater).get name rtype 60500 = some e →
        ∃ s, Newest.run (fun _ _ => none) learnedLater name rtype = some s ∧ 60500 < s.expires ∧
          e = s.entry.left 60500 s.stored ∧ ∀ r ∈ e.shown,
            (r.ttl.toNat : ℤ) ≤ (s.expires - 60500 + 999) / 1000) := by
  obtain ⟨hsize, hnewest⟩ := get_newest learnedLater 60500
  refine ⟨hsize, by decide +kernel, hnewest (by decide) (by simp [learnedLater])
    ⟨⟨fun t s hs => ?_, ?_⟩, ⟨⟨?_, ?_⟩, ?_⟩, trivial⟩⟩
  · cases hs
  · exact .inr fun r hr => absurd hr List.not_mem_nil
  · rintro ⟨s, hs, -⟩
    have hover : (run {} [(0, .putNxDomain newName none)]).live (newName, typeNx) 60000 = none := by
      decide +kernel
    cases hover.symm.trans hs
  · exact fun hzero => absurd hzero (by decide)
  · exact .inr fun r hr => by rw [List.mem_singleton.mp hr]; decide

/-- That it does not exist goes on being answered. -/
theorem nxDomain_outlives_put : ¬ ∀ (calls : List (ℤ × CacheCall)) (now : ℤ),
    (calls.map Prod.fst).Pairwise (· ≤ ·) → (∀ e ∈ calls, e.1 ≤ now) →
      ∀ name rtype e, (run {} calls).get name rtype now = some e →
        ∃ s, Newest.run (fun _ _ => none) calls name rtype = some s ∧ now < s.expires ∧
          e = s.entry.left now s.stored := by
  intro h
  obtain ⟨s, hs, -, he⟩ := h [(0, .putNxDomain newName none), (0, .put [newAddress])] 500
    (by decide) (by simp) newName typeA
    (.nxDomain none) (by decide +kernel)
  have hnewest : Newest.run (fun _ _ => none)
    [(0, .putNxDomain newName none), (0, .put [newAddress])] newName typeA =
      some (slot (.records [newAddress]) 300 0) := by decide +kernel
  obtain rfl := Option.some.inj (hnewest.symm.trans hs)
  cases he

end EvansComputer.Dns.Cache
