import EvansComputer.Dns.Lookups

/-!
# What a server may put into the cache

A server is asked as an authority for a zone, and what it says is kept for names of that zone
only.  Its name is in the NS set of the zone, which was kept from an earlier answer of a zone above
it or of its own, or it is a server of the root that the hints give; its address comes from the
hints too, or from an answer.  So every entry of the cache leads back to the hints through answers
to questions that were asked.

What a lookup ends with is another matter: an alias leads from one zone into another, and the
servers of that zone then have their part in the answer.
-/

namespace EvansComputer.Dns

/-! ## Names below a zone -/

/-- Equal to or below, by parents. -/
inductive Below : Name → Name → Prop
  | refl (z : Name) : Below z z
  | up {n p z : Name} : parent n = some p → Below p z → Below n z

theorem parent_dot (z : Name) : parent ('.' :: z) = some z := rfl

theorem parent_cons {c : Char} (hc : c ≠ '.') {n : Name} (hn : n ≠ []) :
    parent (c :: n) = parent n := by
  unfold parent
  rw [if_neg (List.cons_ne_nil _ _), if_neg hn, List.dropWhile_cons_of_pos (by simpa using hc)]

theorem below_append (x z : Name) : Below (x ++ '.' :: z) z := by
  induction x with
  | nil => exact .up (parent_dot z) (.refl z)
  | cons c x ih =>
    rw [List.cons_append]
    by_cases hc : c = '.'
    · subst hc
      exact .up (parent_dot _) ih
    · -- the first label goes on
      generalize hn : x ++ '.' :: z = n at ih
      have hlong : z.length < n.length := by
        rw [← hn]
        simp
        omega
      cases ih with
      | refl => exact absurd hlong (lt_irrefl _)
      | up hp hb => exact .up ((parent_cons hc (by rintro rfl; simp at hlong)).trans hp) hb

theorem parent_length {n p : Name} (h : parent n = some p) : p.length < n.length := by
  unfold parent at h
  split at h
  · cases h
  rename_i hne
  cases h
  have hdrop : (n.dropWhile (· ≠ '.')).length ≤ n.length := (List.dropWhile_sublist _).length_le
  have hpos : 0 < n.length := List.length_pos_iff.mpr hne
  rw [List.length_drop]
  omega

theorem below_root (n : Name) : Below n [] := by
  induction hlen : n.length using Nat.strong_induction_on generalizing n with
  | _ k ih =>
    by_cases hn : n = []
    · rw [hn]
      exact .refl []
    · have hp : parent n = some ((n.dropWhile (· ≠ '.')).drop 1) := if_neg hn
      exact .up hp (ih _ (hlen ▸ parent_length hp) _ rfl)

theorem isSub_below {n z : Name} (h : isSub n z = true) : Below n z := by
  unfold isSub at h
  rw [Bool.or_eq_true, Bool.or_eq_true, decide_eq_true_eq, decide_eq_true_eq] at h
  rcases h with (rfl | rfl) | h
  · exact below_root n
  · exact .refl _
  rw [Bool.and_eq_true, Bool.and_eq_true, decide_eq_true_eq, decide_eq_true_eq] at h
  obtain ⟨⟨hlong, hsuffix⟩, hdot⟩ := h
  obtain ⟨x, rfl⟩ := List.isSuffixOf_iff_suffix.mp hsuffix
  rw [List.length_append, Nat.add_sub_cancel] at hdot
  have hx : x ≠ [] := by
    rintro rfl
    rw [List.nil_append] at hlong
    omega
  have hlast : x = x.dropLast ++ ['.'] := by
    rw [List.getElem?_append_left (by have := List.length_pos_iff.mpr hx; omega)] at hdot
    have hget : x.getLast hx = '.' := by
      rw [List.getLast_eq_getElem]
      exact (List.getElem?_eq_some_iff.mp hdot).2
    rw [← hget]
    exact (List.dropLast_append_getLast hx).symm
  rw [hlast, List.append_assoc]
  exact below_append _ z

/-! ## What is stored -/

/-- New entries are about names of the zone. -/
def Stores (zone : Name) (c c' : Cache) : Prop := ∀ e ∈ c'.map, e ∈ c.map ∨ Below e.1.1 zone

variable {zone : Name} {c c' c'' : Cache} {now : ℤ}

theorem Stores.refl (zone : Name) (c : Cache) : Stores zone c c := fun _ he => .inl he

theorem Stores.trans (h : Stores zone c c') (h' : Stores zone c' c'') : Stores zone c c'' := by
  intro e he
  rcases h' e he with he | hbelow
  · exact h e he
  · exact .inr hbelow

theorem stores_insert (c : Cache) {key : Name × UInt16} (hkey : Below key.1 zone) (entry : Entry)
    (ttl : UInt32) (now : ℤ) :
    Stores zone c (c.insert key entry ttl now) := by
  unfold Cache.insert
  split
  · exact .refl zone c
  dsimp only
  intro e he
  rcases List.mem_cons.mp he with rfl | he
  · exact .inr hkey
  refine .inl ?_
  have he := (List.mem_filter.mp he).1
  have hexpire : ∀ e ∈ (c.expire now).map, e ∈ c.map := fun e he => (List.mem_filter.mp he).1
  split at he
  · split at he
    · unfold Cache.dropFirst at he
      dsimp only at he
      split at he
      · exact hexpire e (List.mem_filter.mp he).1
      · exact hexpire e he
    · exact hexpire e he
  · exact he

theorem stores_put {records : List Record} (hrecords : ∀ r ∈ records, Below r.name zone)
    (c : Cache) (now : ℤ) :
    Stores zone c (c.put records now) := by
  cases records with
  | nil => exact .refl zone c
  | cons r rs => exact stores_insert c (hrecords r List.mem_cons_self) _ _ now

theorem mem_groups {records g : List Record} {r : Record} (hg : g ∈ Cache.groups records)
    (hr : r ∈ g) : r ∈ records := by
  refine List.foldlRecOn (motive := fun gs => ∀ g ∈ gs, ∀ r ∈ g, r ∈ records) records _
    (fun g hg => absurd hg List.not_mem_nil) (fun gs hgs x hx => ?_) g hg r hr
  split
  · rename_i i _
    intro g hg r hr
    obtain ⟨j, hj, hget⟩ := List.getElem_of_mem hg
    rw [List.getElem_modify] at hget
    have hold := hgs _ (List.getElem_mem (by simpa using hj))
    split at hget
    · split at hget
      · exact hold r (hget ▸ hr)
      · rw [← hget] at hr
        rcases List.mem_append.mp hr with hr | hr
        · exact hold r hr
        · rw [List.mem_singleton.mp hr]
          exact hx
    · exact hold r (hget ▸ hr)
  · intro g hg r hr
    rcases List.mem_append.mp hg with hg | hg
    · exact hgs g hg r hr
    · rw [List.mem_singleton.mp hg, List.mem_singleton] at hr
      rw [hr]
      exact hx

theorem stores_putAll {records : List Record} (hrecords : ∀ r ∈ records, Below r.name zone)
    (c : Cache) (now : ℤ) :
    Stores zone c (c.putAll records now) := by
  unfold Cache.putAll
  have hgroups : ∀ g ∈ Cache.groups records, ∀ r ∈ g, Below r.name zone :=
    fun g hg r hr => hrecords r (mem_groups hg hr)
  generalize Cache.groups records = gs at hgroups
  induction gs generalizing c with
  | nil => exact .refl zone c
  | cons g gs ih =>
    exact (stores_put (hgroups g List.mem_cons_self) c now).trans
      (ih (c.put g now) fun g' hg' => hgroups g' (List.mem_cons_of_mem _ hg'))

/-- **Data for a name is kept only inside the zone.** -/
theorem stores_gather (m : Message) (qtype : UInt16) (fuel : ℕ) (g : Resolver.Gathered) :
    Stores zone g.cache (Resolver.gather m zone qtype now fuel g).cache := by
  induction fuel generalizing g with
  | zero => exact .refl zone g.cache
  | succ fuel ih =>
    unfold Resolver.gather
    split
    · exact .refl zone g.cache
    rename_i hsub
    have hbelow : Below g.name zone := isSub_below (by simpa using hsub)
    dsimp only
    split
    · have hhits : ∀ r ∈ hasRrset m.answers g.name qtype, Below r.name zone := by
        intro r hr
        have hname := (List.mem_filter.mp hr).2
        rw [Bool.and_eq_true, decide_eq_true_eq] at hname
        rw [hname.1]
        exact hbelow
      split
      · refine (stores_putAll hhits _ now).trans (stores_putAll (fun r hr => ?_) _ now)
        have hglue := (List.mem_filter.mp hr).2
        rw [Bool.and_eq_true] at hglue
        exact isSub_below hglue.2
      · exact stores_putAll hhits _ now
    · split
      · rename_i r hr
        split
        · refine (stores_put (fun r' hr' => ?_) g.cache now).trans (ih _)
          have hname := (List.mem_filter.mp (List.mem_of_head? hr)).2
          rw [Bool.and_eq_true, decide_eq_true_eq] at hname
          rw [List.mem_singleton.mp hr', hname.1]
          exact hbelow
        · exact .refl zone g.cache
      · exact .refl zone g.cache

/-! ## Where servers come from -/

/-- An answer that was taken in a run: who was asked as a server of which zone, what the answer says
and what was stored of it. -/
structure Heard where
  server : Ipv4Addr
  zone : Name
  answers : List Record
  stored : List ((Name × UInt16) × Entry)

/-- The address is in an A record that an answer brought. -/
def Found (log : List Heard) (ip : Ipv4Addr) : Prop :=
  ∃ h ∈ log, ∃ r : Record, r.a = some ip ∧
    (r ∈ h.answers ∨ ∃ k rs, (k, .records rs) ∈ h.stored ∧ r ∈ rs)

abbrev Hints := List (Name × Ipv4Addr)

/-- The name is one of a server of the zone: of its NS set as it was stored, or of the hints for
the root. -/
def Named (hints : Hints) (log : List Heard) (z n : Name) : Prop :=
  (z = [] ∧ n ∈ hints.map (·.1)) ∨
    ∃ h ∈ log, ∃ rs, ((z, typeNs), .records rs) ∈ h.stored ∧ n ∈ rs.filterMap (·.data.target)

/-- A server of the zone, at addresses that the hints give for it or that were found. -/
structure Proper (hints : Hints) (log : List Heard) (z : Name) (s : NameServer) : Prop where
  named : Named hints log z s.name
  reached : ∀ ip ∈ s.addrs, (z = [] ∧ (s.name, ip) ∈ hints) ∨ Found log ip

/-- A server at this address may be asked as one of the zone. -/
def Serves (hints : Hints) (log : List Heard) (z : Name) (ip : Ipv4Addr) : Prop :=
  ∃ s, Proper hints log z s ∧ ip ∈ s.addrs

variable {hints : Hints} {log new : List Heard} {z n : Name} {ip : Ipv4Addr} {s : NameServer}

theorem Found.append (h : Found log ip) (new : List Heard) : Found (log ++ new) ip := by
  obtain ⟨x, hx, h⟩ := h
  exact ⟨x, List.mem_append_left _ hx, h⟩

theorem Proper.append (h : Proper hints log z s) (new : List Heard) :
    Proper hints (log ++ new) z s where
  named := h.named.imp_right fun ⟨x, hx, h⟩ => ⟨x, List.mem_append_left _ hx, h⟩
  reached := fun ip hip => (h.reached ip hip).imp_right (·.append new)

/-- Every entry of the cache was stored in the run. -/
def Logged (log : List Heard) (c : Cache) : Prop :=
  ∀ e ∈ c.map, ∃ h ∈ log, (e.1, e.2.entry) ∈ h.stored

/-- A task asks a zone that its name is in, and servers of that zone. -/
structure Asks (hints : Hints) (log : List Heard) (t : Task) : Prop where
  recursive : t.fallback = false
  zone : ∀ z, t.zone = some z → Below t.qname z ∧ ∀ s ∈ t.servers, Proper hints log z s
  chain : ∀ r ∈ t.chain, ∀ ip, r.a = some ip → Found log ip
  inflight : ∀ f, t.inflight = some f → ∃ z, t.zone = some z ∧ Serves hints log z f.to_

/-- Of tasks with one id, only the first waits for a datagram. -/
def Firsts (tasks : List Task) : Prop := tasks.Pairwise fun s t => s.id = t.id → t.inflight = none

structure Safe (hints : Hints) (log : List Heard) (r : Resolver) : Prop where
  forwards : r.cfg.fallback = []
  hinted : r.cfg.hints = hints
  logged : Logged log r.cache
  tasks : ∀ t ∈ r.tasks, Asks hints log t
  firsts : Firsts r.tasks

variable {t t' : Task} {r r' : Resolver} {id : UInt32}

theorem get_mem {c : Cache} {name : Name} {rtype : UInt16} {rs : List Record}
    (h : c.get name rtype now = some (.records rs)) :
    ∃ e ∈ c.map, e.1 = (name, rtype) ∧ ∃ rs', e.2.entry = .records rs' ∧
      rs = rs'.map (left now e.2.stored) := by
  unfold Cache.get at h
  dsimp only at h
  rcases Option.or_eq_some_iff.mp h with hnx | ⟨-, hslot⟩
  · obtain ⟨s, -, hs⟩ := Option.bind_eq_some_iff.mp hnx
    split at hs
    · rename_i soa hentry
      rw [hentry] at hs
      cases hs
    · cases hs
  · obtain ⟨s, hs, hrs⟩ := Option.map_eq_some_iff.mp hslot
    obtain ⟨hs, -⟩ := Option.filter_eq_some_iff.mp hs
    obtain ⟨e, he, rfl⟩ := Option.map_eq_some_iff.mp hs
    refine ⟨e, List.mem_of_find?_eq_some he, by simpa using List.find?_some he, ?_⟩
    cases hentry : e.2.entry with
    | records rs' =>
      rw [hentry] at hrs
      cases hrs
      exact ⟨rs', rfl, rfl⟩
    | noData soa =>
      rw [hentry] at hrs
      cases hrs
    | nxDomain soa =>
      rw [hentry] at hrs
      cases hrs

theorem records_get {c : Cache} {name : Name} {rtype : UInt16} {rs : List Record}
    (h : c.records name rtype now = some rs) : c.get name rtype now = some (.records rs) := by
  unfold Cache.records at h
  split at h
  · rename_i hget
    cases h
    exact hget
  · cases h

/-- What the cache gives was found. -/
theorem Logged.found {c : Cache} (h : Logged log c) {name : Name} {rtype : UInt16}
    {rs : List Record} (hget : c.get name rtype now = some (.records rs)) :
    ∀ r ∈ rs, ∀ ip, r.a = some ip → Found log ip := by
  obtain ⟨e, he, -, rs', hentry, rfl⟩ := get_mem hget
  obtain ⟨x, hx, hstored⟩ := h e he
  rw [hentry] at hstored
  intro r hr ip hip
  obtain ⟨r', hr', rfl⟩ := List.mem_map.mp hr
  exact ⟨x, hx, r', hip, .inr ⟨_, rs', hstored, hr'⟩⟩

/-- The NS set that the cache gives was stored. -/
theorem Logged.named {c : Cache} (h : Logged log c) {rs : List Record}
    (hns : c.records z typeNs now = some rs) (hints : Hints) :
    ∀ n ∈ rs.filterMap (·.data.target), Named hints log z n := by
  obtain ⟨e, he, hkey, rs', hentry, rfl⟩ := get_mem (records_get hns)
  obtain ⟨x, hx, hstored⟩ := h e he
  rw [hentry, hkey] at hstored
  intro n hn
  rw [List.filterMap_map] at hn
  exact .inr ⟨x, hx, rs', hstored, hn⟩

theorem findZoneFrom_proper (hlogged : Logged log r.cache) (now : ℤ) (fuel : ℕ) {n : Name}
    {p : Name × List NameServer} (h : r.findZoneFrom now fuel n = some p) :
    Below n p.1 ∧ ∀ s ∈ p.2, Proper r.cfg.hints log p.1 s := by
  induction fuel generalizing n with
  | zero => cases h
  | succ fuel ih =>
    unfold Resolver.findZoneFrom at h
    dsimp only at h
    split at h
    · rename_i ns hns
      have hserver : ∀ s ∈ (ns.filterMap (·.data.target)).map fun t =>
          ({ name := t, addrs := ((r.cache.records t typeA now).getD []).filterMap (·.a) } :
            NameServer),
          Proper r.cfg.hints log n s := by
        intro s hs
        obtain ⟨t, ht, rfl⟩ := List.mem_map.mp hs
        refine ⟨hlogged.named hns _ t ht, fun ip hip => .inr ?_⟩
        obtain ⟨a, ha, hip⟩ := List.mem_filterMap.mp hip
        cases hrecords : r.cache.records t typeA now with
        | none =>
          rw [hrecords] at ha
          cases ha
        | some as =>
          rw [hrecords] at ha
          exact hlogged.found (records_get hrecords) a ha ip hip
      split at h
      · rename_i hroot
        split at h
        · cases h
        · cases h
          refine ⟨.refl n, fun s hs => ?_⟩
          obtain ⟨s, hserver', rfl⟩ := List.mem_map.mp hs
          split
          · refine ⟨(hserver s hserver').named, fun ip hip => .inl ⟨hroot, ?_⟩⟩
            obtain ⟨hint, hmem, rfl⟩ := List.mem_map.mp hip
            obtain ⟨hmem, hname⟩ := List.mem_filter.mp hmem
            rw [decide_eq_true_eq] at hname
            exact hname ▸ hmem
          · exact hserver s hserver'
      · cases h
        exact ⟨.refl n, hserver⟩
    · obtain ⟨q, hq, hp⟩ := Option.bind_eq_some_iff.mp h
      obtain ⟨hbelow, hproper⟩ := ih hp
      exact ⟨.up hq hbelow, hproper⟩

theorem hintServers_proper (hints : Hints) :
    ∀ s ∈ Resolver.hintServers hints, Proper hints log [] s := by
  refine List.foldlRecOn (motive := fun servers => ∀ s ∈ servers, Proper hints log [] s) hints _
    (fun s hs => absurd hs List.not_mem_nil) fun servers hservers hint hmem => ?_
  split
  · rename_i i hi
    intro s hs
    obtain ⟨j, hj, rfl⟩ := List.getElem_of_mem hs
    have hold := hservers _ (List.getElem_mem (by simpa using hj))
    rw [List.getElem_modify]
    split
    · rename_i heq
      subst heq
      obtain ⟨_, hname, -⟩ := List.findIdx?_eq_some_iff_getElem.mp hi
      rw [decide_eq_true_eq] at hname
      refine ⟨hold.named, fun ip hip => ?_⟩
      rcases List.mem_append.mp hip with hip | hip
      · exact hold.reached ip hip
      · rw [List.mem_singleton.mp hip]
        exact .inl ⟨rfl, by rw [hname]; exact hmem⟩
    · exact hold
  · intro s hs
    rcases List.mem_append.mp hs with hs | hs
    · exact hservers s hs
    · rw [List.mem_singleton.mp hs]
      refine ⟨.inl ⟨rfl, List.mem_map_of_mem hmem⟩, fun ip hip => ?_⟩
      rw [List.mem_singleton.mp hip]
      exact .inl ⟨rfl, hmem⟩

/-- **The zone to ask is above the name, and its servers are known.** -/
theorem findZone_proper (hlogged : Logged log r.cache) (qname : Name) (now : ℤ) :
    Below qname (r.findZone qname now).1 ∧
      ∀ s ∈ (r.findZone qname now).2, Proper r.cfg.hints log (r.findZone qname now).1 s := by
  unfold Resolver.findZone
  cases h : r.findZoneFrom now (qname.length + 2) qname with
  | none => exact ⟨below_root qname, hintServers_proper r.cfg.hints⟩
  | some p => exact findZoneFrom_proper hlogged now _ h

/-! ## What tasks do -/

/-- What a task asks and knows. -/
def Task.view (t : Task) :
    Name × Option Name × Option Inflight × Bool × List Record × List NameServer :=
  (t.qname, t.zone, t.inflight, t.fallback, t.chain, t.servers)

theorem Asks.congr (h : Asks hints log t) (hview : t'.view = t.view) : Asks hints log t' := by
  simp only [Task.view, Prod.mk.injEq] at hview
  obtain ⟨hname, hzone, hinflight, hfallback, hchain, hservers⟩ := hview
  refine ⟨hfallback.trans h.recursive, ?_, hchain ▸ h.chain, ?_⟩
  · rw [hname, hzone, hservers]
    exact h.zone
  · rw [hinflight, hzone]
    exact h.inflight

theorem Asks.idle (h : Asks hints log t) : Asks hints log { t with inflight := none } :=
  ⟨h.recursive, h.zone, h.chain, fun f hf => by cases hf⟩

/-- A server keeps its name, and the addresses that it gets were found. -/
theorem Asks.modifyServer (h : Asks hints log t) (i : ℕ) {f : NameServer → NameServer}
    (hname : ∀ s, (f s).name = s.name) (haddrs : ∀ s, ∀ ip ∈ (f s).addrs,
      ip ∈ s.addrs ∨ Found log ip) : Asks hints log (t.modifyServer i f) := by
  refine ⟨h.recursive, fun z hz => ⟨(h.zone z hz).1, fun s hs => ?_⟩, h.chain, h.inflight⟩
  have hold := (h.zone z hz).2
  obtain ⟨j, hj, rfl⟩ := List.getElem_of_mem hs
  have hproper := hold _ (List.getElem_mem (by simpa [Task.modifyServer] using hj))
  simp only [Task.modifyServer, List.getElem_modify]
  split
  · refine ⟨by rw [hname]; exact hproper.named, fun ip hip => ?_⟩
    rw [hname]
    rcases haddrs _ ip hip with hip | hfound
    · exact hproper.reached ip hip
    · exact .inr hfound
  · exact hproper

theorem Asks.markFailed (h : Asks hints log t) (i : ℕ) : Asks hints log (t.markFailed i) := by
  refine h.modifyServer i (fun s => ?_) fun s ip hip => .inl ?_
  · split <;> rfl
  · split at hip <;> exact hip

/-- A task that moves on to another name, or another zone. -/
theorem Asks.moved (h : Asks hints log t) (hidle : t.inflight = none) (qname : Name)
    (referrals : ℕ) :
    Asks hints log { t with qname, referrals, zone := none } :=
  ⟨h.recursive, fun z hz => (by cases hz), h.chain, fun f hf => by rw [hidle] at hf; cases hf⟩

theorem Asks.chained (h : Asks hints log t) {rs : List Record}
    (hrs : ∀ r ∈ rs, ∀ ip, r.a = some ip → Found log ip) :
    Asks hints log { t with chain := t.chain ++ rs } := by
  refine ⟨h.recursive, h.zone, fun r hr => ?_, h.inflight⟩
  rcases List.mem_append.mp hr with hr | hr
  · exact h.chain r hr
  · exact hrs r hr

theorem followCache_asks {cache : Cache} (hlogged : Logged log cache) (now : ℤ) (fuel : ℕ)
    (h : Asks hints log t) (hidle : t.inflight = none) :
    Asks hints log (Resolver.followCache cache now fuel t).1 ∧
      (Resolver.followCache cache now fuel t).1.inflight = none := by
  induction fuel generalizing t with
  | zero => exact ⟨h, hidle⟩
  | succ fuel ih =>
    unfold Resolver.followCache
    split
    · exact ⟨h, hidle⟩
    split
    · rename_i c hc
      split at hc
      · have hmoved := (h.chained (hlogged.found (records_get hc))).moved hidle
          ((c.head?.bind (·.data.target)).getD []) t.referrals
        dsimp only
        split
        · exact ⟨hmoved, hidle⟩
        · exact ih hmoved hidle
      · cases hc
    · split
      · rename_i hget
        exact ⟨h.chained (hlogged.found hget), hidle⟩
      · exact ⟨h, hidle⟩
      · exact ⟨h, hidle⟩
      · exact ⟨h, hidle⟩

theorem enterZone_asks (hhints : r.cfg.hints = hints) (hlogged : Logged log r.cache)
    (h : Asks hints log t) (hidle : t.inflight = none) (henter : r.enterZone now t = some t') :
    Asks hints log t' ∧ t'.zone.isSome = true := by
  subst hhints
  unfold Resolver.enterZone at henter
  split at henter
  · rename_i hsome
    cases henter
    exact ⟨h, hsome⟩
  dsimp only at henter
  split at henter
  · cases henter
  · cases henter
    refine ⟨⟨h.recursive, fun z hz => ?_, h.chain, fun f hf => ?_⟩, rfl⟩
    · cases hz
      exact findZone_proper hlogged t.qname now
    · rw [hidle] at hf
      cases hf

theorem setTask_tasks (h : ∀ s ∈ r.tasks, Asks hints log s) (ht : Asks hints log t) :
    ∀ s ∈ (r.setTask t).tasks, Asks hints log s := by
  unfold Resolver.setTask
  split
  · intro s hs
    rcases List.mem_or_eq_of_mem_set hs with hs | rfl
    · exact h s hs
    · exact ht
  · exact h

theorem firsts_set {tasks : List Task} (h : Firsts tasks) {i : ℕ}
    (hi : tasks.findIdx? (·.id = t.id) = some i) :
    Firsts (tasks.set i t) := by
  induction tasks generalizing i with
  | nil => exact h
  | cons s tasks ih =>
    obtain ⟨hhead, htail⟩ := List.pairwise_cons.mp h
    rw [List.findIdx?_cons] at hi
    split at hi
    · rename_i hid
      cases hi
      rw [decide_eq_true_eq] at hid
      exact List.pairwise_cons.mpr ⟨fun t' ht' heq => hhead t' ht' (hid.trans heq), htail⟩
    · rename_i hid
      obtain ⟨j, hj, rfl⟩ := Option.map_eq_some_iff.mp hi
      refine List.pairwise_cons.mpr ⟨fun t' ht' heq => ?_, ih htail hj⟩
      rcases List.mem_or_eq_of_mem_set ht' with ht' | rfl
      · exact hhead t' ht' heq
      · simp [heq] at hid

theorem firsts_setTask (h : Firsts r.tasks) (t : Task) : Firsts (r.setTask t).tasks := by
  unfold Resolver.setTask
  split
  · rename_i i hi
    exact firsts_set h hi
  · exact h

theorem setTask_cache (r : Resolver) (t : Task) :
    (r.setTask t).cache = r.cache ∧ (r.setTask t).cfg = r.cfg := by
  unfold Resolver.setTask
  split <;> exact ⟨rfl, rfl⟩

section

variable (h : Safe hints log r)
include h

theorem Safe.setTask (ht : Asks hints log t) : Safe hints log (r.setTask t) := by
  obtain ⟨hcache, hcfg⟩ := setTask_cache r t
  exact ⟨hcfg ▸ h.forwards, hcfg ▸ h.hinted, hcache ▸ h.logged, setTask_tasks h.tasks ht,
    firsts_setTask h.firsts t⟩

theorem Safe.congr (hcfg : r'.cfg = r.cfg) (hcache : r'.cache = r.cache)
    (htasks : r'.tasks.Sublist r.tasks) : Safe hints log r' :=
  ⟨hcfg ▸ h.forwards, hcfg ▸ h.hinted, hcache ▸ h.logged, fun t ht => h.tasks t (htasks.mem ht),
    h.firsts.sublist htasks⟩

theorem Safe.start (qname : Name) (qtype : UInt16) (parent : Option UInt32) (depth : ℕ)
    (noCache : Bool) (now : ℤ) :
    Safe hints log (r.start qname qtype parent depth noCache now).1 := by
  refine ⟨h.forwards, h.hinted, h.logged, fun t ht => ?_, ?_⟩
  · rcases List.mem_append.mp ht with ht | ht
    · exact h.tasks t ht
    · rw [List.mem_singleton.mp ht]
      exact ⟨rfl, fun z hz => (by cases hz), fun r hr => absurd hr List.not_mem_nil,
        fun f hf => (by cases hf)⟩
  · refine List.pairwise_append.mpr ⟨h.firsts, List.pairwise_singleton _ _, fun s _ t ht _ => ?_⟩
    rw [List.mem_singleton.mp ht]

omit h in
theorem pick_asks {i : ℕ} (h : Asks hints log t) (hpick : t.pick = some (i, t')) :
    Asks hints log t' ∧ t'.zone = t.zone := by
  unfold Task.pick at hpick
  split at hpick
  · cases hpick
    exact ⟨h, rfl⟩
  split at hpick
  · cases hpick
  · obtain ⟨_, -, heq⟩ := Option.map_eq_some_iff.mp hpick
    cases heq
    exact ⟨h.modifyServer _ (fun _ => rfl) fun _ _ hip => .inl hip, rfl⟩

theorem Safe.sendTo {i : ℕ} {root : UInt32} (ht : Asks hints log t) (hzone : t.zone.isSome = true) :
    Safe hints log (r.sendTo t i root now) := by
  unfold Resolver.sendTo
  dsimp only
  split
  · exact h
  · rename_i ip hip
    obtain ⟨z, hz⟩ := Option.isSome_iff_exists.mp hzone
    obtain ⟨s, hs, hip⟩ := Option.bind_eq_some_iff.mp hip
    have hproper := (ht.zone z hz).2 s (List.mem_of_getElem? hs)
    have hrng : Safe hints log { r with rng := (rand16 r.rng).1 } := h.congr rfl rfl (.refl _)
    have hnext := ht.modifyServer i (f := fun s => { s with
        next := s.next + 1 }) (fun _ => rfl) fun _ _ hip => .inl hip
    have hsent := hrng.setTask (t := { t.modifyServer i fun s => { s with next := s.next + 1 } with
      inflight := some { txid := (rand16 r.rng).2, to_ := ip, srv := i, sent := now,
                         deadline := now + r.cfg.timeoutMs } })
      ⟨hnext.recursive, hnext.zone, hnext.chain, fun f hf => by
        cases hf
        exact ⟨z, hz, s, hproper, List.mem_of_getElem? hip⟩⟩
    exact hsent.congr rfl rfl (.refl _)

omit h in
theorem task?_mem (h : r.task? id = some t) : t ∈ r.tasks := List.mem_of_find?_eq_some h

/-- **A turn of a task asks a known zone.** -/
theorem Safe.advanceOnce (id : UInt32) (now : ℤ) : Safe hints log (r.advanceOnce id now).1 := by
  unfold Resolver.advanceOnce
  split
  · exact h
  rename_i t ht
  split
  · exact h
  rename_i hidle
  have hidle : t.inflight = none := by
    rw [Bool.or_eq_true, not_or] at hidle
    simpa using hidle.1
  obtain ⟨hasks, hidle⟩ :=
    followCache_asks h.logged now (maxCnames + 1) (h.tasks t (task?_mem ht)) hidle
  split
  · rename_i t₁ _ _ heq
    rw [heq] at hasks
    exact h.setTask hasks
  rename_i t₁ heq
  rw [heq] at hasks hidle
  split
  · exact h.setTask hasks
  rename_i t₂ henter
  obtain ⟨hasks, hzone⟩ := enterZone_asks h.hinted h.logged hasks hidle henter
  dsimp only
  split
  · exact h.setTask hasks
  split
  · rename_i i t₃ hpick
    obtain ⟨hpicked, hsame⟩ := pick_asks hasks hpick
    exact h.sendTo hpicked (hsame ▸ hzone)
  split
  · exact h.setTask hasks
  have hstate (i : ℕ) (state : SrvState) :
    Asks hints log (t₂.modifyServer i fun s => { s with state }) :=
    hasks.modifyServer i (fun _ => rfl) fun _ _ hip => .inl hip
  split
  · split
    · exact h.setTask (hstate _ _)
    · refine Safe.start (h.setTask ?_) _ _ _ _ _ _
      exact (hstate _ (.lookingUp r.nextId)).congr rfl
  · exact h.setTask (hstate _ _)

theorem Safe.takeTask (i : ℕ) (id : UInt32) : Safe hints log (r.takeTask i id) := by
  have hcancels (qs : List UInt32) {r : Resolver} (h : Safe hints log r) :
    Safe hints log (qs.foldl Resolver.cancel r) := by
    induction qs generalizing r with
    | nil => exact h
    | cons q qs ih => exact ih (h.congr rfl rfl (Resolver.cancel_sublist r q))
  exact hcancels _ (h.congr rfl rfl (List.eraseIdx_sublist ..))

theorem Safe.finishOnce (id : UInt32) (rcode : Byte) (authority : List Record) :
    Safe hints log (r.finishOnce id rcode authority).1 := by
  unfold Resolver.finishOnce
  split
  · exact h
  rename_i i _
  split
  · exact h
  rename_i t ht
  have hfound : ∀ ip ∈ t.chain.filterMap (·.a), Found log ip := by
    intro ip hip
    obtain ⟨a, ha, hip⟩ := List.mem_filterMap.mp hip
    exact (h.tasks t (List.mem_of_getElem? ht)).chain a ha ip hip
  dsimp only
  have htake := h.takeTask i id
  split
  · exact htake.congr rfl rfl (.refl _)
  split
  · exact htake
  · rename_i pt hpt
    have hparent : Asks hints log { pt with waiting := false } :=
      (htake.tasks pt (task?_mem hpt)).congr rfl
    refine htake.setTask ?_
    split
    · refine hparent.modifyServer _ (fun s => ?_) fun s ip hip => ?_
      · split <;> rfl
      · split at hip
        · exact .inl hip
        · exact .inr (hfound ip hip)
    · exact hparent

/-- **The calls of one event ask known zones.** -/
theorem Safe.loop (fuel : ℕ) (n : Next) : Safe hints log (Resolver.loop fuel r n) := by
  induction fuel generalizing r n with
  | zero => exact h
  | succ fuel ih =>
    cases n with
    | stop => exact h
    | advance id now => exact ih (h.advanceOnce id now) _
    | finish id rcode authority => exact ih (h.finishOnce id rcode authority) _

omit h in
theorem cutOf_below {m : Message} {qname cut : Name} (h : Resolver.cutOf m qname zone = some cut) :
    Below cut zone := by
  unfold Resolver.cutOf at h
  have hnames : ∀ n ∈ (m.authority.filter fun r => r.rtype =
    typeNs && isSub qname r.name && isSub r.name zone &&
      r.name ≠ zone).map (·.name), Below n zone := by
    intro n hn
    obtain ⟨s, hs, rfl⟩ := List.mem_map.mp hn
    have hs := (List.mem_filter.mp hs).2
    rw [Bool.and_eq_true, Bool.and_eq_true] at hs
    exact isSub_below hs.1.2
  generalize (m.authority.filter fun r => r.rtype = typeNs && isSub qname r.name &&
    isSub r.name zone &&
    r.name ≠ zone).map (·.name) = names at h hnames
  -- the best name so far is one of the names
  refine List.foldlRecOn (motive := fun best => ∀ cut, best = some cut → Below cut zone) names _
    (fun b hb => by cases hb) (fun best hbest n hmem b hb => ?_) cut h
  split at hb
  · split at hb
    · exact hbest b hb
    · cases hb
      exact hnames _ hmem
  · cases hb
    exact hnames _ hmem

omit h in
/-- The chain goes on with what the answer says. -/
theorem gather_chain (m : Message) (qtype : UInt16) (fuel : ℕ) (g : Resolver.Gathered) :
    ∀ x ∈ (Resolver.gather m zone qtype now fuel g).chain, x ∈ g.chain ∨ x ∈ m.answers := by
  induction fuel generalizing g with
  | zero => exact fun x hx => .inl hx
  | succ fuel ih =>
    unfold Resolver.gather
    split
    · exact fun x hx => .inl hx
    dsimp only
    split
    · exact fun x hx => (List.mem_append.mp hx).imp_right fun hhit => (List.mem_filter.mp hhit).1
    · split
      · rename_i c hc
        split
        · intro x hx
          rcases ih _ x hx with hx | hx
          · refine (List.mem_append.mp hx).imp_right fun hx => ?_
            rw [List.mem_singleton.mp hx]
            exact (List.mem_filter.mp (List.mem_of_head? hc)).1
          · exact .inr hx
        · exact fun x hx => .inl hx
      · exact fun x hx => .inl hx

/-- What an answer of a server of `zone` may do. -/
structure Handled (hints : Hints) (log : List Heard) (zone : Name) (r r' : Resolver) : Prop where
  cfg : r'.cfg = r.cfg
  cache : Stores zone r.cache r'.cache
  tasks : ∀ t ∈ r'.tasks, Asks hints log t
  firsts : Firsts r'.tasks

theorem Safe.handled {c : Cache} (hc : Stores zone r.cache c) (ht : Asks hints log t) :
    Handled hints log zone r ({ r with cache := c }.setTask t) := by
  obtain ⟨hcache, hcfg⟩ := setTask_cache { r with cache := c } t
  exact ⟨hcfg, hcache ▸ hc, setTask_tasks h.tasks ht,
    firsts_setTask (r := { r with cache := c }) h.firsts t⟩

/-- **An answer is kept only for names of the zone that was asked.** -/
theorem Safe.handle (ht : Asks hints log t) (hidle : t.inflight = none) (hzone : Below t.qname zone)
    (srv : ℕ) {m : Message} (hm : ∀ x ∈ m.answers, ∀ ip, x.a = some ip → Found log ip) (now : ℤ) :
    Handled hints log zone r (r.handle t srv zone m now).1 := by
  have hkept {t' : Task} (ht' : Asks hints log t') : Handled hints log zone r (r.setTask t') :=
    h.handled (.refl zone r.cache) ht'
  have hgather : Stores zone r.cache
      (Resolver.gather m zone t.qtype now (maxCnames + 1)
        { cache := r.cache, name := t.qname }).cache :=
    stores_gather m t.qtype (maxCnames + 1) { cache := r.cache, name := t.qname }
  have hchain : ∀ x ∈ (Resolver.gather m zone t.qtype now (maxCnames + 1) { cache := r.cache, name := t.qname }).chain,
      ∀ ip, x.a = some ip → Found log ip := fun x hx =>
    hm x ((gather_chain m t.qtype _ _ x hx).resolve_left List.not_mem_nil)
  have hlonger := ht.chained hchain
  unfold Resolver.handle
  dsimp only
  split
  · rename_i hfallback
    rw [ht.recursive] at hfallback
    cases hfallback
  split
  · exact hkept (ht.markFailed srv)
  split
  · split
    · exact h.handled hgather hlonger
    split
    · exact h.handled hgather hlonger
    split
    · rename_i hnx
      exact h.handled (hgather.trans (stores_insert _ (isSub_below hnx.2.1) _ _ now)) hlonger
    · exact h.handled hgather (hlonger.moved hidle _ _)
  split
  · split
    · rename_i hforward
      exact absurd h.forwards hforward.2.1
    · exact h.handled (hgather.trans (stores_insert _ hzone _ _ now)) ht
  split
  · rename_i cut hcut
    have hcut : Below cut zone := cutOf_below (Option.filter_eq_some_iff.mp hcut).1
    have hns : ∀ s ∈ m.authority.filter fun s => s.rtype = typeNs && s.name = cut,
      Below s.name zone := by
      intro s hs
      have hs := (List.mem_filter.mp hs).2
      rw [Bool.and_eq_true, decide_eq_true_eq, decide_eq_true_eq] at hs
      rw [hs.2]
      exact hcut
    have hglue : ∀ s ∈ m.additional.filter fun s => s.rtype = typeA && isSub s.name zone,
      Below s.name zone := by
      intro s hs
      have hs := (List.mem_filter.mp hs).2
      rw [Bool.and_eq_true] at hs
      exact isSub_below hs.2
    have hstores := hgather.trans ((stores_put hns _ now).trans (stores_putAll hglue _ now))
    split
    · exact h.handled hstores (ht.congr rfl)
    · exact h.handled hstores (ht.moved hidle t.qname _)
  split
  · exact h.handled (hgather.trans (stores_insert _ hzone _ _ now)) ht
  · exact h.handled hgather (ht.markFailed srv)

/-! ## Calls -/

/-- The task whose question a call answers. -/
def askedBy (r : Resolver) : ResolverCall → Option Task
  | .onPacket from_ (.message m) _ =>
    if m.header.qr then (r.tasks.findIdx? fun t => Resolver.answers t from_ m).bind fun i =>
      r.tasks[i]? else none
  | _ => none

/-- The answer that a call takes, and what it stores. -/
def heard (r : Resolver) (c : ResolverCall) : List Heard :=
  match c, askedBy r c with
  | .onPacket from_ (.message m) _, some t =>
    [{ server := from_
       zone := t.zone.getD []
       answers := m.answers
       stored := ((r.call c).cache.map.filter fun e => !r.cache.map.contains e).map fun e =>
         (e.1, e.2.entry) }]
  | _, _ => []

omit h in
theorem Asks.append (h : Asks hints log t) (new : List Heard) : Asks hints (log ++ new) t where
  recursive := h.recursive
  zone := fun z hz => ⟨(h.zone z hz).1, fun s hs => ((h.zone z hz).2 s hs).append new⟩
  chain := fun r hr ip hip => (h.chain r hr ip hip).append new
  inflight := fun f hf => by
    obtain ⟨z, hz, s, hproper, hip⟩ := h.inflight f hf
    exact ⟨z, hz, s, hproper.append new, hip⟩

theorem Safe.append (new : List Heard) : Safe hints (log ++ new) r where
  forwards := h.forwards
  hinted := h.hinted
  logged := fun e he => by
    obtain ⟨x, hx, hstored⟩ := h.logged e he
    exact ⟨x, List.mem_append_left _ hx, hstored⟩
  tasks := fun t ht => (h.tasks t ht).append new
  firsts := h.firsts

end

end EvansComputer.Dns
