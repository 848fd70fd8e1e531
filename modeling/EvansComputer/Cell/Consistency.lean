import EvansComputer.Cell.CoreRun

/-!
# The indexes of the core stay in step with its sessions

The core finds a session by its temporary identity and by its addresses through two maps of
their own.  Everything that begins or ends a session keeps them in step, with one proviso:
that the addresses a session begins with are not those of another.  The addresses come from
the database, where a subscriber's is on record, and the parser of the database does not
look for one that is on record twice.
-/

namespace EvansComputer.Cell.Carrier

variable {v v' : Carrier} {l : Label}

/-- Ids are never zero. -/
theorem toNat_max_one (x : UInt32) : (max x 1).toNat = max x.toNat 1 := by
  change (if x ≤ 1 then 1 else x).toNat = _
  split_ifs with h
  · rw [UInt32.le_iff_toNat_le] at h
    exact (max_eq_right h).symm
  · rw [UInt32.le_iff_toNat_le, not_le] at h
    exact (max_eq_left h.le).symm

/-- The indexes hold exactly the sessions, a subscriber has one session, and a session
depends only on connections of registered sites. -/
structure Consistent (v : Carrier) : Prop where
  id : ∀ {id a}, v.sessions id = some a → a.id = id
  /-- Session ids are handed out in order. -/
  below : ∀ {id a}, v.sessions id = some a → id.toNat < v.nextSession.toNat
  byTmsi : ∀ t id, v.byTmsi t = some id ↔ ∃ a, v.sessions id = some a ∧ a.tmsi = t
  byIp : ∀ ip id, v.byIp ip = some id ↔ ∃ a, v.sessions id = some a ∧ a.Holds ip
  one : ∀ {id id' a a'}, v.sessions id = some a → v.sessions id' = some a' →
    a.imsi = a'.imsi → id = id'
  used : ∀ {id a c}, v.sessions id = some a → a.Uses c → v.Registered c

namespace Consistent

section

variable (h : v.Consistent)
include h

theorem indexed : v.Indexed := by
  constructor
  · intro t id hid
    obtain ⟨a, ha, -⟩ := (h.byTmsi t id).mp hid
    exact fun hnone => Option.some_ne_none _ (ha.symm.trans hnone)
  · intro ip id hid
    obtain ⟨a, ha, -⟩ := (h.byIp ip id).mp hid
    exact fun hnone => Option.some_ne_none _ (ha.symm.trans hnone)

/-- What keeps the table of sessions and the indexes but for what no one depends on. -/
theorem of_eq (hsessions : v'.sessions = v.sessions) (hip : v'.byIp = v.byIp)
    (htmsi : v'.byTmsi = v.byTmsi) (hnext : v'.nextSession = v.nextSession)
    (hconns : ∀ id a c, v.sessions id = some a → a.Uses c → v.Registered c → v'.Registered c) :
    v'.Consistent where
  id ha := h.id (hsessions ▸ ha)
  below ha := hnext ▸ h.below (hsessions ▸ ha)
  byTmsi t id := by rw [htmsi, hsessions]; exact h.byTmsi t id
  byIp ip id := by rw [hip, hsessions]; exact h.byIp ip id
  one ha ha' := h.one (hsessions ▸ ha) (hsessions ▸ ha')
  used ha hc := by
    rw [hsessions] at ha
    exact hconns _ _ _ ha hc (h.used ha hc)

/-- Sessions that take other shapes under the same identities and addresses. -/
theorem reshape {f : UInt32 → Seat → Seat}
    (hsame : ∀ id a, v.sessions id = some a → (f id a).id = a.id ∧ (f id a).imsi = a.imsi ∧
      (f id a).ip = a.ip ∧
      (f id a).imsIp = a.imsIp ∧ (f id a).tmsi = a.tmsi)
    (huses : ∀ id a c, v.sessions id = some a → (f id a).Uses c → v.Registered c)
    (hsessions : v'.sessions = fun id => (v.sessions id).map (f id)) (hip : v'.byIp = v.byIp)
    (htmsi : v'.byTmsi = v.byTmsi) (hnext : v'.nextSession = v.nextSession)
    (hconns : v'.conns = v.conns) : v'.Consistent := by
  have hof : ∀ {id a'}, v'.sessions id = some a' → ∃ a, v.sessions id = some a ∧ f id a = a' := by
    intro id a' ha'
    rw [hsessions] at ha'
    exact Option.map_eq_some_iff.mp ha'
  have hto : ∀ {id a}, v.sessions id = some a → v'.sessions id = some (f id a) := by
    intro id a ha
    rw [hsessions]
    exact Option.map_eq_some_iff.mpr ⟨a, ha, rfl⟩
  refine ⟨?_, ?_, ?_, ?_, ?_, ?_⟩
  · intro id a' ha'
    obtain ⟨a, ha, rfl⟩ := hof ha'
    rw [(hsame id a ha).1]
    exact h.id ha
  · intro id a' ha'
    obtain ⟨a, ha, rfl⟩ := hof ha'
    rw [hnext]
    exact h.below ha
  · intro t id
    rw [htmsi, h.byTmsi]
    constructor
    · rintro ⟨a, ha, rfl⟩
      exact ⟨f id a, hto ha, (hsame id a ha).2.2.2.2⟩
    · rintro ⟨a', ha', rfl⟩
      obtain ⟨a, ha, rfl⟩ := hof ha'
      exact ⟨a, ha, (hsame id a ha).2.2.2.2.symm⟩
  · intro ip id
    rw [hip, h.byIp]
    have hholds : ∀ a, v.sessions id = some a → ((f id a).Holds ip ↔ a.Holds ip) := by
      intro a ha
      obtain ⟨-, -, hip', hims, -⟩ := hsame id a ha
      rw [Seat.Holds, Seat.Holds, hip', hims]
    constructor
    · rintro ⟨a, ha, hip'⟩
      exact ⟨f id a, hto ha, (hholds a ha).mpr hip'⟩
    · rintro ⟨a', ha', hip'⟩
      obtain ⟨a, ha, rfl⟩ := hof ha'
      exact ⟨a, ha, (hholds a ha).mp hip'⟩
  · intro id id' a a' ha ha' himsi
    obtain ⟨b, hb, rfl⟩ := hof ha
    obtain ⟨b', hb', rfl⟩ := hof ha'
    rw [(hsame id b hb).2.1, (hsame id' b' hb').2.1] at himsi
    exact h.one hb hb' himsi
  · intro id a' c ha' hc
    obtain ⟨a, ha, rfl⟩ := hof ha'
    obtain ⟨reg, hreg⟩ := huses id a c ha hc
    exact ⟨reg, by rw [hconns]; exact hreg⟩

/-- One session takes another shape. -/
theorem seat {id : UInt32} {a : Seat} (ha : v.sessions id = some a) (a' : Seat) (hid : a'.id = a.id)
    (himsi : a'.imsi = a.imsi) (hip : a'.ip = a.ip) (hims : a'.imsIp = a.imsIp)
    (htmsi : a'.tmsi = a.tmsi) (huses : ∀ c, a'.Uses c → v.Registered c) :
    (v.seat id a').Consistent := by
  refine h.reshape (f := fun id' b => if id' = id then a' else b) (fun id' b hb => ?_)
    (fun id' b c hb hc => ?_) ?_
    rfl rfl rfl rfl
  · by_cases heq : id' = id
    · subst heq
      obtain rfl := Option.some.inj (ha.symm.trans hb)
      rw [if_pos rfl]
      exact ⟨hid, himsi, hip, hims, htmsi⟩
    · rw [if_neg heq]
      exact ⟨rfl, rfl, rfl, rfl, rfl⟩
  · by_cases heq : id' = id
    · rw [if_pos heq] at hc
      exact huses c hc
    · rw [if_neg heq] at hc
      exact h.used hb hc
  · funext id'
    rw [sessions_seat]
    by_cases heq : id' = id
    · subst heq
      rw [Function.update_self, ha, Option.map_some, if_pos rfl]
    · rw [Function.update_of_ne heq]
      simp only [if_neg heq, Option.map_id']

theorem say (s : Said) : (v.say s).Consistent :=
  h.of_eq rfl rfl rfl rfl fun _ _ _ _ _ hreg => hreg

/-- A session ends, and its entries in the indexes go with it. -/
theorem ended (id : UInt32) : (v.ended id).Consistent := by
  cases ha : v.sessions id with
  | none => rwa [ended_of_none ha]
  | some a =>
    have heq : v.ended id = { v with
        sessions := Function.update v.sessions id none
        byIp := fun ip => if a.Holds ip then none else v.byIp ip
        byTmsi := Function.update v.byTmsi a.tmsi none } := by
      rw [Carrier.ended, ha]
    have hof : ∀ {id' b}, (v.ended id).sessions id' = some b → id' ≠ id ∧
      v.sessions id' = some b := by
      intro id' b hb
      rw [sessions_ended] at hb
      by_cases hid : id' = id
      · rw [hid, Function.update_self] at hb
        cases hb
      · rw [Function.update_of_ne hid] at hb
        exact ⟨hid, hb⟩
    refine ⟨fun hb => h.id (hof hb).2, fun hb => ?_, ?_, ?_,
      fun hb hb' => h.one (hof hb).2 (hof hb').2,
      fun hb hc => ?_⟩
    · rw [heq]
      exact h.below (hof hb).2
    · intro t id'
      rw [heq]
      dsimp only
      constructor
      · intro ht
        by_cases htmsi : t = a.tmsi
        · rw [htmsi, Function.update_self] at ht
          cases ht
        rw [Function.update_of_ne htmsi] at ht
        obtain ⟨b, hb, hbt⟩ := (h.byTmsi t id').mp ht
        refine ⟨b, ?_, hbt⟩
        rw [Function.update_of_ne]
        · exact hb
        · rintro rfl
          exact htmsi (hbt.symm.trans (congrArg _ (Option.some.inj (hb.symm.trans ha))))
      · rintro ⟨b, hb, hbt⟩
        have hb' : (v.ended id).sessions id' = some b := by rw [heq]; exact hb
        obtain ⟨hid, hb⟩ := hof hb'
        rw [Function.update_of_ne]
        · exact (h.byTmsi t id').mpr ⟨b, hb, hbt⟩
        · intro htmsi
          have h₁ := (h.byTmsi t id').mpr ⟨b, hb, hbt⟩
          have h₂ := (h.byTmsi t id).mpr ⟨a, ha, htmsi.symm⟩
          exact hid (Option.some.inj (h₁.symm.trans h₂))
    · intro ip id'
      rw [heq]
      dsimp only
      constructor
      · intro hip
        split_ifs at hip with hholds
        obtain ⟨b, hb, hbip⟩ := (h.byIp ip id').mp hip
        refine ⟨b, ?_, hbip⟩
        rw [Function.update_of_ne]
        · exact hb
        · rintro rfl
          exact hholds (Option.some.inj (hb.symm.trans ha) ▸ hbip)
      · rintro ⟨b, hb, hbip⟩
        have hb' : (v.ended id).sessions id' = some b := by rw [heq]; exact hb
        obtain ⟨hid, hb⟩ := hof hb'
        have h₁ := (h.byIp ip id').mpr ⟨b, hb, hbip⟩
        rw [if_neg]
        · exact h₁
        · intro hholds
          have h₂ := (h.byIp ip id).mpr ⟨a, ha, hholds⟩
          exact hid (Option.some.inj (h₁.symm.trans h₂))
    · obtain ⟨reg, hreg⟩ := h.used (hof hb).2 hc
      exact ⟨reg, by rw [conns_ended]; exact hreg⟩

/-- A session begins, with addresses that no other session has. -/
theorem created {a : Seat} {s : Serving} (hid : a.id = v.nextSession)
    (htmsi : v.byTmsi a.tmsi = none) (hnew : ∀ id b, v.sessions id = some b → b.imsi ≠ a.imsi)
    (hserving : a.serving = some s) (hsite : v.Registered s.conn) (hho : a.ho = none)
    (hwrap : v.nextSession.toNat + 1 < 2 ^ 32)
    (hclear : ∀ id b ip, v.sessions id = some b → a.Holds ip → ¬ b.Holds ip) :
    (v.created a).Consistent := by
  have hnext : (v.created a).nextSession.toNat = v.nextSession.toNat + 1 := by
    change (max (a.id + 1) 1).toNat = _
    have hsucc : (a.id + 1).toNat = v.nextSession.toNat + 1 := by
      rw [hid, UInt32.toNat_add, UInt32.toNat_one]
      omega
    rw [toNat_max_one, hsucc]
    omega
  have hfree : v.sessions a.id = none := by
    by_contra hne
    obtain ⟨b, hb⟩ := Option.ne_none_iff_exists'.mp hne
    exact Nat.lt_irrefl _ (hid ▸ h.below hb)
  have hof : ∀ {id b}, (v.created a).sessions id = some b →
      (id = a.id ∧ b = a) ∨ (id ≠ a.id ∧ v.sessions id = some b) := by
    intro id b hb
    change Function.update v.sessions a.id (some a) id = some b at hb
    by_cases heq : id = a.id
    · rw [heq, Function.update_self] at hb
      exact .inl ⟨heq, (Option.some.inj hb).symm⟩
    · rw [Function.update_of_ne heq] at hb
      exact .inr ⟨heq, hb⟩
  have hself : (v.created a).sessions a.id = some a := Function.update_self ..
  have hold : ∀ {id b}, v.sessions id = some b → (v.created a).sessions id = some b := by
    intro id b hb
    refine (Function.update_of_ne ?_ ..).trans hb
    rintro rfl
    exact Option.some_ne_none _ (hb.symm.trans hfree)
  refine ⟨?_, ?_, ?_, ?_, ?_, ?_⟩
  · intro id b hb
    rcases hof hb with ⟨rfl, rfl⟩ | ⟨-, hb⟩
    · rfl
    · exact h.id hb
  · intro id b hb
    rw [hnext]
    rcases hof hb with ⟨rfl, rfl⟩ | ⟨-, hb⟩
    · rw [hid]
      omega
    · have := h.below hb
      omega
  · intro t id
    change Function.update v.byTmsi a.tmsi (some a.id) t = some id ↔ _
    by_cases ht : t = a.tmsi
    · rw [ht, Function.update_self, Option.some.injEq]
      constructor
      · rintro rfl
        exact ⟨a, hself, rfl⟩
      · rintro ⟨b, hb, hbt⟩
        rcases hof hb with ⟨rfl, -⟩ | ⟨-, hb⟩
        · rfl
        · exact absurd ((h.byTmsi a.tmsi id).mpr ⟨b, hb, hbt⟩)
            (by rw [htmsi]; exact fun h => nomatch h)
    · rw [Function.update_of_ne ht, h.byTmsi]
      constructor
      · rintro ⟨b, hb, hbt⟩
        exact ⟨b, hold hb, hbt⟩
      · rintro ⟨b, hb, hbt⟩
        rcases hof hb with ⟨-, rfl⟩ | ⟨-, hb⟩
        · exact absurd hbt.symm ht
        · exact ⟨b, hb, hbt⟩
  · intro ip id
    change (if a.Holds ip then some a.id else v.byIp ip) = some id ↔ _
    by_cases hip : a.Holds ip
    · rw [if_pos hip, Option.some.injEq]
      constructor
      · rintro rfl
        exact ⟨a, hself, hip⟩
      · rintro ⟨b, hb, hbip⟩
        rcases hof hb with ⟨rfl, -⟩ | ⟨-, hb⟩
        · rfl
        · exact absurd hbip (hclear id b ip hb hip)
    · rw [if_neg hip, h.byIp]
      constructor
      · rintro ⟨b, hb, hbip⟩
        exact ⟨b, hold hb, hbip⟩
      · rintro ⟨b, hb, hbip⟩
        rcases hof hb with ⟨-, rfl⟩ | ⟨-, hb⟩
        · exact absurd hbip hip
        · exact ⟨b, hb, hbip⟩
  · intro id id' b b' hb hb' himsi
    rcases hof hb with ⟨hid₁, hb₁⟩ | ⟨-, hb₁⟩ <;> rcases hof hb' with ⟨hid₂, hb₂⟩ | ⟨-, hb₂⟩
    · rw [hid₁, hid₂]
    · exact absurd (himsi.symm.trans (congrArg _ hb₁)) (hnew id' b' hb₂)
    · exact absurd (himsi.trans (congrArg _ hb₂)) (hnew id b hb₁)
    · exact h.one hb₁ hb₂ himsi
  · intro id b c hb hc
    rcases hof hb with ⟨rfl, rfl⟩ | ⟨-, hb⟩
    · rcases hc with hc | hc
      · rw [hserving, Option.map_some, Option.some.injEq] at hc
        exact hc ▸ hsite
      · rw [hho] at hc
        cases hc
    · exact h.used hb hc

/-- **What every move keeps**, where a session begins with addresses of its own. -/
theorem move (hmove : Move v l v')
    (hcreated : ∀ a, l = .created a → v.nextSession.toNat + 1 < 2 ^ 32 ∧
      ∀ id b ip, v.sessions id = some b → b.imsi ≠ a.imsi → a.Holds ip → ¬ b.Holds ip) :
        v'.Consistent := by
  have hconn : ∀ (c : ConnId) (conn : Option (Option SiteReg)),
      (∀ id a, v.sessions id = some a → a.Uses c → v.Registered c → conn ≠ none ∧
        conn ≠ some none) →
      (v.withConn c conn).Consistent := by
    intro c conn hc
    refine h.of_eq rfl rfl rfl rfl fun id a c' ha huses hreg => ?_
    change ∃ reg, Function.update v.conns c conn c' = some (some reg)
    by_cases heq : c' = c
    · subst heq
      obtain ⟨hnone, hsome⟩ := hc id a ha huses hreg
      obtain ⟨site, rfl⟩ := Option.ne_none_iff_exists'.mp hnone
      obtain ⟨reg, rfl⟩ := Option.ne_none_iff_exists'.mp fun h => hsome (congrArg some h)
      exact ⟨reg, Function.update_self ..⟩
    · rw [Function.update_of_ne heq]
      exact hreg
  cases hmove with
  | ended id => exact h.ended id
  | kept f hkeeps =>
    refine h.reshape (f := f) (fun id a ha => ?_) (fun id a c ha hc => ?_) rfl rfl rfl rfl rfl
    · have hk := hkeeps id a ha
      exact ⟨hk.id, hk.imsi, hk.ip, hk.imsIp, hk.tmsi⟩
    · have hk := hkeeps id a ha
      refine h.used ha ?_
      rcases hc with hc | hc
      · rcases hk.serving with heq | heq
        · exact .inl (heq ▸ hc)
        · rw [heq] at hc
          cases hc
      · rcases hk.ho with heq | heq
        · exact .inr (heq ▸ hc)
        · rw [heq] at hc
          cases hc
  | connected hc =>
    refine hconn _ _ fun id a ha huses hreg => ?_
    obtain ⟨reg, hreg⟩ := hreg
    cases hc.symm.trans hreg
  | registered reg hc =>
    exact hconn _ _ fun _ _ _ _ _ => ⟨Option.some_ne_none _, fun h => nomatch h⟩
  | gone hunused => exact hconn _ _ fun id a ha huses _ => absurd huses (hunused id a ha)
  | up ha => exact h.say _
  | down ha => exact h.say _
  | barring r hbarred => exact h.of_eq rfl rfl rfl rfl fun _ _ _ _ _ hreg => hreg
  | unbarred r imsi hbarred => exact h.of_eq rfl rfl rfl rfl fun _ _ _ _ _ hreg => hreg
  | created hid htmsi hnew hsub hserving hsite hho =>
    obtain ⟨hwrap, hclear⟩ := hcreated _ rfl
    exact (h.created hid htmsi hnew hserving hsite hho hwrap fun id b ip hb =>
      hclear id b ip hb (hnew id b hb)).say _
  | @served id a s ha hsite =>
    have hseat := h.seat ha { a with epoch := a.epoch + 1, serving := some s } rfl rfl rfl rfl rfl
        fun c hc => by
      rcases hc with hc | hc
      · exact Option.some.inj hc ▸ hsite
      · exact h.used ha (.inr hc)
    exact hseat.say _
  | @prepared id a target now ha hfree hsite =>
    have hseat := h.seat ha { a with
          epoch := a.epoch + 1
          ho := some { id := v.nextHo, target, acked := false, startedMs := now } } rfl
            rfl rfl rfl rfl
        fun c hc => by
      rcases hc with hc | hc
      · exact h.used ha (.inl hc)
      · exact Option.some.inj hc ▸ hsite
    have hnext : ({ v.seat id _ with nextHo := max (v.nextHo + 1) 1 } : Carrier).Consistent :=
      hseat.of_eq rfl rfl rfl rfl fun _ _ _ _ _ hreg => hreg
    exact hnext.say _
  | acked c ho =>
    refine h.reshape (f := fun _ => Seat.acknowledged ho c)
      (fun id a ha => ⟨rfl, rfl, rfl, rfl, rfl⟩)
      (fun id a c' ha hc => h.used ha ?_) rfl rfl rfl rfl rfl
    rcases hc with hc | hc
    · exact .inl hc
    · refine .inr ?_
      unfold Seat.acknowledged at hc
      dsimp only at hc
      rw [Option.map_map] at hc
      rw [← hc]
      congr 1
      funext b
      dsimp only [Function.comp_apply]
      split_ifs <;> rfl
  | commanded ha hho hserving => exact h.say _
  | @switched id a b ha hho =>
    refine h.seat ha { a with serving := some b.target, ho := none } rfl rfl rfl rfl rfl
      fun c hc => ?_
    rcases hc with hc | hc
    · exact h.used ha (.inr (by rw [hho]; exact hc))
    · cases hc

end

end Consistent
end Carrier
/-! ## The core -/

/-- An address of a session. -/
def Session.Has (s : Session) (ip : Ipv4Addr) : Prop := s.ip = ip ∨ s.imsIp = some ip

namespace Core

open Carrier Exec

variable {core core' core₀ : Core} {n : ℕ}

/-- **The indexes are in step with the sessions**: the maps by temporary identity and by
address hold exactly what the live sessions have, a subscriber has one session at most, and
the connections that a session depends on are live and have a registered site. -/
structure Consistent (core : Core) : Prop where
  byTmsi : ∀ (t : UInt32) (id : UInt32), core.byTmsi[t]? = some id ↔
    ∃ s, core.sessions[id]? = some s ∧ s.tmsi = t
  byIp : ∀ (ip : Ipv4Addr) (id : UInt32), core.byIp[ip]? = some id ↔
    ∃ s, core.sessions[id]? = some s ∧ s.Has ip
  one : ∀ (id id' : UInt32) (s s' : Session), core.sessions[id]? = some s →
    core.sessions[id']? = some s' →
    s.imsi = s'.imsi → id = id'
  sites : ∀ (id : UInt32) (s : Session) (c : ConnId), core.sessions[id]? = some s →
    (s.serving.map (·.conn) = some c ∨ s.ho.map (·.target.conn) = some c) →
    ∃ conn, core.conns[c]? = some conn ∧ conn.site ≠ none

theorem consistent_of_carrier (h : core.carrier.Consistent) : core.Consistent where
  byTmsi t id := by
    refine (h.byTmsi t id).trans ?_
    constructor
    · rintro ⟨a, ha, rfl⟩
      obtain ⟨s, hs, rfl⟩ := session_of_carrier ha
      exact ⟨s, hs, rfl⟩
    · rintro ⟨s, hs, rfl⟩
      exact ⟨s.seat, carrier_sessions hs, rfl⟩
  byIp ip id := by
    refine (h.byIp ip id).trans ?_
    constructor
    · rintro ⟨a, ha, hip⟩
      obtain ⟨s, hs, rfl⟩ := session_of_carrier ha
      exact ⟨s, hs, hip⟩
    · rintro ⟨s, hs, hip⟩
      exact ⟨s.seat, carrier_sessions hs, hip⟩
  one id id' s s' hs hs' := h.one (carrier_sessions hs) (carrier_sessions hs')
  sites id s c hs huses := by
    obtain ⟨reg, hreg⟩ := h.used (carrier_sessions hs) huses
    obtain ⟨conn, hconn, hsite⟩ := conns_of_carrier hreg
    exact ⟨conn, hconn, by rw [hsite]; exact Option.some_ne_none _⟩

/-- An attach that is about to complete does not give an address, on record or free, that
another subscriber's session has. -/
def AddressesFree (core : Core) : Input → Prop
  | .turn c => ∀ ue res p ip imsIp, core.heard c = some (.ueAuthResponse ue res) →
      core.pending.lookup (c, ue) = some p → p.resp.res = res →
        core.attachAddrs p.imsi = some (ip, imsIp) →
      ∀ (id : UInt32) (s : Session), core.sessions[id]? = some s → s.imsi ≠ p.imsi → ∀ i,
        (ip = i ∨ imsIp = some i) → ¬ s.Has i
  | _ => True

/-- A core begins with nothing but a session id to start from. -/
theorem carrier_new {prim : Primitives} {db : Db} {cfg : CoreConfig} {entropy : List Byte}
    (h : Core.new prim db cfg entropy = .ok core) :
    core.carrier.sessions = (fun _ => none) ∧ core.carrier.byIp = (fun _ => none) ∧
      core.carrier.byTmsi = (fun _ => none) ∧ core.nextSession.toNat < 2 ^ 31 := by
  unfold Core.new at h
  cases hsplit : splitOff 4 entropy with
  | none => rw [hsplit] at h; cases h
  | some p =>
    rw [hsplit] at h
    dsimp only at h
    have hfirst : ∀ x : UInt32, (max (x &&& 0x7fffffff) 1).toNat < 2 ^ 31 := by
      intro x
      rw [toNat_max_one, UInt32.toNat_and]
      have := Nat.and_le_right (n := x.toNat) (m := (0x7fffffff : UInt32).toNat)
      have hmask : (0x7fffffff : UInt32).toNat = 2 ^ 31 - 1 := rfl
      omega
    split_ifs at h <;> cases h <;> exact ⟨rfl, rfl, rfl, hfirst _⟩

theorem nextSession_move {v v' : Carrier} {l : Label} (h : Move v l v') (hl : ∀ a, l ≠ .created a) :
    v'.nextSession = v.nextSession := by
  cases h with
  | ended id =>
    unfold Carrier.ended
    cases v.sessions id <;> rfl
  | created => exact absurd rfl (hl _)
  | _ => rfl

/-- What is known where a step begins a session. -/
theorem of_stepLets_created {i : Input} {v : Carrier} {a : Seat}
    (h : core.StepLets i v (.created a)) :
    ∃ c ue res p, i = .turn c ∧ core.heard c = some (.ueAuthResponse ue res) ∧
      core.pending.lookup (c, ue) = some p ∧ p.resp.res = res ∧ core.Attaches p.imsi v a := by
  cases h with
  | turn h =>
    cases h with
    | ctl hm hl =>
      cases hl with
      | created hp hres ha => exact ⟨_, _, _, _, rfl, hm, hp, hres, ha⟩
  | admin h => cases h

/-- **A step keeps the indexes in step**, and begins at most one session. -/
theorem consistent_step {i : Input} {now : ℕ} (h : core.carrier.Consistent)
    (hwrap : core.nextSession.toNat + 1 < 2 ^ 32) (hfresh : i.Fresh core)
    (hok : core.AddressesFree i) (hstep : core.step i now = .ok core') :
    core'.carrier.Consistent ∧ core'.nextSession.toNat ≤ core.nextSession.toNat +
      core.began core' := by
  have hkeep : core'.carrier.Consistent ∧ (core'.carrier.nextSession = core.nextSession ∨
      core'.carrier.nextSession.toNat = core.nextSession.toNat + 1) := by
    refine (moves_of_step hfresh hstep).induction (I := fun v => v.Consistent ∧
      (v.nextSession = core.nextSession ∨ v.nextSession.toNat = core.nextSession.toNat + 1)) ?_
        ⟨h, .inl rfl⟩
    rintro v l v' hl hmove ⟨hv, hnext⟩
    refine ⟨hv.move hmove ?_, ?_⟩
    · rintro a rfl
      obtain ⟨c, ue, res, p, rfl, hheard, hp, hres, ha⟩ := of_stepLets_created hl
      refine ⟨by rw [ha.nextSession]; exact hwrap, fun id b ip hb himsi hip hbip => ?_⟩
      rw [ha.sessions] at hb
      obtain ⟨hb, -⟩ := Option.filter_eq_some_iff.mp hb
      obtain ⟨s, hs, rfl⟩ := session_of_carrier hb
      exact hok ue res p a.ip a.imsIp hheard hp hres ha.addrs id s hs (ha.same ▸ himsi) ip hip hbip
    · by_cases hcreated : ∃ a, l = .created a
      · obtain ⟨a, rfl⟩ := hcreated
        obtain ⟨c, ue, res, p, rfl, hheard, hp, hres, ha⟩ := of_stepLets_created hl
        refine .inr ?_
        cases hmove with
        | created hid =>
          change (max (a.id + 1) 1).toNat = _
          have hsucc : (a.id + 1).toNat = core.nextSession.toNat + 1 := by
            rw [hid, ha.nextSession, UInt32.toNat_add, UInt32.toNat_one]
            exact Nat.mod_eq_of_lt hwrap
          rw [toNat_max_one, hsucc]
          omega
      · rw [nextSession_move hmove fun a ha => hcreated ⟨a, ha⟩]
        exact hnext
  refine ⟨hkeep.1, ?_⟩
  unfold began
  rcases hkeep.2 with heq | heq
  · rw [show core'.nextSession = core.nextSession from heq]
    exact Nat.le_add_right _ _
  · have heq' : core'.nextSession.toNat = core.nextSession.toNat + 1 := heq
    rw [if_neg]
    · exact heq'.le
    · intro hsame
      rw [hsame] at heq'
      omega

/-- Below `2 ^ 31` sessions, with addresses of their own, the carrier is consistent and its
session ids have not come round. -/
theorem consistent_run {prim : Primitives} {db : Db} {cfg : CoreConfig} {entropy : List Byte}
    (hnew : Core.new prim db cfg entropy = .ok core₀) (hrun : Run AddressesFree core₀ n core)
    (hn : n < 2 ^ 31) :
    core.carrier.Consistent ∧ core.nextSession.toNat ≤ core₀.nextSession.toNat + n := by
  obtain ⟨hsessions, hip, htmsi, hfirst⟩ := carrier_new hnew
  induction hrun with
  | refl =>
    have hnone : ∀ {id a}, core₀.carrier.sessions id = some a → False := by
      intro id a ha
      rw [hsessions] at ha
      cases ha
    refine ⟨⟨fun ha => (hnone ha).elim, fun ha => (hnone ha).elim, fun t id => ?_, fun ip id => ?_,
      fun ha => (hnone ha).elim, fun ha => (hnone ha).elim⟩, Nat.le_refl _⟩
    · rw [htmsi]
      exact ⟨(fun h => nomatch h), fun ⟨a, ha, _⟩ => (hnone ha).elim⟩
    · rw [hip]
      exact ⟨(fun h => nomatch h), fun ⟨a, ha, _⟩ => (hnone ha).elim⟩
  | step _ hfresh hok hstep ih =>
    obtain ⟨hcons, hnext⟩ := ih (by omega)
    obtain ⟨hcons', hnext'⟩ := consistent_step hcons (by omega) hfresh hok hstep
    exact ⟨hcons', by omega⟩

/-- **The indexes stay in step and the lookups do not fail**, in every run of fewer than
`2 ^ 31` sessions in which no attach completes with an address of another subscriber's
session. -/
theorem consistent_of_addressesFree {prim : Primitives} {db : Db} {cfg : CoreConfig}
    {entropy : List Byte} (hnew : Core.new prim db cfg entropy = .ok core₀)
    (hrun : Run AddressesFree core₀ n core) (hn : n < 2 ^ 31) :
    core.Consistent ∧ ∀ (i : Input) (now : ℕ), i.Fresh core → core.step i now ≠ .error .panic := by
  obtain ⟨hcons, -⟩ := consistent_run hnew hrun hn
  refine ⟨consistent_of_carrier hcons, fun i now hfresh => ?_⟩
  exact (meets_step i now hfresh fun _ => hcons.indexed).no_panic trivial

/-! ## Two subscribers -/

/-- The check that an attach gives no address of another subscriber's session. -/
def addressesFree (core : Core) : Input → Bool
  | .turn c => match core.heard c with
    | some (.ueAuthResponse ue _) => (core.pending.lookup (c, ue)).all fun p =>
      (core.attachAddrs p.imsi).all fun a => core.sessions.toList.all fun r =>
        r.2.imsi = p.imsi || !((r.2.ip :: r.2.imsIp.toList).any fun ip => ip = a.1 || a.2 = some ip)
    | _ => true
  | _ => true

theorem addressesFree_of_check (core : Core) (i : Input) (h : core.addressesFree i) :
    core.AddressesFree i := by
  cases i with
  | turn c =>
    intro ue res p ip imsIp hheard hp _ haddrs id s hs himsi x hx hhas
    rw [addressesFree, hheard] at h
    dsimp only at h
    rw [hp, Option.all_some, haddrs] at h
    have hmem := Std.ExtTreeMap.mem_toList_iff_getElem?_eq_some.mpr hs
    rcases Bool.or_eq_true_iff.mp (List.all_eq_true.mp h _ hmem) with hsame | hnone
    · exact himsi (of_decide_eq_true hsame)
    · rw [Bool.not_eq_true', List.any_eq_false] at hnone
      refine hnone x ?_ ?_
      · rcases hhas with rfl | hims
        · exact List.mem_cons_self
        · exact List.mem_cons_of_mem _ (Option.mem_toList.mpr hims)
      · rcases hx with rfl | hims
        · exact Bool.or_eq_true_iff.mpr (.inl (decide_eq_true rfl))
        · exact Bool.or_eq_true_iff.mpr (.inr (decide_eq_true hims))
  | _ => trivial

/-- A database of two subscribers, with the address on record of the second. -/
def subscribersDb (second : String) : Str :=
  ("version 1\ncarrier c\npool 10.8.0.0/24\ngateway 10.8.0.1\n" ++
    "site s 00112233445566778899aabbccddeeff\n" ++
    "sub 111111 key=00112233445566778899aabbccddeeff ip=10.8.0.5\n" ++
    "sub 222222 key=10112233445566778899aabbccddeeff ip=" ++ second ++ "\n").toList

/-- Both subscribers have one address. -/
def sharedDb : Str := subscribersDb "10.8.0.5"

def firstKey : List Byte := (unhex 16 "00112233445566778899aabbccddeeff".toList).getD []

def secondKey : List Byte := (unhex 16 "10112233445566778899aabbccddeeff".toList).getD []

/-- A session id, a nonce, and for each attach a challenge and a temporary identity. -/
def fixedEntropy : List Byte :=
  List.replicate 4 1 ++ List.replicate 16 2 ++ List.replicate 16 3 ++ List.replicate 4 4 ++
    List.replicate 16 5 ++ List.replicate 4 6

def siteHello : Ctl := .coreHello version "c".toList (List.replicate 16 2)

def siteLogin (proof : List Byte) : Ctl :=
  .siteAuth version "s".toList [⟨7, 0, 0, 0, 9⟩] 1000 (List.replicate 16 8) proof

/-- The registration of the site of `sharedDb`. -/
def siteRegisters : List Input :=
  [.arrive 0 (siteLogin (Primitives.plain.siteProof firstKey
    (authTranscript siteHello (siteLogin (List.replicate 32 0))))).encode, .turn 0]

/-- The control channel of that site. -/
def siteCtl : BhChannel :=
  (Backhaul.new .plain firstKey (List.replicate 16 2) (List.replicate 16 8)
    (toUtf8 "s".toList) true).ctl

/-- What the first subscriber answers to the first challenge, and the second to the second. -/
def firstRes : List Byte := (Primitives.plain.simauthV1 firstKey (List.replicate 16 3)).res

def secondRes : List Byte := (Primitives.plain.simauthV1 secondKey (List.replicate 16 5)).res

/-- Both subscribers attach, and then the site says what else there is. -/
def bothAttach (ms : List Ctl) : List Input :=
  siteRegisters ++
    [.arrive 0 (controlStream siteCtl
      ([.ueAttach 1 7 "111111".toList "c".toList, .ueAuthResponse 1 firstRes,
        .ueAttach 2 7 "222222".toList "c".toList, .ueAuthResponse 2 secondRes] ++ ms))] ++
    List.replicate (4 + ms.length) (.turn 0)

/-- With addresses of their own both are found, and stay so. -/
theorem consistent_of_addressesFree_two :
    ∃ core, (∃ db core₀ n, Db.parse (subscribersDb "10.8.0.6") = .ok db ∧
      Core.new .plain db {} fixedEntropy = .ok core₀ ∧ Run AddressesFree core₀ n core) ∧
      core.byIp[(⟨10, 8, 0, 5⟩ : Ipv4Addr)]? = some 16843009 ∧
      core.byIp[(⟨10, 8, 0, 6⟩ : Ipv4Addr)]? = some 16843010 ∧
      core.Consistent ∧ ∀ (i : Input) (now : ℕ), i.Fresh core →
        core.step i now ≠ .error .panic := by
  have hruns : ((scenarioIf addressesFree .plain (subscribersDb "10.8.0.6") fixedEntropy
      (bothAttach [])).toOption.any fun core => core.byIp[(⟨10, 8, 0, 5⟩ : Ipv4Addr)]? =
        some 16843009 ∧
        core.byIp[(⟨10, 8, 0, 6⟩ : Ipv4Addr)]? = some 16843010) = true := by decide +kernel
  obtain ⟨core, hcore, hfound⟩ := exists_of_any hruns
  obtain ⟨hfirst, hsecond⟩ := of_decide_eq_true hfound
  obtain ⟨db, core₀, n, hparse, hnew, hrun, hn⟩ :=
    run_of_scenario AddressesFree rfl addressesFree_of_check hcore
  have hlength : (bothAttach []).length = 7 := rfl
  exact ⟨core, ⟨db, core₀, n, hparse, hnew, hrun⟩, hfirst, hsecond,
    consistent_of_addressesFree hnew hrun (by omega)⟩

/-- The parser takes a file in which two subscribers have one address, and the index then
loses the address of a live session. -/
theorem not_consistent_sharedDb :
    ∃ (prim : Primitives) (text : Str) (db : Db) (cfg : CoreConfig) (entropy : List Byte) (core₀ core : Core)
      (n : ℕ), Db.parse text = .ok db ∧ Core.new prim db cfg entropy = .ok core₀ ∧
        Run (fun _ _ => True) core₀ n core ∧ n < 2 ^ 31 ∧ ¬ core.Consistent := by
  have hlost :
    ((scenario .plain sharedDb fixedEntropy (bothAttach [.ueRelease 16843010 .admin])).toOption.any
      fun core => (core.sessions[(16843009 : UInt32)]?).any (fun s => s.ip = ⟨10, 8, 0, 5⟩) &&
        (core.byIp[(⟨10, 8, 0, 5⟩ : Ipv4Addr)]?).isNone) = true := by decide +kernel
  obtain ⟨core, hcore, hlost⟩ := exists_of_any hlost
  obtain ⟨hany, hnone⟩ := Bool.and_eq_true_iff.mp hlost
  rw [Option.any_eq_true] at hany
  obtain ⟨s, hs, hip⟩ := hany
  obtain ⟨db, core₀, n, hparse, hnew, hrun, hn⟩ :=
    run_of_scenario (fun _ _ => True) rfl (fun _ _ _ => trivial) hcore
  refine ⟨.plain, sharedDb, db, {}, fixedEntropy, core₀, core, n, hparse, hnew, hrun, ?_,
    fun hcons => ?_⟩
  · have hlength : (bothAttach [.ueRelease 16843010 .admin]).length = 8 := rfl
    omega
  · have hlookup := (hcons.byIp ⟨10, 8, 0, 5⟩ 16843009).mpr ⟨s, hs, .inl (of_decide_eq_true hip)⟩
    rw [hlookup] at hnone
    cases hnone

end EvansComputer.Cell.Core
