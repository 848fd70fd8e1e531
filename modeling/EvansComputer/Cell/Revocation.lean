import EvansComputer.Cell.Consistency

/-!
# What a revocation keeps out

`revoke` ends the sessions of a subscriber, and from then on `ue_attach` refuses it.  An
attach has two halves, though, and the second one does not look again: a challenge that was
out when the revocation came can still be answered, and a session begins.

Where that does not happen, a revoked subscriber stays out until it is let in again.  There
are two lines that let one in, `unrevoke` and an `add` after a `remove`.
-/

namespace EvansComputer.Cell

open Text

/-- What is said is about a session: a context for it at its site, or a packet of it. -/
def Said.About : Said → UInt32 → Prop
  | accept _ session _, id => session = id
  | up session, id => session = id
  | down session, id => session = id
  | _, _ => False

namespace Carrier

variable {v v' : Carrier} {l : Label} {imsi : Str} {allowed : Carrier → Label → Prop}

/-- No session of a subscriber is live. -/
def Absent (imsi : Str) (v : Carrier) : Prop := ∀ id a, v.sessions id = some a → a.imsi ≠ imsi

theorem absent_of_keeps (h : Absent imsi v) {f : UInt32 → Seat → Seat}
    (hf : ∀ id a, v.sessions id = some a → (f id a).imsi = a.imsi)
    (hsessions : v'.sessions = fun id => (v.sessions id).map (f id)) : Absent imsi v' := by
  intro id a' ha'
  rw [hsessions] at ha'
  obtain ⟨a, ha, rfl⟩ := Option.map_eq_some_iff.mp ha'
  rw [hf id a ha]
  exact h id a ha

theorem absent_seat (h : Absent imsi v) {id : UInt32} {a a' : Seat} (ha : v.sessions id = some a)
    (himsi : a'.imsi = a.imsi) : Absent imsi (v.seat id a') := by
  intro id' b hb
  rw [sessions_seat] at hb
  by_cases heq : id' = id
  · rw [heq, Function.update_self] at hb
    rw [← Option.some.inj hb, himsi]
    exact h id a ha
  · rw [Function.update_of_ne heq] at hb
    exact h id' b hb

/-- A subscriber without a session gets one only by an attach. -/
theorem absent_move (h : Absent imsi v) (hmove : Move v l v')
    (hl : ∀ a, l = .created a → a.imsi ≠ imsi) :
    Absent imsi v' := by
  cases hmove with
  | ended id =>
    intro id' a ha
    rw [sessions_ended] at ha
    by_cases heq : id' = id
    · rw [heq, Function.update_self] at ha
      cases ha
    · rw [Function.update_of_ne heq] at ha
      exact h id' a ha
  | kept f hkeeps => exact absent_of_keeps h (fun id a ha => (hkeeps id a ha).imsi) rfl
  | @created a s =>
    intro id b hb
    change Function.update v.sessions a.id (some a) id = some b at hb
    by_cases heq : id = a.id
    · rw [heq, Function.update_self] at hb
      exact Option.some.inj hb ▸ hl a rfl
    · rw [Function.update_of_ne heq] at hb
      exact h id b hb
  | served ha => exact absent_seat h ha rfl
  | prepared now ha => exact absent_seat h ha rfl
  | acked c ho =>
    exact absent_of_keeps (f := fun _ => Seat.acknowledged ho c) h (fun _ _ _ => rfl) rfl
  | switched ha => exact absent_seat h ha rfl
  | _ => exact h

/-- A session that is live was live before, or begins. -/
theorem sessions_move (hmove : Move v l v') {id : UInt32} (hid : v'.sessions id ≠ none) :
    v.sessions id ≠ none ∨ ∃ a, l = .created a ∧ a.id = id := by
  have hseat : ∀ {id' : UInt32} {a a' : Seat}, v.sessions id' = some a →
      (v.seat id' a').sessions id ≠ none → v.sessions id ≠ none := by
    intro id' a a' ha hne
    by_cases heq : id = id'
    · rw [heq, ha]
      exact Option.some_ne_none _
    · rwa [sessions_seat, Function.update_of_ne heq] at hne
  cases hmove with
  | ended id' =>
    rw [sessions_ended] at hid
    by_cases heq : id = id'
    · rw [heq, Function.update_self] at hid
      exact absurd rfl hid
    · rw [Function.update_of_ne heq] at hid
      exact .inl hid
  | kept f => exact .inl fun hnone => hid (Option.map_eq_none_iff.mpr hnone)
  | @created a s =>
    change Function.update v.sessions a.id (some a) id ≠ none at hid
    by_cases heq : id = a.id
    · exact .inr ⟨a, rfl, heq.symm⟩
    · rw [Function.update_of_ne heq] at hid
      exact .inl hid
  | served ha => exact .inl (hseat ha hid)
  | prepared now ha => exact .inl (hseat ha hid)
  | acked c ho => exact .inl fun hnone => hid (Option.map_eq_none_iff.mpr hnone)
  | switched ha => exact .inl (hseat ha hid)
  | _ => exact .inl hid

/-- What one move says. -/
theorem said_move (hmove : Move v l v') : ∃ new, v'.said = v.said ++ new ∧
    ∀ s ∈ new, ∀ id, s.About id → v.sessions id ≠ none ∨ v'.sessions id ≠ none := by
  have hnone : v'.said = v.said → ∃ new, v'.said = v.said ++ new ∧
      ∀ s ∈ new, ∀ id, s.About id → v.sessions id ≠ none ∨ v'.sessions id ≠ none :=
    fun h => ⟨[], by rw [h, List.append_nil], fun s hs => absurd hs List.not_mem_nil⟩
  have hone : ∀ s, v'.said = v.said ++ [s] →
      (∀ id, s.About id → v.sessions id ≠ none ∨ v'.sessions id ≠ none) → ∃ new,
        v'.said = v.said ++ new ∧
      ∀ s ∈ new, ∀ id, s.About id → v.sessions id ≠ none ∨ v'.sessions id ≠ none := by
    refine fun s h hs => ⟨[s], h, fun s' hs' => ?_⟩
    rw [List.mem_singleton.mp hs']
    exact hs
  have hlive : ∀ {id a}, v.sessions id = some a → v.sessions id ≠ none :=
    fun ha hnone => Option.some_ne_none _ (ha.symm.trans hnone)
  cases hmove with
  | ended id =>
    refine hnone ?_
    unfold ended
    cases v.sessions id <;> rfl
  | up ha => exact hone _ rfl fun id' h => .inl (h ▸ hlive ha)
  | down ha => exact hone _ rfl fun id' h => .inl (h ▸ hlive ha)
  | @created a s =>
    refine hone _ rfl fun id' h => .inr ?_
    have hid : a.id = id' := h
    rw [← hid]
    change Function.update v.sessions a.id (some a) a.id ≠ none
    rw [Function.update_self]
    exact Option.some_ne_none _
  | served ha => exact hone _ rfl fun id' h => .inl (h ▸ hlive ha)
  | prepared => exact hone _ rfl fun id' h => h.elim
  | commanded => exact hone _ rfl fun id' h => h.elim
  | _ => exact hnone rfl

/-- A subscriber stays barred until a line lets it in. -/
theorem barred_move (h : v.Barred imsi) (hmove : Move v l v') (hl : l ≠ .unbarred imsi) :
    v'.Barred imsi := by
  cases hmove with
  | ended id =>
    unfold ended Barred
    cases v.sessions id <;> exact h
  | barring r hbarred => exact hbarred imsi h
  | unbarred r imsi' hbarred => exact hbarred imsi (fun heq => hl (heq ▸ rfl)) h
  | _ => exact h

end Carrier

namespace Core

open Carrier Exec

variable {core core₁ core₂ core₃ : Core} {imsi : Str} {n : ℕ}

/-- A correct answer to a challenge comes from a subscriber that is not revoked by now. -/
def Heeds (core : Core) : Input → Prop
  | .turn c => ∀ ue res p sub, core.heard c = some (.ueAuthResponse ue res) →
      core.pending.lookup (c, ue) = some p → p.resp.res = res → core.db.subs[p.imsi]? = some sub →
      sub.revoked = false
  | _ => True

/-- The same, and no line lets a subscriber in. -/
def Closed (imsi : Str) (core : Core) (i : Input) : Prop :=
  core.Heeds i ∧ ∀ line, i = .admin line → ¬ Admits line imsi

/-- A session is another subscriber's: one that is live, or the one that an answer begins. -/
def OfOther (core : Core) (i : Input) (imsi : Str) (id : UInt32) : Prop :=
  (∃ s, core.sessions[id]? = some s ∧ s.imsi ≠ imsi) ∨
    ∃ c ue res p, i = .turn c ∧ core.heard c = some (.ueAuthResponse ue res) ∧
      core.pending.lookup (c, ue) = some p ∧ p.resp.res = res ∧ p.imsi ≠ imsi ∧
        id = core.nextSession

/-- No session of the subscriber is live, and it may not attach. -/
def Out (imsi : Str) (core : Core) : Prop := core.carrier.Absent imsi ∧ core.carrier.Barred imsi

/-- Of whoever may not attach no attach completes, where answers are heeded. -/
theorem imsi_ne_of_created {i : Input} {v : Carrier} {a : Seat} (hbarred : core.carrier.Barred imsi)
    (hok : core.Heeds i) (hl : core.StepLets i v (.created a)) {v' : Carrier}
    (hmove : Move v (.created a) v') :
    a.imsi ≠ imsi ∧ core.OfOther i imsi a.id := by
  obtain ⟨c, ue, res, p, rfl, hheard, hp, hres, ha⟩ := of_stepLets_created hl
  cases hmove with
  | created hid htmsi hnew hsub =>
    rw [ha.revoked] at hsub
    have hne : a.imsi ≠ imsi := by
      rintro rfl
      obtain ⟨r, hr⟩ := Option.ne_none_iff_exists'.mp hsub
      obtain ⟨sub, hsub', rfl⟩ := Option.map_eq_some_iff.mp hr
      have hfalse := hok ue res p sub hheard hp hres (ha.same ▸ hsub')
      exact hbarred (hr.trans (congrArg some hfalse))
    exact ⟨hne,
      .inr ⟨c, ue, res, p, rfl, hheard, hp, hres, ha.same ▸ hne, hid.trans ha.nextSession⟩⟩

/-- **A step leaves who is out out**, and what is said in it is about others. -/
theorem out_step {i : Input} {now : ℕ} (h : Out imsi core) (hfresh : i.Fresh core)
    (hok : Closed imsi core i) (hstep : core.step i now = .ok core₁) :
    Out imsi core₁ ∧ ∃ new, core₁.carrier.said = core.carrier.said ++ new ∧
      ∀ s ∈ new, ∀ id, s.About id → core.OfOther i imsi id := by
  have hkeep : (core₁.carrier.Absent imsi ∧ core₁.carrier.Barred imsi) ∧
      (∀ id, core₁.carrier.sessions id ≠ none → core.OfOther i imsi id) ∧
      ∃ new, core₁.carrier.said = core.carrier.said ++ new ∧
        ∀ s ∈ new, ∀ id, s.About id → core.OfOther i imsi id := by
    refine (moves_of_step hfresh hstep).induction (I := fun v => (v.Absent imsi ∧ v.Barred imsi) ∧
      (∀ id, v.sessions id ≠ none → core.OfOther i imsi id) ∧
      ∃ new, v.said = core.carrier.said ++ new ∧ ∀ s ∈ new, ∀ id,
        s.About id → core.OfOther i imsi id) ?_
      ⟨h, fun id hid => ?_, [], by rw [List.append_nil], fun s hs => absurd hs List.not_mem_nil⟩
    · rintro v l v' hl hmove ⟨⟨habsent, hbarred⟩, hothers, new, hsaid, hnew⟩
      have hcreated : ∀ a, l = .created a → a.imsi ≠ imsi ∧ core.OfOther i imsi a.id := by
        rintro a rfl
        exact imsi_ne_of_created h.2 hok.1 hl hmove
      have hadmit : l ≠ .unbarred imsi := by
        rintro rfl
        cases hl with
        | turn ht => cases ht with | ctl hm hl => cases hl
        | admin ha => cases ha with | unbarred hadmits => exact hok.2 _ rfl hadmits
      have hothers' : ∀ id, v'.sessions id ≠ none → core.OfOther i imsi id := by
        intro id hid
        rcases sessions_move hmove hid with hold | ⟨a, rfl, rfl⟩
        · exact hothers id hold
        · exact (hcreated a rfl).2
      obtain ⟨new', hsaid', hnew'⟩ := said_move hmove
      refine ⟨⟨absent_move habsent hmove fun a ha => (hcreated a ha).1,
        barred_move hbarred hmove hadmit⟩,
        hothers', new ++ new', by rw [hsaid', hsaid, List.append_assoc], fun s hs id habout => ?_⟩
      rcases List.mem_append.mp hs with hs | hs
      · exact hnew s hs id habout
      · rcases hnew' s hs id habout with hlive | hlive
        · exact hothers id hlive
        · exact hothers' id hlive
    · obtain ⟨a, ha⟩ := Option.ne_none_iff_exists'.mp hid
      obtain ⟨s, hs, rfl⟩ := session_of_carrier ha
      exact .inl ⟨s, hs, h.1 id _ ha⟩
  exact ⟨hkeep.1, hkeep.2.2⟩

theorem out_run (h : Out imsi core₁) (hrun : Run (Closed imsi) core₁ n core₂) : Out imsi core₂ := by
  induction hrun with
  | refl => exact h
  | step _ hfresh hok hstep ih => exact (out_step ih hfresh hok hstep).1

/-- A `revoke` leaves its subscriber out. -/
theorem out_of_setRevoked {answer : Str} {now : ℕ}
    (h : core.setRevoked imsi true now = .ok (core₁, .ok answer)) : Out imsi core₁ := by
  unfold setRevoked at h
  by_cases hsub : (!core.db.subs.contains imsi) = true
  · rw [if_pos hsub] at h
    cases h
  rw [if_neg hsub] at h
  obtain ⟨core', hchange, h⟩ := exists_of_bind_eq_ok h
  unfold changeSub at hchange
  obtain ⟨sub, -, hcore'⟩ := exists_of_bind_eq_ok hchange
  generalize hsent : (core'.siteConns fun _ => true).foldl
    (fun core c => core.send c (.revoked imsi)) core' = core₂ at h
  have hcarrier : (core₂.endSessionsOf imsi .revoked now).carrier = core₁.carrier := by
    have hdone :
      ((core₂.endSessionsOf imsi .revoked now).done now (imsi ++ " revoked".toList)).1.carrier =
        (core₂.endSessionsOf imsi .revoked now).carrier := carrier_done now _
    have hreply : (core₂.endSessionsOf imsi .revoked now).done now (imsi ++ " revoked".toList) =
        (core₁, .ok answer) := Except.ok.inj h
    rw [← hdone, hreply]
  have hbarred : core₂.carrier.Barred imsi := by
    rw [← hsent, carrier_foldl _ fun _ _ _ => carrier_send_quiet rfl]
    cases hcore'
    change (Option.map _ _) ≠ _
    rw [OrderedMap.getElem?_insert', if_pos rfl]
    exact fun h => nomatch h
  have hended := sessions_ended_of core₂ imsi
  have hrevoked := (said_foldl_ended (core₂.sessionIds (·.imsi = imsi)) core₂.carrier).2.1
  rw [← carrier_foldl_endSession core₂ _ .revoked true now] at hended hrevoked
  rw [Out, ← hcarrier, endSessionsOf, Barred, hrevoked]
  refine ⟨fun id a ha => ?_, hbarred⟩
  rw [hended] at ha
  exact of_decide_eq_true (Option.filter_eq_some_iff.mp ha).2

/-- **Revocation is permanent** where answers are heeded: from a `revoke` on, until a line
lets the subscriber in again, it has no live session, and every context and every packet is
of a session that is another subscriber's. -/
theorem revoked_stays_out {line answer : Str} {now : ℕ}
    (hline : words line = ["revoke".toList, imsi]) (hrevoke : core.admin line now = .ok
      (core₁, .ok answer)) (hrun : Run (Closed imsi) core₁ n core₂) :
    (∀ (id : UInt32) (s : Session), core₂.sessions[id]? = some s → s.imsi ≠ imsi) ∧
      ∀ (i : Input) (now : ℕ) (core₃ : Core), i.Fresh core₂ → Closed imsi core₂ i →
        core₂.step i now = .ok core₃ → ∃ new, core₃.carrier.said = core₂.carrier.said ++ new ∧
          ∀ s ∈ new, ∀ id, s.About id → core₂.OfOther i imsi id := by
  have hset : core.setRevoked imsi true now = .ok (core₁, .ok answer) := by
    unfold admin at hrevoke
    rw [hline] at hrevoke
    exact hrevoke
  have hout := out_run (out_of_setRevoked hset) hrun
  exact ⟨fun id s hs => hout.1 id s.seat (carrier_sessions hs),
    fun i now core₃ hfresh hok hstep => (out_step hout hfresh hok hstep).2⟩

/-- The check that a right answer is nobody's that is revoked, and that no line comes. -/
def closed (core : Core) : Input → Bool
  | .turn c => match core.heard c with
    | some (.ueAuthResponse ue _) => (core.pending.lookup (c, ue)).all fun p =>
      (core.db.subs[p.imsi]?).all fun sub => !sub.revoked
    | _ => true
  | .admin _ => false
  | _ => true

theorem closed_of_check (core : Core) (i : Input) (h : core.closed i) : Closed imsi core i := by
  refine ⟨?_, fun line hi => by rw [hi] at h; cases h⟩
  cases i with
  | turn c =>
    intro ue res p sub hheard hp _ hsub
    rw [closed, hheard] at h
    dsimp only at h
    rw [hp, Option.all_some, hsub, Option.all_some, Bool.not_eq_true'] at h
    exact h
  | _ => trivial

/-- The first `n` turns of two subscribers that attach, both of whose answers are under way. -/
def attachBegins (n : ℕ) : List Input := (bothAttach []).take (3 + n)

def revokeFirst : Str := "revoke 111111".toList

/-- A subscriber with a session, the line that takes it away, and the attach of another one
behind it. -/
theorem revoked_stays_out_attached :
    ∃ (core core₁ core₂ core₃ : Core) (answer : Str), core.admin revokeFirst 0 = .ok
      (core₁, .ok answer) ∧
      (∃ (id : UInt32) (s : Session), core.sessions[id]? = some s ∧ s.imsi = "111111".toList) ∧
      (∃ n, Run (Closed "111111".toList) core₁ n core₂) ∧ core₂.step (.turn 0) 0 = .ok core₃ ∧
      core₃.carrier.said = core₂.carrier.said ++ [.accept 0 16843010 1] ∧
      (∀ (id : UInt32) (s : Session), core₂.sessions[id]? = some s → s.imsi ≠ "111111".toList) ∧
      ∃ new, core₃.carrier.said = core₂.carrier.said ++ new ∧
        ∀ s ∈ new, ∀ id, s.About id → core₂.OfOther (.turn 0) "111111".toList id := by
  have hruns :
    ((scenario .plain (subscribersDb "10.8.0.6") fixedEntropy (attachBegins 2)).toOption.any
      fun core => (core.sessions[(16843009 : UInt32)]?).any (fun s => s.imsi = "111111".toList) &&
        (core.admin revokeFirst 0).toOption.any fun r => r.2.isOk &&
        (r.1.stepsIf closed [.turn 0] 0).toOption.any fun core₂ => core₂.closed (.turn 0) &&
        (core₂.step (.turn 0) 0).toOption.any fun core₃ =>
          core₃.carrier.said = core₂.carrier.said ++ [.accept 0 16843010 1]) = true := by
            decide +kernel
  obtain ⟨core, -, hruns⟩ := exists_of_any hruns
  obtain ⟨hlive, hruns⟩ := Bool.and_eq_true_iff.mp hruns
  rw [Option.any_eq_true] at hlive
  obtain ⟨s, hs, himsi⟩ := hlive
  obtain ⟨⟨core₁, r⟩, hadmin, hruns⟩ := exists_of_any hruns
  obtain ⟨hok, hruns⟩ := Bool.and_eq_true_iff.mp hruns
  obtain ⟨core₂, hsteps, hruns⟩ := exists_of_any hruns
  obtain ⟨hclosed, hruns⟩ := Bool.and_eq_true_iff.mp hruns
  obtain ⟨core₃, hstep, hsaid⟩ := exists_of_any hruns
  cases r with
  | error e => cases hok
  | ok answer =>
    obtain ⟨n, -, hrun⟩ :=
      run_of_stepsIf (Closed _) .refl (fresh_of_connectsNone rfl) closed_of_check hsteps
    have hline : words revokeFirst = ["revoke".toList, "111111".toList] := by decide
    obtain ⟨hout, hnext⟩ := revoked_stays_out hline hadmin hrun
    exact ⟨core, core₁, core₂, core₃, answer, hadmin,
      ⟨_, s, hs, of_decide_eq_true himsi⟩, ⟨n, hrun⟩,
      hstep, of_decide_eq_true hsaid, hout,
        hnext _ 0 core₃ trivial (closed_of_check _ _ hclosed) hstep⟩

/-- A challenge was out when the revocation came, and its answer begins a session. -/
theorem not_revoked_stays_out :
    ∃ (prim : Primitives) (text : Str) (db : Db) (cfg : CoreConfig) (entropy : List Byte)
      (core₀ core core₁ core₂ : Core) (n m : ℕ) (answer : Str),
      Db.parse text = .ok db ∧ Core.new prim db cfg entropy = .ok core₀ ∧
        Run (fun _ _ => True) core₀ n core ∧
        core.admin revokeFirst 0 = .ok (core₁, .ok answer) ∧
        Run (fun _ i => ∀ line, i ≠ .admin line) core₁ m core₂ ∧
        ∃ (id : UInt32) (s : Session), core₂.sessions[id]? = some s ∧ s.imsi = "111111".toList := by
  have hruns : ((scenario .plain sharedDb fixedEntropy (attachBegins 1)).toOption.any fun core =>
      (core.admin revokeFirst 0).toOption.any fun r => r.2.isOk &&
        (r.1.step (.turn 0) 0).toOption.any fun core₂ =>
          (core₂.sessions[(16843009 : UInt32)]?).any (fun s => s.imsi = "111111".toList)) =
            true := by
    decide +kernel
  obtain ⟨core, hcore, hruns⟩ := exists_of_any hruns
  obtain ⟨⟨core₁, r⟩, hadmin, hruns⟩ := exists_of_any hruns
  obtain ⟨hok, hruns⟩ := Bool.and_eq_true_iff.mp hruns
  obtain ⟨core₂, hstep, hlive⟩ := exists_of_any hruns
  rw [Option.any_eq_true] at hlive
  obtain ⟨s, hs, himsi⟩ := hlive
  obtain ⟨db, core₀, n, hparse, hnew, hrun, -⟩ :=
    run_of_scenario (fun _ _ => True) rfl (fun _ _ _ => trivial) hcore
  cases r with
  | error e => cases hok
  | ok answer =>
    exact ⟨.plain, sharedDb, db, {}, fixedEntropy, core₀, core, core₁, core₂, n, _, answer,
      hparse, hnew, hrun,
      hadmin, Run.step .refl (i := .turn 0) trivial (fun _ h => by cases h) hstep, _, s, hs,
      of_decide_eq_true himsi⟩

end EvansComputer.Cell.Core
