import EvansComputer.Tel.Smsc

/-!
# The queue of texts

What is true of the queue, the references and the Call-IDs between any two steps, and the two
kinds of change that a step is made of: quiet ones, which leave the texts as they are, and a text
that is sent, stored or removed.
-/

namespace EvansComputer.Tel

variable {UserData : Type}

/-! ## What was sent -/

/-- A text in a `MESSAGE`: its Call-ID, where it went, its reference and the text. -/
def SmscOut.text : SmscOut UserData → Option (CallId × Number × UInt8 × Stored UserData)
  | .message k recipient (.data m (.deliver t)) => some (k, recipient, m, t)
  | _ => none

/-- The text that a status report is about. -/
def SmscOut.about : SmscOut UserData → Option ℕ
  | .message _ _ (.data _ (.statusReport t _)) => some t.id
  | _ => none

namespace Smsc

variable {s s' s'' : Smsc UserData}

/-- The last text that was sent under a reference: its Call-ID, where it went, and the text. -/
def carried (out : List (SmscOut UserData)) (m : UInt8) :
    Option (CallId × Number × Stored UserData) :=
  out.reverse.findSome? fun o => (SmscOut.text o).bind fun (k, recipient, m', t) =>
    if m' = m then some (k, recipient, t) else none

/-- The text `id` went to `recipient` in the `MESSAGE` with this Call-ID. -/
def Carries (s : Smsc UserData) (k : CallId) (recipient : Number) (id : ℕ) : Prop :=
  ∃ o ∈ s.out, ∃ m t, SmscOut.text o = some (k, recipient, m, t) ∧ t.id = id

/-- The texts about which there were reports. -/
def reported (s : Smsc UserData) : List ℕ := s.out.filterMap SmscOut.about

/-- What the centre keeps. -/
structure Sound (s : Smsc UserData) : Prop where
  queue : ∀ {id : ℕ} {t : Stored UserData}, s.queue[id]? = some t → t.id = id ∧ id < s.nextId
  gone : ∀ g ∈ s.gone, g.1.id < s.nextId ∧ s.queue[g.1.id]? = none
  once : (s.gone.map (·.1.id)).Nodup
  mr : ∀ {m : UInt8} {id : ℕ}, s.mr[m]? = some id → ∃ k recipient t,
    carried s.out m = some (k, recipient, t) ∧ t.id = id
  sent : ∀ {k : CallId} {id : ℕ}, s.sent[k]? = some id → ∃ recipient, s.Carries k recipient id
  text : ∀ {k : CallId} {recipient : Number} {id : ℕ}, s.Carries k recipient id →
    id < s.nextId ∧ ∀ q, s.queue[id]? = some q → q.recipient = recipient
  reportedOnce : s.reported.Nodup
  reportedGone : ∀ id ∈ s.reported, ∃ g ∈ s.gone, g.1.id = id

/-- What is true of the texts of `s` in a later state, when every text that leaves does so for a
reason of `J`. -/
structure Follows (J : Stored UserData → Gone → Prop) (s s' : Smsc UserData) : Prop where
  gone : ∃ new, s'.gone = s.gone ++ new ∧ ∀ g ∈ new, J g.1 g.2
  kept : ∀ {id : ℕ} {t : Stored UserData}, s.queue[id]? = some t → (s'.queue[id]?).isSome = true ∨
    ∃ g ∈ s'.gone, g.1.id = id

variable {J : Stored UserData → Gone → Prop}

theorem Follows.refl (J : Stored UserData → Gone → Prop) (s : Smsc UserData) : Follows J s s :=
  ⟨⟨[], (List.append_nil _).symm, fun _ h => absurd h List.not_mem_nil⟩, fun h => .inl (h ▸ rfl)⟩

theorem Follows.trans (h : Follows J s s') (h' : Follows J s' s'') : Follows J s s'' := by
  obtain ⟨new, hnew, hJ⟩ := h.gone
  obtain ⟨new', hnew', hJ'⟩ := h'.gone
  refine ⟨⟨new ++ new', by rw [hnew', hnew, List.append_assoc], fun g hg => ?_⟩, fun hq => ?_⟩
  · exact (List.mem_append.mp hg).elim (hJ g) (hJ' g)
  · rcases h.kept hq with hsome | ⟨g, hg, hid⟩
    · obtain ⟨t, ht⟩ := Option.isSome_iff_exists.mp hsome
      exact h'.kept ht
    · exact .inr ⟨g, hnew' ▸ List.mem_append_left _ hg, hid⟩

/-- A part of a step: it keeps what the centre keeps. -/
def Keeps (J : Stored UserData → Gone → Prop) (s s' : Smsc UserData) : Prop :=
  s.Sound → s'.Sound ∧ Follows J s s'

theorem Keeps.refl (J : Stored UserData → Gone → Prop) (s : Smsc UserData) : Keeps J s s :=
  fun h => ⟨h, .refl J s⟩

theorem Keeps.trans (h : Keeps J s s') (h' : Keeps J s' s'') : Keeps J s s'' := fun hsound =>
  let ⟨hsound', hfollows⟩ := h hsound
  let ⟨hsound'', hfollows'⟩ := h' hsound'
  ⟨hsound'', hfollows.trans hfollows'⟩

theorem Keeps.foldl {α : Type} {f : Smsc UserData → α → Smsc UserData}
    (h : ∀ s a, Keeps J s (f s a)) (l : List α) (s : Smsc UserData) :
    Keeps J s (l.foldl f s) := by
  induction l generalizing s with
  | nil => exact .refl J s
  | cons a l ih => exact (h s a).trans (ih (f s a))

/-! ## Changes that remove nothing -/

theorem carried_append_text {out : List (SmscOut UserData)} {o : SmscOut UserData} {k : CallId}
    {recipient : Number} {m : UInt8} {t : Stored UserData}
    (h : SmscOut.text o = some (k, recipient, m, t)) (m' : UInt8) :
    carried (out ++ [o]) m' = if m = m' then some (k, recipient, t) else carried out m' := by
  unfold carried
  rw [List.reverse_append, List.reverse_singleton, List.singleton_append, List.findSome?_cons, h]
  by_cases hm : m = m'
  · rw [if_pos hm]
    simp [hm]
  · rw [if_neg hm]
    simp [hm]

theorem carried_append {out new : List (SmscOut UserData)} (h : ∀ o ∈ new, SmscOut.text o = none)
    (m : UInt8) :
    carried (out ++ new) m = carried out m := by
  unfold carried
  rw [List.reverse_append, List.findSome?_append, List.findSome?_eq_none_iff.mpr, Option.none_or]
  intro o ho
  rw [h o (List.mem_reverse.mp ho)]
  rfl

theorem carries_append {new : List (SmscOut UserData)} (hout : s'.out = s.out ++ new)
    (h : ∀ o ∈ new, SmscOut.text o = none) (k : CallId) (recipient : Number) (id : ℕ) :
    s'.Carries k recipient id ↔ s.Carries k recipient id := by
  unfold Carries
  rw [hout]
  constructor
  · rintro ⟨o, ho, m, t, htext, hid⟩
    rcases List.mem_append.mp ho with ho | ho
    · exact ⟨o, ho, m, t, htext, hid⟩
    · rw [h o ho] at htext
      cases htext
  · rintro ⟨o, ho, hrest⟩
    exact ⟨o, List.mem_append_left _ ho, hrest⟩

/-- What the centre never changes of a text in the queue. -/
def fixed (t : Stored UserData) : ℕ × Number × ℕ := (t.id, t.recipient, t.submittedMs)

/-- A change that neither removes, stores, sends nor reports a text. -/
structure Quiet (s s' : Smsc UserData) : Prop where
  queue : ∀ id : ℕ, (s'.queue[id]?).map fixed = (s.queue[id]?).map fixed
  nextId : s.nextId ≤ s'.nextId
  mr : ∀ (m : UInt8) (id : ℕ), s'.mr[m]? = some id → s.mr[m]? = some id
  sent : ∀ (k : CallId) (id : ℕ), s'.sent[k]? = some id → s.sent[k]? = some id
  out : ∃ new, s'.out = s.out ++ new ∧ ∀ o ∈ new, SmscOut.text o = none ∧ SmscOut.about o = none
  gone : s'.gone = s.gone

theorem Quiet.refl (s : Smsc UserData) : Quiet s s where
  queue _ := rfl
  nextId := Nat.le_refl _
  mr _ _ := id
  sent _ _ := id
  out := ⟨[], (List.append_nil _).symm, fun _ h => absurd h List.not_mem_nil⟩
  gone := rfl

theorem Quiet.trans (h : Quiet s s') (h' : Quiet s' s'') : Quiet s s'' where
  queue id := (h'.queue id).trans (h.queue id)
  nextId := Nat.le_trans h.nextId h'.nextId
  mr m id hm := h.mr m id (h'.mr m id hm)
  sent k id hk := h.sent k id (h'.sent k id hk)
  out := by
    obtain ⟨new, hnew, hquiet⟩ := h.out
    obtain ⟨new', hnew', hquiet'⟩ := h'.out
    exact ⟨new ++ new', by rw [hnew', hnew, List.append_assoc],
      fun o ho => (List.mem_append.mp ho).elim (hquiet o) (hquiet' o)⟩
  gone := h'.gone.trans h.gone

theorem exists_of_fixed {o o' : Option (Stored UserData)} (h : o'.map fixed = o.map fixed)
    {t : Stored UserData} (ht : o' = some t) :
    ∃ q, o = some q ∧ fixed q = fixed t := by
  subst ht
  cases o with
  | none => cases h
  | some q => exact ⟨q, rfl, (Option.some.inj h).symm⟩

theorem Quiet.keeps (h : Quiet s s') : Keeps J s s' := by
  intro hsound
  obtain ⟨new, hnew, hquiet⟩ := h.out
  have htexts := fun o ho => (hquiet o ho).1
  have hcarries := carries_append hnew htexts
  have hreported : s'.reported = s.reported := by
    unfold reported
    rw [hnew, List.filterMap_append, List.filterMap_eq_nil_iff.mpr fun o ho => (hquiet o ho).2,
      List.append_nil]
  refine ⟨⟨?_, ?_, ?_, ?_, ?_, ?_, ?_, ?_⟩, ⟨⟨[], ?_, fun _ h => absurd h List.not_mem_nil⟩, ?_⟩⟩
  · intro id t ht
    obtain ⟨q, hq, hfixed⟩ := exists_of_fixed (h.queue id) ht
    obtain ⟨hid, hlt⟩ := hsound.queue hq
    exact ⟨(congrArg Prod.fst hfixed).symm.trans hid, Nat.lt_of_lt_of_le hlt h.nextId⟩
  · intro g hg
    rw [h.gone] at hg
    obtain ⟨hlt, hnone⟩ := hsound.gone g hg
    refine ⟨Nat.lt_of_lt_of_le hlt h.nextId, ?_⟩
    have hqueue := h.queue g.1.id
    rw [hnone] at hqueue
    exact Option.map_eq_none_iff.mp hqueue
  · rw [h.gone]
    exact hsound.once
  · intro m id hm
    rw [hnew, carried_append htexts]
    exact hsound.mr (h.mr m id hm)
  · intro k id hk
    obtain ⟨recipient, hk⟩ := hsound.sent (h.sent k id hk)
    exact ⟨recipient, (hcarries k recipient id).mpr hk⟩
  · intro k recipient id hk
    obtain ⟨hlt, hqueue⟩ := hsound.text ((hcarries k recipient id).mp hk)
    refine ⟨Nat.lt_of_lt_of_le hlt h.nextId, fun t ht => ?_⟩
    obtain ⟨q, hq, hfixed⟩ := exists_of_fixed (h.queue id) ht
    exact (congrArg (·.2.1) hfixed).symm.trans (hqueue q hq)
  · rw [hreported]
    exact hsound.reportedOnce
  · rw [hreported, h.gone]
    exact hsound.reportedGone
  · rw [h.gone, List.append_nil]
  · intro id t ht
    obtain ⟨q, hq, -⟩ := exists_of_fixed (h.queue id).symm ht
    exact .inl (hq ▸ rfl)

/-! ## What is sent -/

theorem quiet_respond (s : Smsc UserData) : Quiet s s.respond := { Quiet.refl s with }

/-- What is sent without a text of the queue. -/
theorem quiet_sendRp (s : Smsc UserData) (recipient : Number) {rp : Rp UserData}
    (htext : ∀ k, SmscOut.text (.message k recipient rp) = none)
    (habout : ∀ k, SmscOut.about (.message k recipient rp) = none) (now : ℕ) : Quiet s
    (s.sendRp recipient rp none now) where
  queue _ := rfl
  nextId := Nat.le_refl _
  mr _ _ := id
  sent _ _ := id
  out := by
    refine ⟨_, rfl, fun o ho => ?_⟩
    rw [List.mem_singleton.mp ho]
    exact ⟨htext _, habout _⟩
  gone := rfl

theorem quiet_mrNext (s : Smsc UserData) : Quiet s s.mrNext.2 := { Quiet.refl s with }

/-- A text of the queue is sent under a reference of its own. -/
theorem keeps_send {t q : Stored UserData} (hq : s.queue[t.id]? = some q)
    (hrecipient : q.recipient = t.recipient) {k : CallId} {m : UInt8} (hqueue : s'.queue = s.queue)
    (hgone : s'.gone = s.gone) (hid : s'.nextId = s.nextId) (hmr : s'.mr = s.mr.insert m t.id)
    (hsent : s'.sent = s.sent.insert k t.id)
    (hout : s'.out = s.out ++ [.message k t.recipient (.data m (.deliver t))]) : Keeps J s s' := by
  intro hsound
  have htext : SmscOut.text (.message k t.recipient (.data m (.deliver t))) =
    some (k, t.recipient, m, t) := rfl
  have hreported : s'.reported = s.reported := by
    unfold reported
    rw [hout, List.filterMap_append]
    exact List.append_nil _
  refine ⟨⟨?_, ?_, hgone ▸ hsound.once, ?_, ?_, ?_, hreported ▸ hsound.reportedOnce, ?_⟩,
    ⟨[], by rw [hgone, List.append_nil], fun _ h => absurd h List.not_mem_nil⟩,
      fun h => .inl (by rw [hqueue, h]; rfl)⟩
  · rw [hqueue, hid]
    exact hsound.queue
  · rw [hgone, hid, hqueue]
    exact hsound.gone
  · intro m' id h
    rw [hout, carried_append_text htext]
    rw [hmr, OrderedMap.getElem?_insert'] at h
    split at h
    · rename_i heq
      cases h
      rw [if_pos heq]
      exact ⟨_, _, _, rfl, rfl⟩
    · rename_i hne
      rw [if_neg hne]
      exact hsound.mr h
  · intro k' id h
    unfold Carries
    rw [hout]
    rw [hsent, OrderedMap.getElem?_insert'] at h
    split at h
    · rename_i heq
      cases h
      exact ⟨t.recipient, _, List.mem_append_right _ (List.mem_singleton_self _), m,
        t, by rw [htext, heq], rfl⟩
    · obtain ⟨recipient, o, ho, hrest⟩ := hsound.sent h
      exact ⟨recipient, o, List.mem_append_left _ ho, hrest⟩
  · rintro k' recipient id ⟨o, ho, m', t', hsome, hid'⟩
    rw [hid, hqueue]
    rw [hout] at ho
    rcases List.mem_append.mp ho with ho | ho
    · exact hsound.text ⟨o, ho, m', t', hsome, hid'⟩
    · rw [List.mem_singleton.mp ho, htext] at hsome
      cases hsome
      cases hid'
      refine ⟨(hsound.queue hq).2, fun q' hq' => ?_⟩
      cases hq.symm.trans hq'
      exact hrecipient
  · rw [hreported, hgone]
    exact hsound.reportedGone

theorem keeps_tryDeliver (s : Smsc UserData) (id now : ℕ) : Keeps J s (s.tryDeliver id now) := by
  intro hsound
  unfold tryDeliver
  split
  · exact ⟨hsound, .refl J s⟩
  rename_i t ht
  split
  · exact ⟨hsound, .refl J s⟩
  obtain ⟨rfl, -⟩ := hsound.queue ht
  dsimp only [mrNext, sendRp]
  generalize hq : { t with
      inflight := some s.nextMr, attempts := t.attempts + 1,
      nextTryMs := now + backoff (t.attempts + 1) } = q
  have hfixed : fixed q = fixed t := by rw [← hq]; rfl
  have hquiet : Quiet s { s with queue := s.queue.insert t.id q } := by
    refine { Quiet.refl s with queue := fun id => ?_ }
    dsimp only
    rw [OrderedMap.getElem?_insert']
    split
    · rename_i heq
      rw [← heq, ht, Option.map_some, Option.map_some, hfixed]
    · rfl
  have hself : (s.queue.insert t.id q)[t.id]? = some q := by
    rw [OrderedMap.getElem?_insert', if_pos rfl]
  refine (?_ : Keeps J s _) hsound
  exact hquiet.keeps.trans (keeps_send hself (congrArg (·.2.1) hfixed) rfl rfl rfl rfl rfl rfl)

/-- A new text has a number that no other text had. -/
theorem keeps_store (s : Smsc UserData) (t : Stored UserData) (now : ℕ) :
    Keeps J s (s.store t now) := by
  refine Keeps.trans (fun hsound => ?_) (keeps_tryDeliver _ s.nextId now)
  have hne {id : ℕ} (h : id < s.nextId) : ¬ s.nextId = id := fun heq => Nat.lt_irrefl _ (heq ▸ h)
  refine ⟨⟨?_, ?_, hsound.once, hsound.mr, hsound.sent, ?_, hsound.reportedOnce,
    hsound.reportedGone⟩,
    ⟨[], (List.append_nil _).symm, fun _ h => absurd h List.not_mem_nil⟩, ?_⟩
  · intro id t' h
    dsimp only at h ⊢
    rw [OrderedMap.getElem?_insert'] at h
    split at h
    · rename_i heq
      cases h
      exact ⟨heq, by omega⟩
    · exact ⟨(hsound.queue h).1, Nat.lt_succ_of_lt (hsound.queue h).2⟩
  · intro g hg
    obtain ⟨hlt, hnone⟩ := hsound.gone g hg
    refine ⟨Nat.lt_succ_of_lt hlt, ?_⟩
    dsimp only
    rw [OrderedMap.getElem?_insert', if_neg (hne hlt)]
    exact hnone
  · intro k recipient id h
    obtain ⟨hlt, hqueue⟩ := hsound.text h
    refine ⟨Nat.lt_succ_of_lt hlt, ?_⟩
    dsimp only
    rw [OrderedMap.getElem?_insert', if_neg (hne hlt)]
    exact hqueue
  · intro id t' h
    refine .inl ?_
    dsimp only
    rw [OrderedMap.getElem?_insert']
    split
    · rfl
    · rw [h]
      rfl

/-! ## A text that leaves -/

theorem keeps_leave {t : Stored UserData} (ht : s.queue[t.id]? = some t) {why : Gone} (hJ : J t why)
    {new : List (SmscOut UserData)} (hnew : new = [] ∨ ∃ k recipient m status,
      new = [.message k recipient (.data m (.statusReport t status))])
    (hqueue : s'.queue = s.queue.erase t.id) (hgone : s'.gone = s.gone ++ [(t, why)])
    (hid : s'.nextId = s.nextId) (hmr : s'.mr = s.mr) (hsent : s'.sent = s.sent)
    (hout : s'.out = s.out ++ new) : Keeps J s s' := by
  intro hsound
  have htexts : ∀ o ∈ new, SmscOut.text o = none := by
    intro o ho
    rcases hnew with rfl | ⟨k, recipient, m, status, rfl⟩
    · exact absurd ho List.not_mem_nil
    · rw [List.mem_singleton.mp ho]
      rfl
  have hreports : new.filterMap SmscOut.about = [] ∨ new.filterMap SmscOut.about = [t.id] := by
    rcases hnew with rfl | ⟨k, recipient, m, status, rfl⟩
    · exact .inl rfl
    · exact .inr rfl
  have hcarries := carries_append hout htexts
  have hnotgone : ∀ g ∈ s.gone, g.1.id ≠ t.id := by
    intro g hg heq
    have hnone := (hsound.gone g hg).2
    rw [heq, ht] at hnone
    cases hnone
  have hold {id : ℕ} {q : Stored UserData} (h : s'.queue[id]? = some q) :
    s.queue[id]? = some q := by
    rw [hqueue, OrderedMap.getElem?_erase'] at h
    split at h
    · cases h
    · exact h
  have hreported : s'.reported = s.reported ++ new.filterMap SmscOut.about := by
    unfold reported
    rw [hout, List.filterMap_append]
  refine ⟨⟨fun h => hid ▸ hsound.queue (hold h), ?_, ?_, ?_, ?_, ?_, ?_, ?_⟩,
    ⟨[(t, why)], hgone, ?_⟩, ?_⟩
  · intro g hg
    rw [hgone] at hg
    rw [hid, hqueue, OrderedMap.getElem?_erase']
    rcases List.mem_append.mp hg with hg | hg
    · rw [if_neg fun h => hnotgone g hg h.symm]
      exact hsound.gone g hg
    · rw [List.mem_singleton.mp hg, if_pos rfl]
      exact ⟨(hsound.queue ht).2, rfl⟩
  · rw [hgone, List.map_append]
    refine hsound.once.append (List.nodup_singleton _) ?_
    intro id hmem hmem'
    obtain ⟨g, hg, rfl⟩ := List.mem_map.mp hmem
    exact hnotgone g hg (List.mem_singleton.mp hmem')
  · intro m id h
    rw [hout, carried_append htexts]
    exact hsound.mr (hmr ▸ h)
  · intro k id h
    obtain ⟨recipient, hk⟩ := hsound.sent (hsent ▸ h)
    exact ⟨recipient, (hcarries k recipient id).mpr hk⟩
  · intro k recipient id h
    obtain ⟨hlt, hq⟩ := hsound.text ((hcarries k recipient id).mp h)
    exact ⟨hid ▸ hlt, fun q h => hq q (hold h)⟩
  · rw [hreported]
    rcases hreports with h | h
    · rw [h, List.append_nil]
      exact hsound.reportedOnce
    · rw [h]
      refine hsound.reportedOnce.append (List.nodup_singleton _) ?_
      intro id hmem hmem'
      obtain ⟨g, hg, rfl⟩ := hsound.reportedGone id hmem
      exact hnotgone g hg (List.mem_singleton.mp hmem')
  · intro id hmem
    rw [hreported] at hmem
    rw [hgone]
    rcases List.mem_append.mp hmem with hmem | hmem
    · obtain ⟨g, hg, heq⟩ := hsound.reportedGone id hmem
      exact ⟨g, List.mem_append_left _ hg, heq⟩
    · refine ⟨(t, why), List.mem_append_right _ (List.mem_singleton_self _), ?_⟩
      rcases hreports with h | h
      · rw [h] at hmem
        cases hmem
      · rw [h] at hmem
        exact (List.mem_singleton.mp hmem).symm
  · intro g hg
    rw [List.mem_singleton.mp hg]
    exact hJ
  · intro id q h
    by_cases heq : t.id = id
    · exact .inr ⟨(t, why), hgone ▸ List.mem_append_right _ (List.mem_singleton_self _), heq⟩
    · rw [hqueue, OrderedMap.getElem?_erase', if_neg heq, h]
      exact .inl rfl

/-- A text that leaves, with its report. -/
theorem keeps_remove_report {t : Stored UserData} (ht : s.queue[t.id]? = some t) {why : Gone}
    (hJ : J t why) (status : UInt8) (now : ℕ) :
    Keeps J s ((s.remove t why).report t status now) := by
  unfold report
  split
  · exact keeps_leave ht hJ (.inl rfl) rfl rfl rfl rfl rfl (List.append_nil _).symm
  dsimp only [mrNext]
  split
  · exact keeps_leave ht hJ (.inr ⟨_, _, _, _, rfl⟩) rfl rfl rfl rfl rfl rfl
  · exact keeps_leave ht hJ (.inl rfl) rfl rfl rfl rfl rfl (List.append_nil _).symm

end EvansComputer.Tel.Smsc
