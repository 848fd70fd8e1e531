import EvansComputer.Tel.Queue

/-!
# Which texts are removed

A text leaves the queue once, with one report at most.  What removes it is an answer from its
recipient to an RP-DATA that carried it, a response to a `MESSAGE` that carried it, or time: as long
as what comes under a reference is an answer to the last text that was sent under it.
-/

namespace EvansComputer.Tel.Smsc

variable {UserData : Type} {s s' s'' : Smsc UserData} {J : Stored UserData → Gone → Prop}

/-! ## The parts of a step -/

theorem quiet_ground (s : Smsc UserData) (id : ℕ) : Quiet s (s.ground id) := by
  unfold ground
  split
  · exact .refl s
  rename_i t ht
  split
  · exact .refl s
  exact
    { Quiet.refl s with
      queue := fun id' => by
        dsimp only
        rw [OrderedMap.getElem?_insert']
        split
        · rename_i heq
          rw [← heq, ht]
          rfl
        · rfl
      mr := fun m id' h => by
        dsimp only at h
        rw [OrderedMap.getElem?_erase'] at h
        split at h
        · cases h
        · exact h }

theorem quiet_eraseMr (s : Smsc UserData) (mr : UInt8) : Quiet s { s with mr := s.mr.erase mr } :=
  { Quiet.refl s with
    mr := fun m id h => by
      dsimp only at h
      rw [OrderedMap.getElem?_erase'] at h
      split at h
      · cases h
      · exact h }

theorem quiet_eraseSent (s : Smsc UserData) (callId : CallId) :
    Quiet s { s with sent := s.sent.erase callId } :=
  { Quiet.refl s with
    sent := fun k id h => by
      dsimp only at h
      rw [OrderedMap.getElem?_erase'] at h
      split at h
      · cases h
      · exact h }

theorem quiet_modify (s : Smsc UserData) (id : ℕ) :
    Quiet s { s with queue := s.queue.modify id fun t => { t with inflight := none } } :=
  { Quiet.refl s with
    queue := fun id' => by
      dsimp only
      rw [OrderedMap.getElem?_modify']
      split
      · cases s.queue[id']? with
        | none => rfl
        | some t => rfl
      · rfl }

theorem quiet_nextPending (s : Smsc UserData) : Quiet s s.nextPending.2 :=
  { Quiet.refl s with nextId := Nat.le_succ _ }

theorem quiet_checkAndStore (s : Smsc UserData) (t : Stored UserData) :
    Quiet s (s.checkAndStore t) :=
  { quiet_nextPending s with
    out := ⟨_, rfl, fun o ho => by
      rw [List.mem_singleton.mp ho]
      exact ⟨rfl, rfl⟩⟩ }

theorem quiet_submit (coding : Coding UserData) (cfg : SmscConfig) (s : Smsc UserData)
    (sender : Number) (mr : UInt8) (tpdu : MoTpdu UserData) (now : ℕ) :
    Quiet s (s.submit coding cfg sender mr tpdu now) := by
  have hrate (s : Smsc UserData) (q : List ℕ) : Quiet s { s with rate := s.rate.insert sender q } :=
    { Quiet.refl s with }
  have hack (s : Smsc UserData) : Quiet s (s.sendRp sender (.ack mr) none now) :=
    quiet_sendRp s sender (fun _ => rfl) (fun _ => rfl) now
  have herror (s : Smsc UserData) (cause : UInt8) :
    Quiet s (s.sendRp sender (.error mr cause) none now) :=
    quiet_sendRp s sender (fun _ => rfl) (fun _ => rfl) now
  have hout (s : Smsc UserData) (o : SmscOut UserData) (ho : SmscOut.text o = none ∧
    SmscOut.about o = none) : Quiet s { s with out := s.out ++ [o] } :=
    { Quiet.refl s with out := ⟨_, rfl, fun o' ho' => List.mem_singleton.mp ho' ▸ ho⟩ }
  have hbalance (s : Smsc UserData) :
      Quiet s { s.nextPending.2 with
        pending := s.nextPending.2.pending.insert s.nextPending.1 (.balance sender)
        out := s.nextPending.2.out ++ [.hss s.nextPending.1 sender] } :=
    { quiet_nextPending s with
      out := ⟨_, rfl, fun o ho => by
        rw [List.mem_singleton.mp ho]
        exact ⟨rfl, rfl⟩⟩ }
  unfold submit
  split
  · exact herror s 96
  dsimp only
  split
  · exact (hrate s _).trans (herror _ 42)
  split
  · split
    · exact ((hrate s (s.recent sender now ++ [now])).trans (hack _)).trans (hbalance _)
    · exact ((hrate s (s.recent sender now ++ [now])).trans (hack _)).trans (hout _ _ ⟨rfl, rfl⟩)
  split
  · exact (hrate s _).trans (herror _ 1)
  · exact ((hrate s (s.recent sender now ++ [now])).trans (hack _)).trans (quiet_checkAndStore _ _)

theorem keeps_sendText (coding : Coding UserData) (s : Smsc UserData) (code recipient : Number)
    (text : List Char) (now : ℕ) :
    Keeps J s (s.sendText coding code recipient text now) := by
  have href : Quiet s { s with nextRef := nextReference s.nextRef } := { Quiet.refl s with }
  exact href.keeps.trans (Keeps.foldl (fun s _ => keeps_store s _ now) _ _)

theorem keeps_retryFor (s : Smsc UserData) (number : Number) (now : ℕ) :
    Keeps J s (s.retryFor number now) :=
  Keeps.foldl (fun s id => keeps_tryDeliver s id now) _ _

theorem keeps_onHss (coding : Coding UserData) (s : Smsc UserData) (id : ℕ) (block : List Number)
    (balance : List Char) (now : ℕ) :
    Keeps J s (s.onHss coding id block balance now) := by
  unfold onHss
  split
  · exact .refl J s
  have hpending : Quiet s { s with pending := s.pending.erase id } := { Quiet.refl s with }
  dsimp only
  split
  · split
    · exact hpending.keeps
    · exact hpending.keeps.trans (keeps_store _ _ now)
  · exact hpending.keeps.trans (keeps_sendText coding _ _ _ _ now)

/-- An answer removes the text that its reference stands for. -/
theorem keeps_delivered (s : Smsc UserData) (mr : UInt8) (now : ℕ)
    (hJ : ∀ id t, s.mr[mr]? = some id → s.queue[id]? = some t → J t .delivered) :
    Keeps J s (s.delivered mr now) := by
  intro hsound
  unfold delivered
  split
  · exact ⟨hsound, .refl J s⟩
  rename_i id hmr
  dsimp only
  split
  · exact (quiet_eraseMr s mr).keeps hsound
  rename_i t ht
  have hid := (hsound.queue ht).1
  exact ((quiet_eraseMr s mr).keeps.trans
    (keeps_remove_report (hid.symm ▸ ht) (hJ id t hmr ht) _ now)) hsound

theorem keeps_refused (s : Smsc UserData) (mr cause : UInt8) (now : ℕ)
    (hJ : ∀ id t, s.mr[mr]? = some id → s.queue[id]? = some t → J t .refused) :
    Keeps J s (s.refused mr cause now) := by
  intro hsound
  unfold refused
  split
  · exact ⟨hsound, .refl J s⟩
  rename_i id hmr
  dsimp only
  split
  · exact ((quiet_eraseMr s mr).trans (quiet_modify _ id)).keeps hsound
  split
  · exact (quiet_eraseMr s mr).keeps hsound
  rename_i t ht
  have hid := (hsound.queue ht).1
  exact ((quiet_eraseMr s mr).keeps.trans
    (keeps_remove_report (hid.symm ▸ ht) (hJ id t hmr ht) _ now)) hsound

/-- What a response removes, the text of its `MESSAGE` or the one under the reference of that
text. -/
theorem keeps_onResponse (s : Smsc UserData) (code : ℕ) (callId : CallId)
    (branch : Branch) (now : ℕ) (hdelivered : code = 202 → ∀ id t mr id' t',
      s.sent[callId]? = some id → s.queue[id]? = some t → t.inflight = some mr →
      s.mr[mr]? = some id' → s.queue[id']? = some t' → J t' .delivered)
    (hdropped : code = 404 ∨ code = 403 → ∀ id t, s.sent[callId]? = some id → t.id = id →
      J t .dropped) :
    Keeps J s (s.onResponse code callId branch now) := by
  intro hsound
  unfold onResponse
  split
  · exact ⟨hsound, .refl J s⟩
  have hclient : Quiet s { s with client := s.client.erase branch } := { Quiet.refl s with }
  dsimp only
  split
  · exact hclient.keeps hsound
  rename_i id hsent
  have hstart := hclient.trans (quiet_eraseSent _ callId)
  split
  · split
    · rename_i hcode
      split
      · rename_i mr hmr
        obtain ⟨t, ht, hinflight⟩ := Option.bind_eq_some_iff.mp hmr
        exact (hstart.keeps.trans (keeps_delivered _ mr now fun id' t' hid' ht' =>
          hdelivered hcode id t mr id' t' hsent ht hinflight hid' ht'))
          hsound
      · exact hstart.keeps hsound
    · exact hstart.keeps hsound
  have hground := hstart.trans (quiet_ground _ id)
  split
  · exact hground.keeps hsound
  rename_i t ht
  split
  · rename_i hcode
    have hid := ((hground.keeps (J := J) hsound).1.queue ht).1
    exact (hground.keeps.trans
      (keeps_remove_report (hid.symm ▸ ht) (hdropped hcode id t hsent hid) _ now)) hsound
  · exact hground.keeps hsound

/-! ## Time -/

theorem queue_report (s : Smsc UserData) (t : Stored UserData) (status : UInt8) (now : ℕ) :
    (s.report t status now).queue = s.queue := by
  unfold report
  split
  · rfl
  dsimp only
  split
  · rfl
  · rfl

theorem queue_expire (hsound : s.Sound) (id now : ℕ) :
    (s.expire id now).queue = s.queue.erase id := by
  unfold expire
  split
  · rename_i hnone
    apply Std.ExtTreeMap.ext_getElem?
    intro id'
    rw [OrderedMap.getElem?_erase']
    split
    · rename_i heq
      rw [← heq, hnone]
    · rfl
  · rename_i t ht
    rw [queue_report, remove, (hsound.queue ht).1]

/-- The texts of a list expire, and no other leaves. -/
theorem keeps_expire (l : List ℕ) (now : ℕ) (s : Smsc UserData)
    (hJ : ∀ id ∈ l, ∀ t, s.queue[id]? = some t → J t .expired) :
    Keeps J s (l.foldl (fun s id => s.expire id now) s) ∧
      (s.Sound → ∀ id, (l.foldl (fun s id => s.expire id now) s).queue[id]? = if id ∈ l then none
        else s.queue[id]?) := by
  induction l generalizing s with
  | nil => exact ⟨.refl J s, fun _ id => by rw [List.foldl_nil, if_neg List.not_mem_nil]⟩
  | cons a l ih =>
    have hone : Keeps J s (s.expire a now) := by
      intro hsound
      unfold expire
      split
      · exact ⟨hsound, .refl J s⟩
      · rename_i t ht
        have hid := (hsound.queue ht).1
        exact keeps_remove_report (hid.symm ▸ ht) (hJ a List.mem_cons_self t ht) _ now hsound
    rw [List.foldl_cons]
    have hqueue (hsound : s.Sound) (id : ℕ) :
      (s.expire a now).queue[id]? = if a = id then none else s.queue[id]? := by
      rw [queue_expire hsound, OrderedMap.getElem?_erase']
    have hrest (hsound : s.Sound) := ih (s.expire a now) fun id hid t ht => by
      rw [hqueue hsound] at ht
      split at ht
      · cases ht
      · exact hJ id (List.mem_cons_of_mem _ hid) t ht
    refine ⟨fun hsound => (hone.trans (hrest hsound).1) hsound, fun hsound id => ?_⟩
    rw [(hrest hsound).2 (hone hsound).1, hqueue hsound]
    by_cases ha : a = id
    · simp [ha]
    · have hmem : id ∈ a :: l ↔ id ∈ l := by
        rw [List.mem_cons]
        exact ⟨fun h => h.resolve_left fun h => ha h.symm, .inr⟩
      simp only [hmem, if_neg ha]

theorem mem_stored (hsound : s.Sound) {p : Stored UserData → Bool} {id : ℕ} :
    id ∈ s.stored p ↔ ∃ t, s.queue[id]? = some t ∧ p t = true := by
  unfold stored
  constructor
  · intro h
    obtain ⟨t, ht, rfl⟩ := List.mem_map.mp h
    obtain ⟨hmem, hp⟩ := List.mem_filter.mp ht
    rw [OrderedMap.values_eq] at hmem
    obtain ⟨⟨k, t⟩, hentry, rfl⟩ := List.mem_map.mp hmem
    have hk := Std.ExtTreeMap.mem_toList_iff_getElem?_eq_some.mp hentry
    exact ⟨t, (hsound.queue hk).1.symm ▸ hk, hp⟩
  · rintro ⟨t, ht, hp⟩
    exact List.mem_map.mpr ⟨t, List.mem_filter.mpr ⟨OrderedMap.mem_values_of_getElem? ht, hp⟩,
      (hsound.queue ht).1⟩

theorem Quiet.foldl {α : Type} {f : Smsc UserData → α → Smsc UserData} (h : ∀ s a, Quiet s (f s a))
    (l : List α) (s : Smsc UserData) :
    Quiet s (l.foldl f s) := by
  induction l generalizing s with
  | nil => exact .refl s
  | cons a l ih => exact (h s a).trans (ih (f s a))

theorem fixed_tryDeliver (s : Smsc UserData) (id now id' : ℕ) :
    ((s.tryDeliver id now).queue[id']?).map fixed = (s.queue[id']?).map fixed := by
  unfold tryDeliver
  split
  · rfl
  rename_i t ht
  split
  · rfl
  dsimp only [mrNext, sendRp]
  rw [OrderedMap.getElem?_insert']
  split
  · rename_i heq
    rw [← heq, ht]
    rfl
  · rfl

theorem fixed_foldl_tryDeliver (l : List ℕ) (s : Smsc UserData) (now id : ℕ) :
    ((l.foldl (fun s id => s.tryDeliver id now) s).queue[id]?).map fixed =
    (s.queue[id]?).map fixed := by
  induction l generalizing s with
  | nil => rfl
  | cons a l ih => exact (ih (s.tryDeliver a now)).trans (fixed_tryDeliver s a now id)

/-- What leaves at a tick is too old, and what is too old leaves. -/
theorem keeps_tick (cfg : SmscConfig) (now : ℕ)
    (hJ : ∀ t, cfg.validityMs ≤ now - t.submittedMs → J t .expired) (hsound : s.Sound) :
    ((s.tick cfg now).Sound ∧ Follows J s (s.tick cfg now)) ∧
      ∀ (id : ℕ) (t : Stored UserData), (s.tick cfg now).queue[id]? = some t →
        ¬ cfg.validityMs ≤ now - t.submittedMs := by
  unfold tick
  dsimp only
  generalize List.map (fun e : Branch × ℕ × ℕ => e.2.1) _ = owners
  have hclient : Quiet s { s with client := s.client.filter fun _ c => now < c.2 } :=
    { Quiet.refl s with }
  have htimeouts := hclient.trans (Quiet.foldl (fun s id => quiet_ground s id) owners _)
  generalize owners.foldl _ _ = s₁ at htimeouts ⊢
  have hstale := htimeouts.trans
    (Quiet.foldl (fun s id => quiet_ground s id)
      (s₁.stored fun t => t.inflight.isSome && t.nextTryMs + 30000 ≤ now) s₁)
  generalize List.foldl (fun (s : Smsc UserData) id => s.ground id) s₁ _ = s₂ at hstale ⊢
  obtain ⟨hsound₂, hfollows₂⟩ := hstale.keeps (J := J) hsound
  obtain ⟨hexpire, hqueue⟩ := keeps_expire (J := J)
    (s₂.stored fun t => cfg.validityMs ≤ now - t.submittedMs) now s₂ fun id hid t ht => by
    obtain ⟨t', ht', hold⟩ := (mem_stored hsound₂).mp hid
    rw [ht] at ht'
    cases ht'
    exact hJ t (of_decide_eq_true hold)
  have hqueue := hqueue hsound₂
  obtain ⟨hsound₃, hfollows₃⟩ := hexpire hsound₂
  generalize List.foldl (fun (s : Smsc UserData) id => s.expire id now) s₂ _ =
    s₃ at hqueue hsound₃ hfollows₃ ⊢
  obtain ⟨hsound₄, hfollows₄⟩ := Keeps.foldl (J := J) (fun s id => keeps_tryDeliver s id now)
    (s₃.stored fun t => t.inflight.isNone && t.nextTryMs ≤ now) s₃ hsound₃
  refine ⟨⟨hsound₄, (hfollows₂.trans hfollows₃).trans hfollows₄⟩, fun id t ht hold => ?_⟩
  obtain ⟨q, hq, hfixed⟩ := exists_of_fixed (fixed_foldl_tryDeliver _ s₃ now id) ht
  rw [hqueue id] at hq
  split at hq
  · cases hq
  rename_i hnot
  refine hnot ((mem_stored hsound₂).mpr ⟨q, hq, decide_eq_true ?_⟩)
  have hsubmitted : q.submittedMs = t.submittedMs := congrArg (·.2.2) hfixed
  rwa [hsubmitted]

/-! ## Answers -/

/-- What may remove a text: an answer of its recipient to an RP-DATA that carried it, a response
to a `MESSAGE` that carried it, or time. -/
inductive Justified (cfg : SmscConfig) (s : Smsc UserData) :
    Event UserData → Stored UserData → Gone → Prop where
  | ack (mr : UInt8) (k : CallId) (now : ℕ) (t : Stored UserData)
    (h : s.Carries k t.recipient t.id) :
      Justified cfg s (.request (.phone (some t.recipient) (.ack mr k)) now) t .delivered
  | error (mr cause : UInt8) (k : CallId) (now : ℕ) (t : Stored UserData)
    (h : s.Carries k t.recipient t.id) :
      Justified cfg s (.request (.phone (some t.recipient) (.error mr cause k)) now) t .refused
  | takenOver (k : CallId) (branch : Branch) (now : ℕ) (recipient : Number) (t : Stored UserData)
    (h : s.Carries k recipient t.id) :
      Justified cfg s (.response 202 k branch now) t .delivered
  | dropped (code : ℕ) (k : CallId) (branch : Branch) (now : ℕ) (recipient : Number)
    (t : Stored UserData) (hcode : code = 404 ∨ code = 403)
      (h : s.Carries k recipient t.id) : Justified cfg s (.response code k branch now) t .dropped
  | expired (now : ℕ) (t : Stored UserData) (h : cfg.validityMs ≤ now - t.submittedMs) :
    Justified cfg s (.tick now) t .expired

theorem Justified.recipient_of_ack {cfg : SmscConfig} {sender : Number} {mr : UInt8} {k : CallId}
    {now : ℕ} {t : Stored UserData} {why : Gone} (h : Justified cfg s
      (.request (.phone (some sender) (.ack mr k)) now) t why) : t.recipient = sender := by
  cases h
  rfl

/-- What a step does to the texts: one that leaves has a reason to, leaves once and has one report
at most; the others stay, until they are too old. -/
structure Settles (cfg : SmscConfig) (s : Smsc UserData) (e : Event UserData) (s' : Smsc UserData) :
    Prop where
  removed : ∃ new, s'.gone = s.gone ++ new ∧ ∀ g ∈ new, Justified cfg s e g.1 g.2
  kept : ∀ {id : ℕ} {t : Stored UserData}, s.queue[id]? = some t → (s'.queue[id]?).isSome = true ∨
    ∃ g ∈ s'.gone, g.1.id = id
  once : (s'.gone.map (·.1.id)).Nodup ∧ ∀ g ∈ s'.gone, s'.queue[g.1.id]? = none
  reported : s'.reported.Nodup ∧ ∀ id ∈ s'.reported, ∃ g ∈ s'.gone, g.1.id = id
  expires : ∀ now, e = .tick now → ∀ (id : ℕ) (t : Stored UserData), s'.queue[id]? = some t →
    ¬ cfg.validityMs ≤ now - t.submittedMs

/-- Where a text is in flight under the reference, the answer is to the last text that was sent
under it, from where that was sent. -/
def acknowledges (s : Smsc UserData) (sender : Number) (mr : UInt8) (k : CallId) : Bool :=
  ((s.mr[mr]?).bind fun id => s.queue[id]?).isNone ||
    (carried s.out mr).all fun c => c.1 = k && c.2.1 = sender

/-- No other text was sent since under the reference of the text of that `MESSAGE`. -/
def inPlace (s : Smsc UserData) (k : CallId) : Bool :=
  (s.sent[k]?).all fun id => ((s.queue[id]?).bind (·.inflight)).all fun m =>
    (carried s.out m).all fun c => c.2.2.id = id

/-- The answers are to what is in flight. -/
def answers (s : Smsc UserData) : Event UserData → Bool
  | .request (.phone (some sender) (.ack mr k)) _ => s.acknowledges sender mr k
  | .request (.phone (some sender) (.error mr _ k)) _ => s.acknowledges sender mr k
  | .response 202 k _ _ => s.inPlace k
  | _ => true

def answered (coding : Coding UserData) (cfg : SmscConfig) :
    Smsc UserData → List (Event UserData) → Bool
  | _, [] => true
  | s, e :: es => s.answers e && answered coding cfg (s.step coding cfg e) es

/-- The text in flight under a reference is that of the last RP-DATA under it. -/
theorem carries_of_mr (hsound : s.Sound) {mr : UInt8} {id : ℕ} (hmr : s.mr[mr]? = some id) :
    ∃ k recipient t, carried s.out mr = some (k, recipient, t) ∧ t.id = id ∧
      s.Carries k recipient id := by
  obtain ⟨k, recipient, t, hcarried, hid⟩ := hsound.mr hmr
  refine ⟨k, recipient, t, hcarried, hid, ?_⟩
  obtain ⟨o, ho, hsome⟩ := List.exists_of_findSome?_eq_some hcarried
  obtain ⟨⟨k', recipient', m', t'⟩, htext, hif⟩ := Option.bind_eq_some_iff.mp hsome
  dsimp only at hif
  split at hif
  · cases hif
    exact ⟨o, List.mem_reverse.mp ho, m', t, htext, hid⟩
  · cases hif

/-- An answer to what is in flight is that of the recipient. -/
theorem carries_of_acknowledges (hsound : s.Sound) {sender : Number} {mr : UInt8} {k : CallId}
    (h : s.acknowledges sender mr k = true) {id : ℕ} {t : Stored UserData}
    (hmr : s.mr[mr]? = some id) (ht : s.queue[id]? = some t) : t.recipient = sender ∧
    s.Carries k sender t.id := by
  obtain ⟨k', recipient, t', hcarried, -, hcarries⟩ := carries_of_mr hsound hmr
  unfold acknowledges at h
  rw [hmr, Option.bind_some, ht, hcarried] at h
  simp only [Option.isNone_some, Bool.false_or, Option.all_some, Bool.and_eq_true,
    decide_eq_true_eq] at h
  obtain ⟨rfl, rfl⟩ := h
  exact ⟨(hsound.text hcarries).2 t ht, (hsound.queue ht).1.symm ▸ hcarries⟩

/-- **One step.** -/
theorem keeps_step (coding : Coding UserData) (cfg : SmscConfig) (hsound : s.Sound)
    {e : Event UserData} (hanswers : s.answers e = true) :
    ((s.step coding cfg e).Sound ∧ Follows (Justified cfg s e) s (s.step coding cfg e)) ∧
      ∀ now, e = .tick now → ∀ (id : ℕ) (t : Stored UserData),
        (s.step coding cfg e).queue[id]? = some t → ¬ cfg.validityMs ≤ now - t.submittedMs := by
  cases e with
  | tick now =>
    obtain ⟨hkeeps, hexpires⟩ :=
      keeps_tick (J := Justified cfg s (.tick now)) cfg now (fun t h => .expired now t h) hsound
    refine ⟨hkeeps, fun now' heq => ?_⟩
    cases heq
    exact hexpires
  | hss id block balance now =>
    exact ⟨keeps_onHss coding s id block balance now hsound, fun _ h => nomatch h⟩
  | shortCodeReply code recipient text now =>
    exact ⟨keeps_sendText coding s code recipient text now hsound, fun _ h => nomatch h⟩
  | response code k branch now =>
    refine ⟨keeps_onResponse s code k branch now ?_ ?_ hsound, fun _ h => nomatch h⟩
    · rintro rfl id t mr id' t' hsent ht hinflight hmr ht'
      have hplace : s.inPlace k = true := hanswers
      obtain ⟨k', recipient, t'', hcarried, hid, -⟩ := carries_of_mr hsound hmr
      unfold inPlace at hplace
      rw [hsent, Option.all_some, ht, Option.bind_some, hinflight, Option.all_some, hcarried,
        Option.all_some] at hplace
      have hsame : t''.id = id := of_decide_eq_true hplace
      obtain ⟨recipient', hcarries⟩ := hsound.sent hsent
      refine .takenOver k branch now recipient' t' ?_
      rw [(hsound.queue ht').1, ← hid, hsame]
      exact hcarries
    · intro hcode id t hsent hid
      obtain ⟨recipient, hcarries⟩ := hsound.sent hsent
      exact .dropped code k branch now recipient t hcode (hid.symm ▸ hcarries)
  | request r now =>
    refine ⟨?_, fun _ h => nomatch h⟩
    have hrespond := (quiet_respond s).keeps (J := Justified cfg s (.request r now))
    refine (Keeps.trans hrespond ?_) hsound
    show Keeps _ s.respond (s.onRequest coding cfg r now)
    unfold onRequest
    dsimp only
    split
    · exact .refl _ _
    · have href : Quiet s.respond { s.respond with nextRef := nextReference s.respond.nextRef } :=
        { Quiet.refl s.respond with }
      exact href.keeps.trans (Keeps.foldl (fun s _ => keeps_store s _ now) _ _)
    · exact .refl _ _
    · exact keeps_sendText coding _ _ _ _ now
    · exact (quiet_checkAndStore _ _).keeps
    · exact ((quiet_mrNext _).trans (quiet_sendRp _ _ (fun _ => rfl) (fun _ => rfl) now)).keeps
    · exact .refl _ _
    · exact .refl _ _
    · exact (quiet_submit coding cfg _ _ _ _ now).keeps
    · rename_i sender mr k
      refine keeps_delivered _ mr now fun id t hmr ht => ?_
      obtain ⟨rfl, hcarries⟩ := carries_of_acknowledges hsound hanswers hmr ht
      exact .ack mr k now t hcarries
    · rename_i sender mr cause k
      refine keeps_refused _ mr cause now fun id t hmr ht => ?_
      obtain ⟨rfl, hcarries⟩ := carries_of_acknowledges hsound hanswers hmr ht
      exact .error mr cause k now t hcarries
    · exact keeps_retryFor _ _ now
    · exact .refl _ _
    · exact Keeps.foldl (fun s n => keeps_retryFor s n now) _ _
    · exact .refl _ _

theorem sound_new (seed : UInt64) : (new seed : Smsc UserData).Sound where
  queue h := by
    rw [new, Std.ExtTreeMap.getElem?_empty] at h
    cases h
  gone _ h := absurd h List.not_mem_nil
  once := List.nodup_nil
  mr h := by
    rw [new, Std.ExtTreeMap.getElem?_empty] at h
    cases h
  sent h := by
    rw [new, Std.ExtTreeMap.getElem?_empty] at h
    cases h
  text h := by
    obtain ⟨o, ho, -⟩ := h
    exact absurd ho List.not_mem_nil
  reportedOnce := List.nodup_nil
  reportedGone _ h := absurd h List.not_mem_nil

theorem sound_run (coding : Coding UserData) (cfg : SmscConfig) (hsound : s.Sound)
    {es : List (Event UserData)} (e : Event UserData)
    (h : answered coding cfg s (es ++ [e]) = true) : (s.run coding cfg es).Sound ∧
    (s.run coding cfg es).answers e = true := by
  unfold run
  induction es generalizing s with
  | nil =>
    rw [List.nil_append, answered, Bool.and_eq_true] at h
    exact ⟨hsound, h.1⟩
  | cons e' es ih =>
    rw [List.cons_append, answered, Bool.and_eq_true] at h
    exact ih (keeps_step coding cfg hsound h.1).1.1 h.2

/-- **The right text is acknowledged.**  In every run in which what comes under a reference is an
answer to the last text that was sent under it, a text is removed as delivered by an answer of its
own recipient to an RP-DATA that carried it or by a `202` to a `MESSAGE` that carried it; and
every text leaves once, with one report at most. -/
theorem texts_acknowledged (coding : Coding UserData) (cfg : SmscConfig) (seed : UInt64)
    {es : List (Event UserData)} {e : Event UserData}
    (h : answered coding cfg (new seed) (es ++ [e]) = true) :
    Settles cfg ((new seed).run coding cfg es) e
      (((new seed).run coding cfg es).step coding cfg e) := by
  obtain ⟨hsound, hanswers⟩ := sound_run coding cfg (sound_new seed) e h
  obtain ⟨⟨hsound', hfollows⟩, hexpires⟩ := keeps_step coding cfg hsound hanswers
  exact
    { removed := hfollows.gone
      kept := hfollows.kept
      once := ⟨hsound'.once, fun g hg => (hsound'.gone g hg).2⟩
      reported := ⟨hsound'.reportedOnce, hsound'.reportedGone⟩
      expires := hexpires }

/-! ### An acknowledgement from somewhere else -/

/-- Texts that fit in one part. -/
def shortTexts : Coding (List Char) where
  text := id
  splitText text _ := [text]
  binaryParts _ _ := []

def defaultConfig : SmscConfig where
  validityMs := 7 * 20 * 60 * 1000
  ratePerMin := 30

/-- A text is submitted with a report, and stored. -/
def oneText : List (Event (List Char)) :=
  [.request (.phone (some "+12145550100".toList)
    (.data 7 (.submit "+12145550142".toList "hi".toList true))) 0, .hss 1000002 [] [] 10]

/-- The Call-ID of the `MESSAGE` that carries it. -/
def oneCallId : CallId :=
  ((carried ((new 1).run shortTexts defaultConfig oneText).out 1).map (·.1)).getD 0

theorem texts_acknowledged_once :
    Settles defaultConfig ((new 1).run shortTexts defaultConfig oneText)
      (.request (.phone (some "+12145550142".toList) (.ack 1 oneCallId)) 20)
      (((new 1).run shortTexts defaultConfig oneText).step shortTexts defaultConfig
        (.request (.phone (some "+12145550142".toList) (.ack 1 oneCallId)) 20)) :=
  texts_acknowledged shortTexts defaultConfig 1 (by decide +kernel)

/-- A phone that has nothing to do with a text acknowledges it, and it is removed as delivered. -/
theorem not_texts_acknowledged :
    ¬ Settles defaultConfig ((new 1).run shortTexts defaultConfig oneText)
      (.request (.phone (some "+12145550199".toList) (.ack 1 0)) 20)
      (((new 1).run shortTexts defaultConfig oneText).step shortTexts defaultConfig
        (.request (.phone (some "+12145550199".toList) (.ack 1 0)) 20)) := by
  intro h
  obtain ⟨new', hnew, hjustified⟩ := h.removed
  have hbefore : ((new 1).run shortTexts defaultConfig oneText).gone = [] := by decide +kernel
  rw [hbefore, List.nil_append] at hnew
  have hgone : (((new 1).run shortTexts defaultConfig oneText).step shortTexts defaultConfig
      (.request (.phone (some "+12145550199".toList) (.ack 1 0)) 20)).gone.map
        (fun g => g.1.recipient) = ["+12145550142".toList] := by
    decide +kernel
  rw [hnew] at hgone
  obtain ⟨⟨t, why⟩, hg, hrecipient⟩ :=
    List.mem_map.mp (hgone ▸ List.mem_singleton_self "+12145550142".toList)
  have hreason : Justified _ _ _ t why := hjustified _ hg
  rw [hreason.recipient_of_ack] at hrecipient
  exact absurd hrecipient (by decide)

end EvansComputer.Tel.Smsc
