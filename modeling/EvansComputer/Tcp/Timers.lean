import EvansComputer.Tcp.SendRun

/-!
# No connection is left without a timer

A connection that waits for its peer --- for the answer to its SYN, for an
acknowledgment, for the window to open --- must have the retransmission timer
running, and one that waits to be forgotten must have the other.  `Timed` says
so of one block, and `timed_of_reachable` says it of every block a run can
reach.

The heart of the matter is the send loop.  It stops for one of three reasons:
everything has been sent, the peer's window is full, or its bound is used up.
The third never happens (`outputLoop_exit`).  In the first case something is
outstanding, or there was nothing to send; in the second either something is
outstanding or the window is closed, and then the timer is armed as a persist
timer.
-/

namespace EvansComputer.Tcp

open SerialNumber

namespace Tcb

variable {t : Tcb} {W : List Byte} {a n b : ℕ} {out : List Seg} {now : ℤ}

/-! ## The property -/

/-- The sender waits for its peer: sequence space is unacknowledged, data is
buffered, or a FIN is still to be sent or acknowledged. -/
def Waiting (t : Tcb) : Prop :=
  t.sndUna ≠ t.sndMax ∨ t.tx ≠ [] ∨ (t.finPending = true ∧ t.finAcked = false)

/-- Whatever the block waits for, a deadline ends the wait. -/
structure Timed (t : Tcb) : Prop where
  handshake : t.state = .synSent ∨ t.state = .synReceived → t.rtoDeadline.isSome = true
  sending : t.canSendData = true → t.Waiting → t.rtoDeadline.isSome = true
  time_wait : t.state = .timeWait → t.closeDeadline.isSome = true
  orphan : t.state = .finWait2 → t.userOpen = false → t.closeDeadline.isSome = true

/-- The part of `Timed` that is about the closing states. -/
structure CloseTimed (t : Tcb) : Prop where
  time_wait : t.state = .timeWait → t.closeDeadline.isSome = true
  orphan : t.state = .finWait2 → t.userOpen = false → t.closeDeadline.isSome = true

theorem Timed.closeTimed (h : Timed t) : CloseTimed t := ⟨h.time_wait, h.orphan⟩

/-- What `CloseTimed` reads. -/
def closeView (t : Tcb) : TcpState × Option ℤ × Bool := (t.state, t.closeDeadline, t.userOpen)

theorem CloseTimed.of_view {u : Tcb} (h : CloseTimed t) (hv : u.closeView = t.closeView) :
    CloseTimed u := by
  simp only [closeView, Prod.mk.injEq] at hv
  obtain ⟨h1, h2, h3⟩ := hv
  refine ⟨?_, ?_⟩
  · rw [h1, h2]
    exact h.time_wait
  · rw [h1, h2, h3]
    exact h.orphan

theorem timed_setClosed (t : Tcb) (err : Option NetError) : Timed (t.setClosed err) := by
  refine ⟨?_, ?_, ?_, ?_⟩
  · rintro (h | h) <;> exact absurd h (by simp [setClosed])
  · intro h
    exact absurd h (by simp [setClosed, canSendData])
  · intro h
    exact absurd h (by simp [setClosed])
  · intro h
    exact absurd h (by simp [setClosed])

/-! ## Why the send loop stops -/

/-- **The bound of the send loop is never what stops it.**  The loop ends because
the next round would send nothing, or because it has just sent the FIN. -/
theorem outputLoop_exit (fuel : ℕ) (now : ℤ) (out : List Seg) (probe sentAny : Bool)
    (hI : SendInv W t.sendView a n b) (hcan : t.canSendData = true) (hack : t.finAcked = false)
    (hfuel : t.tx.length < t.sendOffset + fuel) :
    (∃ p, (outputLoop fuel t now out probe sentAny).1.outputPlan p = none) ∨
      (outputLoop fuel t now out probe sentAny).1.finSeq ≠ none := by
  induction fuel generalizing t out probe sentAny n b with
  | zero =>
    refine Or.inl ⟨probe, ?_⟩
    rw [outputLoop, outputPlan]
    exact if_pos hfuel
  | succ fuel ih =>
    rw [outputLoop]
    split
    · rename_i hp
      exact Or.inl ⟨probe, hp⟩
    · rename_i o l f hp
      obtain ⟨hI', -⟩ := outputSend_inv now hI hcan hack hp
      split
      · rename_i hf
        exact Or.inr (by simp [outputSend, hf])
      · rename_i hf
        have hf : f = false := by simpa using hf
        obtain ⟨ho, hol, hpos, -⟩ := outputPlan_spec hI hp
        have hoff : t.sendOffset = n - a := sendOffset_eq hI
        have hoff' : (t.outputSend now o l f).1.sendOffset = n + l + f.toNat - a :=
          sendOffset_eq hI'
        have htx : (t.outputSend now o l f).1.tx = t.tx := rfl
        have hna := hI.una_le
        have hl : 0 < l := by
          rcases hpos with h | h
          · exact h
          · exact absurd (hf.symm.trans h) (by simp)
        refine ih _ false true hI' hcan hack ?_
        rw [hoff', htx]
        omega

/-- With nothing in flight, no room means a closed window. -/
theorem sndWnd_eq_zero_of_usable (hI : SendInv W t.sendView a n b) (heq : t.sndNxt = t.sndUna)
    {p : Bool} (hu : t.usable p = 0) : t.sndWnd = 0 := by
  have hw : t.sndWnd.toNat < 2 ^ 16 := hI.wnd_lt
  by_contra hne
  have hpos : 0 < t.sndWnd.toNat := by
    rcases Nat.eq_zero_or_pos t.sndWnd.toNat with h | h
    · exact absurd (BitVec.eq_of_toNat_eq (by simpa using h)) hne
    · exact h
  have hend : t.sndUna + t.sndWnd = advance t.sndUna t.sndWnd.toNat := by
    rw [advance, BitVec.ofNat_toNat, BitVec.setWidth_eq]
  have hlt : seqLt t.sndUna (advance t.sndUna t.sndWnd.toNat) = true := by
    have h := seqLt_advance (b := t.sndUna) (m := 0) (n := t.sndWnd.toNat) (by omega) (by omega)
    rw [advance_zero] at h
    rw [h]
    exact decide_eq_true hpos
  have hdist : (advance t.sndUna t.sndWnd.toNat - t.sndUna).toNat = t.sndWnd.toNat :=
    toNat_advance_sub_self (by omega)
  simp only [usable, heq, hend, hlt, if_true, hdist] at hu
  split at hu <;> omega

/-- **After the send loop a waiting sender has its timer.** -/
theorem armRto_isSome (now : ℤ) (hI : SendInv W t.sendView a n b) (hcan : t.canSendData = true)
    (hack : t.finAcked = false)
    (hexit : (∃ p, t.outputPlan p = none) ∨ t.finSeq ≠ none) (hw : t.Waiting) :
    (t.armRto now).rtoDeadline.isSome = true := by
  have hst : t.state ≠ .closed ∧ t.state ≠ .synSent ∧ t.state ≠ .synReceived := by
    refine ⟨?_, ?_, ?_⟩ <;> intro h <;> simp [canSendData, h] at hcan
  have hS : Streaming W t.sendView a b := hI.streaming hst.1 hst.2.1 hst.2.2
  have harm : t.sndUna ≠ t.sndMax ∨ (t.sndWnd = 0 ∧ t.dataInFlight < t.tx.length) →
      (t.armRto now).rtoDeadline.isSome = true := by
    intro h
    have hor : (t.sndUna != t.sndMax || (t.sndWnd == 0 && decide (t.dataInFlight < t.tx.length)))
        = true := by
      rcases h with h | ⟨h1, h2⟩
      · simp [h]
      · simp [h1, h2]
    simp only [armRto, hor, Bool.true_and]
    split
    · rfl
    · rename_i hsome
      simpa [Option.isNone_iff_eq_none, Option.isSome_iff_ne_none] using hsome
  by_cases hout : t.sndUna = t.sndMax
  swap
  · exact harm (Or.inl hout)
  refine harm (Or.inr ?_)
  have h1 : t.sndUna = advance t.iss a := hI.una_eq
  have h2 : t.sndNxt = advance t.iss n := hI.nxt_eq
  have h3 : t.sndMax = advance t.iss b := hI.max_eq
  have hna := hI.una_le
  have hnb := hI.nxt_le
  have hspan := hI.span
  have hcap : txCap < 2 ^ 30 := by decide
  have hab : a = b := by
    rw [h1, h3] at hout
    exact (advance_inj (by omega) (by omega)).mp hout
  have hn : n = a := by omega
  have hup : a + t.tx.length = 1 + W.length := by simpa [sendView, hack] using hS.una_pos
  have heq : t.sndNxt = t.sndUna := by rw [h1, h2, hn]
  have hoff : t.sendOffset = 0 := by rw [sendOffset_eq hI]; omega
  -- the FIN would be outstanding
  have hfs : t.finSeq = none := by
    by_contra hne
    obtain ⟨f, hf⟩ := Option.ne_none_iff_exists'.mp hne
    have := (hS.max_fin f hf).2
    omega
  obtain ⟨p, hp⟩ : ∃ p, t.outputPlan p = none := hexit.resolve_right (fun h => h hfs)
  rw [outputPlan, hoff, if_neg (by omega)] at hp
  obtain ⟨hlen, hfin⟩ : t.sendLen p = 0 ∧ t.finNow p = false := by
    by_contra hcon
    rw [if_neg hcon] at hp
    exact absurd hp (by simp)
  have htx : t.tx ≠ [] := by
    intro hnil
    rcases hw with h | h | ⟨hp1, -⟩
    · exact h hout
    · exact h hnil
    · simp [finNow, hp1, hfs, hoff, hlen, hnil] at hfin
  have hpos : 0 < t.tx.length := List.length_pos_iff.mpr htx
  have hmss : 0 < t.sndMss := hI.mss_pos
  have hu : t.usable p = 0 := by
    simp only [sendLen, hoff] at hlen
    omega
  refine ⟨sndWnd_eq_zero_of_usable hI heq hu, ?_⟩
  rw [dataInFlight, heq]
  simpa using hpos

/-! ## Output -/

theorem rtoDeadline_sendAck (t : Tcb) (out : List Seg) :
    (t.sendAck out).1.rtoDeadline = t.rtoDeadline := rfl

theorem waiting_sendAck {t : Tcb} {out : List Seg} : (t.sendAck out).1.Waiting ↔ t.Waiting :=
  Iff.rfl

theorem waiting_armRto {t : Tcb} : (t.armRto now).Waiting ↔ t.Waiting := by
  rw [armRto]
  split <;> exact Iff.rfl

/-- **`output` leaves the block timed**, whatever the timer was before it in a
state that sends data. -/
theorem timed_output (hO : SendOk W t a n b) (hc : CloseTimed t)
    (hs : t.state = .synSent ∨ t.state = .synReceived → t.rtoDeadline.isSome = true)
    (forceAck probe : Bool) : Timed (t.output now out forceAck probe).1 := by
  have hframe := withoutSend_output t out now forceAck probe
  have hc' := hc.of_view (eq_of_withoutSend closeView (fun _ => rfl) hframe)
  have hst := eq_of_withoutSend Tcb.state (fun _ => rfl) hframe
  refine ⟨?_, ?_, hc'.time_wait, hc'.orphan⟩
  · intro h
    rw [hst] at h
    have hcan : t.canSendData = false := by
      rcases h with h | h <;> simp [canSendData, h]
    rw [output, if_neg (by simp [hcan])]
    split
    · exact hs h
    · exact hs h
  · intro hcan' hw
    have hcan : t.canSendData = true := by
      rw [canSendData, hst] at hcan'
      exact hcan'
    have hack := hO.finAcked_eq_false hcan
    have hexit := outputLoop_exit (t.tx.length + 1) now out probe false hO.inv hcan hack (by omega)
    obtain ⟨n', b', -, hI', -, hst', hack', -⟩ :=
      outputLoop_inv (t.tx.length + 1) now out probe false hO.inv hcan hack
    have hcan'' : (outputLoop (t.tx.length + 1) t now out probe false).1.canSendData = true := by
      rw [canSendData, hst']
      exact hcan
    have harm := armRto_isSome now hI' hcan'' (hack'.trans hack) hexit
    rw [output, if_pos hcan] at hw ⊢
    simp only at hw ⊢
    split at hw
    · rename_i hforce
      rw [if_pos hforce, rtoDeadline_sendAck]
      exact harm (waiting_armRto.mp (waiting_sendAck.mp hw))
    · rename_i hforce
      rw [if_neg hforce]
      exact harm (waiting_armRto.mp hw)

/-! ## Segments -/

theorem Timed.sendAck (h : Timed t) : Timed (t.sendAck out).1 :=
  ⟨h.handshake, h.sending, h.time_wait, h.orphan⟩

theorem Timed.sendSyn (h : Timed t) : Timed (t.sendSyn out).1 :=
  ⟨h.handshake, h.sending, h.time_wait, h.orphan⟩

/-- In TIME_WAIT the deadline may be moved, not removed. -/
theorem Timed.refreshTimeWait (h : Timed t) (hd : TcpHeader) (now : ℤ) :
    Timed (t.refreshTimeWait hd now) := by
  rw [Tcb.refreshTimeWait]
  split
  · exact ⟨h.handshake, h.sending, fun _ => rfl, fun _ _ => rfl⟩
  · exact h

theorem CloseTimed.refreshTimeWait (h : CloseTimed t) (hd : TcpHeader) (now : ℤ) :
    CloseTimed (t.refreshTimeWait hd now) := by
  rw [Tcb.refreshTimeWait]
  split
  · exact ⟨fun _ => rfl, fun _ _ => rfl⟩
  · exact h

theorem closeTimed_enterTimeWait (t : Tcb) (now : ℤ) : CloseTimed (t.enterTimeWait now) :=
  ⟨fun _ => rfl, fun _ _ => rfl⟩

theorem closeTimed_enterFinWait2 (t : Tcb) (now : ℤ) : CloseTimed (t.enterFinWait2 now) := by
  refine ⟨fun h => absurd h (by simp [enterFinWait2]), fun _ hopen => ?_⟩
  have hopen' : t.userOpen = false := hopen
  simp [enterFinWait2, hopen']

/-- In any other state there is no closing deadline to miss. -/
theorem closeTimed_of_state (h1 : t.state ≠ .timeWait) (h2 : t.state ≠ .finWait2) :
    CloseTimed t :=
  ⟨fun h => absurd h h1, fun h => absurd h h2⟩

/-- Where the method returns the block is timed; where it goes on, output is still
to come, and only the closing deadlines matter. -/
def FlowTimed : Flow → Prop
  | .stop t _ => Timed t
  | .next t _ => CloseTimed t

theorem flowTimed_processAck (h : TcpHeader) (payload : List Byte) (now : ℤ) (out : List Seg)
    (hT : Timed t) :
    FlowTimed (t.processAck h payload now out) := by
  by_cases hs : t.state = .synReceived
  · rw [processAck, if_pos hs, ackSynReceived]
    split
    · exact closeTimed_of_state (by simp) (by simp)
    · exact hT
  · have hframe := withoutSend_processAck t out h payload now hs
    rw [processAck, if_neg hs] at hframe ⊢
    split_ifs at hframe ⊢
    · exact hT.sendAck
    · exact hT.closeTimed.of_view (eq_of_withoutSend closeView (fun _ => rfl) hframe)
    · exact hT.closeTimed.of_view (eq_of_withoutSend closeView (fun _ => rfl) hframe)
    · exact hT.closeTimed.of_view (eq_of_withoutSend closeView (fun _ => rfl) hframe)

theorem flowTimed_checkFinAcked (now : ℤ) (out : List Seg) (hC : CloseTimed t) :
    FlowTimed (t.checkFinAcked now out) := by
  rw [checkFinAcked]
  split
  · split
    · exact closeTimed_enterFinWait2 t now
    · exact closeTimed_enterTimeWait t now
    · exact timed_setClosed t none
    · exact hC
  · exact hC

theorem closeTimed_processFin (hC : CloseTimed t) : CloseTimed (t.processFin now) := by
  simp only [processFin]
  split
  · split
    · exact closeTimed_of_state (by simp) (by simp)
    · split
      · exact closeTimed_enterTimeWait _ now
      · exact closeTimed_of_state (by simp) (by simp)
    · exact closeTimed_enterTimeWait _ now
    · exact hC.of_view rfl
  · exact hC

theorem timed_deliver {h : TcpHeader} {payload : List Byte} (hO : SendOk W t a n b)
    (hsync : t.synchronized = true) (hC : CloseTimed t) :
    Timed (t.deliver h payload now out).1 := by
  have hO' : SendOk W (t.delivered h payload now) a n b := sendOk_delivered hO hsync
  have hC1 : CloseTimed (t.processData h payload).1 :=
    hC.of_view (eq_of_withoutReceive closeView (fun _ => rfl)
      (withoutReceive_processData t h payload))
  have hC' : CloseTimed (t.delivered h payload now) :=
    (closeTimed_processFin hC1).refreshTimeWait h now
  refine timed_output hO' hC' ?_ _ false
  intro hs
  have hsync' : (t.delivered h payload now).synchronized = true := synchronized_delivered hsync
  obtain ⟨-, -, h1, h2⟩ := synchronized_iff.mp hsync'
  rcases hs with hs | hs
  · exact absurd hs h1
  · exact absurd hs h2

/-- **A segment past `SynSent` leaves the block timed**, at every return. -/
theorem timed_onSynchronized {h : TcpHeader} {payload : List Byte} (hO : SendOk W t a n b)
    (hT : Timed t) (h0 : t.state ≠ .closed) (hl : t.state ≠ .listen) (h1 : t.state ≠ .synSent) :
    Timed (t.onSynchronized h payload now out).1 := by
  rw [onSynchronized]
  split
  · exact hT.sendSyn
  split
  · split
    · exact hT
    · exact (hT.refreshTimeWait h now).sendAck
  split
  · split
    · exact hT.sendAck
    · exact timed_setClosed t _
  split
  · exact hT.sendAck
  split
  · exact hT
  have hA := acked_processAck h payload now out hO h0 hl h1
  have hF := flowTimed_processAck h payload now out hT
  generalize t.processAck h payload now out = flow at hA hF
  cases flow with
  | stop t' out' => exact hF
  | next t' out' =>
    obtain ⟨a', n', new, hA', -⟩ := hA
    have hC := checked_checkFinAcked now out' hA'
    have hF' := flowTimed_checkFinAcked now out' hF
    simp only
    generalize t'.checkFinAcked now out' = flow at hC hF'
    cases flow with
    | stop t'' out'' => exact hF'
    | next t'' out'' =>
      obtain ⟨⟨n'', hO''⟩, -, -, hsync⟩ := hC
      exact timed_deliver hO'' hsync hF'

theorem timed_onSynSent {h : TcpHeader} (hO : SendOk W t a n b) (hT : Timed t)
    (hs : t.state = .synSent) : Timed (t.onSynSent h now out).1 := by
  obtain ⟨rfl, rfl, rfl, -⟩ := hO.inv.handshake (Or.inl hs)
  have hmax : t.sndMax = advance t.iss 1 := hO.inv.max_eq
  simp only [onSynSent]
  split
  · split <;> exact hT
  split
  · split
    · exact timed_setClosed t _
    · exact hT
  split
  · exact hT
  split
  · rename_i hack
    rw [Bool.and_eq_true, Bool.and_eq_true, hmax] at hack
    have hpos := ack_eq_of_handshake hack.1.2 hack.2
    refine timed_output (W := W) (a := 1) (n := 1) (b := 1) ?_
      (closeTimed_of_state (by simp) (by simp)) ?_ true false
    · exact sendOk_established hO (Or.inl hs) rfl hpos (toNat_ofNat_window h.window)
        (Nat.lt_of_lt_of_le (by omega) (le_clampMss h.mss)) rfl
    · rintro (h | h) <;> exact absurd h (by simp)
  · refine ⟨fun _ => rfl, fun _ _ => rfl, ?_, ?_⟩
    · intro h
      exact absurd h (by simp [sendSyn, advWindow])
    · intro h
      exact absurd h (by simp [sendSyn, advWindow])

/-! ## Timers and calls -/

theorem Timed.rtoRearm {persist : Bool} (h : Timed t) : Timed (t.rtoRearm now persist) := by
  rw [Tcb.rtoRearm]
  split
  · exact ⟨fun _ => rfl, fun _ _ => rfl, h.time_wait, h.orphan⟩
  · exact h

/-- The rearming at the end of a timeout covers the handshake, and `output` the
states that send data. -/
theorem timed_rtoResend {persist : Bool} (hO : SendOk W t a n b) (hC : CloseTimed t) :
    Timed ((t.rtoResend now out).1.rtoRearm now persist) := by
  rw [rtoResend]
  split
  · rename_i hs
    obtain ⟨rfl, rfl, rfl, -⟩ := hO.inv.handshake hs
    have hne : t.sndUna ≠ t.sndMax := by
      have h1 : t.sndUna = advance t.iss 0 := hO.inv.una_eq
      have h2 : t.sndMax = advance t.iss 1 := hO.inv.max_eq
      rw [h1, h2, Ne, advance_inj (by omega) (by omega)]
      omega
    have hncl : t.state ≠ .closed := by
      rcases hs with hs | hs <;> simp [hs]
    have hcan : t.canSendData = false := by
      rcases hs with hs | hs <;> simp [canSendData, hs]
    cases hd : t.rtoDeadline with
    | none =>
      simp only [Tcb.rtoRearm, Tcb.sendSyn, advWindow, hd, Option.isNone_none, Bool.true_and]
      rw [if_pos (by simp [hncl, hne])]
      exact ⟨fun _ => rfl, fun _ _ => rfl, hC.time_wait, hC.orphan⟩
    | some d =>
      refine Timed.rtoRearm ⟨fun _ => ?_, fun h => ?_, hC.time_wait, hC.orphan⟩
      · exact congrArg Option.isSome hd
      · exact absurd (hcan.symm.trans h) (by simp)
  · rename_i hs
    split
    · have hO' := sendOk_rewind hO hs
      exact (timed_output hO' ⟨hC.time_wait, hC.orphan⟩ (fun h => absurd h hs) false true).rtoRearm
    · rename_i hcan
      exact Timed.rtoRearm ⟨fun h => absurd h hs, fun h => absurd h hcan, hC.time_wait, hC.orphan⟩

theorem timed_onTimer (hO : SendOk W t a n b) (hT : Timed t) : Timed (t.onTimer now out).1 := by
  rw [onTimer]
  split
  · exact timed_setClosed t none
  split
  · simp only [onRto]
    have hv := sendView_countRetry { t with rtoDeadline := none }
    have hO1 : SendOk W { t with rtoDeadline := none }.countRetry a n b :=
      (hO.of_view rfl).of_view hv
    have hC1 : CloseTimed { t with rtoDeadline := none }.countRetry :=
      hT.closeTimed.of_view (eq_of_withoutSend closeView (fun _ => rfl)
        (withoutSend_countRetry { t with rtoDeadline := none }))
    split
    · exact timed_setClosed _ _
    · exact timed_rtoResend (hO1.of_view rfl) (hC1.of_view rfl)
  · exact hT

theorem timed_shutdownWrite (hO : SendOk W t a n b) (hT : Timed t) :
    Timed (t.shutdownWrite now out).1 := by
  rw [shutdownWrite]
  split
  · refine timed_output (sendOk_finPending hO (Or.inl rfl) (Or.inl (by assumption)))
      (closeTimed_of_state (by simp) (by simp)) ?_ false false
    rintro (h | h) <;> exact absurd h (by simp)
  · refine timed_output (sendOk_finPending hO (Or.inr rfl) (Or.inr (by assumption)))
      (closeTimed_of_state (by simp) (by simp)) ?_ false false
    rintro (h | h) <;> exact absurd h (by simp)
  · exact hT

theorem timed_close (hO : SendOk W t a n b) (hT : Timed t) :
    Timed (t.close now out).1 := by
  have hO' : SendOk W { t with userOpen := false, discardRx := true, rx := [] } a n b :=
    hO.of_view rfl
  -- outside `FinWait2` closing the handle asks for no deadline
  have hT' : t.state ≠ .finWait2 →
      Timed { t with userOpen := false, discardRx := true, rx := [] } :=
    fun h => ⟨hT.handshake, hT.sending, hT.time_wait, fun hs => absurd hs h⟩
  simp only [close]
  split
  · exact hT' (by simp_all)
  · exact hT' (by simp_all)
  · exact hT' (by simp_all)
  · exact hT' (by simp_all)
  · exact timed_shutdownWrite hO' (hT' (by simp_all))
  · exact timed_shutdownWrite hO' (hT' (by simp_all))
  · rename_i hs
    refine ⟨?_, ?_, ?_, fun _ _ => rfl⟩
    · rintro (h | h) <;> exact absurd (hs.symm.trans h) (by simp)
    · intro h
      have hs' : t.state = .finWait2 := hs
      exact absurd h (by simp [canSendData, hs'])
    · intro h
      exact absurd (hs.symm.trans h) (by simp)
  · exact hT' (by assumption)

theorem Timed.read (hT : Timed t) (cap : ℕ) : Timed (t.read cap out).1 := by
  have hT' : Timed { t with rx := t.rx.drop (min cap t.rx.length) } :=
    ⟨hT.handshake, hT.sending, hT.time_wait, hT.orphan⟩
  simp only [Tcb.read]
  split
  · split
    · exact ⟨hT'.handshake, hT'.sending, hT'.time_wait, hT'.orphan⟩
    · exact hT'
  · exact hT'

/-! ## Every reachable block -/

theorem timed_step (hO : SendOk W t a n b) (hT : Timed t) (c : Call) : Timed (t.step c).1 := by
  cases c with
  | write data now =>
    rw [step]
    split
    · rename_i hmay
      refine timed_output (n := n) (sendOk_queue hO hmay (data.take (min data.length t.txSpace)) ?_)
        ⟨hT.time_wait, hT.orphan⟩ hT.handshake false false
      rw [List.length_take]
      omega
    · exact hT
  | read cap => exact hT.read cap
  | shutdownWrite now => exact timed_shutdownWrite hO hT
  | close now => exact timed_close hO hT
  | abort => exact timed_setClosed _ _
  | fail err => exact timed_setClosed _ _
  | onUnreachable =>
    rw [step, onUnreachable]
    split
    · exact timed_setClosed _ _
    · exact hT
  | accept =>
    exact ⟨hT.handshake, hT.sending, hT.time_wait, fun _ h => absurd h (by simp [step])⟩
  | onTimer now => exact timed_onTimer hO hT
  | onSegment h payload now =>
    simp only [step, onSegment]
    split
    · exact hT
    · exact hT
    · exact timed_onSynSent hO hT (by assumption)
    · rename_i h0 hl h1
      exact timed_onSynchronized hO hT h0 hl h1

theorem Reachable.timed (h : Reachable t) : Timed t := by
  induction h with
  | init h =>
    cases h with
    | connect localAddr remote iss now =>
      have hC := closeTimed_of_state (t := (newConnect localAddr remote iss now []).1)
        (show TcpState.synSent ≠ _ by simp) (show TcpState.synSent ≠ _ by simp)
      exact ⟨fun _ => rfl, fun _ _ => rfl, hC.time_wait, hC.orphan⟩
    | passive localAddr remote iss syn now =>
      have hC := closeTimed_of_state (t := (newPassive localAddr remote iss syn now []).1)
        (show TcpState.synReceived ≠ _ by simp) (show TcpState.synReceived ≠ _ by simp)
      exact ⟨fun _ => rfl, fun _ _ => rfl, hC.time_wait, hC.orphan⟩
  | step c hr ih =>
    obtain ⟨W, a, n, b, hO⟩ := Reachable.sendOk hr
    exact timed_step hO ih c

theorem nextDeadline_isSome (h : t.rtoDeadline.isSome = true ∨ t.closeDeadline.isSome = true) :
    t.nextDeadline.isSome = true := by
  rw [nextDeadline]
  cases hr : t.rtoDeadline <;> cases hc : t.closeDeadline <;> simp_all

/-- The user has let go of the block and it has not finished closing. -/
def Orphaned (t : Tcb) : Prop :=
  t.userOpen = false ∧ t.synchronized = true ∧ t.state ≠ .established ∧ t.state ≠ .closeWait

/-- **No connection is left without a timer.**  Along every run --- any calls, any
segments, any clock --- a connection in its handshake and a sender that waits for
its peer have the retransmission timer armed, and TIME_WAIT and an orphaned
FIN_WAIT_2 have their closing deadline.  So a connection that waits, and one that
its user has closed, has a next deadline. -/
theorem timed_of_reachable (h : Reachable t) :
    Timed t ∧
      (t.state = .synSent ∨ t.state = .synReceived ∨ (t.canSendData = true ∧ t.Waiting) ∨
        t.Orphaned → t.nextDeadline.isSome = true) := by
  have hT := h.timed
  refine ⟨hT, ?_⟩
  rintro (hs | hs | ⟨hcan, hw⟩ | ⟨hopen, hsync, h1, h2⟩)
  · exact nextDeadline_isSome (Or.inl (hT.handshake (Or.inl hs)))
  · exact nextDeadline_isSome (Or.inl (hT.handshake (Or.inr hs)))
  · exact nextDeadline_isSome (Or.inl (hT.sending hcan hw))
  · obtain ⟨W, a, n, b, hO⟩ := Reachable.sendOk h
    by_cases hcan : t.canSendData = true
    · -- a FIN is pending and not acknowledged
      have hpend : t.finPending = true := (hO.fin_state hsync).mpr ⟨h1, h2⟩
      have hw : t.Waiting := Or.inr (Or.inr ⟨hpend, hO.finAcked_eq_false hcan⟩)
      exact nextDeadline_isSome (Or.inl (hT.sending hcan hw))
    · refine nextDeadline_isSome (Or.inr ?_)
      have hst : t.state = .finWait2 ∨ t.state = .timeWait := by
        cases hs : t.state <;> simp_all [canSendData, synchronized]
      rcases hst with hst | hst
      · exact hT.orphan hst hopen
      · exact hT.time_wait hst

/-- The window-limited connection: data is waiting and the timer is armed. -/
theorem timed_of_reachable_windowLimited :
    Reachable SendTrace.windowLimited.tcb ∧ SendTrace.windowLimited.tcb.canSendData = true ∧
      SendTrace.windowLimited.tcb.Waiting ∧ Timed SendTrace.windowLimited.tcb := by
  have hr : Reachable SendTrace.windowLimited.tcb :=
    Reachable.step _ (Reachable.step _ (Reachable.init (Initial.connect _ _ _ _)))
  exact ⟨hr, by decide, Or.inr (Or.inl (by decide)), (timed_of_reachable hr).1⟩

end EvansComputer.Tcp.Tcb
