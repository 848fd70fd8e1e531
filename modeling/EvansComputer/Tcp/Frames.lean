import EvansComputer.Tcp.Step

/-!
# What each half of the connection leaves alone

The state machine has a sending half and a receiving half, and most methods
belong to one of them.  `withoutReceive` blanks the fields only the receiving
half writes, `withoutSend` those only the sending half writes; a method of one
half is invisible after its own fields have been blanked.  Whatever a later file
reads off the block --- the send space, the receive window, the deadlines --- is
a function of one of the two, so its frame facts are instances of the lemmas
below.
-/

namespace EvansComputer.Tcp.Tcb

variable (t : Tcb) (out : List Seg) (h : TcpHeader) (payload : List Byte) (now : ℤ)

/-! ## The receiving half -/

/-- The block without the fields that reassembly writes. -/
def withoutReceive (t : Tcb) : Tcb :=
  { t with rcvNxt := 0, rx := [], ooo := [], rxFinSeq := none }

/-- What the receiving half does not write can be read off the rest. -/
theorem eq_of_withoutReceive {β : Type*} {u t : Tcb} (f : Tcb → β)
    (hf : ∀ x : Tcb, f x.withoutReceive = f x) (h : u.withoutReceive = t.withoutReceive) :
    f u = f t := by
  rw [← hf u, h, hf t]

@[simp] theorem withoutReceive_drainLoop (fuel : ℕ) :
    (drainLoop fuel t).withoutReceive = t.withoutReceive := by
  induction fuel generalizing t with
  | zero => rfl
  | succ fuel ih =>
    rw [drainLoop]
    split
    · rfl
    · split
      · rfl
      · rw [ih]
        split <;> rfl

@[simp] theorem withoutReceive_bufferData (seq : Seq) :
    (t.bufferData seq payload).withoutReceive = t.withoutReceive := by
  simp only [bufferData]
  split
  · rfl
  · split
    · rfl
    · split
      · rw [drainOoo, withoutReceive_drainLoop]
        rfl
      · split <;> rfl

@[simp] theorem withoutReceive_acceptData (seq : Seq) :
    (t.acceptData seq payload).withoutReceive = t.withoutReceive := by
  simp only [acceptData]
  split
  · split
    · rfl
    · exact withoutReceive_bufferData _ _ _
  · exact withoutReceive_bufferData _ _ _

@[simp] theorem withoutReceive_noteFin :
    (t.noteFin h payload).withoutReceive = t.withoutReceive := by
  simp only [noteFin]
  split <;> rfl

/-- Step 5 writes the receiving half only. -/
@[simp] theorem withoutReceive_processData :
    (t.processData h payload).1.withoutReceive = t.withoutReceive := by
  simp only [processData]
  split
  · rw [withoutReceive_noteFin, takePayload]
    split
    · rfl
    · exact withoutReceive_acceptData _ _ _
  · rfl

/-! ## The sending half -/

/-- The block without the fields that output, retransmission and acknowledgment
write. -/
def withoutSend (t : Tcb) : Tcb :=
  { t with
    sndUna := 0
    sndNxt := 0
    sndMax := 0
    sndWnd := 0
    sndWl1 := 0
    sndWl2 := 0
    tx := []
    finSeq := none
    finAcked := false
    lastAdvWnd := 0
    rto := 0
    srtt := none
    rttvar := 0
    rttProbe := none
    rtoDeadline := none
    retries := 0
    dupacks := 0
    retransmits := 0 }

/-- What the sending half does not write can be read off the rest. -/
theorem eq_of_withoutSend {β : Type*} {u t : Tcb} (f : Tcb → β)
    (hf : ∀ x : Tcb, f x.withoutSend = f x) (h : u.withoutSend = t.withoutSend) : f u = f t := by
  rw [← hf u, h, hf t]

@[simp] theorem withoutSend_sendAck : (t.sendAck out).1.withoutSend = t.withoutSend := rfl

@[simp] theorem withoutSend_armRto : (t.armRto now).withoutSend = t.withoutSend := by
  simp only [armRto]
  split <;> rfl

@[simp] theorem withoutSend_outputLoop (fuel : ℕ) (probe sentAny : Bool) :
    (outputLoop fuel t now out probe sentAny).1.withoutSend = t.withoutSend := by
  induction fuel generalizing t out probe sentAny with
  | zero => rfl
  | succ fuel ih =>
    rw [outputLoop]
    split
    · rfl
    · split
      · rfl
      · rw [ih]
        rfl

@[simp] theorem withoutSend_output (forceAck probe : Bool) :
    (t.output now out forceAck probe).1.withoutSend = t.withoutSend := by
  rw [output]
  split
  · simp only
    split
    · rw [withoutSend_sendAck, withoutSend_armRto, withoutSend_outputLoop]
    · rw [withoutSend_armRto, withoutSend_outputLoop]
  · split <;> rfl

@[simp] theorem withoutSend_retransmitFirst :
    (t.retransmitFirst out).1.withoutSend = t.withoutSend := by
  simp only [retransmitFirst]
  split <;> rfl

@[simp] theorem withoutSend_ackRepeat :
    (t.ackRepeat h payload out).1.withoutSend = t.withoutSend := by
  have halive : ∀ u : Tcb, (u.peerAlive h).withoutSend = u.withoutSend := by
    intro u
    rw [peerAlive]
    split <;> rfl
  simp only [ackRepeat, halive]
  split
  · simp only [countDupAck]
    split
    · rw [withoutSend_retransmitFirst]
      rfl
    · rfl
  · rfl

@[simp] theorem withoutSend_updateWindow : (t.updateWindow h).withoutSend = t.withoutSend := by
  rw [updateWindow]
  split <;> rfl

@[simp] theorem withoutSend_ackAdvance (ack : Seq) :
    (t.ackAdvance ack now).withoutSend = t.withoutSend := by
  have hrtt : ∀ u : Tcb, (u.sampleRtt ack now).withoutSend = u.withoutSend := by
    intro u
    rw [sampleRtt]
    split
    · split <;> rfl
    · rfl
  exact hrtt (t.ackTx ack)

/-- What step 4 leaves alone, past the handshake. -/
theorem withoutSend_processAck (hs : t.state ≠ .synReceived) :
    match t.processAck h payload now out with
    | .stop u _ => u.withoutSend = t.withoutSend
    | .next u _ => u.withoutSend = t.withoutSend := by
  rw [processAck, if_neg hs]
  split_ifs
  · exact withoutSend_sendAck t out
  · simp only
    rw [withoutSend_updateWindow, withoutSend_ackAdvance]
  · simp only
    rw [withoutSend_updateWindow, withoutSend_ackRepeat]
  · exact withoutSend_updateWindow t h

/-- A timeout, as long as it does not close the connection. -/
theorem withoutSend_rtoResend : (t.rtoResend now out).1.withoutSend = t.withoutSend := by
  rw [rtoResend]
  split
  · rfl
  · split
    · rw [withoutSend_output]
      rfl
    · rfl

theorem withoutSend_rtoRearm (persist : Bool) :
    (t.rtoRearm now persist).withoutSend = t.withoutSend := by
  rw [rtoRearm]
  split <;> rfl

theorem withoutSend_countRetry : t.countRetry.withoutSend = t.withoutSend := by
  rw [countRetry]
  split <;> rfl

/-- The timer closes the connection or works on the sending half. -/
theorem withoutSend_onTimer :
    (∃ (u : Tcb) (err : Option NetError), (t.onTimer now out).1 = u.setClosed err ∧
      u.withoutSend = t.withoutSend) ∨
      (t.onTimer now out).1.withoutSend = t.withoutSend := by
  rw [onTimer]
  split
  · exact Or.inl ⟨t, none, rfl, rfl⟩
  · split
    · simp only [onRto]
      split
      · refine Or.inl ⟨_, _, rfl, ?_⟩
        rw [withoutSend_countRetry]
        rfl
      · refine Or.inr ?_
        rw [withoutSend_rtoRearm, withoutSend_rtoResend]
        exact withoutSend_countRetry { t with rtoDeadline := none }
    · exact Or.inr rfl

end EvansComputer.Tcp.Tcb
