import EvansComputer.Tcp.SendSpace

/-!
# Every event keeps the sender in its place

`Tcp.SendSpace` says where the sender's variables stand in the stream and that
the send loop respects it.  Here the rest of the state machine is gone through,
method by method: whatever the event, the positions only move forward, and every
segment emitted is honest (`step_sendOk`).

One emitter is different.  `retransmit_first` sends from `snd_una` up to a full
segment of `tx`, whether or not those bytes have been sent before, and does not
move `snd_max`.  Its segment carries the right bytes, but it may end beyond
`snd_max`; the clause `FastRetransmitSafe` below is exactly what is missing.
-/

namespace EvansComputer.Tcp

open SerialNumber

namespace Tcb

variable {t : Tcb} {W : List Byte} {a n b : ℕ}

variable {u : Tcb} {h : TcpHeader}

theorem synchronized_iff : t.synchronized = true ↔
    t.state ≠ .closed ∧ t.state ≠ .listen ∧ t.state ≠ .synSent ∧ t.state ≠ .synReceived := by
  rw [synchronized]
  cases t.state <;> simp

/-! ## Between events -/

/-- What holds between events besides the positions: past the handshake a FIN is
pending exactly in the states that accept no more data, and an acknowledged FIN
shows in the state. -/
structure SendOk (W : List Byte) (t : Tcb) (a n b : ℕ) : Prop where
  inv : SendInv W t.sendView a n b
  fin_state : t.synchronized = true →
    (t.finPending = true ↔ t.state ≠ .established ∧ t.state ≠ .closeWait)
  acked_state : t.state ≠ .closed →
    (t.finAcked = true ↔ t.state = .finWait2 ∨ t.state = .timeWait)

theorem SendOk.of_view (h : SendOk W t a n b) (hv : u.sendView = t.sendView) :
    SendOk W u a n b := by
  have h1 : u.state = t.state := congrArg SendView.state hv
  have h2 : u.finPending = t.finPending := congrArg SendView.finPending hv
  have h3 : u.finAcked = t.finAcked := congrArg SendView.finAcked hv
  refine ⟨by rw [hv]; exact h.inv, ?_, ?_⟩
  · rw [synchronized, h1, h2]
    exact h.fin_state
  · rw [h1, h3]
    exact h.acked_state

theorem SendOk.finAcked_eq_false (h : SendOk W t a n b) (hcan : t.canSendData = true) :
    t.finAcked = false := by
  have hne : t.state ≠ .closed := by
    intro hs
    simp [canSendData, hs] at hcan
  by_contra hcon
  rcases (h.acked_state hne).mp (by simpa using hcon) with hs | hs <;>
    simp [canSendData, hs] at hcan

/-- A block that closes stays where it is. -/
theorem SendOk.setClosed (h : SendInv W t.sendView a n b) (err : Option NetError) :
    SendOk W (t.setClosed err) a n b := by
  refine ⟨⟨h.una_eq, h.nxt_eq, h.max_eq, h.una_le, h.nxt_le, h.span, ?_, ?_, h.wnd_lt,
    h.mss_pos⟩, ?_, ?_⟩
  · rintro (hs | hs) <;> exact absurd hs (by simp [Tcb.setClosed, sendView])
  · intro hs
    exact absurd rfl hs
  · intro hs
    exact absurd hs (by simp [Tcb.setClosed, synchronized])
  · intro hs
    exact absurd rfl hs

/-! ## The outcome of a method -/

/-- A method that leaves `snd_una` alone: `snd_max` moves forward, and everything
added to `out` is honest and ends before it. -/
def Outputs (W : List Byte) (iss : Seq) (a b : ℕ) (out : List Seg) (r : Tcb × List Seg) : Prop :=
  ∃ n' b' new, SendOk W r.1 a n' b' ∧ r.1.iss = iss ∧ b ≤ b' ∧ r.2 = out ++ new ∧
    ∀ s ∈ new, SegOk iss W a b' s

/-- What an event may do to the sender: the positions move forward, and
everything it emits is honest.  `safe` is the condition under which nothing it
emits ends beyond `snd_max`; a FIN never does. -/
def Sends (safe : Prop) (W : List Byte) (iss : Seq) (a b : ℕ) (out : List Seg)
    (r : Tcb × List Seg) : Prop :=
  ∃ a' n' b' new, SendOk W r.1 a' n' b' ∧ r.1.iss = iss ∧ a ≤ a' ∧ a' ≤ a + txCap + 1 ∧
    b ≤ b' ∧ r.2 = out ++ new ∧
    ∀ s ∈ new, (∃ hi, SegOk iss W a' hi s) ∧ (safe ∨ s.has FIN = true → SegOk iss W a' b' s)

variable {safe : Prop} {iss : Seq} {out : List Seg} {now : ℤ}

/-- An event that first acknowledges and retransmits, then does the rest. -/
theorem Outputs.sends {a' b₁ : ℕ} (new : List Seg) {r : Tcb × List Seg}
    (h : Outputs W iss a' b₁ (out ++ new) r) (ha : a ≤ a') (ha' : a' ≤ a + txCap + 1)
    (hb : b ≤ b₁)
    (hnew : ∀ s ∈ new, (∃ hi, SegOk iss W a' hi s) ∧
      (safe ∨ s.has FIN = true → SegOk iss W a' b₁ s)) :
    Sends safe W iss a b out r := by
  obtain ⟨n', b', more, h1, h2, h3, h4, h5⟩ := h
  refine ⟨a', n', b', new ++ more, h1, h2, ha, ha', hb.trans h3,
    by rw [h4, List.append_assoc], ?_⟩
  intro s hs
  rcases List.mem_append.mp hs with hs | hs
  · exact ⟨(hnew s hs).1, fun hsafe => ((hnew s hs).2 hsafe).mono le_rfl h3⟩
  · exact ⟨⟨b', h5 s hs⟩, fun _ => h5 s hs⟩

theorem Outputs.toSends {r : Tcb × List Seg} (h : Outputs W iss a b out r) :
    Sends safe W iss a b out r :=
  Outputs.sends [] (by rwa [List.append_nil]) le_rfl (by omega) le_rfl (by simp)

/-- A method that emits one segment with nothing in it. -/
theorem outputs_single {s : Seg} (h : SendOk W u a n b) (hiss : u.iss = iss)
    (hs : OpensAt iss s ∨ Silent s) : Outputs W iss a b out (u, out ++ [s]) := by
  refine ⟨n, b, [s], h, hiss, le_rfl, rfl, ?_⟩
  intro x hx
  rw [List.mem_singleton.mp hx]
  exact hs.imp_right Or.inl

/-- A method that emits nothing. -/
theorem outputs_none (h : SendOk W u a n b) (hiss : u.iss = iss) :
    Outputs W iss a b out (u, out) :=
  ⟨n, b, [], h, hiss, le_rfl, by simp, by simp⟩

theorem outputs_sendAck (h : SendOk W t a n b) : Outputs W t.iss a b out (t.sendAck out) :=
  outputs_single (h.of_view (sendView_sendAck t out)) rfl (Or.inr (silent_sendAck_seg t))

theorem synFlags_cases (t : Tcb) : t.synFlags = SYN ∨ t.synFlags = SYN ||| ACK := by
  rw [synFlags]
  split
  · exact Or.inl rfl
  · exact Or.inr rfl

theorem opensAt_synSeg (t : Tcb) : OpensAt t.iss t.synSeg := by
  refine ⟨rfl, ?_, ?_, ?_, rfl⟩ <;> simp only [Seg.has, synSeg] <;>
    rcases synFlags_cases t with h | h <;> rw [h] <;> decide

theorem outputs_sendSyn (h : SendOk W t a n b) : Outputs W t.iss a b out (t.sendSyn out) :=
  outputs_single (h.of_view (sendView_sendSyn t out)) rfl (Or.inl (opensAt_synSeg t))

/-- `output`, from a state between events. -/
theorem outputs_output (h : SendOk W t a n b) (forceAck probe : Bool) :
    Outputs W t.iss a b out (t.output now out forceAck probe) := by
  obtain ⟨n', b', new, h1, h2, h3, h4, h5, h6, h7, h8⟩ :=
    output_inv now out forceAck probe h.inv h.finAcked_eq_false
  refine ⟨n', b', new, ⟨h1, ?_, ?_⟩, h2, h6, h7, h8⟩
  · rw [synchronized, h3, h5]
    exact h.fin_state
  · rw [h3, h4]
    exact h.acked_state

/-! ## Acknowledgments -/

@[simp] theorem sendView_sampleRtt (t : Tcb) (ack : Seq) (now : ℤ) :
    (t.sampleRtt ack now).sendView = t.sendView := by
  rw [sampleRtt]
  split
  · split <;> rfl
  · rfl

theorem sendView_ackAdvance (t : Tcb) (ack : Seq) (now : ℤ) :
    (t.ackAdvance ack now).sendView = (t.ackTx ack).sendView :=
  sendView_sampleRtt (t.ackTx ack) ack now

@[simp] theorem updateWindow_iss (t : Tcb) (h : TcpHeader) :
    (t.updateWindow h).iss = t.iss := by
  rw [Tcb.updateWindow]
  split <;> rfl

theorem toNat_ofNat_window (window : UInt16) :
    (BitVec.ofNat 32 window.toNat).toNat < 2 ^ 16 := by
  have := window.toNat_lt
  rw [BitVec.toNat_ofNat]
  omega

/-- The window is no part of the positions. -/
theorem SendInv.updateWindow (hI : SendInv W t.sendView a n b) :
    SendInv W (t.updateWindow h).sendView a n b := by
  rw [Tcb.updateWindow]
  split
  · refine ⟨hI.una_eq, hI.nxt_eq, hI.max_eq, hI.una_le, hI.nxt_le, hI.span, hI.handshake, ?_,
      toNat_ofNat_window h.window, hI.mss_pos⟩
    intro h1 h2 h3
    have hS := hI.streaming h1 h2 h3
    exact ⟨hS.tx_suffix, hS.una_pos, hS.tx_cap, hS.max_data, hS.max_fin, hS.fin_pending,
      hS.fin_acked⟩
  · exact hI

/-- **New sequence space is acknowledged.**  `snd_una` moves to the position the
acknowledgment names, `tx` loses what lies before it, and the FIN counts as
acknowledged exactly when the position is past it. -/
theorem ackTx_inv {a' : ℕ} (hI : SendInv W t.sendView a n b) (hS : Streaming W t.sendView a b)
    (hs1 : t.state ≠ .synSent) (hs2 : t.state ≠ .synReceived)
    (hlt : a < a') (hle : a' ≤ b) :
    SendInv W (t.ackTx (advance t.iss a')).sendView a' (max n a') b := by
  have hna := hI.una_le
  have hnb := hI.nxt_le
  have hspan := hI.span
  have hup : a + t.tx.length = 1 + W.length + t.finAcked.toNat := hS.una_pos
  have hcap : t.tx.length ≤ txCap := hS.tx_cap
  have huna : t.sndUna = advance t.iss a := hI.una_eq
  have hnxt : t.sndNxt = advance t.iss n := hI.nxt_eq
  have hdist : (advance t.iss a' - t.sndUna).toNat = a' - a := by
    rw [huna]
    exact toNat_advance_sub hlt.le (by simp only [txCap] at *; omega)
  have hnew : (t.ackTx (advance t.iss a')).tx = t.tx.drop (a' - a) := by
    simp only [ackTx, hdist]
    rcases Nat.le_total (a' - a) t.tx.length with h | h
    · rw [Nat.min_eq_left h]
    · rw [Nat.min_eq_right h, List.drop_length, List.drop_eq_nil_of_le h]
  have hnxt' : (t.ackTx (advance t.iss a')).sndNxt = advance t.iss (max n a') := by
    have h := seqLt_advance (b := t.iss) (m := n) (n := a') (by simp only [txCap] at *; omega)
      (by simp only [txCap] at *; omega)
    simp only [ackTx, hnxt, h, decide_eq_true_eq]
    split
    · rw [Nat.max_eq_right (by omega)]
    · rw [Nat.max_eq_left (by omega)]
  -- before this acknowledgment the FIN had not been acknowledged: nothing follows it
  have hfa : t.finAcked = false := by
    by_contra hcon
    have hcon : t.finAcked = true := by simpa using hcon
    obtain ⟨hne, htx⟩ := hS.fin_acked hcon
    obtain ⟨f, hf⟩ := Option.ne_none_iff_exists'.mp hne
    obtain ⟨-, hb⟩ := hS.max_fin f hf
    have htx' : t.tx = [] := htx
    simp only [hcon, htx', List.length_nil, Bool.toNat_true] at hup
    omega
  simp only [hfa, Bool.toNat_false] at hup
  have hfin : (t.ackTx (advance t.iss a')).finAcked = decide (a' = 2 + W.length) := by
    simp only [ackTx, hfa, Bool.false_or]
    cases hf : t.finSeq with
    | none =>
      have := hS.max_data hf
      simp
      omega
    | some f =>
      obtain ⟨hfe, hb⟩ := hS.max_fin f hf
      have hinj := advance_inj (b := t.iss) (m := a') (n := 2 + W.length) (by omega)
        (by simp only [txCap] at *; omega)
      have h2 : f + 1 = advance t.iss (2 + W.length) := by
        rw [hfe, show (2 + W.length) = (1 + W.length) + 1 by omega]
        exact advance_advance t.iss (1 + W.length) 1
      simp only [Option.any_some, h2, beq_eq_decide]
      exact decide_eq_decide.mpr hinj
  refine ⟨rfl, hnxt', hI.max_eq, le_max_right _ _, by omega, by omega, ?_, ?_, hI.wnd_lt,
    hI.mss_pos⟩
  · rintro (h | h)
    · exact absurd h hs1
    · exact absurd h hs2
  · intro _ _ _
    refine ⟨?_, ?_, ?_, hS.max_data, hS.max_fin, hS.fin_pending, ?_⟩
    · change (t.ackTx (advance t.iss a')).tx <:+ W
      rw [hnew]
      exact (List.drop_suffix _ _).trans hS.tx_suffix
    · change a' + (t.ackTx (advance t.iss a')).tx.length
        = 1 + W.length + (t.ackTx (advance t.iss a')).finAcked.toNat
      have hb : b ≤ 2 + W.length := by
        cases hq : t.finSeq with
        | none => have := hS.max_data hq; omega
        | some q => exact (hS.max_fin q hq).2.le
      rw [hnew, hfin, List.length_drop]
      by_cases h : a' = 2 + W.length
      · rw [decide_eq_true h, Bool.toNat_true]
        omega
      · rw [decide_eq_false h, Bool.toNat_false]
        omega
    · change (t.ackTx (advance t.iss a')).tx.length ≤ txCap
      rw [hnew, List.length_drop]
      omega
    · intro h
      change (t.ackTx (advance t.iss a')).finAcked = true at h
      rw [hfin, decide_eq_true_eq] at h
      refine ⟨?_, ?_⟩
      · intro hnone
        have := hS.max_data hnone
        omega
      · change (t.ackTx (advance t.iss a')).tx = []
        rw [hnew]
        exact List.drop_eq_nil_of_le (by omega)

/-- While something is outstanding, the FIN has not been acknowledged. -/
theorem finAcked_eq_false_of_outstanding (hI : SendInv W t.sendView a n b)
    (hS : Streaming W t.sendView a b) (hne : t.sndUna ≠ t.sndMax) : t.finAcked = false := by
  by_contra hcon
  have hcon : t.finAcked = true := by simpa using hcon
  obtain ⟨hsome, htx⟩ := hS.fin_acked hcon
  obtain ⟨f, hf⟩ := Option.ne_none_iff_exists'.mp hsome
  obtain ⟨-, hb⟩ := hS.max_fin f hf
  have htx' : t.tx = [] := htx
  have hup : a + t.tx.length = 1 + W.length + t.finAcked.toNat := hS.una_pos
  simp only [hcon, htx', List.length_nil, Bool.toNat_true] at hup
  have h1 : t.sndUna = advance t.iss a := hI.una_eq
  have h2 : t.sndMax = advance t.iss b := hI.max_eq
  exact hne (by rw [h1, h2, hb]; congr 1; omega)

/-- **Fast retransmit carries the stream from `snd_una` on.**  That the segment
ends before `snd_max` takes the extra condition: the method does not look at
`snd_max`. -/
theorem retransmitFirst_emits (out : List Seg) (hI : SendInv W t.sendView a n b)
    (hS : Streaming W t.sendView a b) (hne : t.sndUna ≠ t.sndMax) :
    ∃ new, (t.retransmitFirst out).2 = out ++ new ∧
      ∀ s ∈ new, (∃ hi, SegOk t.iss W a hi s) ∧
        (min t.tx.length t.sndMss ≤ (t.sndMax - t.sndUna).toNat ∨ s.has FIN = true →
          SegOk t.iss W a b s) := by
  have hfa := finAcked_eq_false_of_outstanding hI hS hne
  have hup : a + t.tx.length = 1 + W.length + t.finAcked.toNat := hS.una_pos
  have hcap : t.tx.length ≤ txCap := hS.tx_cap
  have hab : a ≤ b := hI.una_le.trans hI.nxt_le
  have hspan := hI.span
  have huna : t.sndUna = advance t.iss a := hI.una_eq
  have hmax : t.sndMax = advance t.iss b := hI.max_eq
  simp only [hfa, Bool.toNat_false] at hup
  have hdist : (t.sndMax - t.sndUna).toNat = b - a := by
    rw [huna, hmax, toNat_advance_sub hab (by simp only [txCap] at *; omega)]
  simp only [retransmitFirst]
  generalize hl : min t.tx.length t.sndMss = len
  have hlen : len ≤ t.tx.length := by omega
  split
  · exact ⟨[], by simp, by simp⟩
  · generalize hf : (t.finSeq == some (t.sndUna + BitVec.ofNat 32 len)) = fin
    -- the FIN goes along only if the segment reaches the end of the stream
    have hend : fin = true → len = t.tx.length ∧ b = 2 + W.length := by
      rintro rfl
      rw [beq_iff_eq, add_ofNat_eq_advance, huna, advance_advance] at hf
      obtain ⟨h1, h2⟩ := hS.max_fin _ hf
      have := (advance_inj (b := t.iss) (m := a + len) (n := 1 + W.length) (by omega)
        (by simp only [txCap] at *; omega)).mp h1
      exact ⟨by omega, h2⟩
    have hc : Carries t.iss W a (t.seg t.sndUna (dataFlags len fin) (t.tx.take len)).2 := by
      have htx : t.tx <:+ W := hS.tx_suffix
      refine carries_of_slice (o := 0) htx hup (by omega) huna rfl rfl ?_
      intro h
      rw [Nat.zero_add]
      exact (hend h).1
    refine ⟨[_], rfl, ?_⟩
    intro s hs
    rw [List.mem_singleton.mp hs]
    have hpl : (t.seg t.sndUna (dataFlags len fin) (t.tx.take len)).2.payload.length = len := by
      change (t.tx.take len).length = len
      rw [List.length_take]
      omega
    have hpf : (t.seg t.sndUna (dataFlags len fin) (t.tx.take len)).2.has FIN = fin :=
      dataFlags_fin len fin
    refine ⟨⟨_, Or.inr (Or.inr ⟨a, hc, le_rfl, le_rfl⟩)⟩, fun hsafe => ?_⟩
    refine Or.inr (Or.inr ⟨a, hc, le_rfl, ?_⟩)
    rw [hpf] at hsafe
    rw [hpl, hpf]
    cases fin with
    | true =>
      have := hend rfl
      simp only [Bool.toNat_true]
      omega
    | false =>
      have hle := hsafe.resolve_right (by simp)
      simp only [Bool.toNat_false]
      omega

/-- Step 4 goes on to retransmit: the third acknowledgment in a row that repeats
`snd_una`. -/
def thirdDupAck (t : Tcb) (h : TcpHeader) (payload : List Byte) : Bool :=
  t.state != .synReceived && h.ackNum == t.sndUna && t.isDupAck h payload && t.dupacks == 2

/-- What fast retransmit would send has all been sent before. -/
def retransmitSent (t : Tcb) : Prop :=
  min t.tx.length t.sndMss ≤ (t.sndMax - t.sndUna).toNat

/-- What `ackRepeat` emits: nothing, or the fast retransmission. -/
theorem ackRepeat_emits (payload : List Byte) (out : List Seg) (hI : SendInv W t.sendView a n b)
    (hS : Streaming W t.sendView a b) (hstate : t.state ≠ .synReceived)
    (hack : h.ackNum = t.sndUna) :
    ∃ new, (t.ackRepeat h payload out).2 = out ++ new ∧
      ∀ s ∈ new, (∃ hi, SegOk t.iss W a hi s) ∧
        ((t.thirdDupAck h payload = true → t.retransmitSent) ∨ s.has FIN = true →
          SegOk t.iss W a b s) := by
  simp only [ackRepeat]
  by_cases hdup : t.isDupAck h payload = true
  · rw [if_pos hdup]
    simp only [countDupAck]
    by_cases h3 : min (t.dupacks + 1) 255 = 3
    · rw [if_pos h3]
      have hne : t.sndUna ≠ t.sndMax := by
        simp only [isDupAck, Bool.and_eq_true, bne_iff_ne] at hdup
        exact hdup.2
      obtain ⟨new, h1, h2⟩ :=
        retransmitFirst_emits (t := { t with dupacks := min (t.dupacks + 1) 255 }) out hI hS hne
      refine ⟨new, h1, fun s hs => ⟨(h2 s hs).1, fun hsafe => (h2 s hs).2 (hsafe.imp_left ?_)⟩⟩
      intro hsafe
      refine hsafe ?_
      simp only [thirdDupAck, hdup, hack, Bool.and_eq_true, bne_iff_ne, beq_iff_eq]
      exact ⟨⟨⟨hstate, trivial⟩, trivial⟩, by omega⟩
    · rw [if_neg h3]
      exact ⟨[], by simp, by simp⟩
  · rw [if_neg hdup]
    exact ⟨[], by simp, by simp⟩

/-- Between step 4 and the check of the FIN: the acknowledgment of our FIN may
not show in the state yet. -/
structure AckOk (W : List Byte) (t : Tcb) (a n b : ℕ) : Prop where
  inv : SendInv W t.sendView a n b
  sync : t.synchronized = true
  fin_state : t.finPending = true ↔ t.state ≠ .established ∧ t.state ≠ .closeWait
  closing_acked : t.state = .finWait2 ∨ t.state = .timeWait → t.finAcked = true

theorem SendOk.ackOk (h : SendOk W t a n b) (hs : t.synchronized = true) : AckOk W t a n b :=
  ⟨h.inv, hs, h.fin_state hs, (h.acked_state (synchronized_iff.mp hs).1).mpr⟩

theorem AckOk.stream (h : AckOk W t a n b) : Streaming W t.sendView a b := by
  obtain ⟨h0, -, h1, h2⟩ := synchronized_iff.mp h.sync
  exact h.inv.streaming h0 h1 h2

theorem AckOk.updateWindow (hA : AckOk W t a n b) :
    AckOk W (t.updateWindow h) a n b := by
  have hinv := SendInv.updateWindow (h := h) hA.inv
  revert hinv
  rw [Tcb.updateWindow]
  split
  · intro hinv
    exact ⟨hinv, hA.sync, hA.fin_state, hA.closing_acked⟩
  · intro _
    exact hA

theorem AckOk.of_view (h : AckOk W t a n b) (hv : u.sendView = t.sendView) :
    AckOk W u a n b := by
  have h1 : u.state = t.state := congrArg SendView.state hv
  have h2 : u.finPending = t.finPending := congrArg SendView.finPending hv
  have h3 : u.finAcked = t.finAcked := congrArg SendView.finAcked hv
  refine ⟨by rw [hv]; exact h.inv, by rw [synchronized, h1]; exact h.sync, ?_, ?_⟩
  · rw [h1, h2]
    exact h.fin_state
  · rw [h1, h3]
    exact h.closing_acked

/-- What step 4 may do. -/
def Acked (safe : Prop) (W : List Byte) (iss : Seq) (a b : ℕ) (out : List Seg) : Flow → Prop
  | .stop t out' => Outputs W iss a b out (t, out')
  | .next t out' => ∃ a' n' new, AckOk W t a' n' b ∧ t.iss = iss ∧ a ≤ a' ∧
      a' ≤ a + txCap + 1 ∧ out' = out ++ new ∧
      ∀ s ∈ new, (∃ hi, SegOk iss W a' hi s) ∧ (safe ∨ s.has FIN = true → SegOk iss W a' b s)

/-- The SYN is acknowledged: the stream begins. -/
theorem sendOk_established (hO : SendOk W t a n b)
    (hs : t.state = .synSent ∨ t.state = .synReceived) (hstate : u.state = .established)
    (huna : u.sndUna = advance t.iss 1) (hwnd : u.sndWnd.toNat < 2 ^ 16) (hmss : 0 < u.sndMss)
    (hv : u.sendView = { t.sendView with
      state := u.state, una := u.sndUna, wnd := u.sndWnd, mss := u.sndMss }) :
    SendOk W u 1 1 1 := by
  obtain ⟨rfl, rfl, rfl, htx, hcap, hfp, hfs, hfa⟩ := hO.inv.handshake hs
  have hfp' : u.finPending = false := (congrArg SendView.finPending hv).trans hfp
  have hfa' : u.finAcked = false := (congrArg SendView.finAcked hv).trans hfa
  refine ⟨?_, ?_, fun _ => by simp [hfa', hstate]⟩
  · rw [hv, huna, hstate]
    refine ⟨rfl, hO.inv.nxt_eq, hO.inv.max_eq, le_rfl, le_rfl, by omega, ?_, fun _ _ _ => ?_,
      hwnd, hmss⟩
    · rintro (h | h) <;> exact absurd h (by simp)
    · refine ⟨htx ▸ List.suffix_rfl, by simp [htx, hfa], htx ▸ hcap, fun _ => by omega, ?_, ?_, ?_⟩
      · intro f hf
        exact absurd (hfs.symm.trans hf) (by simp)
      · intro hne
        exact absurd hfs hne
      · intro hf
        exact absurd (hfa.symm.trans hf) (by simp)
  · intro _
    simp [hfp', hstate]

/-- The handshake's last acknowledgment, or a reset. -/
theorem acked_ackSynReceived (hO : SendOk W t a n b) (hs : t.state = .synReceived) :
    Acked safe W t.iss a b out (t.ackSynReceived h out) := by
  obtain ⟨rfl, -, rfl, -⟩ := hO.inv.handshake (Or.inr hs)
  have huna : t.sndUna = advance t.iss 0 := hO.inv.una_eq
  have hmax : t.sndMax = advance t.iss 1 := hO.inv.max_eq
  rw [advance_zero] at huna
  rw [ackSynReceived]
  split
  · rename_i hack
    rw [Bool.and_eq_true, huna, hmax] at hack
    have hpos := ack_eq_of_handshake hack.1 hack.2
    refine ⟨1, 1, [], ?_, rfl, by omega, by omega, by simp, by simp⟩
    refine SendOk.ackOk ?_ rfl
    exact sendOk_established hO (Or.inr hs) rfl hpos (toNat_ofNat_window h.window)
      hO.inv.mss_pos rfl
  · exact outputs_single hO rfl (Or.inr (silent_rstSeg h.ackNum))

/-- **Step 4.**  Whatever acknowledgment arrives, the positions move forward or
stay, and only the third duplicate emits anything beyond a bare segment. -/
theorem acked_processAck (h : TcpHeader) (payload : List Byte) (now : ℤ) (out : List Seg)
    (hO : SendOk W t a n b) (h0 : t.state ≠ .closed) (hl : t.state ≠ .listen)
    (h1 : t.state ≠ .synSent) :
    Acked (t.thirdDupAck h payload = true → t.retransmitSent) W t.iss a b out
      (t.processAck h payload now out) := by
  rw [processAck]
  by_cases h2 : t.state = .synReceived
  · rw [if_pos h2]
    exact acked_ackSynReceived hO h2
  rw [if_neg h2]
  have hsync : t.synchronized = true := synchronized_iff.mpr ⟨h0, hl, h1, h2⟩
  have hA := hO.ackOk hsync
  by_cases hmax : seqGt h.ackNum t.sndMax = true
  · rw [if_pos hmax]
    exact outputs_sendAck hO
  rw [if_neg hmax]
  by_cases huna : seqGt h.ackNum t.sndUna = true
  · rw [if_pos huna]
    obtain ⟨a', hlt, hle, hack⟩ := exists_ack_pos hO.inv huna (by simpa [sendView] using hmax)
    have hinv := ackTx_inv hO.inv hA.stream h1 h2 hlt hle
    rw [hack]
    have hA' : AckOk W (t.ackTx (advance t.iss a')) a' (max n a') b := by
      refine ⟨hinv, hsync, hA.fin_state, ?_⟩
      intro hs
      change (t.finAcked || _) = true
      rw [hA.closing_acked hs, Bool.true_or]
    have hv := sendView_ackAdvance t (advance t.iss a') now
    refine ⟨a', max n a', [], (hA'.of_view hv).updateWindow, ?_, hlt.le, hle.trans hO.inv.span,
      by simp, by simp⟩
    rw [updateWindow_iss]
    exact congrArg SendView.iss hv
  rw [if_neg huna]
  by_cases heq : h.ackNum = t.sndUna
  · rw [if_pos heq]
    obtain ⟨new, hn1, hn2⟩ :=
      ackRepeat_emits payload out hO.inv hA.stream h2 heq
    have hv := sendView_ackRepeat t out h payload
    refine ⟨a, n, new, (hA.of_view hv).updateWindow, ?_, le_rfl, by omega, hn1, hn2⟩
    rw [updateWindow_iss]
    exact congrArg SendView.iss hv
  · rw [if_neg heq]
    exact ⟨a, n, [], hA.updateWindow, updateWindow_iss t h, le_rfl, by omega, by simp, by simp⟩

/-! ## The rest of a segment -/

/-- A streaming block that changes its state stays where it is. -/
theorem SendInv.of_streaming {v v' : SendView} (hI : SendInv W v a n b)
    (hS : Streaming W v' a b) (h1 : v'.una = advance v'.iss a) (h2 : v'.nxt = advance v'.iss n)
    (h3 : v'.max = advance v'.iss b) (hs1 : v'.state ≠ .synSent) (hs2 : v'.state ≠ .synReceived)
    (hwnd : v'.wnd = v.wnd) (hmss : v'.mss = v.mss) : SendInv W v' a n b := by
  refine ⟨h1, h2, h3, hI.una_le, hI.nxt_le, hI.span, ?_, fun _ _ _ => hS, hwnd ▸ hI.wnd_lt,
    hmss ▸ hI.mss_pos⟩
  rintro (h | h)
  · exact absurd h hs1
  · exact absurd h hs2

/-- The positions do not depend on the state. -/
theorem Streaming.change {v v' : SendView} (hS : Streaming W v a b) (h1 : v'.iss = v.iss)
    (h2 : v'.tx = v.tx) (h3 : v'.finPending = v.finPending) (h4 : v'.finSeq = v.finSeq)
    (h5 : v'.finAcked = v.finAcked) : Streaming W v' a b := by
  refine ⟨?_, ?_, ?_, ?_, ?_, ?_, ?_⟩
  · rw [h2]; exact hS.tx_suffix
  · rw [h2, h5]; exact hS.una_pos
  · rw [h2]; exact hS.tx_cap
  · rw [h4]; exact hS.max_data
  · rw [h4, h1]; exact hS.max_fin
  · rw [h4, h3]; exact hS.fin_pending
  · rw [h4, h5, h2]; exact hS.fin_acked

/-- The block after a change of state among those past the handshake. -/
theorem SendOk.of_state (hI : SendInv W t.sendView a n b) (hS : Streaming W t.sendView a b)
    (hv : u.sendView = { t.sendView with state := u.state }) (hs : u.synchronized = true)
    (hfin : t.finPending = true ↔ u.state ≠ .established ∧ u.state ≠ .closeWait)
    (hack : t.finAcked = true ↔ u.state = .finWait2 ∨ u.state = .timeWait) :
    SendOk W u a n b := by
  obtain ⟨-, -, hs1, hs2⟩ := synchronized_iff.mp hs
  have h1 : u.finPending = t.finPending := congrArg SendView.finPending hv
  have h2 : u.finAcked = t.finAcked := congrArg SendView.finAcked hv
  refine ⟨?_, fun _ => ?_, fun _ => ?_⟩
  · rw [hv]
    exact SendInv.of_streaming hI (Streaming.change hS rfl rfl rfl rfl rfl) hI.una_eq hI.nxt_eq
      hI.max_eq hs1 hs2 rfl rfl
  · rw [h1]
    exact hfin
  · rw [h2]
    exact hack

/-- TIME_WAIT empties a send buffer that was empty already. -/
theorem sendView_enterTimeWait (hS : Streaming W t.sendView a b) (hack : t.finAcked = true)
    (now : ℤ) : (t.enterTimeWait now).sendView = { t.sendView with state := .timeWait } := by
  have htx : t.tx = [] := (hS.fin_acked hack).2
  simp only [enterTimeWait, sendView, htx]

theorem sendOk_enterTimeWait (hI : SendInv W t.sendView a n b) (hS : Streaming W t.sendView a b)
    (hack : t.finAcked = true) (now : ℤ) : SendOk W (t.enterTimeWait now) a n b := by
  have hpend : t.finPending = true := hS.pending_of_acked hack
  exact SendOk.of_state hI hS (sendView_enterTimeWait hS hack now) rfl
    (by simp [enterTimeWait, hpend]) (by simp [enterTimeWait, hack])

/-- What follows step 4. -/
def Checked (W : List Byte) (iss : Seq) (a b : ℕ) (out : List Seg) : Flow → Prop
  | .stop t out' => (∃ n', SendOk W t a n' b) ∧ t.iss = iss ∧ out' = out
  | .next t out' => (∃ n', SendOk W t a n' b) ∧ t.iss = iss ∧ out' = out ∧ t.synchronized = true

/-- An acknowledged FIN moves the state on; afterwards it shows there again. -/
theorem checked_checkFinAcked (now : ℤ) (out : List Seg) (hA : AckOk W t a n b) :
    Checked W t.iss a b out (t.checkFinAcked now out) := by
  have hS := hA.stream
  rw [checkFinAcked]
  by_cases hack : t.finAcked = true
  · rw [if_pos hack]
    have hpend : t.finPending = true := hS.pending_of_acked hack
    split
    · refine ⟨⟨n, ?_⟩, rfl, rfl, rfl⟩
      exact SendOk.of_state hA.inv hS rfl rfl (by simp [enterFinWait2, hpend])
        (by simp [enterFinWait2, hack])
    · exact ⟨⟨n, sendOk_enterTimeWait hA.inv hS hack now⟩, rfl, rfl, rfl⟩
    · exact ⟨⟨n, SendOk.setClosed hA.inv none⟩, rfl, rfl⟩
    · rename_i hs1 hs2 hs3
      refine ⟨⟨n, ?_⟩, rfl, rfl, hA.sync⟩
      refine SendOk.of_state hA.inv hS rfl hA.sync hA.fin_state ⟨fun _ => ?_, hA.closing_acked⟩
      obtain ⟨h1, h2⟩ := hA.fin_state.mp hpend
      obtain ⟨h3, h4, h5, h6⟩ := synchronized_iff.mp hA.sync
      cases hs : t.state <;> simp_all
  · rw [if_neg hack]
    refine ⟨⟨n, ?_⟩, rfl, rfl, hA.sync⟩
    exact SendOk.of_state hA.inv hS rfl hA.sync hA.fin_state
      ⟨fun h => absurd h hack, hA.closing_acked⟩

/-- Step 6 moves the state on; the sender does not move. -/
theorem sendOk_processFin (hO : SendOk W t a n b) (hsync : t.synchronized = true) :
    SendOk W (t.processFin now) a n b := by
  have hA := hO.ackOk hsync
  have hS := hA.stream
  have hack := hO.acked_state (synchronized_iff.mp hsync).1
  simp only [processFin]
  split
  · split
    · rename_i hs
      exact SendOk.of_state hA.inv hS rfl rfl (by simp [hA.fin_state, hs]) (by simp [hack, hs])
    · rename_i hs
      split
      · exact sendOk_enterTimeWait (t := { t with finReceived := true, rcvNxt := _, ooo := [] })
          hA.inv hS (by assumption) now
      · exact SendOk.of_state hA.inv hS rfl rfl (by simp [hA.fin_state, hs]) (by simp [hack, hs])
    · rename_i hs
      exact sendOk_enterTimeWait (t := { t with finReceived := true, rcvNxt := _, ooo := [] })
        hA.inv hS (by simp [hack, hs]) now
    · exact hO.of_view rfl
  · exact hO

theorem iss_processFin (t : Tcb) (now : ℤ) : (t.processFin now).iss = t.iss := by
  simp only [processFin]
  split
  · split
    · rfl
    · split <;> rfl
    · rfl
    · rfl
  · rfl

/-- The block `deliver` hands to `output`. -/
def delivered (t : Tcb) (h : TcpHeader) (payload : List Byte) (now : ℤ) : Tcb :=
  ((t.processData h payload).1.processFin now).refreshTimeWait h now

theorem iss_delivered (t : Tcb) (h : TcpHeader) (payload : List Byte) (now : ℤ) :
    (t.delivered h payload now).iss = t.iss := by
  have h1 := congrArg SendView.iss
    (sendView_refreshTimeWait ((t.processData h payload).1.processFin now) h now)
  have h2 := iss_processFin (t.processData h payload).1 now
  have h3 := congrArg SendView.iss (sendView_processData t h payload)
  exact h1.trans (h2.trans h3)

theorem synchronized_of_view (hv : u.sendView = t.sendView) (hsync : t.synchronized = true) :
    u.synchronized = true := by
  have hst : u.state = t.state := congrArg SendView.state hv
  rw [synchronized, hst]
  exact hsync

theorem synchronized_delivered {payload : List Byte} (hsync : t.synchronized = true) :
    (t.delivered h payload now).synchronized = true := by
  have hsync' := synchronized_of_view (sendView_processData t h payload) hsync
  refine synchronized_of_view (sendView_refreshTimeWait _ h now) ?_
  simp only [processFin]
  split
  · split
    · rfl
    · split <;> rfl
    · rfl
    · exact hsync'
  · exact hsync'

section

variable (hO : SendOk W t a n b)
include hO

/-- Steps 5 and 6 leave the sender in place. -/
theorem sendOk_delivered {payload : List Byte} (hsync : t.synchronized = true) :
    SendOk W (t.delivered h payload now) a n b := by
  have hv := sendView_processData t h payload
  exact (sendOk_processFin (hO.of_view hv) (synchronized_of_view hv hsync)).of_view
    (sendView_refreshTimeWait _ h now)

/-- Steps 5 and 6 and the closing output. -/
theorem outputs_deliver {payload : List Byte} (hsync : t.synchronized = true) :
    Outputs W t.iss a b out (t.deliver h payload now out) := by
  have hO' : SendOk W (t.delivered h payload now) a n b := sendOk_delivered hO hsync
  have hout : Outputs W (t.delivered h payload now).iss a b out (t.deliver h payload now out) :=
    outputs_output hO' (t.processData h payload).2 false
  rw [iss_delivered] at hout
  exact hout

/-- The segment reaches step 4. -/
def reachesAck (t : Tcb) (h : TcpHeader) (payload : List Byte) : Bool :=
  (t.acceptable h.seqNum (segLen h payload) || t.finOnlyInOrder h payload)
    && !h.has RST && !h.has SYN && h.has ACK

omit hO in
/-- **A segment in a synchronized state or in `SynReceived`**, by the steps of
the source. -/
theorem sends_onSynchronized (h : TcpHeader) (payload : List Byte) (now : ℤ) (out : List Seg)
    (hO : SendOk W t a n b) (h0 : t.state ≠ .closed) (hl : t.state ≠ .listen)
    (h1 : t.state ≠ .synSent) :
    Sends (t.reachesAck h payload = true → t.thirdDupAck h payload = true → t.retransmitSent)
      W t.iss a b out (t.onSynchronized h payload now out) := by
  rw [onSynchronized]
  split
  · exact (outputs_sendSyn hO).toSends
  split
  · split
    · exact (outputs_none hO rfl).toSends
    · have hv := sendView_refreshTimeWait t h now
      have hiss : (t.refreshTimeWait h now).iss = t.iss := congrArg SendView.iss hv
      rw [← hiss]
      exact (outputs_sendAck (hO.of_view hv)).toSends
  rename_i _ hacc
  split
  · split
    · exact (outputs_sendAck hO).toSends
    · exact (outputs_none (SendOk.setClosed hO.inv _) rfl).toSends
  rename_i hrst
  split
  · exact (outputs_sendAck hO).toSends
  rename_i hsyn
  split
  · exact (outputs_none hO rfl).toSends
  rename_i hackf
  have hreach : t.reachesAck h payload = true := by
    have h1 : t.acceptable h.seqNum (segLen h payload) || t.finOnlyInOrder h payload := by
      simpa [Bool.or_eq_true, or_iff_not_imp_left] using hacc
    have h2 : h.has RST = false := by simpa using hrst
    have h3 : h.has SYN = false := by simpa using hsyn
    have h4 : h.has ACK = true := by simpa using hackf
    rw [reachesAck, h1, h2, h3, h4]
    rfl
  have hA := acked_processAck h payload now out hO h0 hl h1
  generalize t.processAck h payload now out = flow at hA
  cases flow with
  | stop t' out' => exact hA.toSends
  | next t' out' =>
    obtain ⟨a', n', new, hA', hiss, ha, ha', rfl, hnew⟩ := hA
    have hnew' : ∀ s ∈ new, (∃ hi, SegOk t.iss W a' hi s) ∧
        ((t.reachesAck h payload = true → t.thirdDupAck h payload = true → t.retransmitSent) ∨
          s.has FIN = true → SegOk t.iss W a' b s) := fun s hs =>
      ⟨(hnew s hs).1, fun hsafe => (hnew s hs).2 (hsafe.imp_left fun h => h hreach)⟩
    have hC := checked_checkFinAcked now (out ++ new) hA'
    simp only
    generalize t'.checkFinAcked now (out ++ new) = flow at hC
    cases flow with
    | stop t'' out'' =>
      obtain ⟨⟨n'', hO''⟩, hiss'', rfl⟩ := hC
      exact Outputs.sends new (outputs_none hO'' (hiss''.trans hiss)) ha ha' le_rfl hnew'
    | next t'' out'' =>
      obtain ⟨⟨n'', hO''⟩, hiss'', rfl, hsync⟩ := hC
      have hd : Outputs W t''.iss a' b (out ++ new) (t''.deliver h payload now (out ++ new)) :=
        outputs_deliver hO'' hsync
      rw [hiss'', hiss] at hd
      exact Outputs.sends new hd ha ha' le_rfl hnew'

/-- A segment in `SynSent`: refused, the connection is open, or both ends opened
at once. -/
theorem outputs_onSynSent (hs : t.state = .synSent) :
    Sends safe W t.iss a b out (t.onSynSent h now out) := by
  obtain ⟨rfl, rfl, rfl, htx, hcap, hfp, hfs, hfa⟩ := hO.inv.handshake (Or.inl hs)
  have hmax : t.sndMax = advance t.iss 1 := hO.inv.max_eq
  simp only [onSynSent]
  split
  · split
    · exact (outputs_none hO rfl).toSends
    · exact (outputs_single hO rfl (Or.inr (silent_rstSeg h.ackNum))).toSends
  split
  · split
    · exact (outputs_none (SendOk.setClosed hO.inv _) rfl).toSends
    · exact (outputs_none hO rfl).toSends
  split
  · exact (outputs_none hO rfl).toSends
  split
  · rename_i hack
    rw [Bool.and_eq_true, Bool.and_eq_true, hmax] at hack
    have hpos := ack_eq_of_handshake hack.1.2 hack.2
    have hest : ∀ u : Tcb, SendOk W u 1 1 1 → u.iss = t.iss →
        Sends safe W t.iss 0 1 out (u.output now out true false) := by
      intro u hu hiss
      rw [← hiss]
      exact Outputs.sends [] (by rw [List.append_nil]; exact outputs_output hu true false)
        (by omega) (by omega) le_rfl (by simp)
    refine hest _ ?_ rfl
    exact sendOk_established hO (Or.inl hs) rfl hpos (toNat_ofNat_window h.window)
      (Nat.lt_of_lt_of_le (by omega) (le_clampMss h.mss)) rfl
  · -- simultaneous open: the block moves to `SynReceived` and answers with its SYN-ACK
    refine (outputs_single (n := 1) ?_ rfl (Or.inl (opensAt_synSeg _))).toSends
    refine ⟨⟨hO.inv.una_eq, hO.inv.nxt_eq, hO.inv.max_eq, by omega, le_rfl, by omega,
      fun _ => ⟨rfl, rfl, rfl, htx, hcap, hfp, hfs, hfa⟩, ?_, toNat_ofNat_window h.window,
      Nat.lt_of_lt_of_le (by omega) (le_clampMss h.mss)⟩, ?_, fun _ => ?_⟩
    · intro _ _ h
      exact absurd rfl h
    · intro h
      exact absurd h (by simp [sendSyn, advWindow, synchronized])
    · have hfa' : t.finAcked = false := hfa
      simp [sendSyn, advWindow, hfa']

/-! ## Timers -/

omit hO in
@[simp] theorem sendView_countRetry (t : Tcb) : t.countRetry.sendView = t.sendView := by
  rw [countRetry]
  split <;> rfl

omit hO in
@[simp] theorem sendView_rtoRearm (t : Tcb) (now : ℤ) (persist : Bool) :
    (t.rtoRearm now persist).sendView = t.sendView := by
  rw [rtoRearm]
  split <;> rfl

omit hO in
theorem Outputs.of_view {r : Tcb × List Seg} (h : Outputs W iss a b out r)
    (hv : u.sendView = r.1.sendView) : Outputs W iss a b out (u, r.2) := by
  obtain ⟨n', b', new, h1, h2, h3, h4, h5⟩ := h
  exact ⟨n', b', new, h1.of_view hv, (congrArg SendView.iss hv).trans h2, h3, h4, h5⟩

/-- A timeout takes `snd_nxt` back to `snd_una`. -/
theorem sendOk_rewind (hs : ¬ (t.state = .synSent ∨ t.state = .synReceived)) :
    SendOk W { t with sndNxt := t.sndUna } a a b := by
  have hI := hO.inv
  refine ⟨⟨hI.una_eq, hI.una_eq, hI.max_eq, le_rfl, hI.una_le.trans hI.nxt_le, hI.span, ?_, ?_,
    hI.wnd_lt, hI.mss_pos⟩, hO.fin_state, hO.acked_state⟩
  · intro h
    exact absurd h hs
  · intro h1 h2 h3
    exact Streaming.change (hI.streaming h1 h2 h3) rfl rfl rfl rfl rfl

omit hO in
/-- A timeout sends the SYN again, or starts over from `snd_una`. -/
theorem outputs_rtoResend (now : ℤ) (out : List Seg) (hO : SendOk W t a n b) :
    Outputs W t.iss a b out (t.rtoResend now out) := by
  rw [rtoResend]
  split
  · exact Outputs.of_view (outputs_sendSyn hO) rfl
  · rename_i hs
    split
    · exact outputs_output (sendOk_rewind hO hs) false true
    · exact outputs_none hO rfl

theorem outputs_onTimer : Outputs W t.iss a b out (t.onTimer now out) := by
  rw [onTimer]
  split
  · exact outputs_none (SendOk.setClosed hO.inv none) rfl
  split
  · simp only [onRto]
    have hv := sendView_countRetry { t with rtoDeadline := none }
    have hO1 : SendOk W { t with rtoDeadline := none }.countRetry a n b :=
      (hO.of_view rfl).of_view hv
    have hiss : { t with rtoDeadline := none }.countRetry.iss = t.iss := congrArg SendView.iss hv
    split
    · exact outputs_none (SendOk.setClosed hO1.inv _) hiss
    · have hO2 : SendOk W { t with rtoDeadline := none }.countRetry.backoff a n b :=
        hO1.of_view rfl
      have h := outputs_rtoResend now out hO2
      have hiss' : { t with rtoDeadline := none }.countRetry.backoff.iss = t.iss := hiss
      rw [hiss'] at h
      exact Outputs.of_view h (sendView_rtoRearm _ _ _)
  · exact outputs_none hO rfl

/-! ## The user's calls -/

/-- Queued bytes extend the stream and the send buffer alike. -/
theorem sendOk_queue (hmay : t.mayWrite = true) (data : List Byte)
    (hlen : data.length ≤ t.txSpace) :
    SendOk (W ++ data) { t with tx := t.tx ++ data } a n b := by
  have hI := hO.inv
  have hcap : t.tx.length ≤ txCap → (t.tx ++ data).length ≤ txCap := by
    intro h
    rw [List.length_append]
    simp only [txSpace] at hlen
    omega
  refine ⟨⟨hI.una_eq, hI.nxt_eq, hI.max_eq, hI.una_le, hI.nxt_le, hI.span, ?_, ?_, hI.wnd_lt,
    hI.mss_pos⟩, hO.fin_state, hO.acked_state⟩
  · intro hs
    obtain ⟨h1, h2, h3, h4, h5, h6⟩ := hI.handshake hs
    have h4' : t.tx = W := h4
    refine ⟨h1, h2, h3, ?_, ?_, h6⟩
    · change t.tx ++ data = W ++ data
      rw [h4']
    · rw [← h4']
      exact hcap (h4' ▸ h5)
  · intro h0 h1 h2
    have hS := hI.streaming h0 h1 h2
    -- a state that accepts data has no FIN pending
    have hfp : t.finPending = false := by
      by_contra hcon
      have h1' : t.state ≠ .synSent := h1
      have h2' : t.state ≠ .synReceived := h2
      have hfs := hO.fin_state
      cases hs : t.state <;> simp_all [mayWrite, synchronized]
    have hfs : t.finSeq = none := by
      by_contra hcon
      have : t.finPending = true := hS.fin_pending hcon
      exact absurd (hfp.symm.trans this) (by simp)
    have hup : a + t.tx.length = 1 + W.length + t.finAcked.toNat := hS.una_pos
    refine ⟨?_, ?_, hcap hS.tx_cap, ?_, ?_, ?_, ?_⟩
    · obtain ⟨pre, hpre⟩ := hS.tx_suffix
      exact ⟨pre, by rw [← hpre]; simp [sendView]⟩
    · change a + (t.tx ++ data).length = 1 + (W ++ data).length + t.finAcked.toNat
      rw [List.length_append, List.length_append]
      omega
    · intro _
      have := hS.max_data hfs
      rw [List.length_append]
      omega
    · intro f hf
      exact absurd (hfs.symm.trans hf) (by simp)
    · intro hne
      exact absurd hfs hne
    · intro hf
      exact absurd hfs (hS.fin_acked hf).1

theorem outputs_write (hmay : t.mayWrite = true) (data : List Byte) :
    Outputs (W ++ data.take (t.write data now out).2.2) t.iss a b out
      ((t.write data now out).1, (t.write data now out).2.1) := by
  refine outputs_output (n := n) (sendOk_queue hO hmay (data.take (min data.length t.txSpace)) ?_)
    false false
  rw [List.length_take]
  omega

/-- Half-close: the FIN is pending, and the state no longer accepts data. -/
theorem sendOk_finPending {s : TcpState} (hs : s = .finWait1 ∨ s = .lastAck)
    (ht : t.state = .established ∨ t.state = .closeWait) :
    SendOk W { t with finPending := true, state := s } a n b := by
  have hsync : t.synchronized = true := by
    rcases ht with ht | ht <;> simp [synchronized, ht]
  have hS := (hO.ackOk hsync).stream
  have hfa : t.finAcked = false := by
    apply hO.finAcked_eq_false
    rcases ht with ht | ht <;> simp [canSendData, ht]
  have hS' : Streaming W { t with finPending := true, state := s }.sendView a b :=
    ⟨hS.tx_suffix, hS.una_pos, hS.tx_cap, hS.max_data, hS.max_fin, fun _ => rfl, hS.fin_acked⟩
  refine ⟨SendInv.of_streaming hO.inv hS' hO.inv.una_eq hO.inv.nxt_eq hO.inv.max_eq ?_ ?_ rfl
    rfl, fun _ => ?_, fun _ => ?_⟩
  · rcases hs with rfl | rfl <;> simp [sendView]
  · rcases hs with rfl | rfl <;> simp [sendView]
  · rcases hs with rfl | rfl <;> simp
  · rcases hs with rfl | rfl <;> simp [hfa]

theorem outputs_shutdownWrite : Outputs W t.iss a b out (t.shutdownWrite now out) := by
  rw [shutdownWrite]
  split
  · exact outputs_output (sendOk_finPending hO (Or.inl rfl) (Or.inl (by assumption))) false false
  · exact outputs_output (sendOk_finPending hO (Or.inr rfl) (Or.inr (by assumption))) false false
  · exact outputs_none hO rfl

theorem outputs_close : Outputs W t.iss a b out ((t.close now out).1, (t.close now out).2.1) := by
  have hO' : SendOk W { t with userOpen := false, discardRx := true, rx := [] } a n b :=
    hO.of_view rfl
  simp only [close]
  split
  · exact outputs_none hO' rfl
  · exact outputs_none hO' rfl
  · exact outputs_none hO' rfl
  · exact outputs_none hO' rfl
  · exact outputs_shutdownWrite hO'
  · exact outputs_shutdownWrite hO'
  · exact outputs_none (hO'.of_view rfl) rfl
  · exact outputs_none hO' rfl

theorem outputs_read (cap : ℕ) :
    Outputs W t.iss a b out ((t.read cap out).1, (t.read cap out).2.1) := by
  have hO' : SendOk W { t with rx := t.rx.drop (min cap t.rx.length) } a n b := hO.of_view rfl
  simp only [read]
  split
  · split
    · exact outputs_sendAck hO'
    · exact outputs_none hO' rfl
  · exact outputs_none hO' rfl

theorem outputs_abort : Outputs W t.iss a b out (t.abort out) := by
  have hO' := SendOk.setClosed hO.inv (some .connectionAborted)
  simp only [abort]
  split
  · exact outputs_single hO' rfl (Or.inr (silent_rstSeg _))
  · exact outputs_none hO' rfl

/-! ## Every event -/

/-- The event does not make fast retransmit send what has never been sent: if it
is a segment whose step 4 counts the third duplicate acknowledgment, then the
segment at `snd_una`, cut at the peer's MSS, lies below `snd_max`. -/
def FastRetransmitSafe (t : Tcb) : Call → Prop
  | .onSegment h payload _ => t.synchronized = true → t.reachesAck h payload = true →
      t.thirdDupAck h payload = true → t.retransmitSent
  | _ => True

/-- **One event keeps the sender in place.**  The stream grows by what was
accepted, the positions move forward, everything emitted is honest, and under
`FastRetransmitSafe` it all ends before the new `snd_max`. -/
theorem step_sendOk (c : Call) :
    Sends (t.FastRetransmitSafe c) (W ++ t.accepted c) t.iss a b [] (t.step c) := by
  cases c with
  | write data now =>
    by_cases hmay : t.mayWrite = true
    · simp only [step, accepted, if_pos hmay]
      exact (outputs_write hO hmay data).toSends
    · simp only [step, accepted, if_neg hmay, List.append_nil]
      exact (outputs_none hO rfl).toSends
  | read cap =>
    simp only [accepted, List.append_nil]
    exact (outputs_read hO cap).toSends
  | shutdownWrite now =>
    simp only [accepted, List.append_nil]
    exact (outputs_shutdownWrite hO).toSends
  | close now =>
    simp only [accepted, List.append_nil]
    exact (outputs_close hO).toSends
  | abort =>
    simp only [accepted, List.append_nil]
    exact (outputs_abort (t := { t with userOpen := false }) (hO.of_view rfl)).toSends
  | fail err =>
    simp only [accepted, List.append_nil]
    exact (outputs_none (SendOk.setClosed hO.inv _) rfl).toSends
  | onUnreachable =>
    simp only [accepted, List.append_nil, step, onUnreachable]
    split
    · exact (outputs_none (SendOk.setClosed hO.inv _) rfl).toSends
    · exact (outputs_none hO rfl).toSends
  | accept =>
    simp only [accepted, List.append_nil]
    exact (outputs_none (u := { t with userOpen := true }) (hO.of_view rfl) rfl).toSends
  | onTimer now =>
    simp only [accepted, List.append_nil]
    exact (outputs_onTimer hO).toSends
  | onSegment h payload now =>
    simp only [accepted, List.append_nil, step, onSegment]
    split
    · exact (outputs_none hO rfl).toSends
    · exact (outputs_none hO rfl).toSends
    · exact outputs_onSynSent hO (by assumption)
    · rename_i h0 hl h1
      obtain ⟨a', n', b', new, g1, g2, g3, g3', g4, g5, g6⟩ :=
        sends_onSynchronized h payload now [] hO h0 hl h1
      refine ⟨a', n', b', new, g1, g2, g3, g3', g4, g5, fun s hs =>
        ⟨(g6 s hs).1, fun hsafe => ?_⟩⟩
      refine (g6 s hs).2 (hsafe.imp_left fun hsafe hr hd => ?_)
      refine hsafe ?_ hr hd
      refine synchronized_iff.mpr ⟨h0, hl, h1, ?_⟩
      simp only [thirdDupAck, Bool.and_eq_true, bne_iff_ne] at hd
      exact hd.1.1.1

end

/-- The sender's invariant of a block in the handshake. -/
theorem sendOk_of_handshake {t : Tcb} (hs : t.state = .synSent ∨ t.state = .synReceived)
    (h1 : t.sndUna = t.iss) (h2 : t.sndNxt = t.iss + 1) (h3 : t.sndMax = t.iss + 1)
    (h4 : t.tx = []) (h5 : t.finPending = false) (h6 : t.finSeq = none)
    (h7 : t.finAcked = false) (h8 : t.sndWnd.toNat < 2 ^ 16) (h9 : 0 < t.sndMss) :
    SendOk [] t 0 1 1 := by
  refine ⟨⟨?_, h2, h3, by omega, le_rfl, by omega,
    fun _ => ⟨rfl, rfl, rfl, h4, by simp, h5, h6, h7⟩, ?_, h8, h9⟩, ?_, ?_⟩
  · rw [advance_zero]
    exact h1
  · intro _ g1 g2
    rcases hs with hs | hs
    · exact absurd hs g1
    · exact absurd hs g2
  · intro h
    rcases hs with hs | hs <;> exact absurd h (by simp [synchronized, hs])
  · intro _
    rcases hs with hs | hs <;> simp [hs, h7]

theorem sendOk_newConnect (localAddr remote : SocketAddr) (iss : Seq) (now : ℤ) :
    SendOk [] (newConnect localAddr remote iss now []).1 0 1 1 :=
  sendOk_of_handshake (Or.inl rfl) rfl rfl rfl rfl rfl rfl rfl
    (show (0 : BitVec 32).toNat < 2 ^ 16 by decide) (show 0 < defaultMss by decide)

theorem sendOk_newPassive (localAddr remote : SocketAddr) (iss : Seq) (syn : TcpHeader) (now : ℤ) :
    SendOk [] (newPassive localAddr remote iss syn now []).1 0 1 1 :=
  sendOk_of_handshake (Or.inr rfl) rfl rfl rfl rfl rfl rfl rfl (toNat_ofNat_window syn.window)
    (Nat.lt_of_lt_of_le (by omega) (le_clampMss syn.mss))

/-- Every reachable block has its sender in place. -/
theorem Reachable.sendOk {t : Tcb} (h : Reachable t) : ∃ W a n b, SendOk W t a n b := by
  induction h with
  | init h =>
    cases h with
    | connect localAddr remote iss now => exact ⟨_, _, _, _, sendOk_newConnect _ _ _ _⟩
    | passive localAddr remote iss syn now => exact ⟨_, _, _, _, sendOk_newPassive _ _ _ _ _⟩
  | step c _ ih =>
    obtain ⟨W, a, n, b, hO⟩ := ih
    obtain ⟨a', n', b', -, hO', -⟩ := step_sendOk hO c
    exact ⟨_, _, _, _, hO'⟩

end EvansComputer.Tcp.Tcb
