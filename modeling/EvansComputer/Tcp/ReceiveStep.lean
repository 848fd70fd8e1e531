import EvansComputer.Tcp.ReceiveSpace

/-!
# Every event keeps the receiver in its place

`Tcp.ReceiveSpace` follows the bytes of one payload.  Here the rest of the state
machine is gone through: a segment advances the receiving half over some bytes
and at most the peer's FIN, wherever the method returns
(`onSynchronized_advances`), and every other event hands buffered bytes to the
user, throws them away, or leaves them alone (`keeps_step`).
-/

namespace EvansComputer.Tcp

open SerialNumber

namespace Tcb

variable {P : ℕ → List Byte → Prop} {b : Seq} {t : Tcb} {q : ℕ}

variable {u t' : Tcb} {h : TcpHeader} {payload : List Byte}

/-! ## A whole segment -/

/-- The receiving half of the block. -/
def recvView (t : Tcb) : Seq × List Byte × List (Seq × List Byte) × Option Seq × Bool × Bool :=
  (t.rcvNxt, t.rx, t.ooo, t.rxFinSeq, t.finReceived, t.discardRx)

theorem recvView_ext {t : Tcb} (hv : u.recvView = t.recvView) :
    u.rcvNxt = t.rcvNxt ∧ u.rx = t.rx ∧ u.ooo = t.ooo ∧ u.rxFinSeq = t.rxFinSeq ∧
      u.finReceived = t.finReceived ∧ u.discardRx = t.discardRx := by
  simpa only [recvView, Prod.mk.injEq] using hv

theorem rcvWnd_of_view {t : Tcb} (hv : u.recvView = t.recvView) : u.rcvWnd = t.rcvWnd := by
  obtain ⟨-, h2, -, -, -, h6⟩ := recvView_ext hv
  rw [rcvWnd, rcvWnd, h2, h6]

theorem RecvInv.of_view (hI : RecvInv P b t q) (hv : u.recvView = t.recvView) :
    RecvInv P b u q := by
  obtain ⟨h1, h2, h3, -⟩ := recvView_ext hv
  have hw := rcvWnd_of_view hv
  refine ⟨h1.trans hI.nxt_eq, by rw [h2]; exact hI.rx_le, by rw [h3]; exact hI.ooo_le, ?_⟩
  rw [h3, hw]
  exact hI.ooo_pos

/-- What an event did to the receiving half: the bytes `data` entered in order,
`rcv_nxt` moved over them to position `q₁`, and over the peer's FIN if it stood
there. -/
structure Advances (P : ℕ → List Byte → Prop) (b : Seq) (t t' : Tcb) (q q₁ : ℕ)
    (data : List Byte) : Prop where
  length_eq : q + data.length = q₁
  within : q₁ ≤ q + t.rcvWnd
  content : data ≠ [] → P q data
  rx_eq : t'.rx = if t.discardRx then t.rx else t.rx ++ data
  discard_eq : t'.discardRx = t.discardRx
  inv : RecvInv P b t' (q₁ + (t'.finReceived && !t.finReceived).toNat)
  fin : t'.finReceived = t.finReceived ∨
    (t.finReceived = false ∧ t'.finReceived = true ∧ t'.rxFinSeq = some (advance b q₁))

/-- Nothing happened to the receiving half. -/
theorem Advances.of_view (hI : RecvInv P b t q) (hv : t'.recvView = t.recvView) :
    Advances P b t t' q q [] := by
  obtain ⟨h1, h2, h3, h4, h5, h6⟩ := recvView_ext hv
  refine ⟨rfl, Nat.le_add_right _ _, fun h => absurd rfl h, by simp [h2], h6, ?_, Or.inl h5⟩
  rw [h5, Bool.and_not_self]
  exact hI.of_view hv

/-- Closing forgets the pieces that are still ahead. -/
theorem Advances.setClosed (hI : RecvInv P b t q) (err : Option NetError) :
    Advances P b t (t.setClosed err) q q [] := by
  refine ⟨rfl, Nat.le_add_right _ _, fun h => absurd rfl h, by simp [Tcb.setClosed], rfl, ?_,
    Or.inl rfl⟩
  have hfin : (t.setClosed err).finReceived = t.finReceived := rfl
  rw [hfin, Bool.and_not_self]
  refine ⟨hI.nxt_eq, hI.rx_le, ?_, ?_⟩
  · exact Nat.zero_le _
  · intro e he
    exact absurd he (by simp [Tcb.setClosed])

/-- Changes before and after that do not touch the receiving half. -/
theorem Advances.trans_view {s' t₁ : Tcb} {q₁ : ℕ} {data : List Byte}
    (h : Advances P b t₁ s' q q₁ data) (h₁ : t₁.recvView = t.recvView)
    (h₂ : u.recvView = s'.recvView) : Advances P b t u q q₁ data := by
  obtain ⟨-, a2, -, a4, a5, a6⟩ := recvView_ext h₁
  obtain ⟨-, b2, -, b4, b5, b6⟩ := recvView_ext h₂
  refine ⟨h.length_eq, ?_, h.content, ?_, ?_, ?_, ?_⟩
  · rw [← rcvWnd_of_view h₁]
    exact h.within
  · rw [b2, h.rx_eq, a2, a6]
  · rw [b6, h.discard_eq, a6]
  · rw [b5, ← a5]
    exact h.inv.of_view h₂
  · rw [b4, b5, ← a5]
    exact h.fin

/-- **The right edge of the window never moves back**: it stays where bytes are
buffered, and moves on over discarded bytes and the FIN. -/
theorem Advances.edge {q₁ : ℕ} {data : List Byte} (h : Advances P b t t' q q₁ data)
    (hrx : t.rx.length ≤ rxCap) :
    q + t.rcvWnd ≤ q₁ + t'.rcvWnd ∧ q₁ + t'.rcvWnd ≤ q + t.rcvWnd + rxCap := by
  have hlen := h.length_eq
  have hrx' := h.inv.rx_le
  have hwithin := h.within
  have hle := rcvWnd_le t
  cases hd : t.discardRx with
  | true =>
    have h1 : t.rcvWnd = rxCap := by simp [rcvWnd, hd]
    have h2 : t'.rcvWnd = rxCap := by simp [rcvWnd, h.discard_eq, hd]
    omega
  | false =>
    have hrx2 : t'.rx.length = t.rx.length + data.length := by
      rw [h.rx_eq, hd]
      simp
    have h1 : t.rcvWnd = rxCap - t.rx.length := by
      simp only [rcvWnd, hd, Bool.false_eq_true, if_false]
      omega
    have h2 : t'.rcvWnd = rxCap - t'.rx.length := by
      simp only [rcvWnd, h.discard_eq, hd, Bool.false_eq_true, if_false]
      omega
    omega

/-- Where a recorded FIN comes from. -/
def FinFrom (t t' : Tcb) (h : TcpHeader) (payload : List Byte) : Prop :=
  t'.rxFinSeq = t.rxFinSeq ∨
    (h.has FIN = true ∧ t'.rxFinSeq = some (h.seqNum + BitVec.ofNat 32 payload.length))

theorem finFrom_of_view (hv : t'.recvView = t.recvView) : FinFrom t t' h payload :=
  Or.inl (recvView_ext hv).2.2.2.1

@[simp] theorem recvView_noteFin_rxFin (t : Tcb) (h : TcpHeader) (payload : List Byte) :
    (t.noteFin h payload).rx = t.rx ∧ (t.noteFin h payload).rcvNxt = t.rcvNxt ∧
      (t.noteFin h payload).ooo = t.ooo ∧ (t.noteFin h payload).finReceived = t.finReceived ∧
      (t.noteFin h payload).discardRx = t.discardRx := by
  simp only [noteFin]
  split <;> exact ⟨rfl, rfl, rfl, rfl, rfl⟩

/-- Step 5. -/
theorem processData_accepts (hP : Content P) (hI : RecvInv P b t q)
    (hc : SegContent P t q h.seqNum payload) :
    ∃ q₁ data, q + data.length = q₁ ∧ q₁ ≤ q + t.rcvWnd ∧ (data ≠ [] → P q data) ∧
      (t.processData h payload).1.rx = (if t.discardRx then t.rx else t.rx ++ data) ∧
      RecvInv P b (t.processData h payload).1 q₁ ∧ FinFrom t
        (t.processData h payload).1 h payload := by
  simp only [processData]
  split
  · obtain ⟨q₁, data, hA⟩ := takePayload_accepts hP hI hc
    obtain ⟨n1, n2, n3, n4, n5⟩ := recvView_noteFin_rxFin (t.takePayload h payload) h payload
    have hw : ((t.takePayload h payload).noteFin h payload).rcvWnd
        = (t.takePayload h payload).rcvWnd := by
      rw [rcvWnd, rcvWnd, n1, n5]
    refine ⟨q₁, data, hA.received.length_eq, hA.within, hA.received.content, ?_, ?_, ?_⟩
    · rw [n1, hA.received.rx_eq]
    · refine ⟨n2.trans hA.inv.nxt_eq, by rw [n1]; exact hA.inv.rx_le,
        by rw [n3]; exact hA.inv.ooo_le, ?_⟩
      rw [n3, hw]
      exact hA.inv.ooo_pos
    · simp only [noteFin]
      split
      · rename_i hfin
        simp only [Bool.and_eq_true] at hfin
        exact Or.inr ⟨hfin.1.1, rfl⟩
      · exact Or.inl hA.received.fin_eq
  · exact ⟨q, [], rfl, Nat.le_add_right _ _, fun h => absurd rfl h, by simp, hI, Or.inl rfl⟩

theorem processFin_eq (t : Tcb) (now : ℤ) :
    (t.processFin now).recvView = t.recvView ∨
      (t.finReceived = false ∧ t.rxFinSeq = some t.rcvNxt ∧
        (t.processFin now).recvView = (t.rcvNxt + 1, t.rx, [], t.rxFinSeq, true, t.discardRx)) := by
  simp only [processFin]
  split
  · rename_i hfin
    rw [Bool.and_eq_true, beq_iff_eq] at hfin
    refine Or.inr ⟨by simpa using hfin.1, hfin.2, ?_⟩
    split
    · rfl
    · split <;> rfl
    · rfl
    · rfl
  · exact Or.inl rfl

/-- **Steps 5 and 6.** -/
theorem deliver_advances (hP : Content P) (now : ℤ) (out : List Seg) (hI : RecvInv P b t q)
    (hc : SegContent P t q h.seqNum payload) :
    ∃ q₁ data, Advances P b t (t.deliver h payload now out).1 q q₁ data ∧
      FinFrom t (t.deliver h payload now out).1 h payload := by
  obtain ⟨q₁, data, h1, h2, h3, h4, h5, h6⟩ := processData_accepts hP hI hc
  have hdis : (t.processData h payload).1.discardRx = t.discardRx :=
    eq_of_withoutReceive Tcb.discardRx (fun _ => rfl) (withoutReceive_processData t h payload)
  have hfr : (t.processData h payload).1.finReceived = t.finReceived :=
    eq_of_withoutReceive Tcb.finReceived (fun _ => rfl) (withoutReceive_processData t h payload)
  have hrest : (t.deliver h payload now out).1.recvView
      = ((t.processData h payload).1.processFin now).recvView := by
    have hout := eq_of_withoutSend recvView (fun _ => rfl)
      (withoutSend_output (((t.processData h payload).1.processFin now).refreshTimeWait h now) out
        now (t.processData h payload).2 false)
    refine hout.trans ?_
    rw [refreshTimeWait]
    split <;> rfl
  generalize (t.processData h payload).1 = t₁ at h4 h5 h6 hdis hfr hrest
  generalize (t.deliver h payload now out).1 = t' at hrest
  refine ⟨q₁, data, ?_⟩
  rcases processFin_eq t₁ now with hsame | ⟨hf, hs, hnew⟩
  · have hv : t'.recvView = t₁.recvView := hrest.trans hsame
    obtain ⟨c1, c2, c3, c4, c5, c6⟩ := recvView_ext hv
    have hfin : t'.finReceived = t.finReceived := c5.trans hfr
    refine ⟨⟨h1, h2, h3, by rw [c2, h4], c6.trans hdis, ?_, Or.inl hfin⟩, ?_⟩
    · rw [hfin, Bool.and_not_self]
      exact h5.of_view hv
    · rw [FinFrom, c4]
      exact h6
  · have hv := hrest.trans hnew
    simp only [recvView, Prod.mk.injEq] at hv
    obtain ⟨c1, c2, c3, c4, c5, c6⟩ := hv
    have hf' : t.finReceived = false := hfr.symm.trans hf
    refine ⟨⟨h1, h2, h3, by rw [c2, h4], c6.trans hdis, ?_, Or.inr ⟨hf', c5, ?_⟩⟩, ?_⟩
    · rw [c5, hf']
      refine ⟨?_, by rw [c2]; exact h5.rx_le, by rw [c3]; exact Nat.zero_le _, ?_⟩
      · rw [c1, h5.nxt_eq]
        exact advance_advance b q₁ 1
      · intro e he
        rw [c3] at he
        exact absurd he (by simp)
    · rw [c4, hs, h5.nxt_eq]
    · rw [FinFrom, c4]
      exact h6

/-- Step 4 does not touch the receiving half. -/
def FlowKeeps (t : Tcb) : Flow → Prop
  | .stop u _ => u.recvView = t.recvView ∧ (t.state ≠ .synSent → u.state ≠ .synSent)
  | .next u _ => u.recvView = t.recvView ∧ (t.state ≠ .synSent → u.state ≠ .synSent)

theorem flowKeeps_processAck (t : Tcb) (h : TcpHeader) (payload : List Byte) (now : ℤ)
    (out : List Seg) : FlowKeeps t (t.processAck h payload now out) := by
  by_cases hs : t.state = .synReceived
  · rw [processAck, if_pos hs, ackSynReceived]
    split
    · exact ⟨rfl, fun _ => by simp⟩
    · exact ⟨rfl, id⟩
  · have hframe := withoutSend_processAck t out h payload now hs
    have key : ∀ u : Tcb, u.withoutSend = t.withoutSend →
        u.recvView = t.recvView ∧ (t.state ≠ .synSent → u.state ≠ .synSent) := by
      intro u hu
      have hst := eq_of_withoutSend Tcb.state (fun _ => rfl) hu
      exact ⟨eq_of_withoutSend recvView (fun _ => rfl) hu, fun h => by rw [hst]; exact h⟩
    generalize t.processAck h payload now out = flow at hframe
    cases flow with
    | stop u out' => exact key u hframe
    | next u out' => exact key u hframe

theorem checkFinAcked_cases (t : Tcb) (now : ℤ) (out : List Seg) :
    t.checkFinAcked now out = .stop (t.setClosed none) out ∨
      ∃ u : Tcb, t.checkFinAcked now out = .next u out ∧ u.recvView = t.recvView ∧
        (t.state ≠ .synSent → u.state ≠ .synSent) := by
  rw [checkFinAcked]
  split
  · split
    · exact Or.inr ⟨_, rfl, rfl, fun _ => by simp [enterFinWait2]⟩
    · exact Or.inr ⟨_, rfl, rfl, fun _ => by simp [enterTimeWait]⟩
    · exact Or.inl rfl
    · exact Or.inr ⟨t, rfl, rfl, id⟩
  · exact Or.inr ⟨t, rfl, rfl, id⟩

theorem SegContent.of_view {seq : Seq} {d : List Byte} (h : SegContent P t q seq d)
    (hv : u.recvView = t.recvView) : SegContent P u q seq d := by
  have h1 := (recvView_ext hv).1
  rw [SegContent, h1]
  exact h

theorem state_deliver (t : Tcb) (h : TcpHeader) (payload : List Byte) (now : ℤ)
    (out : List Seg) (hs : t.state ≠ .synSent) :
    (t.deliver h payload now out).1.state ≠ .synSent := by
  have hout := eq_of_withoutSend Tcb.state (fun _ => rfl)
    (withoutSend_output (((t.processData h payload).1.processFin now).refreshTimeWait h now) out
      now (t.processData h payload).2 false)
  have hdata : (t.processData h payload).1.state = t.state :=
    eq_of_withoutReceive Tcb.state (fun _ => rfl) (withoutReceive_processData t h payload)
  have hfin : ((t.processData h payload).1.processFin now).state ≠ .synSent := by
    rw [← hdata] at hs
    simp only [processFin]
    split
    · split
      · simp
      · split <;> simp [enterTimeWait]
      · simp [enterTimeWait]
      · exact hs
    · exact hs
  rw [deliver, hout, refreshTimeWait]
  split <;> exact hfin

/-- **A segment in a synchronized state or in `SynReceived`**: at every return the
receiving half has advanced by some bytes of the segment or of what was waiting,
and at most by the FIN. -/
theorem onSynchronized_advances (hP : Content P) (now : ℤ) (out : List Seg) (hI : RecvInv P b t q)
    (hc : SegContent P t q h.seqNum payload) (hs : t.state ≠ .synSent) :
    ∃ q₁ data, Advances P b t (t.onSynchronized h payload now out).1 q q₁ data ∧
      FinFrom t (t.onSynchronized h payload now out).1 h payload ∧
      (t.onSynchronized h payload now out).1.state ≠ .synSent := by
  have hsame : ∀ u : Tcb, u.recvView = t.recvView → u.state ≠ .synSent →
      ∃ q₁ data, Advances P b t u q q₁ data ∧ FinFrom t u h payload ∧ u.state ≠ .synSent :=
    fun u hv hu => ⟨q, [], Advances.of_view hI hv, finFrom_of_view hv, hu⟩
  rw [onSynchronized]
  split
  · exact hsame _ rfl hs
  split
  · split
    · exact hsame _ rfl hs
    · rw [refreshTimeWait]
      split <;> exact hsame _ rfl hs
  split
  · split
    · exact hsame _ rfl hs
    · exact ⟨q, [], Advances.setClosed hI _, Or.inl rfl, by simp [setClosed]⟩
  split
  · exact hsame _ rfl hs
  split
  · exact hsame _ rfl hs
  have hF := flowKeeps_processAck t h payload now out
  generalize t.processAck h payload now out = flow at hF
  cases flow with
  | stop u out' => exact hsame u hF.1 (hF.2 hs)
  | next u out' =>
    obtain ⟨hv, hst⟩ := hF
    simp only
    rcases checkFinAcked_cases u now out' with hstop | ⟨w, hnext, hv', hst'⟩
    · rw [hstop]
      refine ⟨q, [], ?_, ?_, by simp [setClosed]⟩
      · exact (Advances.setClosed (hI.of_view hv) none).trans_view hv rfl
      · exact Or.inl (recvView_ext hv).2.2.2.1
    · rw [hnext]
      have hvw : w.recvView = t.recvView := hv'.trans hv
      obtain ⟨q₁, data, hA, hfin⟩ := deliver_advances hP now out' (hI.of_view hvw) (hc.of_view hvw)
      refine ⟨q₁, data, hA.trans_view hvw rfl, ?_, state_deliver w h payload now out'
        (hst' (hst hs))⟩
      rw [FinFrom, ← (recvView_ext hvw).2.2.2.1]
      exact hfin

/-- The answer to our SYN: refused, or the peer's initial sequence number is known
from now on. -/
theorem onSynSent_cases (t : Tcb) (h : TcpHeader) (now : ℤ) (out : List Seg) :
    (t.onSynSent h now out).1 = t ∨ (∃ err, (t.onSynSent h now out).1 = t.setClosed err) ∨
      (h.has SYN = true ∧ (t.onSynSent h now out).1.state ≠ .synSent ∧
        (t.onSynSent h now out).1.recvView = { t with rcvNxt := h.seqNum + 1 }.recvView) := by
  simp only [onSynSent]
  split
  · split <;> exact Or.inl rfl
  split
  · split
    · exact Or.inr (Or.inl ⟨_, rfl⟩)
    · exact Or.inl rfl
  split
  · exact Or.inl rfl
  rename_i hsyn
  have hsyn : h.has SYN = true := by simpa using hsyn
  split
  · have hf := withoutSend_output { t with
      rcvNxt := h.seqNum + 1
      sndMss := clampMss h.mss
      sndUna := h.ackNum
      sndWnd := BitVec.ofNat 32 h.window.toNat
      sndWl1 := h.seqNum
      sndWl2 := h.ackNum
      state := .established
      rtoDeadline := none
      retries := 0
      rto := initialRtoMs } out now true false
    have hv := eq_of_withoutSend recvView (fun _ => rfl) hf
    refine Or.inr (Or.inr ⟨hsyn, ?_, hv⟩)
    rw [eq_of_withoutSend Tcb.state (fun _ => rfl) hf]
    simp
  · exact Or.inr (Or.inr ⟨hsyn, by simp [sendSyn, advWindow], rfl⟩)

/-! ## The other events -/

/-- How an event other than a segment may change the state, as far as the
receiving half cares. -/
structure StateKeeps (s s' : TcpState) : Prop where
  opened : s ≠ .synSent → s' ≠ .synSent
  closed : s = .closed → s' = .closed
  opening : s = .synSent → s' = .synSent ∨ s' = .closed

theorem StateKeeps.refl (s : TcpState) : StateKeeps s s := ⟨id, id, Or.inl⟩

theorem StateKeeps.to_closed (s : TcpState) : StateKeeps s .closed :=
  ⟨fun _ => by simp, fun _ => rfl, fun _ => Or.inr rfl⟩

/-- What an event other than a segment may do: hand buffered bytes to the user,
throw them away for good, or forget out-of-order pieces. -/
structure Keeps (t t' : Tcb) (ret : List Byte) : Prop where
  nxt_eq : t'.rcvNxt = t.rcvNxt
  finSeq_eq : t'.rxFinSeq = t.rxFinSeq
  fin_eq : t'.finReceived = t.finReceived
  ooo_sub : ∀ e ∈ t'.ooo, e ∈ t.ooo
  ooo_len : t'.ooo.length ≤ t.ooo.length
  rx_prefix : ret ++ t'.rx <+: t.rx
  rx_eq : t'.discardRx = false → t.discardRx = false ∧ ret ++ t'.rx = t.rx
  state : StateKeeps t.state t'.state

theorem Keeps.of_view (hv : t'.recvView = t.recvView) (hs : StateKeeps t.state t'.state) :
    Keeps t t' [] := by
  obtain ⟨h1, h2, h3, h4, h5, h6⟩ := recvView_ext hv
  refine ⟨h1, h4, h5, ?_, by rw [h3], ?_, ?_, hs⟩
  · rw [h3]
    exact fun e he => he
  · rw [List.nil_append, h2]
  · intro h
    exact ⟨h6.symm.trans h, h2⟩

theorem Keeps.of_withoutSend (hu : t'.withoutSend = t.withoutSend) :
    Keeps t t' [] := by
  refine Keeps.of_view (eq_of_withoutSend recvView (fun _ => rfl) hu) ?_
  rw [eq_of_withoutSend Tcb.state (fun _ => rfl) hu]
  exact StateKeeps.refl _

theorem Keeps.setClosed (hv : u.recvView = t.recvView) (err : Option NetError) :
    Keeps t (u.setClosed err) [] := by
  obtain ⟨h1, h2, h3, h4, h5, h6⟩ := recvView_ext hv
  refine ⟨h1, h4, h5, ?_, Nat.zero_le _, ?_, ?_, StateKeeps.to_closed _⟩
  · intro e he
    exact absurd he (by simp [Tcb.setClosed])
  · change [] ++ u.rx <+: t.rx
    rw [List.nil_append, h2]
  · intro h
    exact ⟨h6.symm.trans h, h2⟩

/-- The window does not shrink. -/
theorem Keeps.rcvWnd_le {ret : List Byte} (h : Keeps t t' ret) :
    t.rcvWnd ≤ t'.rcvWnd := by
  have hlen := h.rx_prefix.length_le
  rw [List.length_append] at hlen
  have hle := Tcb.rcvWnd_le t
  cases hd' : t'.discardRx with
  | true =>
    have : t'.rcvWnd = rxCap := by simp [rcvWnd, hd']
    omega
  | false =>
    have hd := (h.rx_eq hd').1
    simp only [rcvWnd, hd, hd', Bool.false_eq_true, if_false]
    omega

theorem Keeps.recvInv {ret : List Byte} (h : Keeps t t' ret) (hI : RecvInv P b t q) :
    RecvInv P b t' q := by
  have hw := h.rcvWnd_le
  have hlen := h.rx_prefix.length_le
  have hrx := hI.rx_le
  rw [List.length_append] at hlen
  refine ⟨h.nxt_eq.trans hI.nxt_eq, by omega, h.ooo_len.trans hI.ooo_le, ?_⟩
  intro e he
  obtain ⟨p, h1, h2, h3, h4⟩ := hI.ooo_pos e (h.ooo_sub e he)
  exact ⟨p, h1, h2, by omega, h4⟩

theorem keeps_read (t : Tcb) (cap : ℕ) (out : List Seg) :
    Keeps t (t.read cap out).1 (t.read cap out).2.2 := by
  have key : ∀ u : Tcb, u.recvView = { t with rx := t.rx.drop (min cap t.rx.length) }.recvView →
      u.state = t.state → Keeps t u (t.rx.take (min cap t.rx.length)) := by
    intro u hv hs
    obtain ⟨h1, h2, h3, h4, h5, h6⟩ := recvView_ext hv
    have hrx : t.rx.take (min cap t.rx.length) ++ u.rx = t.rx := by
      rw [h2]
      exact List.take_append_drop _ _
    refine ⟨h1, h4, h5, ?_, by rw [h3], ⟨[], by rw [List.append_nil, hrx]⟩,
      fun h => ⟨h6.symm.trans h, hrx⟩, ?_⟩
    · rw [h3]
      exact fun e he => he
    · rw [hs]
      exact StateKeeps.refl _
  simp only [read]
  split
  · split <;> exact key _ rfl rfl
  · exact key _ rfl rfl

theorem keeps_shutdownWrite (t : Tcb) (now : ℤ) (out : List Seg) :
    Keeps t (t.shutdownWrite now out).1 [] := by
  have key : ∀ s : TcpState, (s = .finWait1 ∨ s = .lastAck) → t.state ≠ .synSent →
      t.state ≠ .closed →
      Keeps t ({ t with finPending := true, state := s }.output now out false false).1 [] := by
    intro s hs h1 h2
    have hf := withoutSend_output { t with finPending := true, state := s } out now false false
    have hv := eq_of_withoutSend recvView (fun _ => rfl) hf
    refine Keeps.of_view hv ?_
    rw [eq_of_withoutSend Tcb.state (fun _ => rfl) hf]
    refine ⟨fun _ => ?_, fun h => absurd h h2, fun h => absurd h h1⟩
    rcases hs with rfl | rfl <;> simp
  rw [shutdownWrite]
  split
  · rename_i hs
    exact key _ (Or.inl rfl) (by simp [hs]) (by simp [hs])
  · rename_i hs
    exact key _ (Or.inr rfl) (by simp [hs]) (by simp [hs])
  · exact Keeps.of_view rfl (StateKeeps.refl _)

/-- Closing the handle throws the buffer away and everything that follows. -/
theorem keeps_close (t : Tcb) (now : ℤ) (out : List Seg) : Keeps t (t.close now out).1 [] := by
  have key : ∀ u : Tcb, Keeps { t with userOpen := false, discardRx := true, rx := [] } u [] →
      Keeps t u [] := by
    intro u hk
    have hdis : u.discardRx = true := by
      by_contra hcon
      have := (hk.rx_eq (by simpa using hcon)).1
      simp at this
    refine ⟨hk.nxt_eq, hk.finSeq_eq, hk.fin_eq, hk.ooo_sub, hk.ooo_len, ?_, ?_, hk.state⟩
    · exact hk.rx_prefix.trans List.nil_prefix
    · intro h
      exact absurd (hdis.symm.trans h) (by simp)
  refine key _ ?_
  simp only [close]
  split
  · exact Keeps.of_view rfl (StateKeeps.refl _)
  · exact Keeps.of_view rfl (StateKeeps.refl _)
  · exact Keeps.of_view rfl (StateKeeps.refl _)
  · exact Keeps.of_view rfl (StateKeeps.refl _)
  · exact keeps_shutdownWrite _ now out
  · exact keeps_shutdownWrite _ now out
  · exact Keeps.of_view rfl (StateKeeps.refl _)
  · exact Keeps.of_view rfl (StateKeeps.refl _)

/-- **Every event but a segment.** -/
theorem keeps_step (t : Tcb) (c : Call) (hc : c.isLocal = true) :
    Keeps t (t.step c).1 (t.returned c) := by
  cases c with
  | write data now =>
    rw [step]
    split
    · exact Keeps.of_withoutSend (withoutSend_output { t with tx := _ } [] now false false)
    · exact Keeps.of_view rfl (StateKeeps.refl _)
  | read cap => exact keeps_read t cap []
  | shutdownWrite now => exact keeps_shutdownWrite t now []
  | close now => exact keeps_close t now []
  | abort => exact Keeps.setClosed (t := t) (u := { t with userOpen := false }) rfl _
  | fail err => exact Keeps.setClosed rfl _
  | onUnreachable =>
    rw [step, onUnreachable]
    split
    · exact Keeps.setClosed rfl _
    · exact Keeps.of_view rfl (StateKeeps.refl _)
  | accept => exact Keeps.of_view rfl (StateKeeps.refl _)
  | onTimer now =>
    rcases withoutSend_onTimer t [] now with ⟨u, err, hu, hf⟩ | hf
    · rw [step, hu]
      exact Keeps.setClosed (eq_of_withoutSend recvView (fun _ => rfl) hf) err
    · exact Keeps.of_withoutSend hf
  | onSegment h payload now => exact absurd hc (by simp [Call.isLocal])

end EvansComputer.Tcp.Tcb
