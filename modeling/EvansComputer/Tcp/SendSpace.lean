import EvansComputer.Tcp.Frames

/-!
# The send sequence space

Everything a connection sends is a piece of one stream: the bytes its user has
written so far.  This file names the position of every sender variable in that
stream and shows that no event --- whatever the peer sends --- moves one of them
out of place.

Positions are counted from the initial sequence number without wrapping: the SYN
is position `0`, byte `i` of the stream is position `i + 1`, and the FIN follows
the last byte.  `SendInv W v a n b` says that `snd_una`, `snd_nxt` and `snd_max`
are the words at positions `a ≤ n ≤ b`, that `tx` is the part of the stream `W`
from `a` on, and that the FIN, once sent, sits at the end of `W`.

Only the fields the sender reads matter, so the invariant is stated on
`Tcb.sendView`.  A method that does not touch those fields leaves the view
unchanged by `rfl`, and that is all its proof.
-/

namespace EvansComputer.Tcp

open SerialNumber

/-! ## The sender's fields -/

/-- The part of the block the sender works on. -/
structure SendView where
  state : TcpState
  iss : Seq
  una : Seq
  nxt : Seq
  max : Seq
  wnd : BitVec 32
  mss : ℕ
  tx : List Byte
  finPending : Bool
  finSeq : Option Seq
  finAcked : Bool

namespace Tcb

def sendView (t : Tcb) : SendView where
  state := t.state
  iss := t.iss
  una := t.sndUna
  nxt := t.sndNxt
  max := t.sndMax
  wnd := t.sndWnd
  mss := t.sndMss
  tx := t.tx
  finPending := t.finPending
  finSeq := t.finSeq
  finAcked := t.finAcked

variable (t : Tcb) (out : List Seg) (h : TcpHeader) (payload : List Byte) (now : ℤ)

@[simp] theorem sendView_sendAck : (t.sendAck out).1.sendView = t.sendView := rfl

@[simp] theorem sendView_sendSyn : (t.sendSyn out).1.sendView = t.sendView := rfl

@[simp] theorem sendView_armRto : (t.armRto now).sendView = t.sendView := by
  simp only [armRto]
  split <;> rfl

@[simp] theorem sendView_processData : (t.processData h payload).1.sendView = t.sendView :=
  eq_of_withoutReceive sendView (fun _ => rfl) (withoutReceive_processData t h payload)

@[simp] theorem sendView_refreshTimeWait :
    (t.refreshTimeWait h now).sendView = t.sendView := by
  simp only [refreshTimeWait]
  split <;> rfl

@[simp] theorem sendView_retransmitFirst :
    (t.retransmitFirst out).1.sendView = t.sendView := by
  simp only [retransmitFirst]
  split <;> rfl

@[simp] theorem sendView_countDupAck : (t.countDupAck out).1.sendView = t.sendView := by
  simp only [countDupAck]
  split
  · rw [sendView_retransmitFirst]
    rfl
  · rfl

@[simp] theorem sendView_peerAlive : (t.peerAlive h).sendView = t.sendView := by
  rw [peerAlive]
  split <;> rfl

@[simp] theorem sendView_ackRepeat :
    (t.ackRepeat h payload out).1.sendView = t.sendView := by
  simp only [ackRepeat, sendView_peerAlive]
  split <;> simp

end Tcb

/-! ## Positions in the stream -/

/-- The sender's place in the stream `W` once the handshake is over: `una` is at
position `a` and everything sent lies before position `b`. -/
structure Streaming (W : List Byte) (v : SendView) (a b : ℕ) : Prop where
  /-- `tx` is what the peer has not acknowledged. -/
  tx_suffix : v.tx <:+ W
  una_pos : a + v.tx.length = 1 + W.length + v.finAcked.toNat
  tx_cap : v.tx.length ≤ txCap
  /-- Without a FIN nothing past the stream has been sent. -/
  max_data : v.finSeq = none → b ≤ 1 + W.length
  /-- The FIN sits right after the stream, and nothing follows it. -/
  max_fin : ∀ f, v.finSeq = some f → f = advance v.iss (1 + W.length) ∧ b = 2 + W.length
  fin_pending : v.finSeq ≠ none → v.finPending = true
  fin_acked : v.finAcked = true → v.finSeq ≠ none ∧ v.tx = []

theorem Streaming.pending_of_acked {W : List Byte} {v : SendView} {a b : ℕ}
    (h : Streaming W v a b) (hack : v.finAcked = true) : v.finPending = true :=
  h.fin_pending (h.fin_acked hack).1

/-- The sender's invariant, with the positions of `snd_una`, `snd_nxt` and
`snd_max` counted from the initial sequence number. -/
structure SendInv (W : List Byte) (v : SendView) (a n b : ℕ) : Prop where
  una_eq : v.una = advance v.iss a
  nxt_eq : v.nxt = advance v.iss n
  max_eq : v.max = advance v.iss b
  una_le : a ≤ n
  nxt_le : n ≤ b
  span : b ≤ a + txCap + 1
  handshake : v.state = .synSent ∨ v.state = .synReceived →
    a = 0 ∧ n = 1 ∧ b = 1 ∧ v.tx = W ∧ W.length ≤ txCap ∧ v.finPending = false ∧
      v.finSeq = none ∧ v.finAcked = false
  streaming : v.state ≠ .closed → v.state ≠ .synSent → v.state ≠ .synReceived →
    Streaming W v a b
  /-- The peer's window is what a header can say. -/
  wnd_lt : v.wnd.toNat < 2 ^ 16
  mss_pos : 0 < v.mss

/-! ## What a segment carries -/

/-- The segment `s` carries the stream's bytes from position `p` on, and the FIN
only at the end of the stream. -/
structure Carries (iss : Seq) (W : List Byte) (p : ℕ) (s : Seg) : Prop where
  pos : 1 ≤ p
  seq_eq : s.seq = advance iss p
  payload_eq : s.payload = (W.drop (p - 1)).take s.payload.length
  fits : p + s.payload.length ≤ 1 + W.length
  fin_end : s.has FIN = true → p + s.payload.length = 1 + W.length
  not_syn : s.has SYN = false
  not_rst : s.has RST = false

/-- A segment that carries nothing: a bare acknowledgment or a reset. -/
def Silent (s : Seg) : Prop := s.payload = [] ∧ s.has FIN = false ∧ s.has SYN = false

/-- The SYN, at the initial sequence number. -/
def OpensAt (iss : Seq) (s : Seg) : Prop :=
  s.payload = [] ∧ s.has FIN = false ∧ s.has SYN = true ∧ s.has RST = false ∧ s.seq = iss

theorem OpensAt.not_data {iss : Seq} {s : Seg} (h : OpensAt iss s) :
    ¬ (s.payload ≠ [] ∨ s.has FIN = true) := by
  simp [h.1, h.2.1]

theorem Silent.not_data {s : Seg} (h : Silent s) : ¬ (s.payload ≠ [] ∨ s.has FIN = true) := by
  simp [h.1, h.2.1]

/-- **An honest segment**: the SYN, nothing at all, or a piece of the stream that
starts at or after position `lo` and ends at or before position `hi`. -/
def SegOk (iss : Seq) (W : List Byte) (lo hi : ℕ) (s : Seg) : Prop :=
  OpensAt iss s ∨ Silent s ∨
    ∃ p, Carries iss W p s ∧ lo ≤ p ∧ p + s.payload.length + (s.has FIN).toNat ≤ hi

theorem SegOk.mono {iss : Seq} {W : List Byte} {lo lo' hi hi' : ℕ} {s : Seg}
    (hlo : lo' ≤ lo) (hhi : hi ≤ hi') (hs : SegOk iss W lo hi s) : SegOk iss W lo' hi' s := by
  rcases hs with h | h | ⟨p, hp, h1, h2⟩
  · exact Or.inl h
  · exact Or.inr (Or.inl h)
  · exact Or.inr (Or.inr ⟨p, hp, hlo.trans h1, h2.trans hhi⟩)

namespace Tcb

variable {t : Tcb} {out : List Seg}

theorem silent_sendAck_seg (t : Tcb) : Silent (t.seg t.sndNxt ACK []).2 :=
  ⟨rfl, show (ACK &&& FIN != 0) = false by decide, show (ACK &&& SYN != 0) = false by decide⟩

theorem silent_rstSeg (seq : Seq) : Silent (rstSeg seq) :=
  ⟨rfl, show (RST &&& FIN != 0) = false by decide, show (RST &&& SYN != 0) = false by decide⟩

theorem dataFlags_fin (len : ℕ) (fin : Bool) : (dataFlags len fin &&& FIN != 0) = fin := by
  rw [dataFlags]
  split <;> cases fin <;> decide

theorem dataFlags_syn (len : ℕ) (fin : Bool) : (dataFlags len fin &&& SYN != 0) = false := by
  rw [dataFlags]
  split <;> cases fin <;> decide

theorem dataFlags_rst (len : ℕ) (fin : Bool) : (dataFlags len fin &&& RST != 0) = false := by
  rw [dataFlags]
  split <;> cases fin <;> decide

/-- A slice of `tx` at position `p`, sent with the flags of a data segment,
carries the stream from `p` on. -/
theorem carries_of_slice {iss : Seq} {W tx : List Byte} {p o len : ℕ} {fin : Bool} {s : Seg}
    (htx : tx <:+ W) (hp : p + tx.length = 1 + W.length + o) (hlen : o + len ≤ tx.length)
    (hseq : s.seq = advance iss p) (hpay : s.payload = (tx.drop o).take len)
    (hflags : s.flags = dataFlags len fin)
    (hfin : fin = true → o + len = tx.length) : Carries iss W p s := by
  have hl : s.payload.length = len := by
    rw [hpay, List.length_take, List.length_drop]
    omega
  have hW := htx.length_le
  refine ⟨by omega, hseq, ?_, by omega, ?_, ?_, ?_⟩
  · obtain ⟨pre, rfl⟩ := htx
    rw [hl, hpay]
    have hdrop : (pre ++ tx).drop (p - 1) = tx.drop o := by
      rw [List.length_append] at hp
      have : p - 1 = pre.length + o := by omega
      rw [this, List.drop_append]
      simp
    rw [hdrop]
  · intro h
    rw [Seg.has, hflags, dataFlags_fin] at h
    have := hfin h
    omega
  · rw [Seg.has, hflags, dataFlags_syn]
  · rw [Seg.has, hflags, dataFlags_rst]

/-! ## The send loop -/

section Output

variable {W : List Byte} {a n b : ℕ} {probe : Bool}

/-- The loop's `offset` is the distance from `a` to `n`. -/
theorem sendOffset_eq (hI : SendInv W t.sendView a n b) : t.sendOffset = n - a := by
  have h1 : t.sndNxt = advance t.iss n := hI.nxt_eq
  have h2 : t.sndUna = advance t.iss a := hI.una_eq
  have := hI.nxt_le
  have := hI.span
  rw [sendOffset, h1, h2, toNat_advance_sub hI.una_le (by simp only [txCap] at *; omega)]

/-- What a round decides to send lies inside `tx`; it is never nothing, and the
FIN goes out only with the last byte. -/
theorem outputPlan_spec (hI : SendInv W t.sendView a n b) {o l : ℕ} {f : Bool}
    (hp : t.outputPlan probe = some (o, l, f)) :
    o = n - a ∧ o + l ≤ t.tx.length ∧ (0 < l ∨ f = true) ∧
      (f = true → o + l = t.tx.length ∧ t.finPending = true) := by
  rw [outputPlan] at hp
  split at hp
  · exact absurd hp (by simp)
  · split at hp
    · exact absurd hp (by simp)
    · rename_i hle hne
      simp only [Option.some.injEq, Prod.mk.injEq] at hp
      obtain ⟨rfl, rfl, rfl⟩ := hp
      refine ⟨sendOffset_eq hI, ?_, ?_, ?_⟩
      · simp only [sendLen]
        omega
      · by_contra hcon
        rw [not_or] at hcon
        exact hne ⟨by omega, by simpa using hcon.2⟩
      · intro hf
        simp only [finNow, Bool.and_eq_true, beq_iff_eq] at hf
        exact ⟨hf.2, hf.1.1⟩

/-- The sender's fields after one round. -/
theorem sendView_outputSend (t : Tcb) (now : ℤ) (o l : ℕ) (f : Bool) :
    (t.outputSend now o l f).1.sendView =
      { t.sendView with
        nxt := t.sndNxt + BitVec.ofNat 32 (l + f.toNat)
        max :=
          if seqGt (t.sndNxt + BitVec.ofNat 32 (l + f.toNat)) t.sndMax then
            t.sndNxt + BitVec.ofNat 32 (l + f.toNat)
          else t.sndMax
        finSeq := if f then some (t.sndNxt + BitVec.ofNat 32 (l + f.toNat) - 1) else t.finSeq } :=
  rfl

/-- **One round of the send loop.**  `snd_nxt` moves past what was sent and
`snd_max` keeps up with it; the segment carries the stream from the old
`snd_nxt` on and ends before the new `snd_max`. -/
theorem outputSend_inv (now : ℤ) (hI : SendInv W t.sendView a n b) (hcan : t.canSendData = true)
    (hack : t.finAcked = false) {o l : ℕ} {f : Bool}
    (hp : t.outputPlan probe = some (o, l, f)) :
    SendInv W (t.outputSend now o l f).1.sendView a (n + l + f.toNat)
        (max b (n + l + f.toNat)) ∧
      Carries t.iss W n (t.outputSend now o l f).2 ∧
      (t.outputSend now o l f).2.payload.length = l ∧
      (t.outputSend now o l f).2.has FIN = f := by
  obtain ⟨ho, hol, hpos, hfin⟩ := outputPlan_spec hI hp
  have hstate : t.state ≠ .closed ∧ t.state ≠ .synSent ∧ t.state ≠ .synReceived := by
    refine ⟨?_, ?_, ?_⟩ <;> intro h <;> simp [canSendData, h] at hcan
  have hS : Streaming W t.sendView a b := hI.streaming hstate.1 hstate.2.1 hstate.2.2
  have hup : a + t.tx.length = 1 + W.length := by
    simpa [sendView, hack] using hS.una_pos
  have hcap : t.tx.length ≤ txCap := hS.tx_cap
  have hle := hI.una_le
  have hnb := hI.nxt_le
  have hspan := hI.span
  have hnxt : t.sndNxt = advance t.iss n := hI.nxt_eq
  have hmax : t.sndMax = advance t.iss b := hI.max_eq
  have hnxt' : t.sndNxt + BitVec.ofNat 32 (l + f.toNat) = advance t.iss (n + l + f.toNat) := by
    rw [add_ofNat_eq_advance, hnxt, advance_advance, add_assoc]
  have hft : f.toNat ≤ 1 := Bool.toNat_le f
  have hgt : seqGt (advance t.iss (n + l + f.toNat)) (advance t.iss b)
      = decide (b < n + l + f.toNat) := by
    apply seqGt_advance <;> simp only [txCap] at * <;> omega
  have hmax' : (if seqGt (advance t.iss (n + l + f.toNat)) (advance t.iss b) then
      advance t.iss (n + l + f.toNat) else advance t.iss b)
      = advance t.iss (max b (n + l + f.toNat)) := by
    rw [hgt]
    by_cases hlt : b < n + l + f.toNat
    · rw [if_pos (by simpa using hlt), Nat.max_eq_right (Nat.le_of_lt hlt)]
    · rw [if_neg (by simpa using hlt), Nat.max_eq_left (by omega)]
  refine ⟨?_, ?_, ?_, ?_⟩
  · rw [sendView_outputSend, hnxt', hmax, hmax']
    refine ⟨hI.una_eq, rfl, rfl, by omega, le_max_right _ _, ?_, ?_, ?_, hI.wnd_lt, hI.mss_pos⟩
    · simp only [max_le_iff]
      omega
    · rintro (h | h)
      · exact absurd h hstate.2.1
      · exact absurd h hstate.2.2
    · intro _ _ _
      refine ⟨hS.tx_suffix, hS.una_pos, hS.tx_cap, ?_, ?_, ?_, ?_⟩
      · intro hnone
        cases f with
        | true => simp at hnone
        | false =>
          have := hS.max_data (by simpa [sendView] using hnone)
          simp only [Bool.toNat_false, max_le_iff]
          omega
      · intro g hg
        cases f with
        | true =>
          obtain ⟨hend, -⟩ := hfin rfl
          simp only [if_true, Option.some.injEq] at hg
          refine ⟨?_, ?_⟩
          · rw [← hg, Bool.toNat_true, ← advance_advance]
            simp only [advance, sendView]
            rw [show n + l = 1 + W.length by omega]
            exact BitVec.add_sub_cancel _ _
          · have hb : b ≤ 2 + W.length := by
              cases hq : t.finSeq with
              | none => have := hS.max_data hq; omega
              | some q => exact (hS.max_fin q hq).2.le
            simp only [Bool.toNat_true]
            omega
        | false =>
          obtain ⟨h1, h2⟩ := hS.max_fin g (by simpa [sendView] using hg)
          refine ⟨h1, ?_⟩
          simp only [Bool.toNat_false]
          omega
      · intro hne
        cases f with
        | true => exact (hfin rfl).2
        | false => exact hS.fin_pending (by simpa [sendView] using hne)
      · intro h
        simp [sendView, hack] at h
  · refine carries_of_slice (o := o) hS.tx_suffix ?_ hol hnxt rfl rfl (fun h => (hfin h).1)
    simp only [sendView]
    omega
  · change ((t.tx.drop o).take l).length = l
    rw [List.length_take, List.length_drop]
    omega
  · exact dataFlags_fin l f

/-- **The whole send loop**, by induction on its rounds: every segment it emits
carries the stream and ends before the final `snd_max`. -/
theorem outputLoop_inv (fuel : ℕ) (now : ℤ) (out : List Seg) (probe sentAny : Bool)
    (hI : SendInv W t.sendView a n b)
    (hcan : t.canSendData = true) (hack : t.finAcked = false) :
    ∃ n' b' new, SendInv W (outputLoop fuel t now out probe sentAny).1.sendView a n' b' ∧
      (outputLoop fuel t now out probe sentAny).1.iss = t.iss ∧
      (outputLoop fuel t now out probe sentAny).1.state = t.state ∧
      (outputLoop fuel t now out probe sentAny).1.finAcked = t.finAcked ∧
      (outputLoop fuel t now out probe sentAny).1.finPending = t.finPending ∧ b ≤ b' ∧
      (outputLoop fuel t now out probe sentAny).2.1 = out ++ new ∧
      ∀ s ∈ new, SegOk t.iss W a b' s := by
  induction fuel generalizing t out probe sentAny n b with
  | zero => exact ⟨n, b, [], hI, rfl, rfl, rfl, rfl, le_rfl, by simp [outputLoop], by simp⟩
  | succ fuel ih =>
    rw [outputLoop]
    split
    · exact ⟨n, b, [], hI, rfl, rfl, rfl, rfl, le_rfl, by simp, by simp⟩
    · rename_i o l f hp
      obtain ⟨hI', hc, hlen, hfin⟩ := outputSend_inv now hI hcan hack hp
      -- the segment of this round, as seen from any later `snd_max`
      have hseg : ∀ b'', max b (n + l + f.toNat) ≤ b'' →
          SegOk t.iss W a b'' (t.outputSend now o l f).2 := by
        intro b'' hb
        refine Or.inr (Or.inr ⟨n, hc, hI.una_le, ?_⟩)
        rw [hlen, hfin]
        exact (le_max_right _ _).trans hb
      split
      · exact ⟨_, _, [(t.outputSend now o l f).2], hI', rfl, rfl, rfl, rfl, le_max_left _ _, rfl,
          by simpa using hseg _ le_rfl⟩
      · obtain ⟨n', b', new, h1, h2, h3, h4, h5, h6, h7, h8⟩ :=
          ih (out ++ [(t.outputSend now o l f).2]) false true hI' hcan hack
        refine ⟨n', b', (t.outputSend now o l f).2 :: new, h1, h2, h3, h4, h5,
          (le_max_left _ _).trans h6, ?_, ?_⟩
        · rw [h7]
          simp
        · intro s hs
          rcases List.mem_cons.mp hs with rfl | hs
          · exact hseg b' h6
          · exact h8 s hs

/-- **`output` keeps the sender in place**, and so do all its callers. -/
theorem output_inv (now : ℤ) (out : List Seg) (forceAck probe : Bool)
    (hI : SendInv W t.sendView a n b)
    (hack : t.canSendData = true → t.finAcked = false) :
    ∃ n' b' new, SendInv W (t.output now out forceAck probe).1.sendView a n' b' ∧
      (t.output now out forceAck probe).1.iss = t.iss ∧
      (t.output now out forceAck probe).1.state = t.state ∧
      (t.output now out forceAck probe).1.finAcked = t.finAcked ∧
      (t.output now out forceAck probe).1.finPending = t.finPending ∧ b ≤ b' ∧
      (t.output now out forceAck probe).2 = out ++ new ∧
      ∀ s ∈ new, SegOk t.iss W a b' s := by
  have hsilent : ∀ u : Tcb, SegOk t.iss W a b (u.seg u.sndNxt ACK []).2 := fun u =>
    Or.inr (Or.inl (silent_sendAck_seg u))
  rw [output]
  split
  · rename_i hcan
    obtain ⟨n', b', new, h1, h2, h3, h4, h5, h6, h7, h8⟩ :=
      outputLoop_inv (t.tx.length + 1) now out probe false hI hcan (hack hcan)
    generalize outputLoop (t.tx.length + 1) t now out probe false = r at *
    obtain ⟨t', out', sentAny⟩ := r
    have hview : (t'.armRto now).sendView = t'.sendView := sendView_armRto t' now
    have hiss : (t'.armRto now).iss = t'.iss := congrArg SendView.iss hview
    have hst : (t'.armRto now).state = t'.state := congrArg SendView.state hview
    have hfa : (t'.armRto now).finAcked = t'.finAcked := congrArg SendView.finAcked hview
    have hfp : (t'.armRto now).finPending = t'.finPending := congrArg SendView.finPending hview
    simp only at h1 h2 h3 h4 h5 h7 ⊢
    split
    · refine ⟨n', b', new ++ [((t'.armRto now).seg (t'.armRto now).sndNxt ACK []).2],
        ?_, hiss.trans h2, hst.trans h3, hfa.trans h4, hfp.trans h5, h6, ?_, ?_⟩
      · rw [sendView_sendAck, hview]
        exact h1
      · rw [h7]
        simp [sendAck]
      · intro s hs
        rcases List.mem_append.mp hs with hs | hs
        · exact h8 s hs
        · rw [List.mem_singleton.mp hs]
          exact (hsilent _).mono le_rfl h6
    · exact ⟨n', b', new, by rw [hview]; exact h1, hiss.trans h2, hst.trans h3,
        hfa.trans h4, hfp.trans h5, h6, h7, h8⟩
  · split
    · exact ⟨n, b, [(t.seg t.sndNxt ACK []).2], hI, rfl, rfl, rfl, rfl, le_rfl, rfl,
        by simpa using hsilent t⟩
    · exact ⟨n, b, [], hI, rfl, rfl, rfl, rfl, le_rfl, by simp, by simp⟩

end Output

/-! ## Acknowledgments -/

section Ack

variable {W : List Byte} {a n b : ℕ} {ack : Seq}

/-- **An acknowledgment that passes both tests names a position between `snd_una`
and `snd_max`**, whatever the peer meant by it. -/
theorem exists_ack_pos {v : SendView} (hI : SendInv W v a n b)
    (hgt : seqGt ack v.una = true) (hle : seqGt ack v.max = false) :
    ∃ a', a < a' ∧ a' ≤ b ∧ ack = advance v.iss a' := by
  have hab : a ≤ b := hI.una_le.trans hI.nxt_le
  have hspan := hI.span
  have hack : advance v.una (ack - v.una).toNat = ack := exists_eq_advance v.una ack
  have hd : (ack - v.una).toNat < 2 ^ 32 := (ack - v.una).isLt
  generalize (ack - v.una).toNat = d at hack hd
  have hpos : 0 < d ∧ d ≤ 2 ^ 31 := le_of_seqGt_advance hd (by rw [hack]; exact hgt)
  have hmax : v.max = advance v.una (b - a) := by
    rw [hI.max_eq, hI.una_eq, advance_advance, Nat.add_sub_cancel' hab]
  have hdb : d ≤ b - a := by
    by_contra hcon
    have h := seqGt_advance (b := v.una) (m := d) (n := b - a)
      (by simp only [txCap] at *; omega) (by omega)
    rw [hack, ← hmax, hle] at h
    simp at h
    omega
  refine ⟨a + d, by omega, by omega, ?_⟩
  rw [← advance_advance, ← hI.una_eq, hack]

/-- The handshake's acknowledgment can only name the position after the SYN. -/
theorem ack_eq_of_handshake {iss : Seq} (hgt : seqGt ack iss = true)
    (hle : seqLe ack (advance iss 1) = true) : ack = advance iss 1 := by
  have hack : advance iss (ack - iss).toNat = ack := exists_eq_advance iss ack
  have hd : (ack - iss).toNat < 2 ^ 32 := (ack - iss).isLt
  generalize (ack - iss).toNat = d at hack hd
  have hpos : 0 < d ∧ d ≤ 2 ^ 31 := le_of_seqGt_advance hd (by rw [hack]; exact hgt)
  have h := seqLe_advance (b := iss) (m := d) (n := 1) (by omega) (by omega)
  rw [hack, hle] at h
  have : d = 1 := by
    have : d ≤ 1 := by simpa using h.symm
    omega
  rw [← hack, this]

end Ack

end EvansComputer.Tcp.Tcb
