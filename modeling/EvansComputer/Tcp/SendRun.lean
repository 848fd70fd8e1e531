import EvansComputer.Tcp.SendStep

/-!
# What a run has put on the wire

Sequence numbers wrap, so "below the current `snd_max`" makes no sense for a
segment sent long ago.  A `SendTrace` therefore carries, beside the block, the
number of sequence positions acknowledged so far and everything emitted, each
segment with the position it starts at.  Both are accounted for step by step
from the words alone: the acknowledged count grows by the distance `snd_una`
moved, and a segment starts as far beyond `snd_una` as its sequence number says.

The main result, `send_sequence_safe`, is about runs in which fast retransmit
never reaches beyond what has been sent.  Without that condition the statement
is false: `fast_retransmit_beyond_snd_max` is a run of six events after which an
acknowledgment of a byte that was transmitted is thrown away.
-/

namespace EvansComputer.Tcp

open SerialNumber

/-- A block together with the history of what it sent. -/
structure SendTrace where
  tcb : Tcb
  /-- Sequence positions acknowledged so far, the SYN's included. -/
  una : ℕ
  /-- Every segment emitted, with the position of its first sequence number. -/
  sent : List (ℕ × Seg)

namespace SendTrace

/-- The positions of the segments `out`, emitted by a block that now has
acknowledged `una` positions. -/
def place (t : Tcb) (una : ℕ) (out : List Seg) : List (ℕ × Seg) :=
  out.map fun s => (una + (s.seq - t.sndUna).toNat, s)

/-- A block just made, with what it sent on the way. -/
def start (r : Tcb × List Seg) : SendTrace := ⟨r.1, 0, place r.1 0 r.2⟩

/-- One event. -/
def step (x : SendTrace) (c : Call) : SendTrace :=
  let r := x.tcb.step c
  let una := x.una + (r.1.sndUna - x.tcb.sndUna).toNat
  ⟨r.1, una, x.sent ++ place r.1 una r.2⟩

/-- The position of `snd_max`. -/
def max (x : SendTrace) : ℕ := x.una + (x.tcb.sndMax - x.tcb.sndUna).toNat

/-- Position `i` has been transmitted: it is the SYN's, or that of a data byte or
FIN of some emitted segment. -/
def Transmitted (x : SendTrace) (i : ℕ) : Prop :=
  i = 0 ∨ ∃ e ∈ x.sent, e.1 ≤ i ∧ i < e.1 + e.2.payload.length + (e.2.has FIN).toNat

/-- A run of a connection: any calls, timers and segments.  Every event meets
`cond` in the state before it. -/
inductive Run (cond : Tcb → Call → Prop) : SendTrace → Prop
  | connect (localAddr remote : SocketAddr) (iss : Seq) (now : ℤ) :
      Run cond (start (Tcb.newConnect localAddr remote iss now []))
  | passive (localAddr remote : SocketAddr) (iss : Seq) (syn : TcpHeader) (now : ℤ) :
      Run cond (start (Tcb.newPassive localAddr remote iss syn now []))
  | step {x : SendTrace} (c : Call) : Run cond x → cond x.tcb c → Run cond (x.step c)

/-! ## The invariant of a run -/

/-- Where the sender of a trace stands: the recorded counts are the positions of
the sender's invariant, and everything sent ends before `snd_max`. -/
structure Placed (x : SendTrace) (W : List Byte) (n b : ℕ) : Prop where
  ok : Tcb.SendOk W x.tcb x.una n b
  sent_le : ∀ e ∈ x.sent, (e.2.payload ≠ [] ∨ e.2.has FIN = true) →
    e.1 + e.2.payload.length + (e.2.has FIN).toNat ≤ b
  one_le : 1 ≤ b

variable {x : SendTrace} {W : List Byte} {n b : ℕ}

theorem Placed.max_eq (h : Placed x W n b) : x.max = b := by
  have hI := h.ok.inv
  have hab : x.una ≤ b := hI.una_le.trans hI.nxt_le
  have h1 : x.tcb.sndMax = advance x.tcb.iss b := hI.max_eq
  have h2 : x.tcb.sndUna = advance x.tcb.iss x.una := hI.una_eq
  have hspan := hI.span
  rw [SendTrace.max, h1, h2, toNat_advance_sub hab (by simp only [txCap] at *; omega)]
  omega

theorem placed_connect (localAddr remote : SocketAddr) (iss : Seq) (now : ℤ) :
    Placed (start (Tcb.newConnect localAddr remote iss now [])) [] 1 1 := by
  refine ⟨Tcb.sendOk_newConnect localAddr remote iss now, ?_, le_rfl⟩
  intro e he hdata
  rw [List.mem_singleton.mp he] at hdata
  exact absurd hdata (Tcb.opensAt_synSeg _).not_data

theorem placed_passive (localAddr remote : SocketAddr) (iss : Seq) (syn : TcpHeader) (now : ℤ) :
    Placed (start (Tcb.newPassive localAddr remote iss syn now [])) [] 1 1 := by
  refine ⟨Tcb.sendOk_newPassive localAddr remote iss syn now, ?_, le_rfl⟩
  intro e he hdata
  rw [List.mem_singleton.mp he] at hdata
  exact absurd hdata (Tcb.opensAt_synSeg _).not_data

/-- **One event keeps the trace in place.** -/
theorem Placed.step (h : Placed x W n b) (c : Call) (hsafe : x.tcb.FastRetransmitSafe c) :
    ∃ n' b', Placed (x.step c) (W ++ x.tcb.accepted c) n' b' ∧ x.una ≤ (x.step c).una := by
  obtain ⟨a', n', b', new, hok, hiss, ha, ha', hb, hnew, hseg⟩ := Tcb.step_sendOk h.ok c
  have hone := h.one_le
  have h1 : x.tcb.sndUna = advance x.tcb.iss x.una := h.ok.inv.una_eq
  have h2 : (x.tcb.step c).1.sndUna = advance (x.tcb.step c).1.iss a' := hok.inv.una_eq
  have hdist : ((x.tcb.step c).1.sndUna - x.tcb.sndUna).toNat = a' - x.una := by
    rw [h1, h2, hiss, toNat_advance_sub ha (by simp only [txCap] at *; omega)]
  have hu : (x.step c).una = a' := by
    simp only [SendTrace.step, hdist]
    omega
  refine ⟨n', b', ⟨?_, ?_, by omega⟩, by omega⟩
  · rw [hu]
    exact hok
  · intro e he hdata
    rcases List.mem_append.mp he with he | he
    · exact (h.sent_le e he hdata).trans hb
    · obtain ⟨s, hs, rfl⟩ := List.mem_map.mp he
      rw [List.nil_append] at hnew
      rw [hnew] at hs
      rcases (hseg s hs).2 (Or.inl hsafe) with hopen | hsil | ⟨p, hc, hlo, hhi⟩
      · exact absurd hdata hopen.not_data
      · exact absurd hdata hsil.not_data
      · have hspan := hok.inv.span
        have hp : (s.seq - (x.tcb.step c).1.sndUna).toNat = p - a' := by
          rw [hc.seq_eq, h2, hiss, toNat_advance_sub hlo (by simp only [txCap] at *; omega)]
        change x.una + _ + _ + s.payload.length + (s.has FIN).toNat ≤ b'
        rw [hdist, hp]
        omega

/-- Every run that meets the condition is in place throughout. -/
theorem Run.placed (h : Run Tcb.FastRetransmitSafe x) : ∃ W n b, Placed x W n b := by
  induction h with
  | connect localAddr remote iss now => exact ⟨_, _, _, placed_connect localAddr remote iss now⟩
  | passive localAddr remote iss syn now =>
    exact ⟨_, _, _, placed_passive localAddr remote iss syn now⟩
  | step c _ hsafe ih =>
    obtain ⟨W, n, b, hP⟩ := ih
    obtain ⟨n', b', hP', -⟩ := hP.step c hsafe
    exact ⟨_, _, _, hP'⟩

/-! ## The send sequence -/

/-- The send sequence of a trace is in order: `snd_una`, `snd_nxt` and `snd_max`
follow each other at less than half the sequence space; past the handshake no
more than `tx` and a FIN is outstanding; every transmitted position is below
`snd_max`; and an acknowledgment of transmitted positions only, no older than
half the sequence space, is not taken for one beyond `snd_max`. -/
structure InSequence (x : SendTrace) : Prop where
  una_le_nxt : seqLe x.tcb.sndUna x.tcb.sndNxt = true
  nxt_le_max : seqLe x.tcb.sndNxt x.tcb.sndMax = true
  una_nxt_max : (x.tcb.sndNxt - x.tcb.sndUna).toNat ≤ (x.tcb.sndMax - x.tcb.sndUna).toNat
  distance : (x.tcb.sndMax - x.tcb.sndUna).toNat < 2 ^ 31
  outstanding : x.tcb.synchronized = true →
    (x.tcb.sndMax - x.tcb.sndUna).toNat ≤ x.tcb.tx.length + 1
  transmitted_lt : ∀ i, x.Transmitted i → i < x.max
  ack_kept : ∀ q, (∀ i < q, x.Transmitted i) → x.max < q + 2 ^ 31 →
    seqGt (advance x.tcb.iss q) x.tcb.sndMax = false

theorem Placed.inSequence (h : Placed x W n b) : InSequence x := by
  have hI := h.ok.inv
  have hspan := hI.span
  have hle := hI.una_le
  have hnb := hI.nxt_le
  have h1 : x.tcb.sndUna = advance x.tcb.iss x.una := hI.una_eq
  have h2 : x.tcb.sndNxt = advance x.tcb.iss n := hI.nxt_eq
  have h3 : x.tcb.sndMax = advance x.tcb.iss b := hI.max_eq
  have hcap : txCap < 2 ^ 30 := by decide
  have hd1 : (x.tcb.sndNxt - x.tcb.sndUna).toNat = n - x.una := by
    rw [h1, h2, toNat_advance_sub hle (by omega)]
  have hd2 : (x.tcb.sndMax - x.tcb.sndUna).toNat = b - x.una := by
    rw [h1, h3, toNat_advance_sub (by omega) (by omega)]
  have hsent : ∀ i, x.Transmitted i → i < b := by
    rintro i (rfl | ⟨e, he, hlo, hhi⟩)
    · exact h.one_le
    · refine hhi.trans_le (h.sent_le e he ?_)
      by_contra hcon
      rw [not_or, not_not, Bool.not_eq_true] at hcon
      rw [hcon.1, hcon.2] at hhi
      simp at hhi
      omega
  refine ⟨?_, ?_, by omega, by omega, ?_, ?_, ?_⟩
  · rw [h1, h2, seqLe_advance (by omega) (by omega)]
    exact decide_eq_true hle
  · rw [h2, h3, seqLe_advance (by omega) (by omega)]
    exact decide_eq_true hnb
  · intro hsync
    have hS := (h.ok.ackOk hsync).stream
    have hup : x.una + x.tcb.tx.length = 1 + W.length + x.tcb.finAcked.toNat := hS.una_pos
    have hb : b ≤ 2 + W.length := by
      cases hq : x.tcb.finSeq with
      | none => have := hS.max_data hq; omega
      | some q => exact (hS.max_fin q hq).2.le
    omega
  · intro i hi
    rw [h.max_eq]
    exact hsent i hi
  · intro q hq hnear
    rw [h.max_eq] at hnear
    -- the last position covered has been transmitted, so `q` is at most `b`
    have hqb : q ≤ b := by
      rcases Nat.eq_zero_or_pos q with rfl | hpos
      · omega
      · have := hsent (q - 1) (hq (q - 1) (by omega))
        omega
    rw [h3, seqGt_advance (by omega) (by omega)]
    exact decide_eq_false (by omega)

/-- **The send sequence stays in order along every run in which fast retransmit
stays below `snd_max`**, whatever the user, the clock and the peer do. -/
theorem send_sequence_safe (h : Run Tcb.FastRetransmitSafe x) : InSequence x := by
  obtain ⟨W, n, b, hP⟩ := Run.placed h
  exact hP.inSequence

/-! ## Two runs -/

/-- The SYN-ACK of a peer with a window of `window` bytes, and its bare
acknowledgments of sequence number `ack`. -/
def peerSegment (flags : Flags) (seq ack : Seq) (window : UInt16) : Call :=
  .onSegment ⟨80, 49152, seq, ack, flags, window, none⟩ [] 0

/-- A connection to a peer with a window of two bytes, after the handshake and a
write of three bytes. -/
def windowLimited : SendTrace :=
  ((start (Tcb.newConnect SocketAddr.default SocketAddr.default 0 0 [])).step
    (peerSegment (SYN ||| ACK) 100 1 2)).step (.write [10, 11, 12] 0)

/-- The same connection after the peer has repeated its acknowledgment three
times. -/
def afterThreeDuplicates : SendTrace :=
  ((windowLimited.step (peerSegment ACK 101 1 2)).step (peerSegment ACK 101 1 2)).step
    (peerSegment ACK 101 1 2)

theorem send_sequence_safe_windowLimited :
    Run Tcb.FastRetransmitSafe windowLimited ∧ windowLimited.tcb.synchronized = true ∧
      InSequence windowLimited := by
  have hrun : Run Tcb.FastRetransmitSafe windowLimited := by
    refine Run.step _ (Run.step _ (Run.connect _ _ _ _) ?_) trivial
    intro h
    exact absurd h (by decide)
  exact ⟨hrun, by decide, send_sequence_safe hrun⟩

/-- **Fast retransmit sends beyond `snd_max`.**  Of the three bytes the peer's
window let two go, so `snd_max` stands at position 3; the third duplicate
acknowledgment makes the block send all three, and when the peer acknowledges
what it received, position 4, the acknowledgment is thrown away. -/
theorem fast_retransmit_beyond_snd_max :
    Run (fun _ _ => True) afterThreeDuplicates ∧
      afterThreeDuplicates.tcb.synchronized = true ∧
      (∀ i < 4, afterThreeDuplicates.Transmitted i) ∧ afterThreeDuplicates.max = 3 ∧
      seqGt (advance afterThreeDuplicates.tcb.iss 4) afterThreeDuplicates.tcb.sndMax = true ∧
      (afterThreeDuplicates.step (peerSegment ACK 101 4 2)).tcb.sndUna
        = afterThreeDuplicates.tcb.sndUna ∧
      ¬ InSequence afterThreeDuplicates := by
  have hrun : Run (fun _ _ => True) afterThreeDuplicates :=
    Run.step _ (Run.step _ (Run.step _ (Run.step _ (Run.step _ (Run.connect _ _ _ _) trivial)
      trivial) trivial) trivial) trivial
  -- the retransmission: bytes at positions 1, 2 and 3
  have hsent : ∃ e ∈ afterThreeDuplicates.sent, e.2.payload = [10, 11, 12] ∧
      e.2.has FIN = false ∧ e.1 = 1 := by decide
  have htrans : ∀ i < 4, afterThreeDuplicates.Transmitted i := by
    intro i hi
    obtain ⟨e, he, hpay, hfin, hpos⟩ := hsent
    rcases Nat.eq_zero_or_pos i with rfl | hipos
    · exact Or.inl rfl
    · refine Or.inr ⟨e, he, by omega, ?_⟩
      rw [hpay, hfin, hpos]
      simpa using hi
  have hmax : afterThreeDuplicates.max = 3 := by decide
  refine ⟨hrun, by decide, htrans, hmax, by decide, by decide, fun hseq => ?_⟩
  have := hseq.transmitted_lt 3 (htrans 3 (by omega))
  omega

end EvansComputer.Tcp.SendTrace
