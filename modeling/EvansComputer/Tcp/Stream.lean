import EvansComputer.Library.Slices
import EvansComputer.Tcp.SendStep
import EvansComputer.Tcp.ReceiveStep

/-!
# Two connections and a network

Here the two halves meet.  An `Endpoint` is a block together with the bytes its
user has written and read and everything it has ever emitted.  The network is
the set of emitted segments: any of them may be delivered at any time, any number
of times, in any order, or never, so loss, duplication, delay and reordering are
all the same rule.

The invariant has one half for each role.  `Honest` says of a sender that
everything it has emitted is a piece of what its user has written, and that after
a FIN nothing more is written.  `Follows` says of a receiver that what it has
delivered and buffered is what the peer has written, up to `rcv_nxt`.  The
sender's half needs nothing of the peer; the receiver's half needs the sender's
and that positions stay within half the sequence space, which is where the bound
of `2 ^ 31` bytes comes from.
-/

namespace EvansComputer.Tcp

open SerialNumber

variable {s : Seg} {x y : Endpoint}

/-! ## Pieces of a stream -/

/-- The bytes `d` stand in the stream `W` at position `p`; the SYN is position
`0`. -/
def Piece (W : List Byte) (p : ℕ) (d : List Byte) : Prop := 1 ≤ p ∧ SliceAt W (p - 1) d

variable {W : List Byte} {iss : Seq} {p q : ℕ} {d : List Byte}

theorem Piece.length_le (h : Piece W p d) (hne : d ≠ []) : p + d.length ≤ 1 + W.length := by
  have h1 := h.1
  have h2 := h.2.length_le
  have h3 := List.length_pos_iff.mpr hne
  omega

theorem content_piece (W : List Byte) : Content (Piece W) := by
  refine ⟨?_, ?_, ?_⟩
  · rintro p d i ⟨h1, h2⟩ _
    refine ⟨by omega, ?_⟩
    have h := h2.drop i
    rwa [show p - 1 + i = p + i - 1 by omega] at h
  · rintro p d i ⟨h1, h2⟩
    exact ⟨h1, h2.take i⟩
  · rintro p d e ⟨h1, h2⟩ ⟨-, h3⟩
    refine ⟨h1, h2.append ?_⟩
    rwa [show p + d.length - 1 = p - 1 + d.length by omega] at h3

theorem Carries.piece (h : Carries iss W p s) : Piece W p s.payload := by
  refine ⟨h.pos, ?_⟩
  rw [SliceAt, h.payload_eq]
  exact List.take_prefix _ _

theorem RecvInv.mono {P P' : ℕ → List Byte → Prop} {b : Seq} {t : Tcb}
    (hI : Tcb.RecvInv P b t q) (hP : ∀ p d, P p d → P' p d) : Tcb.RecvInv P' b t q := by
  refine ⟨hI.nxt_eq, hI.rx_le, hI.ooo_le, ?_⟩
  intro e he
  obtain ⟨p, h1, h2, h3, h4⟩ := hI.ooo_pos e he
  exact ⟨p, h1, h2, h3, hP p e.2 h4⟩

/-! ## The sender -/

/-- A segment this sender may have emitted. -/
def Sent (iss : Seq) (W : List Byte) (s : Seg) : Prop :=
  OpensAt iss s ∨ Silent s ∨ ∃ p, Carries iss W p s

theorem SegOk.sent {lo hi : ℕ} (h : SegOk iss W lo hi s) : Sent iss W s := by
  rcases h with h | h | ⟨p, h, -⟩
  · exact Or.inl h
  · exact Or.inr (Or.inl h)
  · exact Or.inr (Or.inr ⟨p, h⟩)

/-- The stream may have grown since, unless the segment carried its end. -/
theorem Sent.mono {e : List Byte} (h : Sent iss W s) (hfin : s.has FIN = true → e = []) :
    Sent iss (W ++ e) s := by
  rcases h with h | h | ⟨p, h⟩
  · exact Or.inl h
  · exact Or.inr (Or.inl h)
  · refine Or.inr (Or.inr ⟨p, h.pos, h.seq_eq, ?_, ?_, ?_, h.not_syn, h.not_rst⟩)
    · have hfit := h.fits
      have hp := h.pos
      rw [List.drop_append_of_le_length (by omega), List.take_append_of_le_length]
      · exact h.payload_eq
      · rw [List.length_drop]
        omega
    · have hfit := h.fits
      rw [List.length_append]
      omega
    · intro hs
      rw [hfin hs, List.append_nil]
      exact h.fin_end hs

/-- Once the sender has sent past the end of its stream, it accepts no more
bytes. -/
theorem Tcb.accepted_eq_nil {t : Tcb} {a n b : ℕ} (hO : Tcb.SendOk W t a n b)
    (hb : 2 + W.length ≤ b) (c : Call) : t.accepted c = [] := by
  cases c with
  | write data now =>
    rw [Tcb.accepted]
    split
    swap
    · rfl
    rename_i hmay
    exfalso
    by_cases hs : t.state = .synSent ∨ t.state = .synReceived
    · have := (hO.inv.handshake hs).2.2.1
      omega
    · have hsync : t.synchronized = true := by
        rw [not_or] at hs
        cases ht : t.state <;> simp_all [Tcb.mayWrite, Tcb.synchronized]
      have hS := (hO.ackOk hsync).stream
      have hest : ¬ (t.state ≠ .established ∧ t.state ≠ .closeWait) := by
        rw [not_or] at hs
        cases ht : t.state <;> simp_all [Tcb.mayWrite]
      have hnone : t.finSeq = none := by
        by_contra hne
        have hpend : t.finPending = true := hS.fin_pending hne
        exact hest ((hO.fin_state hsync).mp hpend)
      have := hS.max_data hnone
      omega
  | _ => rfl

/-- One end of the connection: the block, what its user has written and read, and
everything it has emitted. -/
structure Endpoint where
  tcb : Tcb
  wrote : List Byte
  got : List Byte
  sent : List Seg

/-- One event at this end. -/
def Endpoint.call (e : Endpoint) (c : Call) : Endpoint :=
  ⟨(e.tcb.step c).1, e.wrote ++ e.tcb.accepted c, e.got ++ e.tcb.returned c,
    e.sent ++ (e.tcb.step c).2⟩

/-- An end just made. -/
def Endpoint.start (r : Tcb × List Seg) : Endpoint := ⟨r.1, [], [], r.2⟩

/-- Everything this end has emitted is a piece of what it has written, and if a
FIN is among it, `snd_max` is past the end. -/
structure Endpoint.Honest (e : Endpoint) (b : ℕ) : Prop where
  ok : ∃ a n, Tcb.SendOk e.wrote e.tcb a n b
  sent : ∀ s ∈ e.sent, Sent e.tcb.iss e.wrote s
  fin_end : ∀ s ∈ e.sent, s.has FIN = true → 2 + e.wrote.length ≤ b

/-- **An honest end stays honest**, whatever it is told. -/
theorem Endpoint.Honest.call {e : Endpoint} {b : ℕ} (h : e.Honest b) (c : Call) :
    (∃ b', (e.call c).Honest b') ∧ (e.call c).tcb.iss = e.tcb.iss ∧
      ((∃ s ∈ e.sent, s.has FIN = true) → e.tcb.accepted c = []) := by
  obtain ⟨a, n, hO⟩ := h.ok
  obtain ⟨a', n', b', new, hO', hiss, -, -, hb, hnew, hseg⟩ := Tcb.step_sendOk hO c
  rw [List.nil_append] at hnew
  have hstop : (∃ s ∈ e.sent, s.has FIN = true) → e.tcb.accepted c = [] := by
    rintro ⟨s, hs, hfin⟩
    exact Tcb.accepted_eq_nil hO (h.fin_end s hs hfin) c
  refine ⟨⟨b', ⟨a', n', hO'⟩, ?_, ?_⟩, hiss, hstop⟩
  · intro s hs
    change Sent (e.tcb.step c).1.iss (e.wrote ++ e.tcb.accepted c) s
    rw [hiss]
    rcases List.mem_append.mp hs with hs | hs
    · exact (h.sent s hs).mono fun hfin => hstop ⟨s, hs, hfin⟩
    · obtain ⟨hi, hok⟩ := (hseg s (hnew ▸ hs)).1
      exact hok.sent
  · intro s hs hfin
    change 2 + (e.wrote ++ e.tcb.accepted c).length ≤ b'
    rcases List.mem_append.mp hs with hs | hs
    · have := h.fin_end s hs hfin
      rw [hstop ⟨s, hs, hfin⟩, List.append_nil]
      omega
    · rcases (hseg s (hnew ▸ hs)).2 (Or.inr hfin) with hopen | hsil | ⟨p, hc, -, hhi⟩
      · exact absurd (Or.inr hfin) hopen.not_data
      · exact absurd (Or.inr hfin) hsil.not_data
      · have hend := hc.fin_end hfin
        rw [hfin, Bool.toNat_true] at hhi
        omega

/-! ## The receiver -/

/-- What a receiver at position `q` knows of the peer's stream `W`: pieces of it
are buffered, what it has delivered and buffered in order is its beginning, and a
recorded FIN stands at its end. -/
structure Receives (W : List Byte) (iss : Seq) (t : Tcb) (got : List Byte) (q : ℕ) : Prop where
  inv : Tcb.RecvInv (Piece W) iss t q
  pos : 1 ≤ q
  bound : q ≤ 1 + W.length + t.finReceived.toNat
  fin_seq : ∀ f, t.rxFinSeq = some f → f = advance iss (1 + W.length)
  fin_all : t.finReceived = true → t.rxFinSeq ≠ none ∧ q = 2 + W.length
  stream : got ++ t.rx <+: W
  /-- Until the handle is closed, everything up to `rcv_nxt` is there. -/
  count : t.discardRx = false → 1 + (got ++ t.rx).length + t.finReceived.toNat = q

/-- The peer's SYN has not arrived, and never will if the block is closed. -/
structure Unopened (t : Tcb) (got : List Byte) : Prop where
  state : t.state = .synSent ∨ t.state = .closed
  got_nil : got = []
  rx_nil : t.rx = []
  ooo_nil : t.ooo = []
  fin_none : t.rxFinSeq = none
  not_fin : t.finReceived = false

/-- **The receiver follows the stream `W`.** -/
def Follows (W : List Byte) (iss : Seq) (t : Tcb) (got : List Byte) : Prop :=
  Unopened t got ∨ (t.state ≠ .synSent ∧ ∃ q, Receives W iss t got q)

section Receiver

variable {t : Tcb} {got : List Byte}

theorem Follows.mono {e : List Byte} (h : Follows W iss t got)
    (hfin : t.rxFinSeq ≠ none → e = []) : Follows (W ++ e) iss t got := by
  rcases h with h | ⟨hs, q, h⟩
  · exact Or.inl h
  by_cases hnone : t.rxFinSeq = none
  swap
  · rw [hfin hnone, List.append_nil]
    exact Or.inr ⟨hs, q, h⟩
  have hnf : t.finReceived = false := by
    by_contra hcon
    exact (h.fin_all (by simpa using hcon)).1 hnone
  have hpre : W <+: W ++ e := List.prefix_append W e
  refine Or.inr ⟨hs, q, RecvInv.mono h.inv fun p d hp => ⟨hp.1, hp.2.mono hpre⟩, h.pos, ?_, ?_, ?_,
    h.stream.trans hpre, h.count⟩
  · have := h.bound
    rw [List.length_append]
    omega
  · intro f hf
    exact absurd (hnone.symm.trans hf) (by simp)
  · intro hf
    exact absurd (hnf.symm.trans hf) (by simp)

theorem Follows.local {c : Call} (h : Follows W iss t got) (hc : c.isLocal = true) :
    Follows W iss (t.step c).1 (got ++ t.returned c) := by
  have hk := Tcb.keeps_step t c hc
  rcases h with h | ⟨hs, q, h⟩
  · have hrx := hk.rx_prefix
    have hooo := hk.ooo_len
    rw [h.rx_nil, List.prefix_nil, List.append_eq_nil_iff] at hrx
    rw [h.ooo_nil] at hooo
    refine Or.inl ⟨?_, ?_, hrx.2, List.eq_nil_of_length_eq_zero (by simpa using hooo),
      hk.finSeq_eq.trans h.fin_none, hk.fin_eq.trans h.not_fin⟩
    · rcases h.state with hs | hs
      · exact hk.state.opening hs
      · exact Or.inr (hk.state.closed hs)
    · rw [h.got_nil, hrx.1, List.append_nil]
  · refine Or.inr ⟨hk.state.opened hs, q, hk.recvInv h.inv, h.pos, ?_, ?_, ?_, ?_, ?_⟩
    · rw [hk.fin_eq]
      exact h.bound
    · rw [hk.finSeq_eq]
      exact h.fin_seq
    · rw [hk.finSeq_eq, hk.fin_eq]
      exact h.fin_all
    · rw [List.append_assoc]
      exact ((List.prefix_append_right_inj got).mpr hk.rx_prefix).trans h.stream
    · intro hd
      obtain ⟨hd', hrx⟩ := hk.rx_eq hd
      rw [hk.fin_eq, List.append_assoc, hrx]
      exact h.count hd'

/-- An honest segment's bytes are where its sequence number says, as long as the
stream is shorter than half the sequence space. -/
theorem Sent.segContent (hS : Sent iss W s) (h : Receives W iss t got q) (hW : W.length < 2 ^ 31) :
    Tcb.SegContent (Piece W) t q s.seq s.payload := by
  have hempty : s.payload = [] → Tcb.SegContent (Piece W) t q s.seq s.payload := by
    intro hnil
    rw [hnil]
    exact ⟨fun _ hlt => absurd hlt (by simp), fun _ hne => absurd rfl hne⟩
  rcases hS with hopen | hsil | ⟨p, hc⟩
  · exact hempty hopen.1
  · exact hempty hsil.1
  have hp := hc.pos
  have hfit := hc.fits
  have hq := h.pos
  have hbound := h.bound
  have hfr : t.finReceived.toNat ≤ 1 := Bool.toNat_le _
  have hnxt := h.inv.nxt_eq
  have hlt : seqLt s.seq t.rcvNxt = decide (p < q) := by
    rw [hc.seq_eq, hnxt, seqLt_advance (by omega) (by omega)]
  refine ⟨?_, ?_⟩
  · intro hbefore hshort
    have hpq : p < q := by simpa [hlt] using hbefore
    have hskip : (t.rcvNxt - s.seq).toNat = q - p := by
      rw [hc.seq_eq, hnxt, toNat_advance_sub hpq.le (by omega)]
    rw [hskip] at hshort ⊢
    have hdrop := (content_piece W).drop hc.piece hshort
    rwa [Nat.add_sub_cancel' hpq.le] at hdrop
  · intro hafter _
    have hpq : q ≤ p := by simpa [hlt] using hafter
    have hoff : (s.seq - t.rcvNxt).toNat = p - q := by
      rw [hc.seq_eq, hnxt, toNat_advance_sub hpq (by omega)]
    rw [hoff, Nat.add_sub_cancel' hpq]
    exact hc.piece

theorem Sent.fin_seq (hS : Sent iss W s) (hfin : s.has FIN = true) :
    s.seq + BitVec.ofNat 32 s.payload.length = advance iss (1 + W.length) := by
  rcases hS with hopen | hsil | ⟨p, hc⟩
  · exact absurd (Or.inr hfin) hopen.not_data
  · exact absurd (Or.inr hfin) hsil.not_data
  · rw [add_ofNat_eq_advance, hc.seq_eq, advance_advance, hc.fin_end hfin]

/-- **A segment of the peer advances the receiver along the stream.** -/
theorem Receives.advance {t' : Tcb} {q₁ : ℕ} {data : List Byte} {src dst : UInt16}
    (h : Receives W iss t got q) (hA : Tcb.Advances (Piece W) iss t t' q q₁ data)
    (hF : Tcb.FinFrom t t' (s.header src dst) s.payload) (hS : Sent iss W s)
    (hW : W.length < 2 ^ 31) :
    Receives W iss t' got (q₁ + (t'.finReceived && !t.finReceived).toNat) := by
  have hlen := hA.length_eq
  have hpos := h.pos
  have hbound := h.bound
  have hfr : t.finReceived.toNat ≤ 1 := Bool.toNat_le _
  have hseq : ∀ f, t'.rxFinSeq = some f → f = SerialNumber.advance iss (1 + W.length) := by
    intro f hf
    rcases hF with hsame | ⟨hfin, hnew⟩
    · exact h.fin_seq f (hsame ▸ hf)
    · rw [hnew, Option.some.injEq] at hf
      rw [← hf]
      exact hS.fin_seq hfin
  have hstream : got ++ t'.rx <+: W := by
    rw [hA.rx_eq]
    cases hd : t.discardRx with
    | true => simpa using h.stream
    | false =>
      rw [if_neg (by simp), ← List.append_assoc]
      by_cases hne : data = []
      · rw [hne, List.append_nil]
        exact h.stream
      · -- bytes enter where the delivered ones end: the FIN has not come yet
        have hcount := h.count hd
        have hpiece := hA.content hne
        have hfit := hpiece.length_le hne
        have hdpos := List.length_pos_iff.mpr hne
        have hnf : t.finReceived = false := by
          by_contra hcon
          have := (h.fin_all (by simpa using hcon)).2
          omega
        refine SliceAt.append_prefix h.stream ?_
        rw [hnf, Bool.toNat_false] at hcount
        rw [show (got ++ t.rx).length = q - 1 by omega]
        exact hpiece.2
  have hq₁ : q₁ ≤ 1 + W.length + t.finReceived.toNat := by
    by_cases hne : data = []
    · rw [hne] at hlen
      simp only [List.length_nil] at hlen
      omega
    · have := (hA.content hne).length_le hne
      omega
  have hcnt : t'.discardRx = false → 1 + (got ++ t'.rx).length + t.finReceived.toNat = q₁ := by
    intro hd'
    have hd : t.discardRx = false := hA.discard_eq.symm.trans hd'
    have hcount := h.count hd
    rw [hA.rx_eq, hd, if_neg (by simp), ← List.append_assoc, List.length_append]
    omega
  rcases hA.fin with hsame | ⟨hnf, hyes, hat⟩
  · have hz : (t'.finReceived && !t.finReceived).toNat = 0 := by
      rw [hsame, Bool.and_not_self]
      rfl
    have hinv := hA.inv
    rw [hz, Nat.add_zero] at hinv ⊢
    refine ⟨hinv, by omega, by rw [hsame]; exact hq₁, hseq, ?_, hstream, ?_⟩
    · intro hf
      rw [hsame] at hf
      obtain ⟨hne, hq⟩ := h.fin_all hf
      refine ⟨?_, ?_⟩
      · rcases hF with heq | ⟨-, hnew⟩
        · rw [heq]
          exact hne
        · rw [hnew]
          simp
      · rw [hf, Bool.toNat_true] at hq₁
        omega
    · rw [hsame]
      exact hcnt
  · have hone : (t'.finReceived && !t.finReceived).toNat = 1 := by
      rw [hyes, hnf]
      rfl
    have hinv := hA.inv
    have hq1 : q₁ = 1 + W.length := by
      rw [hnf, Bool.toNat_false] at hq₁
      refine (advance_inj (b := iss) (by omega) ?_).mp (hseq _ hat)
      omega
    rw [hone] at hinv ⊢
    refine ⟨hinv, by omega, by rw [hyes, Bool.toNat_true]; omega, hseq, ?_, hstream, ?_⟩
    · intro _
      exact ⟨by rw [hat]; simp, by omega⟩
    · intro hd'
      have := hcnt hd'
      rw [hnf, Bool.toNat_false] at this
      rw [hyes, Bool.toNat_true]
      omega

theorem Follows.segment (src dst : UInt16) (now : ℤ) (h : Follows W iss t got) (hS : Sent iss W s)
    (hW : W.length < 2 ^ 31) :
    Follows W iss (t.step (.onSegment (s.header src dst) s.payload now)).1 got ∧
      ((t.step (.onSegment (s.header src dst) s.payload now)).1.rxFinSeq ≠ none →
        t.rxFinSeq ≠ none ∨ s.has FIN = true) := by
  have hstay : Follows W iss t got ∧ (t.rxFinSeq ≠ none → t.rxFinSeq ≠ none ∨ s.has FIN = true) :=
    ⟨h, Or.inl⟩
  simp only [Tcb.step, Tcb.onSegment]
  split
  · exact hstay
  · exact hstay
  · -- the block waits for the peer's SYN
    rename_i hs
    have hU : Unopened t got := h.resolve_right fun hr => hr.1 hs
    rcases Tcb.onSynSent_cases t (s.header src dst) now [] with heq | ⟨err, heq⟩ | ⟨hsyn, hst, hv⟩
    · rw [heq]
      exact hstay
    · rw [heq]
      exact ⟨Or.inl ⟨Or.inr rfl, hU.got_nil, hU.rx_nil, rfl, hU.fin_none, hU.not_fin⟩, Or.inl⟩
    · obtain ⟨c1, c2, c3, c4, c5, c6⟩ := Tcb.recvView_ext hv
      have hiss : s.seq = iss := by
        rcases hS with hopen | hsil | ⟨p, hc⟩
        · exact hopen.2.2.2.2
        · exact absurd (hsil.2.2.symm.trans hsyn) (by simp)
        · exact absurd (hc.not_syn.symm.trans hsyn) (by simp)
      generalize (t.onSynSent (s.header src dst) now []).1 = t' at *
      have hnone : t'.rxFinSeq = none := c4.trans hU.fin_none
      have hnf : t'.finReceived = false := c5.trans hU.not_fin
      have hrx : t'.rx = [] := c2.trans hU.rx_nil
      have hooo : t'.ooo = [] := c3.trans hU.ooo_nil
      refine ⟨Or.inr ⟨hst, 1, ⟨?_, ?_, ?_, ?_⟩, le_rfl, by omega, ?_, ?_, ?_, ?_⟩,
        fun hne => absurd hnone hne⟩
      · rw [c1]
        exact congrArg (· + 1) hiss
      · rw [hrx]
        exact Nat.zero_le _
      · rw [hooo]
        exact Nat.zero_le _
      · intro e he
        rw [hooo] at he
        exact absurd he (by simp)
      · intro f hf
        exact absurd (hnone.symm.trans hf) (by simp)
      · intro hf
        exact absurd (hnf.symm.trans hf) (by simp)
      · rw [hU.got_nil, hrx]
        exact List.nil_prefix
      · intro _
        rw [hU.got_nil, hrx, hnf]
        rfl
  · rename_i h0 _ h1
    have hR : t.state ≠ .synSent ∧ ∃ q, Receives W iss t got q := by
      refine h.resolve_left fun hU => ?_
      rcases hU.state with hs | hs
      · exact h1 hs
      · exact h0 hs
    obtain ⟨-, q, hq⟩ := hR
    obtain ⟨q₁, data, hA, hF, hst⟩ := Tcb.onSynchronized_advances
      (content_piece W) now [] hq.inv (h := s.header src dst) (hS.segContent hq hW) h1
    refine ⟨Or.inr ⟨hst, _, hq.advance hA hF hS hW⟩, ?_⟩
    intro hne
    rcases hF with hsame | ⟨hfin, -⟩
    · rw [hsame] at hne
      exact Or.inl hne
    · exact Or.inr hfin

end Receiver

/-! ## The network -/

/-- Two ends of a connection; what either has emitted may reach the other. -/
structure Net where
  a : Endpoint
  b : Endpoint

/-- The network delivers the segment `s` of the end `y` to the end `x`. -/
def Endpoint.deliver (x y : Endpoint) (s : Seg) (now : ℤ) : Endpoint :=
  x.call (.onSegment (s.header y.tcb.localAddr.port x.tcb.localAddr.port) s.payload now)

/-- `A` connects with some initial sequence number; `B` is made from `A`'s SYN. -/
def Net.start (addrA addrB : SocketAddr) (issA issB : Seq) (nowA nowB : ℤ) : Net :=
  let a := Tcb.newConnect addrA addrB issA nowA []
  let syn := (a.1.synSeg).header addrA.port addrB.port
  ⟨Endpoint.start a, Endpoint.start (Tcb.newPassive addrB addrA issB syn nowB [])⟩

/-- The states two connections and a network can reach: either user calls, either
timer fires, or a segment that was emitted at any time is delivered. -/
inductive Net.Reachable : Net → Prop
  | start (addrA addrB : SocketAddr) (issA issB : Seq) (nowA nowB : ℤ) :
      Net.Reachable (Net.start addrA addrB issA issB nowA nowB)
  | callA {x : Net} (c : Call) : Net.Reachable x → c.isLocal = true →
      Net.Reachable { x with a := x.a.call c }
  | callB {x : Net} (c : Call) : Net.Reachable x → c.isLocal = true →
      Net.Reachable { x with b := x.b.call c }
  | deliverA {x : Net} (s : Seg) (now : ℤ) : Net.Reachable x → s ∈ x.b.sent →
      Net.Reachable { x with a := x.a.deliver x.b s now }
  | deliverB {x : Net} (s : Seg) (now : ℤ) : Net.Reachable x → s ∈ x.a.sent →
      Net.Reachable { x with b := x.b.deliver x.a s now }

/-- The end `y` follows what the end `x` writes, and knows of a FIN only if one
was sent. -/
structure Linked (x y : Endpoint) : Prop where
  follows : Follows x.wrote x.tcb.iss y.tcb y.got
  fin_known : y.tcb.rxFinSeq ≠ none → ∃ s ∈ x.sent, s.has FIN = true

/-- The invariant of the connection. -/
structure Joined (x y : Endpoint) : Prop where
  honest_left : ∃ b, x.Honest b
  honest_right : ∃ b, y.Honest b
  to_right : Linked x y
  to_left : Linked y x

theorem Joined.symm (h : Joined x y) : Joined y x :=
  ⟨h.honest_right, h.honest_left, h.to_left, h.to_right⟩

theorem Linked.call_left {b : ℕ} (h : Linked x y) (hx : x.Honest b) (c : Call) :
    Linked (x.call c) y := by
  obtain ⟨-, hiss, hstop⟩ := hx.call c
  refine ⟨?_, ?_⟩
  · rw [hiss]
    exact h.follows.mono fun hne => hstop (h.fin_known hne)
  · intro hne
    obtain ⟨s, hs, hfin⟩ := h.fin_known hne
    exact ⟨s, List.mem_append_left _ hs, hfin⟩

/-- **One event at either end keeps the connection joined.** -/
theorem Joined.call (h : Joined x y) {c : Call} (hc : c.isLocal = true) :
    Joined (x.call c) y := by
  obtain ⟨b, hx⟩ := h.honest_left
  refine ⟨(hx.call c).1, h.honest_right, h.to_right.call_left hx c,
    ⟨h.to_left.follows.local hc, ?_⟩⟩
  intro hne
  rw [Endpoint.call, (Tcb.keeps_step x.tcb c hc).finSeq_eq] at hne
  exact h.to_left.fin_known hne

theorem Joined.deliver (h : Joined x y) (hs : s ∈ y.sent) (now : ℤ) (hW : y.wrote.length < 2 ^ 31) :
    Joined (x.deliver y s now) y := by
  obtain ⟨b, hx⟩ := h.honest_left
  obtain ⟨b', hy⟩ := h.honest_right
  obtain ⟨hfol, hfin⟩ := h.to_left.follows.segment y.tcb.localAddr.port x.tcb.localAddr.port now
    (hy.sent s hs) hW
  refine ⟨(hx.call _).1, h.honest_right, h.to_right.call_left hx _, ⟨?_, ?_⟩⟩
  · change Follows y.wrote y.tcb.iss _ (x.got ++ [])
    rw [List.append_nil]
    exact hfol
  · intro hne
    rcases hfin hne with hold | hnew
    · exact h.to_left.fin_known hold
    · exact ⟨s, hs, hnew⟩

theorem joined_start (addrA addrB : SocketAddr) (issA issB : Seq) (nowA nowB : ℤ) :
    Joined (Net.start addrA addrB issA issB nowA nowB).a
      (Net.start addrA addrB issA issB nowA nowB).b := by
  refine ⟨⟨1, ⟨0, 1, Tcb.sendOk_newConnect _ _ _ _⟩, ?_, ?_⟩,
    ⟨1, ⟨0, 1, Tcb.sendOk_newPassive _ _ _ _ _⟩, ?_, ?_⟩, ⟨?_, ?_⟩, ⟨?_, ?_⟩⟩
  · intro s hs
    rw [List.mem_singleton.mp hs]
    exact Or.inl (Tcb.opensAt_synSeg _)
  · intro s hs hfin
    rw [List.mem_singleton.mp hs] at hfin
    exact absurd (Or.inr hfin) (Tcb.opensAt_synSeg _).not_data
  · intro s hs
    rw [List.mem_singleton.mp hs]
    exact Or.inl (Tcb.opensAt_synSeg _)
  · intro s hs hfin
    rw [List.mem_singleton.mp hs] at hfin
    exact absurd (Or.inr hfin) (Tcb.opensAt_synSeg _).not_data
  · -- `B` was made from `A`'s SYN, so it stands right after it
    refine Or.inr ⟨by simp [Net.start, Endpoint.start, Tcb.newPassive, Tcb.sendSyn,
      Tcb.advWindow, Tcb.blank], 1, ⟨rfl, Nat.zero_le _, Nat.zero_le _, ?_⟩, le_rfl, by omega, ?_,
      ?_, List.nil_prefix, fun _ => rfl⟩
    · intro e he
      exact absurd he (by simp [Net.start, Endpoint.start, Tcb.newPassive, Tcb.sendSyn,
        Tcb.advWindow, Tcb.blank])
    · intro f hf
      exact absurd hf (by simp [Net.start, Endpoint.start, Tcb.newPassive, Tcb.sendSyn,
        Tcb.advWindow, Tcb.blank])
    · intro hf
      exact absurd hf (by simp [Net.start, Endpoint.start, Tcb.newPassive, Tcb.sendSyn,
        Tcb.advWindow, Tcb.blank])
  · intro hne
    exact absurd rfl hne
  · exact Or.inl ⟨Or.inl rfl, rfl, rfl, rfl, rfl, rfl⟩
  · intro hne
    exact absurd rfl hne

theorem length_wrote_call_le (e : Endpoint) (c : Call) :
    e.wrote.length ≤ (e.call c).wrote.length := by
  rw [Endpoint.call, List.length_append]
  omega

/-- Every reachable pair is joined, as long as neither end has written `2 ^ 31`
bytes. -/
theorem Net.Reachable.joined {x : Net} (h : Net.Reachable x) (ha : x.a.wrote.length < 2 ^ 31)
    (hb : x.b.wrote.length < 2 ^ 31) : Joined x.a x.b := by
  induction h with
  | start addrA addrB issA issB nowA nowB => exact joined_start addrA addrB issA issB nowA nowB
  | callA c _ hc ih =>
    exact (ih ((length_wrote_call_le _ c).trans_lt ha) hb).call hc
  | callB c _ hc ih =>
    exact ((ih ha ((length_wrote_call_le _ c).trans_lt hb)).symm.call hc).symm
  | deliverA s now _ hs ih =>
    exact (ih ((length_wrote_call_le _ _).trans_lt ha) hb).deliver hs now hb
  | deliverB s now _ hs ih =>
    exact ((ih ha ((length_wrote_call_le _ _).trans_lt hb)).symm.deliver hs now ha).symm

/-! ## The byte stream -/

/-- What the end `y` has read and buffered is the beginning of what the end `x` has
written; and once it has seen the FIN and read everything, without closing its
handle, it has read all of it. -/
structure StreamSafe (x y : Endpoint) : Prop where
  delivered : y.got ++ y.tcb.rx <+: x.wrote
  complete : y.tcb.finReceived = true → y.tcb.rx = [] → y.tcb.discardRx = false →
    y.got = x.wrote

theorem Linked.streamSafe (h : Linked x y) : StreamSafe x y := by
  rcases h.follows with hU | ⟨-, q, hR⟩
  · refine ⟨?_, ?_⟩
    · rw [hU.got_nil, hU.rx_nil]
      exact List.nil_prefix
    · intro hf
      exact absurd (hU.not_fin.symm.trans hf) (by simp)
  · refine ⟨hR.stream, ?_⟩
    intro hf hrx hd
    have hcount := hR.count hd
    have hall := (hR.fin_all hf).2
    have hpre := hR.stream
    rw [hrx, List.append_nil] at hcount hpre
    rw [hf, Bool.toNat_true] at hcount
    exact hpre.eq_of_length (by omega)

/-- **The byte stream is safe end to end.**  Over any network that loses,
duplicates, delays and reorders segments, and for any interleaving of calls,
timers and deliveries with any initial sequence numbers, in both directions. -/
theorem byte_stream_safe {x : Net} (h : Net.Reachable x) (ha : x.a.wrote.length < 2 ^ 31)
    (hb : x.b.wrote.length < 2 ^ 31) : StreamSafe x.a x.b ∧ StreamSafe x.b x.a :=
  ⟨(h.joined ha hb).to_right.streamSafe, (h.joined ha hb).to_left.streamSafe⟩

/-! ## A run -/

/-- One entry of a schedule: a call at either end, or the delivery of the `i`-th
segment the other end has emitted. -/
inductive Event where
  | callA (c : Call)
  | callB (c : Call)
  | toA (i : ℕ)
  | toB (i : ℕ)

/-- Run one entry; one that cannot happen changes nothing. -/
def Net.exec (x : Net) : Event → Net
  | .callA c => if c.isLocal then { x with a := x.a.call c } else x
  | .callB c => if c.isLocal then { x with b := x.b.call c } else x
  | .toA i => (x.b.sent[i]?).elim x fun s => { x with a := x.a.deliver x.b s 0 }
  | .toB i => (x.a.sent[i]?).elim x fun s => { x with b := x.b.deliver x.a s 0 }

theorem Net.Reachable.exec {x : Net} (h : Net.Reachable x) (e : Event) :
    Net.Reachable (x.exec e) := by
  cases e with
  | callA c =>
    rw [Net.exec]
    split
    · exact Net.Reachable.callA c h (by assumption)
    · exact h
  | callB c =>
    rw [Net.exec]
    split
    · exact Net.Reachable.callB c h (by assumption)
    · exact h
  | toA i =>
    rw [Net.exec]
    cases hs : x.b.sent[i]? with
    | none => exact h
    | some s => exact Net.Reachable.deliverA s 0 h (List.mem_of_getElem? hs)
  | toB i =>
    rw [Net.exec]
    cases hs : x.a.sent[i]? with
    | none => exact h
    | some s => exact Net.Reachable.deliverB s 0 h (List.mem_of_getElem? hs)

theorem Net.Reachable.foldl {x : Net} (h : Net.Reachable x) (es : List Event) :
    Net.Reachable (es.foldl Net.exec x) := by
  induction es generalizing x with
  | nil => exact h
  | cons e es ih => exact ih (h.exec e)

/-- Two connections whose sequence numbers wrap; the handshake completes, `A`
writes two bytes and shuts down, and `B` receives all of it, the FIN first. -/
def transferred : Net :=
  [Event.toA 0, .toB 1, .callA (.write [7, 8] 0), .callA (.shutdownWrite 0), .toB 3, .toB 2].foldl
    Net.exec (Net.start SocketAddr.default SocketAddr.default 0xffffffff 0xfffffffe 0 0)

/-- After reading, `B` has all of it. -/
theorem byte_stream_safe_transferred :
    (transferred.exec (.callB (.read 16))).b.tcb.finReceived = true ∧
      (transferred.exec (.callB (.read 16))).b.got = [7, 8] ∧
      StreamSafe (transferred.exec (.callB (.read 16))).a
        (transferred.exec (.callB (.read 16))).b := by
  have hr : Net.Reachable (transferred.exec (.callB (.read 16))) :=
    ((Net.Reachable.start _ _ _ _ _ _).foldl _).exec _
  exact ⟨by decide, by decide, (byte_stream_safe hr (by decide) (by decide)).1⟩

/-- **Closing the handle throws away what was not read.**  `B` closes instead of
reading: it has seen the FIN, its buffer is empty, and it has read none of the
two bytes `A` wrote. -/
theorem unread_bytes_lost_at_close :
    Net.Reachable (transferred.exec (.callB (.close 0))) ∧
      (transferred.exec (.callB (.close 0))).b.tcb.finReceived = true ∧
      (transferred.exec (.callB (.close 0))).b.tcb.rx = [] ∧
      (transferred.exec (.callB (.close 0))).b.got = [] ∧
      (transferred.exec (.callB (.close 0))).a.wrote = [7, 8] :=
  ⟨((Net.Reachable.start _ _ _ _ _ _).foldl _).exec _, by decide, by decide, by decide, by decide⟩

end EvansComputer.Tcp
