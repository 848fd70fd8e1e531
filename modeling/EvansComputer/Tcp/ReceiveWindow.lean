import EvansComputer.Tcp.ReceiveStep

/-!
# The receive window against any peer

The receiving half of a reachable block respects its bounds whatever arrives:
the receive buffer never exceeds its capacity, the out-of-order list its length,
and every piece in it lies inside the window, so that draining it cannot overrun
the buffer.  The window's right edge, once there is one, never moves back.

Before the peer's SYN there is none: in `SynSent` the block has `rcv_nxt = 0` and
learns the peer's initial sequence number with the answer, so the edge jumps to
wherever the peer starts (`right_edge_jumps_at_syn`).
-/

namespace EvansComputer.Tcp

open SerialNumber

namespace Tcb

variable {b : Seq} {t : Tcb} {q : ℕ}

/-- Nothing is said about the bytes. -/
abbrev AnyContent : ℕ → List Byte → Prop := fun _ _ => True

/-- The right edge of the receive window. -/
def rightEdge (t : Tcb) : Seq := t.rcvNxt + BitVec.ofNat 32 t.rcvWnd

/-- A block with nothing out of order, counted from its own `rcv_nxt`. -/
theorem recvInv_of_empty {P : ℕ → List Byte → Prop} (hrx : t.rx.length ≤ rxCap)
    (hooo : t.ooo = []) : RecvInv P t.rcvNxt t 0 := by
  refine ⟨(advance_zero _).symm, hrx, by rw [hooo]; exact Nat.zero_le _, ?_⟩
  intro e he
  rw [hooo] at he
  exact absurd he (by simp)

/-! ## One event after the peer's SYN -/

/-- The window's right edge, at position `q` plus the window, moves forward by at
most a buffer and the FIN. -/
def EdgeMoves (b : Seq) (t t' : Tcb) (q : ℕ) : Prop :=
  ∃ q', RecvInv AnyContent b t' q' ∧ q + t.rcvWnd ≤ q' + t'.rcvWnd ∧
    q' + t'.rcvWnd ≤ q + t.rcvWnd + rxCap + 1 ∧ t'.state ≠ .synSent

theorem EdgeMoves.of_keeps {u : Tcb} {ret : List Byte} (hI : RecvInv AnyContent b t q)
    (hk : Keeps t u ret) (hs : t.state ≠ .synSent) : EdgeMoves b t u q := by
  have hw := hk.rcvWnd_le
  have hle := rcvWnd_le u
  exact ⟨q, hk.recvInv hI, by omega, by omega, hk.state.opened hs⟩

theorem EdgeMoves.of_advances {u : Tcb} {q₁ : ℕ} {data : List Byte}
    (hI : RecvInv AnyContent b t q) (hA : Advances AnyContent b t u q q₁ data)
    (hs : u.state ≠ .synSent) : EdgeMoves b t u q := by
  obtain ⟨h1, h2⟩ := hA.edge hI.rx_le
  have hfin : (u.finReceived && !t.finReceived).toNat ≤ 1 := Bool.toNat_le _
  exact ⟨_, hA.inv, by omega, by omega, hs⟩

/-- **One event, once the peer's initial sequence number is known.** -/
theorem step_edgeMoves (hI : RecvInv AnyContent b t q) (hs : t.state ≠ .synSent) (c : Call) :
    EdgeMoves b t (t.step c).1 q := by
  by_cases hc : c.isLocal = true
  · exact EdgeMoves.of_keeps hI (keeps_step t c hc) hs
  cases c with
  | onSegment h payload now =>
    simp only [step, onSegment]
    split
    · exact EdgeMoves.of_keeps hI (Keeps.of_view rfl (StateKeeps.refl _)) hs
    · exact EdgeMoves.of_keeps hI (Keeps.of_view rfl (StateKeeps.refl _)) hs
    · exact absurd (by assumption) hs
    · obtain ⟨q₁, data, hA, -, hst⟩ := onSynchronized_advances content_true
        now [] hI (segContent_true t q h.seqNum payload) hs
      exact EdgeMoves.of_advances hI hA hst
  | _ => exact absurd rfl hc

/-! ## Every reachable block -/

/-- The receiving half of a block that may still wait for the peer's SYN. -/
structure RecvOk (t : Tcb) : Prop where
  inv : ∃ b q, RecvInv AnyContent b t q
  opening : t.state = .synSent → t.rx = [] ∧ t.ooo = []

theorem RecvOk.of_ne {u : Tcb} (h : ∃ b q, RecvInv AnyContent b u q) (hs : u.state ≠ .synSent) :
    RecvOk u :=
  ⟨h, fun h => absurd h hs⟩

theorem RecvOk.of_empty {u : Tcb} (hrx : u.rx = []) (hooo : u.ooo = []) : RecvOk u :=
  ⟨⟨_, _, recvInv_of_empty (by rw [hrx]; exact Nat.zero_le _) hooo⟩, fun _ => ⟨hrx, hooo⟩⟩

theorem RecvOk.step (h : RecvOk t) (c : Call) : RecvOk (t.step c).1 := by
  obtain ⟨b, q, hI⟩ := h.inv
  by_cases hs : t.state = .synSent
  · obtain ⟨hrx, hooo⟩ := h.opening hs
    by_cases hc : c.isLocal = true
    · have hk := keeps_step t c hc
      have hrx' := hk.rx_prefix
      have hooo' := hk.ooo_len
      rw [hrx, List.prefix_nil, List.append_eq_nil_iff] at hrx'
      rw [hooo] at hooo'
      exact RecvOk.of_empty hrx'.2 (List.eq_nil_of_length_eq_zero (by simpa using hooo'))
    cases c with
    | onSegment hd payload now =>
      simp only [Tcb.step, Tcb.onSegment, hs]
      rcases onSynSent_cases t hd now [] with heq | ⟨err, heq⟩ | ⟨-, -, hv⟩
      · rw [heq]
        exact h
      · rw [heq]
        exact RecvOk.of_empty hrx rfl
      · obtain ⟨-, h2, h3, -⟩ := recvView_ext hv
        exact RecvOk.of_empty (h2.trans hrx) (h3.trans hooo)
    | _ => exact absurd rfl hc
  · obtain ⟨q', hI', -, -, hs'⟩ := step_edgeMoves hI hs c
    exact RecvOk.of_ne ⟨b, q', hI'⟩ hs'

theorem Reachable.recvOk (h : Reachable t) : RecvOk t := by
  refine Reachable.invariant ?_ (fun u c hu => hu.step c) h
  rintro u (_ | _)
  · exact RecvOk.of_empty rfl rfl
  · exact RecvOk.of_empty rfl rfl

/-- The bounds on the receiving half. -/
structure WindowSafe (t : Tcb) : Prop where
  rx_le : t.rx.length ≤ rxCap
  ooo_le : t.ooo.length ≤ maxOoo
  /-- An out-of-order entry lies inside `(rcv_nxt, rcv_nxt + rcv_wnd]`. -/
  ooo_inside : ∀ e ∈ t.ooo, 0 < (e.1 - t.rcvNxt).toNat ∧
    (e.1 - t.rcvNxt).toNat + e.2.length ≤ t.rcvWnd
  /-- Whatever arrives next, draining does not overrun the buffer. -/
  drain_le : ∀ seq payload, (t.acceptData seq payload).rx.length ≤ rxCap

theorem RecvInv.windowSafe (hI : RecvInv AnyContent b t q) : WindowSafe t := by
  refine ⟨hI.rx_le, hI.ooo_le, ?_, ?_⟩
  · intro e he
    obtain ⟨p, hs, hlt, hle, -⟩ := hI.ooo_pos e he
    have hcap : rxCap < 2 ^ 30 := by decide
    have hw := rcvWnd_le t
    have hd : (e.1 - t.rcvNxt).toNat = p - q := by
      rw [hs, hI.nxt_eq, toNat_advance_sub (by omega) (by omega)]
    rw [hd]
    omega
  · intro seq payload
    obtain ⟨q', data, hA⟩ := acceptData_accepts content_true hI (segContent_true t q seq payload)
    exact hA.inv.rx_le

theorem EdgeMoves.seqLe {u : Tcb} (hI : RecvInv AnyContent b t q) (h : EdgeMoves b t u q) :
    Tcp.seqLe t.rightEdge u.rightEdge = true ∧
      (u.rightEdge - t.rightEdge).toNat ≤ rxCap + 1 := by
  obtain ⟨q', hI', hlo, hhi, -⟩ := h
  have h1 : t.rightEdge = advance b (q + t.rcvWnd) := by
    rw [rightEdge, add_ofNat_eq_advance, hI.nxt_eq, advance_advance]
  have h2 : u.rightEdge = advance b (q' + u.rcvWnd) := by
    rw [rightEdge, add_ofNat_eq_advance, hI'.nxt_eq, advance_advance]
  have hcap : rxCap < 2 ^ 30 := by decide
  rw [h1, h2, seqLe_advance (by omega) (by omega), toNat_advance_sub hlo (by omega)]
  exact ⟨decide_eq_true hlo, by omega⟩

/-- **The receive window is safe against any peer.**  In every reachable state the
buffers respect their bounds and every out-of-order entry lies inside the
window; and from any state in which the peer's initial sequence number is known,
no event moves the window's right edge back. -/
theorem receive_window_safe (h : Reachable t) :
    WindowSafe t ∧ (t.state ≠ .synSent → ∀ c,
      seqLe t.rightEdge (t.step c).1.rightEdge = true ∧
        ((t.step c).1.rightEdge - t.rightEdge).toNat ≤ rxCap + 1) := by
  obtain ⟨b, q, hI⟩ := h.recvOk.inv
  exact ⟨hI.windowSafe, fun hs c => EdgeMoves.seqLe hI (step_edgeMoves hI hs c)⟩

/-- A connection that has just sent its SYN. -/
def synSentBlock : Tcb := (newConnect SocketAddr.default SocketAddr.default 0 0 []).1

/-- The peer's SYN-ACK, with an initial sequence number in the upper half. -/
def farSynAck : Call :=
  .onSegment ⟨80, 49152, 0x90000000, 1, SYN ||| ACK, 1000, none⟩ [] 0

/-- A segment of the peer with two bytes. -/
def farData (seq : Seq) (bytes : List Byte) : Call :=
  .onSegment ⟨80, 49152, seq, 1, ACK, 1000, none⟩ bytes 0

/-- The connection after two bytes that leave a gap of two before them. -/
def gapped : Tcb := ((synSentBlock.step farSynAck).1.step (farData 0x90000003 [3, 4])).1

theorem receive_window_safe_gapped :
    gapped.state = .established ∧ gapped.ooo = [(0x90000003, [3, 4])] ∧ WindowSafe gapped ∧
      (gapped.step (farData 0x90000001 [1, 2])).1.rx = [1, 2, 3, 4] ∧
      seqLe gapped.rightEdge (gapped.step (farData 0x90000001 [1, 2])).1.rightEdge = true ∧
      ((gapped.step (farData 0x90000001 [1, 2])).1.rightEdge - gapped.rightEdge).toNat ≤
        rxCap + 1 := by
  have hr : Reachable gapped := .step _ (.step _ (Reachable.init (Initial.connect _ _ _ _)))
  obtain ⟨hsafe, hedge⟩ := receive_window_safe hr
  exact ⟨by decide, by decide, hsafe, by decide, hedge (by decide) (farData 0x90000001 [1, 2])⟩

/-- **Before the peer's SYN there is no right edge to keep**: `rcv_nxt` is zero in
`SynSent` and becomes the peer's initial sequence number plus one, which may be
anywhere --- here half the sequence space behind. -/
theorem right_edge_jumps_at_syn :
    Reachable synSentBlock ∧ synSentBlock.state = .synSent ∧
      (synSentBlock.step farSynAck).1.state = .established ∧
      seqLe synSentBlock.rightEdge (synSentBlock.step farSynAck).1.rightEdge = false := by
  exact ⟨Reachable.init (Initial.connect _ _ _ _), by decide, by decide, by decide⟩

end EvansComputer.Tcp.Tcb
