import EvansComputer.Tcp.Frames

/-!
# The receive sequence space

Reassembly keeps three things in step: the next byte expected, the bytes
buffered in order, and the pieces that arrived ahead of their turn.  As on the
sending side, positions are counted without wrapping, from any base word:
`RecvInv P b t q` says that `rcv_nxt` is the word at position `q`, that both
buffers respect their bounds, and that every out-of-order piece lies strictly
after `q` and inside the window.

What the bytes mean is left open.  `P p d` may say anything about a piece `d` at
position `p`, as long as it passes to suffixes, prefixes and concatenations
(`Content`).  With the trivial `P` the results below are the bounds on the
receive window against any peer; with `P` the slices of what the peer wrote they
are the correctness of the byte stream.
-/

namespace EvansComputer.Tcp

open SerialNumber

/-! ## Pieces -/

/-- A property of pieces of a stream, each at its position. -/
structure Content (P : ℕ → List Byte → Prop) : Prop where
  drop : ∀ {p : ℕ} {d : List Byte} {i : ℕ}, P p d → i < d.length → P (p + i) (d.drop i)
  take : ∀ {p : ℕ} {d : List Byte} {i : ℕ}, P p d → P p (d.take i)
  append : ∀ {p : ℕ} {d e : List Byte}, P p d → P (p + d.length) e → P p (d ++ e)

theorem content_true : Content (fun _ _ => True) :=
  ⟨fun _ _ => trivial, fun _ => trivial, fun _ _ => trivial⟩

/-! ## `swap_remove` -/

section SwapRemove

variable {α : Type*} {l : List α} {i : ℕ}

theorem Tcb.mem_of_mem_swapRemove {x : α} (h : x ∈ Tcb.swapRemove l i) : x ∈ l := by
  unfold Tcb.swapRemove at h
  split at h
  · exact h
  · rename_i y hy
    rcases List.mem_or_eq_of_mem_set (List.mem_of_mem_dropLast h) with hx | rfl
    · exact hx
    · exact List.mem_of_getLast? hy

theorem Tcb.length_swapRemove (h : i < l.length) : (Tcb.swapRemove l i).length + 1 = l.length := by
  unfold Tcb.swapRemove
  split
  · rename_i hnone
    rw [List.getLast?_eq_none_iff.mp hnone] at h
    exact absurd h (by simp)
  · rw [List.length_dropLast, List.length_set]
    omega

end SwapRemove

namespace Tcb

variable {P : ℕ → List Byte → Prop} {b : Seq} {t : Tcb} {q : ℕ}

/-! ## The window -/

theorem rcvWnd_le (t : Tcb) : t.rcvWnd ≤ rxCap := by
  unfold rcvWnd
  split
  · exact le_rfl
  · exact Nat.sub_le _ _

/-- Bytes that enter leave room for the rest of the window, or for all of it when
they are discarded. -/
theorem rcvWnd_pushRx {data : List Byte} (hrx : t.rx.length ≤ rxCap) :
    (t.pushRx data).rcvWnd = if t.discardRx then rxCap else t.rcvWnd - data.length := by
  cases hd : t.discardRx with
  | true => simp [rcvWnd, pushRx, hd]
  | false =>
    simp only [rcvWnd, pushRx, hd, Bool.false_eq_true, if_false, List.length_append]
    omega

theorem rx_pushRx_length {data : List Byte} (hrx : t.rx.length ≤ rxCap)
    (hfit : data.length ≤ t.rcvWnd) : (t.pushRx data).rx.length ≤ rxCap := by
  cases hd : t.discardRx with
  | true => simpa [pushRx, hd] using hrx
  | false =>
    simp only [rcvWnd, pushRx, hd, Bool.false_eq_true, if_false, List.length_append] at hfit ⊢
    omega

/-! ## The invariant -/

/-- The receiver's invariant, with `rcv_nxt` at position `q` from the base `b`. -/
structure RecvInv (P : ℕ → List Byte → Prop) (b : Seq) (t : Tcb) (q : ℕ) : Prop where
  nxt_eq : t.rcvNxt = advance b q
  rx_le : t.rx.length ≤ rxCap
  ooo_le : t.ooo.length ≤ maxOoo
  /-- An out-of-order piece starts after `rcv_nxt` and ends inside the window. -/
  ooo_pos : ∀ e ∈ t.ooo, ∃ p, e.1 = advance b p ∧ q < p ∧ p + e.2.length ≤ q + t.rcvWnd ∧
    P p e.2

/-- The invariant in the middle of reassembly: `rcv_nxt` has moved from position
`lo` to `q` and may have passed some pieces, but everything still ends before
`hi`, which is inside the window. -/
structure Draining (P : ℕ → List Byte → Prop) (b : Seq) (t : Tcb) (lo q hi : ℕ) : Prop where
  nxt_eq : t.rcvNxt = advance b q
  lo_le : lo ≤ q
  le_hi : q ≤ hi
  span : hi ≤ lo + rxCap
  room : hi ≤ q + t.rcvWnd
  rx_le : t.rx.length ≤ rxCap
  ooo_le : t.ooo.length ≤ maxOoo
  ooo_pos : ∀ e ∈ t.ooo, ∃ p, e.1 = advance b p ∧ lo < p ∧ p + e.2.length ≤ hi ∧ P p e.2

/-- `t'` is `t` after the bytes `data` have entered in order. -/
structure Received (P : ℕ → List Byte → Prop) (t t' : Tcb) (q q' : ℕ) (data : List Byte) :
    Prop where
  length_eq : q + data.length = q'
  content : data ≠ [] → P q data
  rx_eq : t'.rx = if t.discardRx then t.rx else t.rx ++ data
  frame : t'.withoutReceive = t.withoutReceive
  fin_eq : t'.rxFinSeq = t.rxFinSeq

theorem Received.refl (P : ℕ → List Byte → Prop) (t : Tcb) (q : ℕ) : Received P t t q q [] :=
  ⟨rfl, fun h => absurd rfl h, by simp, rfl, rfl⟩

theorem Received.trans (hP : Content P) {t₁ t₂ t₃ : Tcb} {q₁ q₂ q₃ : ℕ} {d e : List Byte}
    (h : Received P t₁ t₂ q₁ q₂ d) (h' : Received P t₂ t₃ q₂ q₃ e) :
    Received P t₁ t₃ q₁ q₃ (d ++ e) := by
  have hdis : t₂.discardRx = t₁.discardRx :=
    eq_of_withoutReceive Tcb.discardRx (fun _ => rfl) h.frame
  refine ⟨?_, ?_, ?_, h'.frame.trans h.frame, h'.fin_eq.trans h.fin_eq⟩
  · have h1 := h.length_eq
    have h2 := h'.length_eq
    rw [List.length_append]
    omega
  · intro hne
    by_cases hd : d = []
    · have hq : q₁ = q₂ := by simpa [hd] using h.length_eq
      subst hd
      rw [List.nil_append] at hne ⊢
      exact hq ▸ h'.content hne
    · by_cases he : e = []
      · rw [he, List.append_nil]
        exact h.content hd
      · exact hP.append (h.content hd) (by rw [h.length_eq]; exact h'.content he)
  · rw [h'.rx_eq, h.rx_eq, hdis]
    split <;> simp

/-- In-order bytes enter. -/
theorem received_pushRx {data : List Byte} (hc : data ≠ [] → P q data) :
    Received P t (t.pushRx data) q (q + data.length) data :=
  ⟨rfl, hc, rfl, rfl, rfl⟩

/-! ## Draining -/

section Drain

variable {lo hi : ℕ}

theorem Draining.pushRx (data : List Byte) (hD : Draining P b t lo q hi)
    (hfit : q + data.length ≤ hi) : Draining P b (t.pushRx data) lo (q + data.length) hi := by
  have hroom := hD.room
  have hw : data.length ≤ t.rcvWnd := by omega
  have hspan := hD.span
  have hlo := hD.lo_le
  refine ⟨?_, by omega, hfit, hspan, ?_, rx_pushRx_length hD.rx_le hw, hD.ooo_le, hD.ooo_pos⟩
  · change t.rcvNxt + BitVec.ofNat 32 data.length = _
    rw [add_ofNat_eq_advance, hD.nxt_eq, advance_advance]
  · rw [rcvWnd_pushRx hD.rx_le]
    split <;> omega

/-- In the middle of reassembly the comparison with `rcv_nxt` is honest. -/
theorem Draining.seqLe_iff (hD : Draining P b t lo q hi) {p : ℕ} (h1 : lo < p) (h2 : p ≤ hi) :
    seqLe (advance b p) t.rcvNxt = decide (p ≤ q) := by
  have hlo := hD.lo_le
  have hhi := hD.le_hi
  have hspan := hD.span
  have hcap : rxCap < 2 ^ 30 := by decide
  rw [hD.nxt_eq, seqLe_advance (by omega) (by omega)]

/-- **Draining delivers.**  However many pieces have become deliverable, they
enter in order, the window is respected, and what stays is strictly ahead. -/
theorem drainLoop_spec (hP : Content P) (fuel : ℕ) (hD : Draining P b t lo q hi)
    (hfuel : t.ooo.length ≤ fuel) :
    ∃ q' data, Draining P b (drainLoop fuel t) lo q' hi ∧
      Received P t (drainLoop fuel t) q q' data ∧
      ∀ e ∈ (drainLoop fuel t).ooo, seqLe e.1 (drainLoop fuel t).rcvNxt = false := by
  induction fuel generalizing t q with
  | zero =>
    have hnil : t.ooo = [] := List.eq_nil_of_length_eq_zero (by omega)
    refine ⟨q, [], hD, Received.refl P t q, ?_⟩
    intro e he
    rw [drainLoop, hnil] at he
    exact absurd he (by simp)
  | succ fuel ih =>
    rw [drainLoop]
    split
    · rename_i hnone
      refine ⟨q, [], hD, Received.refl P t q, ?_⟩
      intro e he
      exact List.findIdx?_eq_none_iff.mp hnone e he
    · rename_i i hi'
      obtain ⟨hlt, hle, -⟩ := List.findIdx?_eq_some_iff_getElem.mp hi'
      have hget : t.ooo[i]? = some t.ooo[i] := List.getElem?_eq_getElem hlt
      rw [hget]
      generalize hent : t.ooo[i] = entry at hle
      obtain ⟨s, d⟩ := entry
      have hmem : (s, d) ∈ t.ooo := hent ▸ List.getElem_mem hlt
      obtain ⟨p, hs, hlp, hpd, hcp⟩ := hD.ooo_pos _ hmem
      simp only at hs hpd hcp hle ⊢
      have hpq : p ≤ q := by
        rw [hs, hD.seqLe_iff hlp (by omega)] at hle
        simpa using hle
      have hqhi := hD.le_hi
      have hspan := hD.span
      have hlo := hD.lo_le
      have hcap : rxCap < 2 ^ 30 := by decide
      have hskip : (t.rcvNxt - s).toNat = q - p := by
        rw [hs, hD.nxt_eq, toNat_advance_sub hpq (by omega)]
      have hlen := length_swapRemove hlt
      -- the block without the piece that is being delivered
      have hD' : Draining P b { t with ooo := swapRemove t.ooo i } lo q hi :=
        ⟨hD.nxt_eq, hD.lo_le, hD.le_hi, hD.span, hD.room, hD.rx_le,
          by have := hD.ooo_le; simp only; omega,
          fun e he => hD.ooo_pos e (mem_of_mem_swapRemove he)⟩
      rw [hskip]
      split
      · rename_i hnew
        have hdrop : (d.drop (q - p)).length = d.length - (q - p) := List.length_drop
        have hDp := Draining.pushRx (d.drop (q - p)) hD' (by omega)
        have hcont : d.drop (q - p) ≠ [] → P q (d.drop (q - p)) := by
          intro _
          have := hP.drop hcp hnew
          rwa [Nat.add_sub_cancel' hpq] at this
        obtain ⟨q', data, h1, h2, h3⟩ := ih hDp (by simp only [pushRx]; omega)
        have hrec := Received.trans hP
          (received_pushRx (t := { t with ooo := swapRemove t.ooo i }) hcont) h2
        exact ⟨q', _, h1, ⟨hrec.length_eq, hrec.content, hrec.rx_eq, hrec.frame, hrec.fin_eq⟩, h3⟩
      · obtain ⟨q', data, h1, h2, h3⟩ := ih hD' (by simp only; omega)
        exact ⟨q', data, h1, ⟨h2.length_eq, h2.content, h2.rx_eq, h2.frame, h2.fin_eq⟩, h3⟩

/-- After the loop only pieces ahead of `rcv_nxt` are left. -/
theorem Draining.recvInv (hD : Draining P b t lo q hi)
    (hahead : ∀ e ∈ t.ooo, seqLe e.1 t.rcvNxt = false) : RecvInv P b t q := by
  refine ⟨hD.nxt_eq, hD.rx_le, hD.ooo_le, ?_⟩
  intro e he
  obtain ⟨p, hs, hlp, hpd, hcp⟩ := hD.ooo_pos e he
  have h := hahead e he
  rw [hs, hD.seqLe_iff hlp (by omega)] at h
  have hroom := hD.room
  refine ⟨p, hs, by simpa using h, by omega, hcp⟩

end Drain

/-! ## Accepting data -/

/-- What one method of the receiving half did: `rcv_nxt` moved from `q` to `q'`
inside the window, over the bytes `data`. -/
structure Accepts (P : ℕ → List Byte → Prop) (b : Seq) (t t' : Tcb) (q q' : ℕ)
    (data : List Byte) : Prop where
  inv : RecvInv P b t' q'
  received : Received P t t' q q' data
  within : q' ≤ q + t.rcvWnd

theorem Accepts.refl (hI : RecvInv P b t q) : Accepts P b t t q q [] :=
  ⟨hI, Received.refl P t q, Nat.le_add_right _ _⟩

/-- **Bytes at or after `rcv_nxt`** enter in order, wait out of order, or are
dropped; none of them beyond the window. -/
theorem bufferData_accepts (hP : Content P) (hI : RecvInv P b t q) {seq : Seq} {d : List Byte}
    (hc : d ≠ [] → P (q + (seq - t.rcvNxt).toNat) d) :
    ∃ q' data, Accepts P b t (t.bufferData seq d) q q' data := by
  have hseq : seq = advance b (q + (seq - t.rcvNxt).toNat) := by
    rw [← advance_advance, ← hI.nxt_eq, exists_eq_advance]
  have hwle := rcvWnd_le t
  simp only [bufferData]
  generalize (seq - t.rcvNxt).toNat = off at hc hseq
  by_cases hoff : t.rcvWnd ≤ off
  · rw [if_pos hoff]
    exact ⟨q, [], Accepts.refl hI⟩
  rw [if_neg hoff]
  by_cases hemp : (d.take (t.rcvWnd - off)).isEmpty = true
  · rw [if_pos hemp]
    exact ⟨q, [], Accepts.refl hI⟩
  rw [if_neg hemp]
  have hne : d.take (t.rcvWnd - off) ≠ [] := by simpa using hemp
  have hcd : P (q + off) (d.take (t.rcvWnd - off)) := by
    refine hP.take (hc ?_)
    rintro rfl
    exact hne (by simp)
  have hlen : (d.take (t.rcvWnd - off)).length ≤ t.rcvWnd - off := by
    rw [List.length_take]
    omega
  generalize d.take (t.rcvWnd - off) = data at hne hcd hlen
  by_cases hin : seq = t.rcvNxt
  · -- in order: push, then drain what has become deliverable
    have h0 : off = 0 := by
      have hcap : rxCap < 2 ^ 30 := by decide
      rw [hin, hI.nxt_eq] at hseq
      have := (advance_inj (b := b) (m := q) (n := q + off) (by omega) (by omega)).mp hseq
      omega
    subst h0
    rw [if_pos hin]
    have hD : Draining P b t q q (q + t.rcvWnd) := by
      refine ⟨hI.nxt_eq, le_rfl, Nat.le_add_right _ _, by omega, le_rfl, hI.rx_le, hI.ooo_le, ?_⟩
      intro e he
      obtain ⟨p, h1, h2, h3, h4⟩ := hI.ooo_pos e he
      exact ⟨p, h1, h2, h3, h4⟩
    have hDp := Draining.pushRx data hD (by omega)
    obtain ⟨q', rest, h1, h2, h3⟩ := drainLoop_spec hP (t.pushRx data).ooo.length hDp le_rfl
    exact ⟨q', data ++ rest, h1.recvInv h3,
      Received.trans hP (received_pushRx fun _ => hcd) h2, h1.le_hi⟩
  · rw [if_neg hin]
    split
    · rename_i hroom
      rw [Bool.and_eq_true, decide_eq_true_eq] at hroom
      refine ⟨q, [], ⟨hI.nxt_eq, hI.rx_le, ?_, ?_⟩, ⟨rfl, fun h => absurd rfl h, by simp, rfl, rfl⟩,
        Nat.le_add_right _ _⟩
      · change (t.ooo ++ [(seq, data)]).length ≤ maxOoo
        rw [List.length_append, List.length_singleton]
        omega
      · intro e he
        rcases List.mem_append.mp he with he | he
        · exact hI.ooo_pos e he
        · rw [List.mem_singleton.mp he]
          have hpos : 0 < off := by
            rcases Nat.eq_zero_or_pos off with rfl | h
            · exact absurd (hseq.trans hI.nxt_eq.symm) hin
            · exact h
          refine ⟨q + off, hseq, by omega, ?_, hcd⟩
          change q + off + data.length ≤ q + t.rcvWnd
          omega
    · exact ⟨q, [], Accepts.refl hI⟩

/-- What must be known of a segment's bytes: where its sequence number puts them,
they are a piece of the stream. -/
def SegContent (P : ℕ → List Byte → Prop) (t : Tcb) (q : ℕ) (seq : Seq) (d : List Byte) : Prop :=
  (seqLt seq t.rcvNxt = true → (t.rcvNxt - seq).toNat < d.length →
      P q (d.drop (t.rcvNxt - seq).toNat)) ∧
    (seqLt seq t.rcvNxt = false → d ≠ [] → P (q + (seq - t.rcvNxt).toNat) d)

theorem segContent_true (t : Tcb) (q : ℕ) (seq : Seq) (d : List Byte) :
    SegContent (fun _ _ => True) t q seq d :=
  ⟨fun _ _ => trivial, fun _ _ => trivial⟩

/-- **A segment's payload, wherever its sequence number puts it.** -/
theorem acceptData_accepts (hP : Content P) (hI : RecvInv P b t q) {seq : Seq} {d : List Byte}
    (hc : SegContent P t q seq d) : ∃ q' data, Accepts P b t (t.acceptData seq d) q q' data := by
  simp only [acceptData]
  by_cases hlt : seqLt seq t.rcvNxt = true
  · rw [if_pos hlt]
    by_cases hold : d.length ≤ (t.rcvNxt - seq).toNat
    · rw [if_pos hold]
      exact ⟨q, [], Accepts.refl hI⟩
    · rw [if_neg hold]
      refine bufferData_accepts hP hI fun _ => ?_
      rw [BitVec.sub_self]
      exact hc.1 hlt (by omega)
  · rw [if_neg hlt]
    exact bufferData_accepts hP hI (hc.2 (by simpa using hlt))

theorem takePayload_accepts (hP : Content P) (hI : RecvInv P b t q) {h : TcpHeader}
    {d : List Byte} (hc : SegContent P t q h.seqNum d) :
    ∃ q' data, Accepts P b t (t.takePayload h d) q q' data := by
  rw [takePayload]
  split
  · exact ⟨q, [], Accepts.refl hI⟩
  · exact acceptData_accepts hP hI hc

end EvansComputer.Tcp.Tcb
