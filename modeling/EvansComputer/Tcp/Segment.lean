import EvansComputer.Library.SerialNumber
import EvansComputer.Net.Types

/-!
# TCP segments, states and sequence numbers

What the connection state machine reads and writes: the flag bits, the eleven
connection states, the header fields of a received segment, the segments it
asks to have sent, and the four comparisons of sequence numbers.

A sequence number is a 32-bit word compared by the sign of a wrapped difference.
`seqLt_advance` and its companions say what the comparisons mean for numbers
counted from a common base; every later argument goes through those counts and
never unfolds the comparison.
-/

namespace EvansComputer.Tcp

open SerialNumber

/-! ## Flags and states -/

/-- A flag bit of the TCP header. -/
abbrev Flags := UInt8

def FIN : Flags := 0x01
def SYN : Flags := 0x02
def RST : Flags := 0x04
def PSH : Flags := 0x08
def ACK : Flags := 0x10

/-- Our MSS for a 1500-byte MTU. -/
def tcpMss : ℕ := 1460

/-- MSS assumed when the peer sends no MSS option. -/
def defaultMss : ℕ := 536

/-- TCP connection state. -/
inductive TcpState where
  | closed
  | listen
  | synSent
  | synReceived
  | established
  | finWait1
  | finWait2
  | closeWait
  | closing
  | lastAck
  | timeWait
  deriving DecidableEq

/-! ## Sequence numbers -/

/-- A sequence number: a word modulo `2 ^ 32`. -/
abbrev Seq := BitVec 32

def seqLt (a b : Seq) : Bool := (a - b).toInt < 0
def seqLe (a b : Seq) : Bool := (a - b).toInt ≤ 0
def seqGt (a b : Seq) : Bool := seqLt b a
def seqGe (a b : Seq) : Bool := seqLe b a

section Counted

variable {b : Seq} {m n : ℕ}

/-- **Before, counted from a base.**  In the window where the sign bit is
honest, the comparison is the comparison of the counts. -/
theorem seqLt_advance (hlo : n ≤ m + 2 ^ 31) (hhi : m < n + 2 ^ 31) :
    seqLt (advance b m) (advance b n) = decide (m < n) := by
  rw [seqLt, toInt_advance_sub (by decide) (by simpa using hlo) (by simpa using hhi)]
  simp

theorem seqLe_advance (hlo : n ≤ m + 2 ^ 31) (hhi : m < n + 2 ^ 31) :
    seqLe (advance b m) (advance b n) = decide (m ≤ n) := by
  rw [seqLe, toInt_advance_sub (by decide) (by simpa using hlo) (by simpa using hhi)]
  simp

theorem seqGt_advance (hlo : m ≤ n + 2 ^ 31) (hhi : n < m + 2 ^ 31) :
    seqGt (advance b m) (advance b n) = decide (n < m) :=
  seqLt_advance hlo hhi

/-- A word found after the base is at most half the ring away from it. -/
theorem le_of_seqGt_advance (hd : m < 2 ^ 32) (h : seqGt (advance b m) b = true) :
    0 < m ∧ m ≤ 2 ^ 31 := by
  rcases Nat.lt_or_ge (2 ^ 31) m with hlt | hle
  · -- further round the ring the base is the later word
    have hbase : advance (advance b m) (2 ^ 32 - m) = b := by
      rw [advance_advance, Nat.add_sub_cancel' (Nat.le_of_lt hd)]
      simp [advance]
    have hge := seqGt_advance (b := advance b m) (m := 0) (n := 2 ^ 32 - m)
      (by omega) (by omega)
    rw [advance_zero, hbase, h] at hge
    simp at hge
  · have hge := seqGt_advance (b := b) (m := m) (n := 0) (by omega) (by omega)
    rw [advance_zero, h] at hge
    exact ⟨by simpa using hge.symm, hle⟩

end Counted

/-! ## Headers and segments -/

/-- A parsed TCP header, including the MSS option if present. -/
structure TcpHeader where
  srcPort : UInt16
  dstPort : UInt16
  seqNum : Seq
  ackNum : Seq
  flags : Flags
  window : UInt16
  mss : Option UInt16
  deriving DecidableEq

def TcpHeader.has (h : TcpHeader) (flag : Flags) : Bool := h.flags &&& flag != 0

/-- A segment to transmit; the addresses and ports come from the connection. -/
structure Seg where
  seq : Seq
  ack : Seq
  flags : Flags
  window : UInt16
  mss : Option UInt16
  payload : List Byte
  deriving DecidableEq

def Seg.has (s : Seg) (flag : Flags) : Bool := s.flags &&& flag != 0

/-- The header the peer parses out of a segment sent from port `src` to `dst`. -/
def Seg.header (s : Seg) (src dst : UInt16) : TcpHeader :=
  ⟨src, dst, s.seq, s.ack, s.flags, s.window, s.mss⟩

/-- `mss.unwrap_or(DEFAULT_MSS).clamp(64, TCP_MSS)`. -/
def clampMss (mss : Option UInt16) : ℕ :=
  max 64 (min tcpMss ((mss.map UInt16.toNat).getD defaultMss))

theorem le_clampMss (mss : Option UInt16) : 64 ≤ clampMss mss := le_max_left _ _

end EvansComputer.Tcp
