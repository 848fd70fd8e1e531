import EvansComputer.Net.Types
import Mathlib

/-!
# The convolutional code

Rate 1/2, constraint length 7, generators 171 and 133 octal, with the decoder of Viterbi.

Bits are bytes `0` and `1`.  The decoder's metrics are read as exact integers, with `⊥` for
minus infinity: from hard decisions it only adds and subtracts small ones.  Its decisions are
packed, one bit for each of the 64 states.
-/

namespace EvansComputer.Dsp

/-! ## The encoder -/

/-- Generator polynomials (octal 171, 133). -/
def g1 : Byte := 0o171

def g2 : Byte := 0o133

/-- Constraint length. -/
def constraintLength : ℕ := 7

/-- `STATES` -/
def numStates : ℕ := 1 <<< (constraintLength - 1)

/-- `count_ones` -/
def countOnes (x : Byte) : ℕ := (List.range 8).countP fun i => (x >>> UInt8.ofNat i) &&& 1 = 1

def parity (x : Byte) : Byte := UInt8.ofNat (countOnes x) &&& 1

def outputs (sr : Byte) : Byte × Byte := (parity (sr &&& g1), parity (sr &&& g2))

/-- The shift register with one bit more. -/
def shiftIn (sr b : Byte) : Byte := ((sr <<< 1) ||| (b &&& 1)) &&& 0x7F

/-- `ConvEncoder::encode_into`: the register, and two coded bits for each bit. -/
def encodeInto (sr : Byte) : List Byte → Byte × List Byte
  | [] => (sr, [])
  | b :: bits =>
    let sr := shiftIn sr b
    let (a, c) := outputs sr
    let (last, out) := encodeInto sr bits
    (last, a :: c :: out)

/-- Encode a block and terminate it. -/
def encodeTerminated (bits : List Byte) : List Byte :=
  let (sr, out) := encodeInto 0 bits
  let (_, tail) := encodeInto sr (List.replicate (constraintLength - 1) 0)
  out ++ tail

/-! ## The decoder -/

/-- A path metric. -/
abbrev Metric := WithBot ℤ

instance : DecidableLE Metric := @WithBot.decidableLE ℤ _ Int.decLe
instance : DecidableLT Metric := @WithBot.decidableLT ℤ _ Int.decLt
instance : Max Metric := ⟨fun a b => if a ≤ b then b else a⟩

/-- Expected outputs (±1) for every 7-bit register value. -/
def expected : List (ℤ × ℤ) :=
  (List.range 128).map fun sr =>
    let (a, b) := outputs (UInt8.ofNat sr)
    (2 * a.toNat - 1, 2 * b.toNat - 1)

/-- A metric with one observation more, along the branch of a register value. -/
def branch (metric : List Metric) (r : ℤ × ℤ) (s sr : ℕ) : Metric :=
  let e := expected.getD sr (0, 0)
  metric.getD s ⊥ + (r.1 * e.1 : ℤ) + (r.2 * e.2 : ℤ)

/-- The survivor of a state: the next metrics and the decisions so far, one bit for each state. -/
def survive (metric : List Metric) (r : ℤ × ℤ) (st : List Metric × BitVec 64) (ns : ℕ) :
    List Metric × BitVec 64 :=
  let s0 := ns >>> 1
  let s1 := s0 ||| (1 <<< (constraintLength - 2))
  let sr0 := ((s0 <<< 1) ||| (ns &&& 1)) &&& 0x7F
  let sr1 := (((s1 <<< 1) ||| (ns &&& 1)) &&& 0x7F) ||| 0x40
  let m0 := branch metric r s0 sr0
  let m1 := branch metric r s1 sr1
  if m1 > m0 then (st.1 ++ [m1], st.2 ||| ((1 : BitVec 64) <<< ns)) else (st.1 ++ [m0], st.2)

/-- One step of the trellis; the best metric is never minus infinity. -/
def viterbiStep (st : List Metric × List (BitVec 64)) (r : ℤ × ℤ) :
    List Metric × List (BitVec 64) :=
  let (next, dec) := (List.range numStates).foldl (survive st.1 r) ([], 0)
  -- renormalise
  let best := next.foldl max ⊥
  (next.map fun m => m + (-best.unbotD 0 : ℤ), st.2 ++ [dec])

/-- Along the decisions from the last one back, the bits in their order. -/
def traceback : List (BitVec 64) → ℕ → List Byte
  | [], _ => []
  | dec :: decs, state =>
    let top := ((dec >>> state) &&& 1).toNat
    traceback decs ((state >>> 1) ||| (top <<< (constraintLength - 2))) ++
      [UInt8.ofNat (state &&& 1)]

/-- The last of the states with the greatest metric. -/
def bestState (metric : List Metric) : ℕ :=
  (List.range numStates).foldl (fun b s => if metric.getD b ⊥ ≤ metric.getD s ⊥ then s else b) 0

/-- `viterbi_decode_soft`, on whole numbers.  An odd number of them is an assertion that fails. -/
def viterbiDecodeSoft (soft : List ℤ) (terminated : Bool) : Option (List Byte) :=
  if soft.length % 2 ≠ 0 then none
  else
    let steps := soft.length / 2
    let metric : List Metric := (List.replicate numStates ⊥).set 0 0
    let (metric, decisions) :=
      ((List.range steps).map fun t => (soft.getD (2 * t) 0, soft.getD (2 * t + 1) 0)).foldl
      viterbiStep (metric, [])
    let state := if terminated then 0 else bestState metric
    let bits := traceback decisions.reverse state
    some (if terminated then bits.take (steps - (constraintLength - 1)) else bits)

/-- Hard-decision Viterbi decode of coded bits. -/
def viterbiDecodeHard (coded : List Byte) (terminated : Bool) : Option (List Byte) :=
  viterbiDecodeSoft (coded.map fun b => if b &&& 1 = 1 then 1 else -1) terminated

end EvansComputer.Dsp
