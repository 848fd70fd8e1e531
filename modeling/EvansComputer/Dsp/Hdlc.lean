import EvansComputer.Library.Chunks
import EvansComputer.Net.Types

/-!
# HDLC framing

As packet radio uses it: flags of six ones between zeros, a zero stuffed behind five ones,
bytes with their low bit first, a CRC-16/X-25 as the check sequence, and NRZI on the line,
where a zero toggles the level and a one keeps it.

Bits are bytes `0` and `1`.  A sum that does not fit its type is an error of the program,
which is `none` here: the encoder asks for room, and the decoder adds to the lengths it was
made with.
-/

namespace EvansComputer.Dsp

/-! ## CRC-16/X-25 -/

/-- `table_reflected16` -/
def tableReflected16 (poly : UInt16) : List UInt16 :=
  (List.range 256).map fun i => (List.range 8).foldl
    (fun c _ => if c &&& 1 ≠ 0 then (c >>> 1) ^^^ poly else c >>> 1) (UInt16.ofNat i)

def x25 : List UInt16 := tableReflected16 0x8408

/-- `Crc16X25::update` -/
def x25Update (c : UInt16) (data : List Byte) : UInt16 :=
  data.foldl (fun (c : UInt16) b => (c >>> 8) ^^^ x25.getD ((c ^^^ b.toUInt16) &&& 0xFF).toNat 0) c

/-- Reflected 0x1021, init 0xFFFF, xorout 0xFFFF. -/
def crc16X25 (data : List Byte) : UInt16 := x25Update 0xFFFF data ^^^ 0xFFFF

/-- `to_le_bytes` -/
def u16ToLe (x : UInt16) : List Byte := [x.toUInt8, (x >>> 8).toUInt8]

/-! ## Frames -/

/-- HDLC flag byte. -/
def flag : Byte := 0x7E

/-- The bits of a byte, low bit first. -/
def bitsOf (b : Byte) : List Byte := (List.range 8).map fun i => (b >>> UInt8.ofNat i) &&& 1

/-- One bit of data, and a zero behind five ones. -/
def stuffBit (st : List Byte × ℕ) (b : Byte) : List Byte × ℕ :=
  if b = 1 then
    if st.2 + 1 = 5 then (st.1 ++ [b, 0], 0) else (st.1 ++ [b], st.2 + 1)
  else (st.1 ++ [b], 0)

def flags (n : ℕ) : List Byte := (List.replicate (max n 1) (bitsOf flag)).flatten

/-- The bits that room is made for: more than `isize::MAX` bytes cannot be asked for. -/
def capacity (payload : List Byte) (preamble postamble : ℕ) : Option ℕ :=
  let n := (payload.length + 2) * 10 + (preamble + postamble) * 8
  if n < 2 ^ 63 then some n else none

/-- The bit stream of one frame. -/
def encodeFrame (payload : List Byte) (preamble postamble : ℕ) : Option (List Byte) := do
  let _ ← capacity payload preamble postamble
  let fcs := u16ToLe (crc16X25 payload)
  let st :=
    (payload ++ fcs).foldl (fun st byte => (bitsOf byte).foldl stuffBit st) (flags preamble, 0)
  return st.1 ++ flags postamble

/-! ## NRZI -/

/-- NRZI line coder and decoder state: the level of the line. -/
structure Nrzi where
  level : Byte
  isLevel : level = 0 ∨ level = 1

namespace Nrzi

def new : Nrzi := ⟨0, .inl rfl⟩

theorem and_one (x : Byte) : x &&& 1 = 0 ∨ x &&& 1 = 1 := by
  have h : (x &&& 1).toNat = x.toNat % 2 := by
    rw [UInt8.toNat_and]
    exact Nat.and_one_is_mod _
  rcases Nat.mod_two_eq_zero_or_one x.toNat with hz | hz <;> rw [hz] at h
  · exact .inl (UInt8.toNat_inj.mp h)
  · exact .inr (UInt8.toNat_inj.mp h)

/-- Data bit to line level: a zero toggles, a one holds. -/
def encode (n : Nrzi) (bit : Byte) : Nrzi × Byte :=
  let level := if bit &&& 1 = 0 then n.level ^^^ 1 else n.level
  have isLevel : level = 0 ∨ level = 1 := by
    unfold level
    rcases n.isLevel with h | h <;> rw [h] <;> split_ifs <;> decide
  (⟨level, isLevel⟩, level)

/-- Line level to data bit. -/
def decode (n : Nrzi) (level : Byte) : Nrzi × Byte :=
  (⟨level &&& 1, and_one level⟩, if level &&& 1 = n.level then 1 else 0)

def encodeBlock (n : Nrzi) : List Byte → Nrzi × List Byte
  | [] => (n, [])
  | b :: bits =>
    let (n, l) := n.encode b
    let (n, ls) := n.encodeBlock bits
    (n, l :: ls)

def decodeBlock (n : Nrzi) : List Byte → Nrzi × List Byte
  | [] => (n, [])
  | l :: levels =>
    let (n, b) := n.decode l
    let (n, bs) := n.decodeBlock levels
    (n, b :: bs)

end Nrzi

/-! ## Deframing -/

/-- `a + b`, where it is a `usize`. -/
def checkedAdd (a b : ℕ) : Option ℕ := if a + b < 2 ^ 64 then some (a + b) else none

/-- A byte from its bits, low bit first. -/
def byteOf (bits : List Byte) : Byte :=
  bits.zipIdx.foldl (fun a x => a ||| (x.1 <<< UInt8.ofNat x.2)) 0

/-- Streaming HDLC deframer. -/
structure HdlcDecoder where
  ones : ℕ
  inFrame : Bool
  bits : List Byte
  minLen : ℕ
  maxLen : ℕ
  /-- Frames rejected for a bad FCS. -/
  badFcs : ℕ

namespace HdlcDecoder

/-- Accept payloads of `minLen` to `maxLen` bytes (without the FCS). -/
def new (minLen maxLen : ℕ) : HdlcDecoder :=
  { ones := 0, inFrame := false, bits := [], minLen, maxLen, badFcs := 0 }

/-- The bits of a frame are bytes, of the right number, and check. -/
def finish (d : HdlcDecoder) : Option (HdlcDecoder × Option (List Byte)) :=
  if d.bits.length % 8 ≠ 0 then some (d, none)
  else
    let nbytes := d.bits.length / 8
    do
      if nbytes < (← checkedAdd d.minLen 2) then return (d, none)
      if nbytes > (← checkedAdd d.maxLen 2) then return (d, none)
      let bytes := (chunks 8 d.bits).map byteOf
      if u16ToLe (crc16X25 (bytes.take (nbytes - 2))) =
        [bytes.getD (nbytes - 2) 0, bytes.getD (nbytes - 1) 0] then
        return (d, some (bytes.take (nbytes - 2)))
      return ({ d with badFcs := ← checkedAdd d.badFcs 1 }, none)

/-- `(max_len + 2) * 8 + 8` -/
def most (d : HdlcDecoder) : Option ℕ :=
  if (d.maxLen + 2) * 8 + 8 < 2 ^ 64 then some ((d.maxLen + 2) * 8 + 8) else none

/-- A one. -/
def pushOne (d : HdlcDecoder) : Option HdlcDecoder :=
  if d.ones + 1 < 2 ^ 32 then
    let d := { d with ones := d.ones + 1 }
    -- abort or idle
    if d.ones ≥ 7 then some { d with inFrame := false, bits := [] }
    else if d.inFrame then some { d with bits := d.bits ++ [1] } else some d
  else none

/-- A zero: the end of a flag, a stuffed one, or a zero of data. -/
def pushZero (d : HdlcDecoder) : Option (HdlcDecoder × Option (List Byte)) :=
  let ones := d.ones
  let d := { d with ones := 0 }
  if ones = 6 then do
    -- the six ones and the zero before them were appended
    let (d, result) ←
      if d.inFrame = true ∧ d.bits.length ≥ 7 then finish { d with
          bits := d.bits.take (d.bits.length - 7) }
      else some (d, none)
    return ({ d with inFrame := true, bits := [] }, result)
  else if ones = 5 then some (d, none)
  else if d.inFrame then do
    let d := { d with bits := d.bits ++ [0] }
    if d.bits.length > (← d.most) then return ({ d with inFrame := false, bits := [] }, none)
    return (d, none)
  else some (d, none)

/-- One bit; a frame when a closing flag ends a valid one. -/
def pushBit (d : HdlcDecoder) (bit : Byte) : Option (HdlcDecoder × Option (List Byte)) :=
  if bit &&& 1 = 1 then d.pushOne.map (·, none) else d.pushZero

/-- Many bits, collecting frames. -/
def pushBits (d : HdlcDecoder) : List Byte → Option (HdlcDecoder × List (List Byte))
  | [] => some (d, [])
  | b :: bits => do
    let (d, frame) ← d.pushBit b
    let (d, frames) ← d.pushBits bits
    return (d, frame.toList ++ frames)

end HdlcDecoder

end EvansComputer.Dsp
