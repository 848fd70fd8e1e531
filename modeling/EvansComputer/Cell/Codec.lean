import EvansComputer.Cell.Crypto
import EvansComputer.Library.Cursor
import EvansComputer.Net.AddrText

/-!
# Strict big-endian codec helpers

What the air, backhaul and tunnel formats are read and written with.  A reader walks
over a byte string and fails, never panics, on short input; a message ends with
`Reader.end`, so trailing bytes are an error.

A text is a list of characters.  On the wire it is UTF-8, of which the first 255 bytes
are written; a text that is read has to be valid.
-/

namespace EvansComputer.Cell

open Text

/-- A text of the cell network: names, numbers and lines of a log. -/
abbrev Str := List Char

instance lawfulBEqStr : LawfulBEq Str := inferInstance

inductive DecodeError where
  /-- The input ended inside a field. -/
  | short
  /-- Bytes left over after the message. -/
  | trailing
  /-- Unknown message or item type. -/
  | type (t : Byte)
  /-- A field holds a value the format does not allow. -/
  | value (what : String)
  deriving DecidableEq

/-! ## Texts as bytes -/

def toUtf8 (s : Str) : List Byte := s.flatMap String.utf8EncodeChar

/-- `core::str::from_utf8` -/
def fromUtf8 (b : List Byte) : Option Str :=
  (ByteArray.mk b.toArray).utf8Decode?.map Array.toList

/-! ## Writing -/

/-- `u8 len` and the bytes of a text (at most 255). -/
def putStr8 (s : Str) : List Byte :=
  let b := toUtf8 s
  let n := min b.length 255
  UInt8.ofNat n :: b.take n

/-! ## Reading -/

/-- A reader takes a value off the front of a byte string. -/
abbrev Reader (α : Type) := StateT (List Byte) (Except DecodeError) α

namespace Reader

def take (n : ℕ) : Reader (List Byte) := fun b =>
  match splitOff n b with
  | some r => .ok r
  | none => .error .short

def rest : Reader (List Byte) := fun b => .ok (b, [])

def left : Reader ℕ := fun b => .ok (b.length, b)

def u8 : Reader Byte := do
  let s ← take 1
  return s.getD 0 0

def u16 : Reader UInt16 := do
  let s ← take 2
  return u16FromBe (s.getD 0 0) (s.getD 1 0)

def u32 : Reader UInt32 := do
  let s ← take 4
  return u32FromBe (s.getD 0 0) (s.getD 1 0) (s.getD 2 0) (s.getD 3 0)

def u64 : Reader UInt64 := do
  let s ← take 8
  return u64FromBe s

/-- `arr::<4>`, an address. -/
def ip : Reader Ipv4Addr := do
  let s ← take 4
  return .fromBytes s

def str8 : Reader Str := do
  let n ← u8
  let s ← take n.toNat
  match fromUtf8 s with
  | some t => return t
  | none => throw (.value "utf-8")

def blob16 : Reader (List Byte) := do
  let n ← u16
  take n.toNat

/-- A count that cannot ask for more elements than bytes remain. -/
def count8 (minSize : ℕ) : Reader ℕ := do
  let n ← u8
  if n.toNat * max minSize 1 > (← left) then throw .short
  return n.toNat

def count16 (minSize : ℕ) : Reader ℕ := do
  let n ← u16
  if n.toNat * max minSize 1 > (← left) then throw .short
  return n.toNat

/-- `n` elements, one after another. -/
def many {α : Type} (item : Reader α) : ℕ → Reader (List α)
  | 0 => return []
  | n + 1 => do
    let a ← item
    return a :: (← many item n)

def «end» : Reader Unit := fun b => if b = [] then .ok ((), b) else .error .trailing

/-- All of a byte string is one value. -/
def run {α : Type} (item : Reader α) (b : List Byte) : Except DecodeError α :=
  match item b with
  | .ok (a, _) => .ok a
  | .error e => .error e

end Reader

/-! ## Hexadecimal -/

/-- Lower-case hex. -/
def hex (b : List Byte) : Str := b.flatMap hexByte

/-- The bytes that pairs of digits stand for. -/
def unhexPairs : Str → Option (List Byte)
  | [] => some []
  | [_] => none
  | x :: y :: s =>
    match hexDigit x, hexDigit y, unhexPairs s with
    | some h, some l, some b => some (UInt8.ofNat (h * 16 + l) :: b)
    | _, _, _ => none

/-- Parse hex (either case) of exactly `n` bytes. -/
def unhex (n : ℕ) (s : Str) : Option (List Byte) :=
  if (toUtf8 s).length = n * 2 then unhexPairs s else none

/-! ## Addresses -/

/-- `a.b.c.d/len` -/
def parseCidr (s : Str) : Option (Ipv4Addr × UInt8) :=
  match s.idxOf? '/' with
  | none => none
  | some i =>
    match readUnsigned 255 (s.drop (i + 1)), Ipv4Addr.parse (s.take i) with
    | some len, some ip => if len > 32 then none else some (ip, UInt8.ofNat len)
    | _, _ => none

/-- Is `ip` inside `net/prefix`? -/
def inSubnet (ip net : Ipv4Addr) (len : UInt8) : Bool :=
  let m : UInt32 := if len = 0 then 0 else 0xffffffff <<< (32 - min len 32).toUInt32
  ip.toU32 &&& m = net.toU32 &&& m

/-! ## Packets -/

/-- A minimally valid IPv4 packet: version 4, header length, total length within the
buffer. -/
def ipv4Ok (p : List Byte) : Bool :=
  let ihl := (p.getD 0 0 &&& 15).toNat * 4
  let total := (u16FromBe (p.getD 2 0) (p.getD 3 0)).toNat
  !(p.length < 20 || p.getD 0 0 >>> 4 ≠ 4) && 20 ≤ ihl && ihl ≤ total && total ≤ p.length

def ipv4Src (p : List Byte) : Option Ipv4Addr :=
  if ipv4Ok p then some (.fromBytes (p.drop 12)) else none

def ipv4Dst (p : List Byte) : Option Ipv4Addr :=
  if ipv4Ok p then some (.fromBytes (p.drop 16)) else none

end EvansComputer.Cell
