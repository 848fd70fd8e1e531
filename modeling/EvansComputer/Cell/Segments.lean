import EvansComputer.Cell.AirMessages
import EvansComputer.Library.Chunks
import EvansComputer.Library.OrderedMap
import Mathlib.Data.List.MinMax
import Mathlib.Data.Finset.Card

/-!
# Packets over the air

A packet goes over the air as a run of data items, each no longer than the frame has room
for, and is put together from them in whatever order they come.  A packet of which nothing
new is known is forgotten after two seconds, and when too many are under way the oldest one.

`pieces` are the parts that `segment` writes.  Their number is the count it declares, which
is the point of the two divisions that round up (`segment_eq`).
-/

namespace EvansComputer.Cell

variable {pkt : List Byte}

/-! ## Splitting -/

/-- Split a packet into data items whose encoded size is at most `maxItem` bytes. -/
def segment (seq : UInt32) (pkt : List Byte) (maxItem : ℕ) : List Item :=
  let room := max (maxItem - dataOverhead) 16
  let count := max (pkt.length ⌈/⌉ room) 1
  if count > 255 then []
  else
    let per := max (pkt.length ⌈/⌉ count) 1
    let v :=
      (chunks per pkt).mapIdx fun i ch => Item.data seq (UInt8.ofNat i) (UInt8.ofNat count) ch
    if v.isEmpty then [.data seq 0 1 []] else v

/-- The parts that a packet is split into. -/
def pieces (pkt : List Byte) (maxItem : ℕ) : List (List Byte) :=
  if pkt = [] then [[]]
  else chunks (pkt.length ⌈/⌉ (pkt.length ⌈/⌉ max (maxItem - dataOverhead) 16)) pkt

theorem flatten_pieces (pkt : List Byte) (maxItem : ℕ) : (pieces pkt maxItem).flatten = pkt := by
  unfold pieces
  split_ifs with hnil
  · rw [hnil]
    rfl
  · have hlen := List.length_pos_iff.mpr hnil
    exact flatten_chunks (ceilDiv_pos hlen (ceilDiv_pos hlen (by omega)))

theorem length_pieces (h : pkt ≠ []) (maxItem : ℕ) :
    (pieces pkt maxItem).length = pkt.length ⌈/⌉ max (maxItem - dataOverhead) 16 := by
  rw [pieces, if_neg h, length_chunks]
  exact ceilDiv_ceilDiv_ceilDiv (List.length_pos_iff.mpr h) (by omega)

theorem chunks_eq_pieces (h : pkt ≠ []) (maxItem : ℕ) :
    chunks (pkt.length ⌈/⌉ (pieces pkt maxItem).length) pkt = pieces pkt maxItem := by
  rw [length_pieces h, pieces, if_neg h]

theorem length_pieces_pos (pkt : List Byte) (maxItem : ℕ) : 0 < (pieces pkt maxItem).length := by
  by_cases hnil : pkt = []
  · rw [pieces, if_pos hnil]
    exact Nat.one_pos
  · rw [length_pieces hnil]
    exact ceilDiv_pos (List.length_pos_iff.mpr hnil) (by omega)

theorem length_pieces_le (h : pkt.length ≤ 1500) (maxItem : ℕ) :
    (pieces pkt maxItem).length ≤ 94 := by
  by_cases hnil : pkt = []
  · rw [pieces, if_pos hnil]
    decide
  · rw [length_pieces hnil, ceilDiv_le_iff_le_mul (by omega)]
    omega

/-- **The count that is declared is the number of items.** -/
theorem segment_eq (h : pkt.length ≤ 1500) (seq : UInt32) (maxItem : ℕ) :
    segment seq pkt maxItem = (pieces pkt maxItem).mapIdx fun i b =>
      Item.data seq (UInt8.ofNat i) (UInt8.ofNat (pieces pkt maxItem).length) b := by
  have hmost := length_pieces_le h maxItem
  have hpos := length_pieces_pos pkt maxItem
  by_cases hnil : pkt = []
  · rw [hnil, segment, pieces, if_pos rfl]
    simp [chunks]
  · have hlen := List.length_pos_iff.mpr hnil
    rw [length_pieces hnil] at hmost hpos
    have hper := ceilDiv_pos hlen hpos
    have hpieces := length_pieces hnil maxItem
    have hne : ((pieces pkt maxItem).mapIdx fun i b =>
        Item.data seq (UInt8.ofNat i) (UInt8.ofNat (pieces pkt maxItem).length) b).isEmpty =
          false := by
      rw [List.isEmpty_eq_false_iff, ← List.length_pos_iff, List.length_mapIdx, hpieces]
      exact hpos
    unfold segment
    dsimp only
    rw [Nat.max_eq_left hpos, if_neg (by omega), Nat.max_eq_left hper, ← hpieces,
      chunks_eq_pieces hnil, hne]
    rfl

/-- A packet of which some segments are there. -/
structure Partial where
  parts : List (Option (List Byte))
  /-- `have`: how many of the parts are there. -/
  held : ℕ
  startedMs : ℕ

/-- Reassembles segments (any order); incomplete packets expire. -/
structure Reassembly where
  table : OrderedMap UInt32 Partial := ∅

/-- Most packets being reassembled at once (per peer). -/
def maxPartial : ℕ := 32

def expireMs : ℕ := 2000

/-- Largest reassembled packet. -/
def maxPacket : ℕ := 1500

namespace Partial

/-- A segment is filled in; one that is there already is ignored. -/
def fill (p : Partial) (idx : ℕ) (bytes : List Byte) : Partial :=
  if p.parts[idx]? = some none then { p with
      parts := p.parts.set idx (some bytes), held := p.held + 1 } else p

/-- The parts that are there, one after another. -/
def bytes (p : Partial) : List Byte := (p.parts.filterMap id).flatten

end Partial

namespace Reassembly

/-- What is not older than two seconds. -/
def retain (t : OrderedMap UInt32 Partial) (nowMs : ℕ) : OrderedMap UInt32 Partial :=
  t.filter fun _ p => nowMs - p.startedMs < expireMs

/-- The packet that was started first. -/
def oldest (t : OrderedMap UInt32 Partial) : Option UInt32 :=
  (t.toList.argmin fun x => x.2.startedMs).map (·.1)

/-- A new packet pushes out the oldest one when there are too many. -/
def makeRoom (t : OrderedMap UInt32 Partial) (seq : UInt32) : Option (OrderedMap UInt32 Partial) :=
  if ¬ seq ∈ t ∧ t.size ≥ maxPartial then (oldest t).map t.erase else some t

/-- The segment joins its packet. -/
def place (t : OrderedMap UInt32 Partial) (seq : UInt32) (idx count : Byte) (bytes : List Byte)
    (nowMs : ℕ) :
    OrderedMap UInt32 Partial × Option (List Byte) :=
  let p := t[seq]?.getD { parts := List.replicate count.toNat none, held := 0, startedMs := nowMs }
  if p.parts.length ≠ count.toNat ∨ idx.toNat ≥ p.parts.length then (t.erase seq, none)
  else
    let p := p.fill idx.toNat bytes
    if p.held < p.parts.length then (t.insert seq p, none)
    else (t.erase seq, if p.bytes.length ≤ maxPacket then some p.bytes else none)

def push (r : Reassembly) (seq : UInt32) (idx count : Byte) (bytes : List Byte) (nowMs : ℕ) :
    Reassembly × Option (List Byte) :=
  if count = 1 then (r, if bytes.length ≤ maxPacket then some bytes else none)
  else
    let t := retain r.table nowMs
    match makeRoom t seq with
    | none => (⟨t⟩, none)
    | some t =>
      let (t, out) := place t seq idx count bytes nowMs
      (⟨t⟩, out)

/-! ### The table stays small -/

end Reassembly

end EvansComputer.Cell
