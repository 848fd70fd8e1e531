import EvansComputer.Cell.GrantSlots
import EvansComputer.Library.Traversals
import Mathlib.Data.List.Sort
import Mathlib.Data.Prod.Lex

/-!
# The uplink scheduler

Uplink is split by sub-channel and then by time: a phone alone on its sub-channel may
transmit in every slot, and `m` phones that share one take turns in runs of `run` slots.  One
sub-channel is kept for random access.  Phones with a voice bearer are placed before the
others, each on a sub-channel of its own while there are enough.

A sum or a product that does not fit its type is an error of the program, which is `none`
here.
-/

namespace EvansComputer.Cell

structure SchedUe where
  addr : UInt32
  /-- Bytes waiting (buffer status report). -/
  bsr : UInt32
  /-- The CQI the site measures on this phone's uplink. -/
  cqi : Byte
  /-- The phone has a voice bearer (a call). -/
  voice : Bool
  deriving DecidableEq

/-- The place of a sub-channel in the preference order: those a neighbour uses come last, and
the first one turns with the cell. -/
def preference (cellId : UInt32) (n : ℕ) (neighbourMask s : Byte) : ℕ ×ₗ ℕ :=
  toLex (if neighbourMask &&& (1 <<< (s - 1)) ≠ 0 then 1 else 0,
    (s.toNat + n - cellId.toNat % n) % n)

/-- Data sub-channels in preference order. -/
def subPreference (cellId : UInt32) (rachSub neighbourMask : Byte) : List Byte :=
  let subs := ([1, 2, 3, 4] : List Byte).filter (· ≠ rachSub)
  let n := subs.length
  subs.insertionSort fun s t => preference cellId n neighbourMask s ≤
    preference cellId n neighbourMask t

/-- `(!u.voice, u.addr)` -/
def SchedUe.rank (u : SchedUe) : ℕ ×ₗ ℕ := toLex (if u.voice then 0 else 1, u.addr.toNat)

/-- One phone joins a sub-channel; the number counts the phones without a call so far. -/
def placeUe (k restFrom : ℕ) : List (List SchedUe) × ℕ → SchedUe × ℕ → List (List SchedUe) × ℕ
  | (perSub, j), (u, i) =>
    if u.voice then (perSub.modify (i % k) (· ++ [u]), j)
    else (perSub.modify (restFrom + j % (k - restFrom)) (· ++ [u]), j + 1)

/-- The phones of each sub-channel, voice first. -/
def placeUes (ues : List SchedUe) (k : ℕ) : List (List SchedUe) :=
  -- a stable order: the same phones get the same resources batch after batch
  let order := ues.insertionSort fun u v => u.rank ≤ v.rank
  let voice := (order.filter (·.voice)).length
  -- voice phones on sub-channels of their own; the rest share the others
  let restFrom := if voice < k then voice else 0
  (order.zipIdx.foldl (placeUe k restFrom) (List.replicate k [], 0)).1

def checkedMul (a b : UInt16) : Option UInt16 :=
  if a.toNat * b.toNat < 65536 then some (a * b) else none

/-- The grant of the `j`-th of `m` phones that share a sub-channel. -/
def grantFor (fromSlot toSlot : UInt64) (run : UInt16) (sub : Byte) (m : UInt16) (x : SchedUe × ℕ) :
    Option (UInt32 × Grant) :=
  if m = 1 then
    some (x.1.addr, { fromSlot, toSlot, period := 1, offset := 0, len := 1, subchannel := sub,
                      cqi := max x.1.cqi 1 })
  else do
    let run := max run 1
    let period ← checkedMul run m
    let offset ← checkedMul run (UInt16.ofNat x.2)
    return (x.1.addr,
      { fromSlot, toSlot, period, offset, len := run, subchannel := sub, cqi := max x.1.cqi 1 })

/-- The grants of one sub-channel. -/
def grantsOn (subs : List Byte) (fromSlot toSlot : UInt64) (run : UInt16) (x : List SchedUe × ℕ) :
    Option (List (UInt32 × Grant)) :=
  x.1.zipIdx.mapM (grantFor fromSlot toSlot run (subs.getD x.2 1) (UInt16.ofNat x.1.length))

/-- Grants for `ues` valid in the window; the grants and the mask of sub-channels used. -/
def plan (ues : List SchedUe) (subs : List Byte) (fromSlot toSlot : UInt64) (run : UInt16) :
    Option (List (UInt32 × Grant) × Byte) := do
  let perSub := placeUes ues (max subs.length 1)
  let out ← perSub.zipIdx.mapM (grantsOn subs fromSlot toSlot run)
  let mask := perSub.zipIdx.foldl (fun mask x =>
    if x.1 = [] then mask else mask ||| (1 <<< (subs.getD x.2 1 - 1))) 0
  return (out.flatten, mask)

end EvansComputer.Cell
