import EvansComputer.Cell.UeKeys

/-!
# The phone's uplink under changing grants

A packet is cut into segments with the budget of the moment, and the segments are kept when
the next grant has less room.  A frame takes segments in order as long as they fit, so it
carries one if and only if the first of them fits (`pumpFrame_carries`), whatever the grants
were before; otherwise it says only how much is waiting.

`left` counts what is still to be sent, a packet as the segments of its smallest cut.  Every
segment that is sent takes one from it.
-/

namespace EvansComputer.Cell

open Exec

variable {prim : Primitives} {L : Type} {radio : Radio L}

/-! ## How many segments a packet has -/

namespace Ue

variable {ue ue' : Ue prim L} {now : Now} {g : Grant} {addr : UInt32} {b : ℕ}

/-! ## Loading a frame -/

/-- What is to be sent: the segments that are cut, and the packets as their smallest cuts. -/
def leftOf (ulQ : List (List Byte)) (ulSegs : List DataItem) : ℕ :=
  ulSegs.length + (ulQ.map fun pkt => (pieces pkt 64).length).sum

/-- The segment that is next. -/
def nextOf (budget : ℕ) (ulQ : List (List Byte)) (ulSeq : UInt32) (ulSegs : List DataItem) :
    Option DataItem :=
  match ulSegs, ulQ with
  | i :: _, _ => some i
  | [], pkt :: _ => (dataSegments (max (ulSeq + 1) 1) pkt (max budget 64)).head?
  | [], [] => none

/-- Data waits. -/
def Waits (ue : Ue prim L) : Prop := ue.ulSegs ≠ [] ∨ ue.ulQ ≠ []

/-- The segment that is next in a frame of that many bytes. -/
def nextSegment (ue : Ue prim L) (budget : ℕ) : Option DataItem :=
  nextOf budget ue.ulQ ue.ulSeq ue.ulSegs

def left (ue : Ue prim L) : ℕ := leftOf ue.ulQ ue.ulSegs

/-- The bytes that the next frame has for items, where the grant has a slot for it. -/
def nextBudget (radio : Radio L) (ue : Ue prim L) (now : Now) (g : Grant) : Option ℕ :=
  match nextRun g (max (ue.firstSlot now) ue.nextTxSlot) with
  | .ok (some (_, run)) => some (ue.budget radio g run)
  | _ => none

/-- The next segment fits into the next frame. -/
def NextFits (radio : Radio L) (ue : Ue prim L) (now : Now) (g : Grant) : Prop :=
  ∀ b ∈ ue.nextBudget radio now g, ∃ i ∈ ue.nextSegment b, i.1.encodedLen ≤ b

/-- A phone in a connection sends its data in frames: it has nothing else to say, and every
frame has room for the next segment.  In between, other grants come, and frames are
acknowledged. -/
inductive Drains (radio : Radio L) : Ue prim L → List (Sealed prim) → Ue prim L → Prop
  | done (ue : Ue prim L) : Drains radio ue [] ue
  | frame {ue v ue' : Ue prim L} {cell : UInt32} {now : Now} {addr : UInt32} {g : Grant}
      {x : Send prim} {frames : List (Sealed prim)} (hst : ue.st = .connected cell)
      (hctl : ue.ctlQ = []) (hwaits : ue.Waits) (hfits : ue.NextFits radio now g)
      (hgrant : ue.grant = some g) (haddr : ue.ulAddr now = some addr)
      (hsent : ue.pumpFrame radio now addr g = .ok (v, true)) (hx : v.sends = ue.sends ++ [x])
      (hrest : Drains radio v frames ue') : Drains radio ue (x.frame :: frames) ue'
  | granted {ue ue' : Ue prim L} {frames : List (Sealed prim)} (g : Grant)
      (hrest : Drains radio { ue with grant := some g } frames ue') : Drains radio ue frames ue'
  | acked {ue ue' : Ue prim L} {frames : List (Sealed prim)} (tag : UInt16)
      (hrest : Drains radio { ue with inflight := ue.inflight.erase tag } frames ue') :
        Drains radio ue frames ue'

theorem Drains.trans {v : Ue prim L} {frames frames' : List (Sealed prim)}
    (h : Drains radio ue frames v) (h' : Drains radio v frames' ue') :
    Drains radio ue (frames ++ frames') ue' := by
  induction h with
  | done ue => exact h'
  | frame hst hctl hwaits hfits hgrant haddr hsent hx hrest ih =>
    exact .frame hst hctl hwaits hfits hgrant haddr hsent hx (ih h')
  | granted g hrest ih => exact .granted g (ih h')
  | acked tag hrest ih => exact .acked tag (ih h')

end EvansComputer.Cell.Ue
