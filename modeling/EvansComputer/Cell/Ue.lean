import EvansComputer.Cell.GrantSlots
import EvansComputer.Cell.Segments
import EvansComputer.Cell.Keys
import EvansComputer.Cell.Backhaul
import EvansComputer.Library.Halting
import Mathlib.Data.List.Destutter

/-!
# The phone

Cell search, random access, attach with the SIM's answer, protected data, measurements,
handover, idle and paging, and detach.  The phone has no radio and no clock of its own: a call
comes with the time, and leaves behind what is to be sent.

Levels and airtimes are floating-point numbers in the program.  What is done with them is in
`Radio`, which is a parameter.

A cipher is kept together with the cell whose key it has (`CellCipher`), and so is a frame that
was sealed with it (`Sealed`).  Neither can be made with another key; the program does not look
at either.  `sends` is a record, which the program does not have, of the protected frames that
were given to the radio.
-/

namespace EvansComputer.Cell

open Exec

/-! ## The radio -/

inductive Profile where
  | lte
  | mmwave
  deriving DecidableEq

namespace Profile

def code : Profile → Byte
  | lte => 1
  | mmwave => 2

def fromCode (c : Byte) : Option Profile :=
  if c = 1 then some lte else if c = 2 then some mmwave else none

/-- Channel numbers are 1 to that. -/
def channels : Profile → ℕ
  | lte => 6
  | mmwave => 4

/-- Slot length on the airtime clock, µs. -/
def slotUs : Profile → ℕ
  | lte => 1000
  | mmwave => 125

end Profile

/-- What the phone computes in floating point. -/
structure Radio (L : Type) where
  /-- Most payload bytes that fit an airtime. -/
  bytesIn : Profile → (cqi sub : Byte) → (us : ℕ) → ℕ
  airtimeUs : Profile → (cqi sub : Byte) → (bytes : ℕ) → ℕ
  /-- `0.6 * old + 0.4 * new` -/
  mix : (old new : L) → L
  /-- `partial_cmp`, and `Equal` where it has no answer. -/
  cmp : L → L → Ordering
  /-- `a >= b` -/
  atLeast : L → L → Bool
  /-- `a > b + offset` -/
  above : (a b offset : L) → Bool
  /-- Times ten, as an `i16`. -/
  x10 : L → Int16
  /-- -200 -/
  silent : L
  zero : L

def broadcast : UInt32 := 0xFFFFFFFF

inductive Role where
  | bs
  | ue
  deriving DecidableEq

structure PhyConfig (L : Type) where
  profile : Profile
  role : Role
  channel : Byte
  powerDbm : Option L
  address : UInt32

structure TxReq where
  dst : UInt32
  harq : Bool
  slot : ℕ
  cqi : Byte
  subchannel : Byte
  tag : UInt16
  payload : List Byte
  deriving DecidableEq

structure RxFrame (L : Type) where
  flags : Byte
  src : UInt32
  dst : UInt32
  rssiDbm : L
  sinrDb : L
  payload : List Byte

def RxFrame.isBeacon {L : Type} (rx : RxFrame L) : Bool := rx.flags &&& (4 : UInt8) ≠ 0

inductive TxResult where
  | sent
  | acked
  | failed
  | rejected
  deriving DecidableEq

structure TxStatus where
  result : TxResult
  tag : UInt16
  attempts : Byte

inductive PhyEvent (L : Type) where
  | rx (rx : RxFrame L)
  | status (s : TxStatus)

/-- The time: milliseconds, and the radio's current slot. -/
structure Now where
  ms : ℕ
  slot : ℕ

/-! ## Flows -/

/-- `(src, dst, sport, dport)` of an IPv4 UDP packet. -/
def udpFlow (p : List Byte) : Option (Ipv4Addr × Ipv4Addr × UInt16 × UInt16) :=
  let at' (i : ℕ) : Byte := p.getD i 0
  let ihl := (at' 0 &&& 0x0F).toNat * 4
  if p.length < 28 ∨ at' 0 >>> 4 ≠ 4 ∨ at' 9 ≠ 17 ∨ p.length < ihl + 8 then none
  else
    some (⟨at' 12, at' 13, at' 14, at' 15⟩, ⟨at' 16, at' 17, at' 18, at' 19⟩,
      u16FromBe (at' ihl) (at' (ihl + 1)),
      u16FromBe (at' (ihl + 2)) (at' (ihl + 3)))

/-- Does a packet belong to a flow (in either direction)? -/
def Bearer.matches (b : Bearer) (p : List Byte) : Bool :=
  match udpFlow p with
  | none => false
  | some (src, dst, sport, dport) =>
    (dst = b.remote && dport = b.remotePort && sport = b.uePort) ||
      (src = b.remote && sport = b.remotePort && dport = b.uePort)

/-! ## Data segments -/

def Item.isData : Item → Bool
  | .data _ _ _ _ => true
  | _ => false

/-- A data segment. -/
abbrev DataItem := { i : Item // i.isData = true }

theorem isData_of_mem_segment {seq : UInt32} {pkt : List Byte} {maxItem : ℕ} {i : Item}
    (h : i ∈ segment seq pkt maxItem) :
    i.isData = true := by
  unfold segment at h
  dsimp only at h
  split_ifs at h
  · cases h
  · rw [List.mem_singleton.mp h]
    rfl
  · obtain ⟨k, hk, rfl⟩ := List.mem_mapIdx.mp h
    rfl

/-- The segments of a packet. -/
def dataSegments (seq : UInt32) (pkt : List Byte) (maxItem : ℕ) : List DataItem :=
  (segment seq pkt maxItem).attachWith (fun i => i.isData = true) fun _ h => isData_of_mem_segment h

/-! ## Ciphers and frames, with their cells -/

/-- The bytes that protection adds to a frame. -/
def protectedOverhead : ℕ := 1 + 4 + 4 + 16

/-- Most bytes of items in a frame. -/
def frameBudget : ℕ := 1500 - protectedOverhead - 16

/-- Opening a frame changes the replay window at most. -/
theorem AirCipher.open_fst (ch : AirCipher) (src dst : UInt32) (frame : List Byte) :
    (ch.open src dst frame).1.aead = ch.aead ∧ (ch.open src dst frame).1.epoch = ch.epoch := by
  unfold AirCipher.open
  repeat' split
  all_goals exact ⟨rfl, rfl⟩

variable {prim : Primitives} {L : Type}

/-- A cipher, and the cell whose key it has. -/
structure CellCipher (prim : Primitives) where
  cell : UInt32
  ksEnc : List Byte
  air : AirCipher
  key : air.aead = prim.cipher (prim.asKey ksEnc cell air.epoch)

/-- A protected frame as it is sealed. -/
structure Sealed (prim : Primitives) where
  by' : CellCipher prim
  src : UInt32
  dst : UInt32
  items : List Item

namespace CellCipher

/-- `AirCipher::new(&as_key(..), epoch, true)` -/
def new (prim : Primitives) (ksEnc : List Byte) (cell epoch : UInt32) : CellCipher prim where
  cell := cell
  ksEnc := ksEnc
  air := AirCipher.new (prim.cipher (prim.asKey ksEnc cell epoch)) epoch true
  key := rfl

/-- The cipher behind a frame that it has sealed. -/
def «seal» (k : CellCipher prim) (src dst : UInt32) (items : List Byte) : CellCipher prim where
  cell := k.cell
  ksEnc := k.ksEnc
  air := (k.air.seal src dst items).1
  key := k.key

def «open» (k : CellCipher prim) (src dst : UInt32) (frame : List Byte) : CellCipher prim where
  cell := k.cell
  ksEnc := k.ksEnc
  air := (k.air.open src dst frame).1
  key := by rw [(k.air.open_fst src dst frame).1, (k.air.open_fst src dst frame).2, k.key]

end CellCipher

namespace Sealed

/-- The cell whose key sealed it. -/
def cell (f : Sealed prim) : UInt32 := f.by'.cell

/-- What is on the air. -/
def bytes (f : Sealed prim) : List Byte := (f.by'.air.seal f.src f.dst (encodeItems f.items)).2

end Sealed

/-- A protected frame that was given to the radio. -/
structure Send (prim : Primitives) where
  dst : UInt32
  frame : Sealed prim
  /-- The radio address that was recorded then for the cell whose key sealed it. -/
  recorded : Option UInt32

/-- A protected frame in flight. -/
structure Flight (prim : Primitives) where
  dst : UInt32
  frame : Sealed prim
  cqi : Byte
  sub : Byte

/-- A plain message in flight. -/
structure PlainFlight where
  dst : UInt32
  payload : List Byte
  cqi : Byte
  sub : Byte

/-! ## The state -/

structure UeConfig (L : Type) where
  profile : Profile
  address : UInt32
  /-- Channels to search (empty: every channel of the profile). -/
  channels : List Byte
  powerDbm : Option L
  dwellMs : ℕ
  reportMs : ℕ
  a3OffsetDb : L
  gapBelowDbm : L
  gapEveryMs : ℕ
  gapMs : ℕ
  keepaliveMs : ℕ
  /-- No beacon from the serving cell for this long is a radio link failure. -/
  rlfMs : ℕ
  minRssiDbm : L
  txLeadUs : ℕ

inductive UeEvent where
  | searching
  | noService (heard : List Str)
  | attached (cell : UInt32) (ip : IpConfig)
  | resumed (cell : UInt32)
  | handover (source target : UInt32) (channel : Byte)
  | released (cause : Cause)
  | rejected (cause : Cause)
  | networkAuthFailed (cell : UInt32)
  | simError
  | idle
  | detached
  | ims (i : ImsInfo)
  | bearer (b : Bearer) (up : Bool)

inductive UeOut (L : Type) where
  | configure (c : PhyConfig L)
  | tx (t : TxReq)
  | ip (pkt : List Byte)
  | event (e : UeEvent)
  | log (s : Str)

structure CellSeen (L : Type) where
  sib : SysInfo
  addr : UInt32
  rssi : L
  sinr : L
  lastMs : ℕ

inductive St where
  | off
  | search (idx til sweepFrom swept : ℕ)
  | backoff (til : ℕ)
  | rach (cell nonce : UInt32) (tries : Byte) (deadline : ℕ) (cause : RachCause)
  | attach (cell : UInt32) (deadline : ℕ)
  | auth (cell : UInt32) (deadline : ℕ)
  | secure (cell : UInt32) (deadline : ℕ) (resume : Bool)
  | connected (cell : UInt32)
  | handingOver (source target : UInt32) (deadline : ℕ) (tag : UInt16) (tries : Byte)
  | idle (cell : UInt32)
  | detaching (deadline : ℕ)
  | rejected
  deriving DecidableEq

/-- What is in the SIM slot. -/
structure Sim where
  identity : Option (Str × Str)
  respond : (rand : List Byte) → Option SimResponse

structure Ue (prim : Primitives) (L : Type) where
  cfg : UeConfig L
  curChannel : Byte
  rng : UInt64
  st : St := .off
  imsi : Str := []
  carrier : Str := []
  cells : OrderedMap UInt32 (CellSeen L) := ∅
  barred : OrderedMap UInt32 ℕ := ∅
  ueId : UInt16 := 0
  grant : Option Grant := none
  cipher : Option (CellCipher prim) := none
  /-- The source cell's cipher during a handover. -/
  prev : Option (UInt32 × AirCipher) := none
  auth : Option (List Byte × SimResponse) := none
  tmsi : UInt32 := 0
  srCount : UInt32 := 0
  ip : Option IpConfig := none
  ims : Option ImsInfo := none
  bearers : List Bearer := []
  session : UInt32 := 0
  ulQ : List (List Byte) := []
  ulSegs : List DataItem := []
  ulSeq : UInt32 := 0
  ctlQ : List Item := []
  reasm : Reassembly := {}
  /-- `Dedup` -/
  dedup : ReplayWindow := {}
  /-- Data frames in flight by tag (resent once if the radio refuses the slot). -/
  inflight : OrderedMap UInt16 (Flight prim) := ∅
  plainInflight : OrderedMap UInt16 PlainFlight := ∅
  nextTxSlot : ℕ := 0
  lastTxMs : ℕ := 0
  lastReportMs : ℕ := 0
  lastGapMs : ℕ := 0
  gap : Option (ℕ × ℕ × Byte) := none
  gapRr : ℕ := 0
  paged : Bool := false
  lastCause : Option Cause := none
  nextTag : UInt16 := 1
  out : List (UeOut L) := []
  sends : List (Send prim) := []

def ulInflight : ℕ := 4

def ulQueue : ℕ := 64

namespace Ue

def new (prim : Primitives) (cfg : UeConfig L) : Ue prim L where
  cfg := cfg
  curChannel := cfg.channels.headD 1
  rng := (cfg.address.toUInt64 <<< 1 ||| 1) ^^^ 0x9E3779B97F4A7C15

/-! ## Small steps -/

def emit (ue : Ue prim L) (o : UeOut L) : Ue prim L := { ue with out := ue.out ++ [o] }

def ev (ue : Ue prim L) (e : UeEvent) : Ue prim L := ue.emit (.event e)

def rand (ue : Ue prim L) : Ue prim L :=
  let r := ue.rng ^^^ (ue.rng <<< 13)
  let r := r ^^^ (r >>> 7)
  { ue with rng := r ^^^ (r <<< 17) }

def channels (ue : Ue prim L) : List Byte :=
  if ue.cfg.channels = [] then (List.range ue.cfg.profile.channels).map fun i => UInt8.ofNat (i + 1)
  else ue.cfg.channels

def tune (ue : Ue prim L) (ch : Byte) : Ue prim L :=
  { ue with curChannel := ch }.emit (.configure
    { profile := ue.cfg.profile, role := .ue, channel := ch, powerDbm := ue.cfg.powerDbm,
      address := ue.cfg.address })

/-- The radio is configured only where the channel is another. -/
def retune (ue : Ue prim L) (ch : Byte) : Ue prim L := if ch ≠ ue.curChannel then ue.tune ch else ue

/-- The first slot a transmission may name. -/
def firstSlot (ue : Ue prim L) (now : Now) : ℕ :=
  now.slot + 1 + ue.cfg.txLeadUs / max ue.cfg.profile.slotUs 1

/-- The frame has the tag that was next. -/
def tx (ue : Ue prim L) (dst : UInt32) (payload : List Byte) (slot : ℕ) (cqi sub : Byte) :
    Ue prim L :=
  { ue with nextTag := max (ue.nextTag + 1) 1 }.emit
    (.tx { dst, harq := true, slot, cqi, subchannel := sub, tag := ue.nextTag, payload })

/-- The radio address that is recorded for a cell. -/
def recorded (ue : Ue prim L) (cell : UInt32) : Option UInt32 := (ue.cells[cell]?).map (·.addr)

/-- A protected frame is sent. -/
def txSealed (ue : Ue prim L) (dst : UInt32) (frame : Sealed prim) (slot : ℕ) (cqi sub : Byte) :
    Ue prim L :=
  { ue.tx dst frame.bytes slot cqi sub with sends := ue.sends ++
    [⟨dst, frame, ue.recorded frame.cell⟩] }

def resetSession (ue : Ue prim L) : Ue prim L :=
  { ue with
      bearers := [], cipher := none, prev := none, grant := none, ctlQ := [], ulSegs := [],
      inflight := ∅,
            plainInflight := ∅, gap := none }

def bar (ue : Ue prim L) (cell : UInt32) (ms : ℕ) (now : Now) : Ue prim L :=
  { ue with barred := ue.barred.insert cell (now.ms + ms) }

/-- Where the channel is in the list, or its beginning. -/
def channelIdx (ue : Ue prim L) : ℕ :=
  let idx := ue.channels.findIdx (· = ue.curChannel)
  if idx < ue.channels.length then idx else 0

def search (ue : Ue prim L) (now : Now) : Exec (Ue prim L) := do
  let ue := ue.resetSession
  let idx := ue.channelIdx
  let ch ← expect (ue.channels[idx]?)
  return { ue.tune ch with st := .search idx (now.ms + ue.cfg.dwellMs) now.ms 0 }.ev .searching

def servingCell (ue : Ue prim L) : Option UInt32 :=
  match ue.st with
  | .rach cell _ _ _ _ => some cell
  | .attach cell _ => some cell
  | .auth cell _ => some cell
  | .secure cell _ _ => some cell
  | .connected cell => some cell
  | .idle cell => some cell
  | .handingOver _ target _ _ _ => some target
  | _ => none

def servingAddr (ue : Ue prim L) : Option UInt32 := ue.servingCell.bind ue.recorded

/-! ## Uplink -/

/-- Control items go first, as many as fit and one at least. -/
def takeCtl (budget : ℕ) : ℕ → List Item → List Item → List Item × ℕ × List Item
  | size, items, [] => (items, size, [])
  | size, items, i :: q =>
    if size + i.encodedLen > budget ∧ items ≠ [] then (items, size, i :: q)
    else takeCtl budget (size + i.encodedLen) (items ++ [i]) q

/-- Data segments behind them, as many as fit. -/
def takeSegs (budget : ℕ) : ℕ → List Item → List DataItem → List Item × ℕ × List DataItem
  | size, items, [] => (items, size, [])
  | size, items, i :: q =>
    if size + i.1.encodedLen > budget then (items, size, i :: q)
    else takeSegs budget (size + i.1.encodedLen) (items ++ [i.1]) q

/-- The items of a frame, and what data still waits. -/
structure Loaded where
  items : List Item
  ulQ : List (List Byte)
  ulSegs : List DataItem
  ulSeq : UInt32
  deriving DecidableEq

/-- The loop over segments and packets.  A packet that cannot be cut leaves no segment to
look at: the program panics. -/
def takeData (budget : ℕ) : List (List Byte) → UInt32 → ℕ → List Item → List DataItem → Exec Loaded
  | [], ulSeq, size, items, ulSegs =>
    let (items, _, ulSegs) := takeSegs budget size items ulSegs
    .ok { items, ulQ := [], ulSegs, ulSeq }
  | pkt :: ulQ, ulSeq, size, items, ulSegs =>
    match takeSegs budget size items ulSegs with
    | (items, size, []) =>
      let ulSeq := max (ulSeq + 1) 1
      match dataSegments ulSeq pkt (max budget 64) with
      | [] => if size > budget then .ok { items, ulQ, ulSegs := [], ulSeq } else .error .panic
      | seg :: segs => takeData budget ulQ ulSeq size items (seg :: segs)
    | (items, _, ulSegs) => .ok { items, ulQ := pkt :: ulQ, ulSegs, ulSeq }

/-- `waiting`, in bytes. -/
def waiting (ulQ : List (List Byte)) (ulSegs : List DataItem) : ℕ :=
  (ulQ.map List.length).sum + (ulSegs.map fun i => i.1.encodedLen).sum

/-- The buffer status goes with data that still waits. -/
def Loaded.report (l : Loaded) : Loaded :=
  if waiting l.ulQ l.ulSegs > 0 then
    { l with items := l.items ++ [.bufferStatus (UInt32.ofNat (waiting l.ulQ l.ulSegs))] }
  else l

/-- How many bytes of items the next frame may have. -/
def budget (radio : Radio L) (ue : Ue prim L) (g : Grant) (run : ℕ) : ℕ :=
  let slotUs := ue.cfg.profile.slotUs
  let airtime := if g.period = 1 ∧ g.len = 1 then min 4000 (1000 * slotUs) else run * slotUs
  let cap := radio.bytesIn ue.cfg.profile g.cqi g.subchannel (airtime - slotUs / 10) -
    (protectedOverhead + 16)
  max 24 (min cap frameBudget)

/-- The items for one frame. -/
def load (ue : Ue prim L) (budget : ℕ) : Exec (Ue prim L × List Item) :=
  let (items, size, ctlQ) := takeCtl budget 0 [] ue.ctlQ
  let ue := { ue with ctlQ }
  match ue.st with
  | .connected _ => do
    let l ← takeData budget ue.ulQ ue.ulSeq size items ue.ulSegs
    let l := l.report
    return ({ ue with ulQ := l.ulQ, ulSegs := l.ulSegs, ulSeq := l.ulSeq }, l.items)
  | _ => .ok (ue, items)

/-- Does a transmission from `start` on meet a measurement gap? -/
def inGap (ue : Ue prim L) (start : ℕ) : Bool :=
  match ue.gap with
  | some (gf, gt, _) => start + 4 ≥ gf && start < gt
  | none => false

/-- A frame is sealed and sent, and kept in case the radio refuses it. -/
def sendFrame (radio : Radio L) (ue : Ue prim L) (now : Now) (addr : UInt32) (g : Grant) (slot : ℕ)
    (items : List Item) (k : CellCipher prim) : Ue prim L :=
  let frame : Sealed prim := ⟨k, ue.cfg.address, addr, items⟩
  let slotUs := ue.cfg.profile.slotUs
  let used :=
    max (radio.airtimeUs ue.cfg.profile g.cqi g.subchannel frame.bytes.length ⌈/⌉ slotUs) 1
  { { ue with cipher := some (k.seal ue.cfg.address addr (encodeItems items)) }.txSealed addr
    frame slot g.cqi
      g.subchannel with
    inflight := ue.inflight.insert ue.nextTag ⟨addr, frame, g.cqi, g.subchannel⟩, nextTxSlot :=
      slot + used,
    lastTxMs := now.ms }

/-- The first run of a grant from `slot` on.  A slot that is no `u64` stops the program. -/
def nextRun (g : Grant) (slot : ℕ) : Exec (Option (ℕ × ℕ)) :=
  match g.nextRun slot with
  | some r => .ok r
  | none => .error .overflow

/-- One turn of the loop in `pump_ul`, and whether there is another. -/
def pumpFrame (radio : Radio L) (ue : Ue prim L) (now : Now) (addr : UInt32) (g : Grant) :
    Exec (Ue prim L × Bool) :=
  let start := max (ue.firstSlot now) ue.nextTxSlot
  if ue.inGap start then .ok (ue, false)
  else do
    match ← nextRun g start with
    | none => return (ue, false)
    | some (slot, run) =>
      let (ue, items) ← ue.load (ue.budget radio g run)
      if items = [] then return (ue, false)
      match ue.cipher with
      | none => return (ue, false)
      | some k => return (ue.sendFrame radio now addr g slot items k, true)

/-- The loop: until four frames are in flight.  Tags do not repeat within it, so at most three
of its turns can meet a tag that is in flight already. -/
def pumpLoop (radio : Radio L) (now : Now) (addr : UInt32) (g : Grant) :
    ℕ → Ue prim L → Exec (Ue prim L)
  | 0, ue => .ok ue
  | fuel + 1, ue =>
    if ue.inflight.size < ulInflight then do
      let (ue, more) ← ue.pumpFrame radio now addr g
      if more then pumpLoop radio now addr g fuel ue else return ue
    else .ok ue

/-- The first cell of the table that was heard within two seconds. -/
def heardAddr (ue : Ue prim L) (now : Now) : Option UInt32 :=
  (ue.cells.values.find? fun c => c.lastMs + 2000 > now.ms).map (·.addr)

/-- Where an uplink frame goes: to the serving cell, if it is in the table. -/
def ulAddr (ue : Ue prim L) (now : Now) : Option UInt32 := ue.servingAddr.or (ue.heardAddr now)

/-- Are frames sent in this state? -/
def pumps : St → Bool
  | .connected _ => true
  | .secure _ _ _ => true
  | .detaching _ => true
  | _ => false

def pumpUl (radio : Radio L) (ue : Ue prim L) (now : Now) : Exec (Ue prim L) :=
  if pumps ue.st then
    match ue.ulAddr now, ue.grant with
    | some addr, some g => pumpLoop radio now addr g (2 * ulInflight) ue
    | _, _ => .ok ue
  else .ok ue

/-! ## Cells -/

def coreUp (sib : SysInfo) : Bool := sib.flags &&& (0x01 : UInt8) ≠ 0

def siteBarred (sib : SysInfo) : Bool := sib.flags &&& (0x02 : UInt8) ≠ 0

def suitable (radio : Radio L) (ue : Ue prim L) (c : CellSeen L) (now : Now) (since : ℕ) : Bool :=
  c.sib.carrier = ue.carrier && coreUp c.sib && !siteBarred c.sib && c.sib.profile =
    ue.cfg.profile.code &&
    since ≤ c.lastMs && radio.atLeast c.rssi ue.cfg.minRssiDbm &&
    (ue.barred[c.sib.cellId]?).all fun t => t ≤ now.ms

/-- `max_by`, which takes the last of several. -/
def stronger (radio : Radio L) (best : Option (CellSeen L)) (c : CellSeen L) :
    Option (CellSeen L) :=
  match best with
  | none => some c
  | some b => if radio.cmp b.rssi c.rssi = .gt then some b else some c

def bestCell (radio : Radio L) (ue : Ue prim L) (now : Now) (since : ℕ) : Option UInt32 :=
  ((ue.cells.values.filter fun c => ue.suitable radio c now since).foldl (stronger radio) none).map
    (·.sib.cellId)

def rach (ue : Ue prim L) (cell : UInt32) (tries : Byte) (cause : RachCause) (now : Now) :
    Exec (Ue prim L) := do
  let ue := ue.rand
  let nonce := ue.rng.toUInt32
  let c ← expect ue.cells[cell]?
  let ue := ue.rand
  let slot := ue.firstSlot now + ue.rng.toNat % 20
  let ue := ue.tx c.addr (Plain.rachRequest nonce cause).encode slot 1 c.sib.rachSub
  return { ue with st := .rach cell nonce tries (now.ms + 300) cause }

/-- An idle phone just camps. -/
def camp (ue : Ue prim L) (cell : UInt32) (now : Now) : Exec (Ue prim L) := do
  let c ← expect ue.cells[cell]?
  let ue := ue.retune c.sib.channel
  if ue.auth.isSome ∧ ue.tmsi ≠ 0 ∧ ue.ip.isSome ∧ ¬ ue.paged ∧ ue.ulQ = [] then
    return { ue with st := .idle cell }
  else ue.rach cell 0 (if ue.auth.isSome ∧ ue.tmsi ≠ 0 then .service else .attach) now

def onSib (radio : Radio L) (ue : Ue prim L) (sib : SysInfo) (rx : RxFrame L) (now : Now) :
    Ue prim L :=
  let e := ue.cells[sib.cellId]?.getD
    { sib, addr := rx.src, rssi := rx.rssiDbm, sinr := rx.sinrDb, lastMs := now.ms }
  let e :=
    { sib, addr := rx.src, rssi := radio.mix e.rssi rx.rssiDbm, sinr := radio.mix e.sinr rx.sinrDb,
             lastMs := now.ms }
  { ue with cells := ue.cells.insert sib.cellId e }

/-! ## Plain messages -/

/-- The slot of the next run, or 0: at once. -/
def grantSlot (ue : Ue prim L) (g : Grant) (now : Now) : Exec ℕ := do
  let r ← nextRun g (ue.firstSlot now)
  return (r.map (·.1)).getD 0

/-- A plain message in flight is kept too; no more than eight of them. -/
def keepPlain (ue : Ue prim L) (tag : UInt16) (x : PlainFlight) : Ue prim L :=
  let flights := if ue.plainInflight.size ≥ 8 then (ue.plainInflight.minKey?).elim ue.plainInflight
    ue.plainInflight.erase
    else ue.plainInflight
  { ue with plainInflight := flights.insert tag x }

def sendPlainOnGrant (ue : Ue prim L) (m : Plain) (now : Now) : Exec (Ue prim L) :=
  match ue.servingAddr, ue.grant with
  | some addr, some g => do
    let slot ← ue.grantSlot g now
    return (ue.tx addr m.encode slot 1 g.subchannel).keepPlain ue.nextTag
      ⟨addr, m.encode, 1, g.subchannel⟩
  | _, _ => .ok ue

def decimal (n : UInt32) : Str := (Nat.repr n.toNat).toList

def reject (ue : Ue prim L) (cell : UInt32) (cause : Cause) (now : Now) : Exec (Ue prim L) :=
  let ue := { ue.resetSession with lastCause := some cause }
  if cause = .sessionLost then
    -- the core forgot our idle session: attach afresh, same SIM
    { ue with auth := none, tmsi := 0, paged := false }.rach cell 0 .attach now
  else
    let ue := (ue.ev (.rejected cause)).emit
      (.log ("attach rejected at cell ".toList ++ decimal cell ++ ": ".toList ++ cause.name))
    if cause.isPermanent then .ok { ue with st := .rejected }
    else
      let ue := if cause = .coreUnavailable then ue.bar cell 3000 now else ue
      let wait := if cause = .coreUnavailable then 500
        else if cause = .quotaExhausted then 60000 else 5000
      .ok { ue with st := .backoff (now.ms + wait) }

/-- What the phone answers on its first grant. -/
def attachMessage (prim : Primitives) (ue : Ue prim L) (cause : RachCause) : Ue prim L × Plain :=
  match cause with
  | .attach => (ue, .attachRequest ue.imsi ue.carrier)
  | .service =>
    let ue := { ue with srCount := ue.srCount + 1 }
    let ksInt := (ue.auth.map fun x => x.2.ksInt).getD (List.replicate 16 0)
    (ue, .serviceRequest ue.tmsi ue.srCount (prim.srMac ksInt ue.tmsi ue.srCount))

/-- The network has shown that it knows the key: the session is protected from here. -/
def secure (radio : Radio L) (ue : Ue prim L)
    (cell epoch : UInt32) (mac rand : List Byte) (r : SimResponse)
    (resume : Bool) (now : Now) : Exec (Ue prim L) :=
  if prim.smcMac r.ksInt rand cell epoch ue.cfg.address ≠ mac then
    let ue := (ue.emit (.log ("cell ".toList ++ decimal cell ++
      ": security mode MAC wrong, not our network".toList))).ev (.networkAuthFailed cell)
    .ok { ue.bar cell 60000 now with st := .backoff (now.ms + 2000) }
  else
    { ue with
      cipher := some (.new prim r.ksEnc cell epoch), ctlQ := ue.ctlQ ++ [Item.securityModeComplete],
              st := .secure cell (now.ms + 3000) resume }.pumpUl radio now

def onPlain (radio : Radio L) (ue : Ue prim L) (m : Plain) (sim : Sim) (now : Now) :
    Exec (Ue prim L) :=
  match m, ue.st with
  | .rachResponse nonce ueId grant, .rach cell n _ _ cause =>
    if nonce = n then do
      let (ue, msg) :=
        attachMessage prim { ue with ueId, grant := some grant, nextTxSlot := 0 } cause
      let ue ← ue.sendPlainOnGrant msg now
      return { ue with st := .attach cell (now.ms + 3000) }
    else .ok ue
  | .authChallenge rand, .attach cell _ =>
    match sim.respond rand with
    | some r => do
      let ue ← { ue with auth := some (rand, r), tmsi := 0 }.sendPlainOnGrant
        (.authResponse r.res) now
      return { ue with st := .auth cell (now.ms + 3000) }
    | none => .ok { ue.ev .simError with st := .rejected }
  | .securityModeCommand epoch mac, .attach cell _ =>
    match ue.auth with
    | some (rand, r) => ue.secure radio cell epoch mac rand r true now
    | none => .ok ue
  | .securityModeCommand epoch mac, .auth cell _ =>
    match ue.auth with
    | some (rand, r) => ue.secure radio cell epoch mac rand r false now
    | none => .ok ue
  | .attachReject cause, .rach cell _ _ _ _ => ue.reject cell cause now
  | .attachReject cause, .attach cell _ => ue.reject cell cause now
  | .attachReject cause, .auth cell _ => ue.reject cell cause now
  | .attachReject cause, .secure cell _ _ => ue.reject cell cause now
  | _, _ => .ok ue

/-! ## Handover -/

def sendHoConfirm (ue : Ue prim L) (now : Now) : Exec (Ue prim L) :=
  match ue.st with
  | .handingOver source target deadline _ tries =>
    if tries ≥ 4 then .ok ue
    else
      match ue.cipher, ue.grant, ue.recorded target with
      | some k, some g, some addr => do
        let items := [.handoverConfirm, .bufferStatus (UInt32.ofNat (ue.ulQ.map List.length).sum)]
        let slot ← ue.grantSlot g now
        let tag := ue.nextTag
        let ue :=
          { ue with cipher := some (k.seal ue.cfg.address addr (encodeItems items)) }.txSealed addr
          ⟨k, ue.cfg.address, addr, items⟩ slot g.cqi g.subchannel
        return { ue with st := .handingOver source target deadline tag (tries + 1) }
      | _, _, _ => .ok ue
  | _ => .ok ue

/-- The target's beacons count from here. -/
def arrive (ue : Ue prim L) (target : UInt32) (now : Now) : Ue prim L :=
  { ue with st := .connected target, lastReportMs := now.ms, lastGapMs := now.ms,
            cells := ue.cells.modify target fun c => { c with lastMs := now.ms } }

def handoverDone (radio : Radio L) (ue : Ue prim L) (source target : UInt32) (now : Now) :
    Exec (Ue prim L) :=
  let ch := (ue.cells[target]?.map (·.sib.channel)).getD ue.curChannel
  ((ue.arrive target now).ev (.handover source target ch)).pumpUl radio now

/-- The key of the target takes the place of the source's, which opens what is still on its way. -/
def switchKey (ue : Ue prim L) (r : SimResponse) (cell epoch : UInt32) : Ue prim L :=
  let prev :=
    match ue.cipher, ue.servingAddr with
    | some old, some a => some (a, old.air)
    | _, _ => ue.prev
  { ue with prev, cipher := some (.new prim r.ksEnc cell epoch) }

/-- The target's address may be new to us (another channel).  It goes into the table with what
the serving cell says of itself, if that is there. -/
def learnTarget (radio : Radio L) (ue : Ue prim L)
    (source cell addr : UInt32) (channel : Byte) (now : Now) :
    Option (Ue prim L) :=
  if ue.recorded cell = some addr then some ue
  else (ue.cells[source]?).map fun c =>
    let sib := { c.sib with cellId := cell, channel := channel }
    { ue with cells := ue.cells.insert cell { sib, addr, rssi := radio.silent, sinr := radio.zero,
                                              lastMs := now.ms } }

def startHandover (ue : Ue prim L) (source cell : UInt32) (channel : Byte) (ueId : UInt16)
    (grant : Grant) (now : Now) :
    Exec (Ue prim L) :=
  let ue := ue.retune channel
  { ue with gap := none, ueId, grant := some grant, nextTxSlot := 0, inflight := ∅,
            st := .handingOver source cell (now.ms + 1500) 0 0 }.sendHoConfirm now

/-! ## Items -/

def finishDetach (ue : Ue prim L) : Ue prim L :=
  { ue.resetSession with auth := none, tmsi := 0, st := .off }.ev .detached

/-- A new session: its downlink sequence numbers start over. -/
def renew (ue : Ue prim L) (session : UInt32) (resume : Bool) : Ue prim L :=
  if session ≠ ue.session ∨ ¬ resume then { ue with session, dedup := {}, reasm := {} } else ue

def connect (ue : Ue prim L) (cfg : IpConfig) (tmsi cell : UInt32) (now : Now) : Ue prim L :=
  { ue with
      ip := some cfg, tmsi, paged := false, st := .connected cell,
      ctlQ := ue.ctlQ ++ [Item.attachComplete],
            lastReportMs := now.ms, lastGapMs := now.ms }

def attachAccept (radio : Radio L) (ue : Ue prim L) (cfg : IpConfig) (tmsi session cell : UInt32)
    (resume : Bool) (now : Now) : Exec (Ue prim L) :=
  let e := if resume ∧ ue.ip = some cfg then UeEvent.resumed cell else .attached cell cfg
  (((ue.renew session resume).connect cfg tmsi cell now).ev e).pumpUl radio now

/-- The network ends the session. -/
def released (ue : Ue prim L) (cause : Cause) (now : Now) : Exec (Ue prim L) :=
  let cell := ue.servingCell
  let ue := { ue with lastCause := some cause }.resetSession.ev (.released cause)
  match cause, cell with
  | .inactivity, some c => .ok ({ ue with st := .idle c }.ev .idle)
  | _, _ =>
    let ue := { ue with auth := none, tmsi := 0, ims := none }
    if cause.isPermanent then .ok { ue with st := .rejected }
    else if cause = .quotaExhausted then .ok { ue with st := .backoff (now.ms + 60000) }
    else
      match cause, cell with
      | .coreUnavailable, some c => (ue.bar c 2000 now).search now
      | _, _ => ue.search now

/-- A packet comes out of the segments, and is given on if it is new. -/
def data (ue : Ue prim L) (seq : UInt32) (idx count : Byte) (bytes : List Byte) (now : Now) :
    Ue prim L :=
  let (reasm, pkt) := ue.reasm.push seq idx count bytes now.ms
  let ue := { ue with reasm }
  match pkt with
  | some pkt =>
    if ue.dedup.check seq.toUInt64 then { ue with dedup := ue.dedup.accept seq.toUInt64 }.emit
      (.ip pkt) else ue
  | none => ue

def onItem (radio : Radio L) (fromPrev : Bool) (now : Now) (ue : Ue prim L) :
    Item → Exec (Ue prim L)
  | .attachAccept ip prefixLen gateway dns mtu tmsi session =>
    match ue.st with
    | .secure cell _ resume => ue.attachAccept radio ⟨ip, prefixLen, gateway, dns, mtu⟩ tmsi session
      cell resume now
    | _ => .ok ue
  | .grant g => .ok (if fromPrev then ue else { ue with grant := some g })
  | .ims info =>
    .ok (if ue.ims ≠ some info ∨ ¬ fromPrev then { ue with ims := some info }.ev
      (.ims info) else ue)
  | .bearerSetup b =>
    .ok ({ ue with bearers := ue.bearers.filter (fun x : Bearer => x.id ≠ b.id) ++ [b] }.ev
      (.bearer b true))
  | .bearerRelease id =>
    match ue.bearers.find? fun x => x.id = id with
    | some b =>
      .ok ({ ue with bearers := ue.bearers.eraseP fun x => x.id = id }.ev (.bearer b false))
    | none => .ok ue
  | .data seq idx count bytes => .ok (ue.data seq idx count bytes now)
  | .release cause => if fromPrev then .ok ue else ue.released cause now
  | .handoverCommand cellId addr profile channel epoch ueId grant =>
    match ue.st, ue.auth with
    | .connected source, some (_, r) =>
      if Profile.fromCode profile ≠ some ue.cfg.profile then .ok ue
      else
        let ue := ue.switchKey r cellId epoch
        match ue.learnTarget radio source cellId addr channel now with
        | some ue => ue.startHandover source cellId channel ueId grant now
        -- the serving cell is not in the table: the new key stays
        | none => .ok ue
    | _, _ => .ok ue
  | .detachAccept =>
    match ue.st with
    | .detaching _ => .ok ue.finishDetach
    | _ => .ok ue
  | _ => .ok ue

/-! ## Radio in -/

/-- A frame that the radio refused is sent again, in the next slot. -/
def resend (ue : Ue prim L) (x : Flight prim) : Ue prim L :=
  { ue.txSealed x.dst x.frame 0 x.cqi x.sub with inflight := ue.inflight.insert ue.nextTag x }

def resendPlain (ue : Ue prim L) (x : PlainFlight) : Ue prim L :=
  { ue.tx x.dst x.payload 0 x.cqi x.sub with plainInflight := ue.plainInflight.insert ue.nextTag x }

/-- What a status means for a handover. -/
def handoverStatus (radio : Radio L) (ue : Ue prim L) (s : TxStatus) (now : Now) :
    Exec (Ue prim L) :=
  match ue.st with
  | .handingOver source target _ tag _ =>
    if s.tag = tag then
      match s.result with
      | .acked => ue.handoverDone radio source target now
      | .failed => ue.sendHoConfirm now
      | _ => .ok ue
    else .ok ue
  | _ => .ok ue

def refused (s : TxStatus) : Bool := s.result = .rejected && s.attempts = 0

def onStatus (radio : Radio L) (ue : Ue prim L) (s : TxStatus) (now : Now) : Exec (Ue prim L) :=
  match ue.inflight[s.tag]? with
  | some x =>
    let ue := { ue with inflight := ue.inflight.erase s.tag }
    if refused s then .ok (ue.resend x) else ue.handoverStatus radio s now
  | none =>
    match ue.plainInflight[s.tag]? with
    | some x =>
      let ue := { ue with plainInflight := ue.plainInflight.erase s.tag }
      if refused s then .ok (ue.resendPlain x) else ue.handoverStatus radio s now
    | none => ue.handoverStatus radio s now

/-- A broadcast: system information, or a page. -/
def onBroadcast (radio : Radio L) (ue : Ue prim L) (rx : RxFrame L) (now : Now) :
    Exec (Ue prim L) :=
  match Plain.decode rx.payload with
  | .ok (.sysInfo sib) => .ok (ue.onSib radio sib rx now)
  | .ok (.paging tmsis) =>
    match ue.st with
    | .idle cell =>
      if ue.tmsi ≠ 0 ∧ ue.tmsi ∈ tmsis ∧ ue.servingAddr = some rx.src then
        { ue with paged := true }.camp cell now
      else .ok ue
    | _ => .ok ue
  | _ => .ok ue

/-- A protected frame is opened with the source's cipher if it comes from there, and else with
the cipher of the session. -/
def openFrame (ue : Ue prim L) (rx : RxFrame L) : Ue prim L × Option (List Byte × Bool) :=
  match ue.prev.filter fun x => x.1 = rx.src, ue.cipher with
  | some (a, ch), _ =>
    let (ch, r) := ch.open a ue.cfg.address rx.payload
    ({ ue with prev := some (a, ch) }, r.toOption.map fun p => (p, true))
  | none, some k =>
    ({ ue with cipher := some (k.open rx.src ue.cfg.address rx.payload) },
      (k.air.open rx.src ue.cfg.address rx.payload).2.toOption.map fun p => (p, false))
  | none, none => (ue, none)

/-- A frame of the new cell ends a handover. -/
def arrived (radio : Radio L) (ue : Ue prim L) (fromPrev : Bool) (now : Now) : Exec (Ue prim L) :=
  match fromPrev, ue.st with
  | false, .handingOver source target _ _ _ => ue.handoverDone radio source target now
  | _, _ => .ok ue

def onItems (radio : Radio L) (ue : Ue prim L) (items : List Item) (fromPrev : Bool) (now : Now) :
    Exec (Ue prim L) := do
  let ue ← ue.arrived radio fromPrev now
  items.foldlM (onItem radio fromPrev now) ue

def onProtected (radio : Radio L) (ue : Ue prim L) (rx : RxFrame L) (now : Now) :
    Exec (Ue prim L) :=
  match ue.openFrame rx with
  | (ue, none) => .ok ue
  | (ue, some (plain, fromPrev)) =>
    match decodeItems plain with
    | .ok items => ue.onItems radio items fromPrev now
    | .error _ => .ok ue

def onRx (radio : Radio L) (ue : Ue prim L) (rx : RxFrame L) (sim : Sim) (now : Now) :
    Exec (Ue prim L) :=
  match rx.payload with
  | [] => .ok ue
  | t :: _ =>
    if rx.isBeacon ∨ rx.dst = broadcast then ue.onBroadcast radio rx now
    else if rx.dst ≠ ue.cfg.address then .ok ue
    else if t = «protected» then ue.onProtected radio rx now
    else if some rx.src ≠ ue.servingAddr then .ok ue
    else
      match Plain.decode rx.payload with
      | .ok m => ue.onPlain radio m sim now
      | .error _ => .ok ue

def onPhy (radio : Radio L) (ue : Ue prim L) (e : PhyEvent L) (sim : Sim) (now : Now) :
    Exec (Ue prim L) :=
  match e with
  | .status s => ue.onStatus radio s now
  | .rx rx => ue.onRx radio rx sim now

/-! ## Time -/

def measurement (radio : Radio L) (c : CellSeen L) : Measurement where
  cellId := c.sib.cellId
  profile := c.sib.profile
  channel := c.sib.channel
  rssiX10 := radio.x10 c.rssi
  sinrX10 := radio.x10 c.sinr
  ulMask := c.sib.ulMask

/-- The serving cell, and what was heard of its carrier. -/
def measurementReport (radio : Radio L) (ue : Ue prim L) (now : Now) : Option Item := do
  let serving ← ue.servingCell
  let c ← ue.cells[serving]?
  let others := ue.cells.values.filter fun c =>
    c.sib.cellId ≠ serving && c.sib.carrier = ue.carrier && now.ms - c.lastMs < 2500
  return .measurementReport ((c :: others).map (measurement radio))

def searchKeepIdle (ue : Ue prim L) (now : Now) : Ue prim L :=
  { ue with
    cipher := none, grant := none, st := .search ue.channelIdx (now.ms + ue.cfg.dwellMs) now.ms 0 }

/-- Channels that the serving cell's neighbours are on. -/
def gapChannels (ue : Ue prim L) (serving : CellSeen L) : List Byte :=
  let chans := (serving.sib.neighbours.filter fun n =>
    n.profile = ue.cfg.profile.code && n.channel ≠ serving.sib.channel).map (·.channel)
  (chans.mergeSort (· ≤ ·)).destutter (· ≠ ·)

/-- Inter-frequency measurement: while the serving cell is weak, visit neighbour channels (from
its system information) in announced gaps. -/
def gaps (radio : Radio L) (ue : Ue prim L) (cell : UInt32) (now : Now) : Ue prim L :=
  let spm := max (1000 / max ue.cfg.profile.slotUs 1) 1
  match ue.gap with
  | some (gf, gt, ch) =>
    if now.slot ≥ gt then
      let back := (ue.cells[cell]?.map (·.sib.channel)).getD ue.curChannel
      { ue.retune back with gap := none }
    else if now.slot ≥ gf ∧ ue.curChannel ≠ ch then ue.tune ch
    else ue
  | none =>
    match ue.cells[cell]? with
    | none => ue
    | some serving =>
      if radio.atLeast serving.rssi ue.cfg.gapBelowDbm ∨
        now.ms - ue.lastGapMs < ue.cfg.gapEveryMs then ue
      else
        let chans := ue.gapChannels serving
        match chans[ue.gapRr % chans.length]? with
        | none => ue
        | some ch =>
          let gf := now.slot + 30 * spm
          let gt := gf + ue.cfg.gapMs * spm
          { ue with gapRr := ue.gapRr + 1, lastGapMs := now.ms, gap := some (gf, gt, ch),
                    ctlQ := .measGap (UInt64.ofNat gf) (UInt64.ofNat gt) :: ue.ctlQ }

/-- Is a neighbour stronger than the serving cell? -/
def a3 (radio : Radio L) (ue : Ue prim L) (cell : UInt32) (now : Now) : Bool :=
  let serving := (ue.cells[cell]?.map (·.rssi)).getD radio.silent
  ue.cells.values.any fun c => c.sib.cellId ≠ cell && c.sib.carrier = ue.carrier && now.ms -
    c.lastMs < 1000 &&
    radio.above c.rssi serving ue.cfg.a3OffsetDb

def isReport : Item → Bool
  | .measurementReport _ => true
  | _ => false

/-- Measurement reports: periodic, and at once on a stronger neighbour. -/
def reports (radio : Radio L) (ue : Ue prim L) (cell : UInt32) (now : Now) : Ue prim L :=
  if now.ms - ue.lastReportMs ≥ (if ue.a3 radio cell now then 300 else ue.cfg.reportMs) then
    match ue.measurementReport radio now with
    | some r =>
      { ue with ctlQ := ue.ctlQ.filter (fun i => !isReport i) ++ [r], lastReportMs := now.ms }
    | none => ue
  else ue

def keepalive (ue : Ue prim L) (now : Now) : Ue prim L :=
  if now.ms - ue.lastTxMs ≥ ue.cfg.keepaliveMs ∧ ue.ctlQ = [] ∧ ue.ulQ = [] then
    { ue with ctlQ := ue.ctlQ ++ [Item.keepalive] }
  else ue

/-- When the serving cell was last heard. -/
def lastHeard (ue : Ue prim L) (cell : UInt32) : ℕ := (ue.cells[cell]?.map (·.lastMs)).getD 0

def lost (ue : Ue prim L) (cell : UInt32) (now : Now) : Exec (Ue prim L) :=
  let ue :=
    (ue.emit (.log ("radio link to cell ".toList ++ decimal cell ++ " lost".toList))).resetSession
  let ue := ue.ev (.released .radioLost)
  ({ ue with lastCause := some .radioLost, auth := none, tmsi := 0 }.bar cell 3000 now).search now

def tickConnected (radio : Radio L) (ue : Ue prim L) (cell : UInt32) (now : Now) :
    Exec (Ue prim L) :=
  if ue.gap = none ∧ now.ms - ue.lastHeard cell > ue.cfg.rlfMs then ue.lost cell now
  else (((ue.gaps radio cell now).reports radio cell now).keepalive now).pumpUl radio now

def tickSearch (radio : Radio L) (ue : Ue prim L) (idx til sweepFrom swept : ℕ) (now : Now) :
    Exec (Ue prim L) :=
  if now.ms < til then .ok ue
  else
    match ue.bestCell radio now sweepFrom with
    | some c => ue.camp c now
    | none => do
      let chans := ue.channels
      let swept := swept + 1
      let ni := (idx + 1) % chans.length
      let ch ← expect (chans[ni]?)
      if swept ≥ chans.length then
        let heard := (ue.cells.values.filter fun c => sweepFrom ≤ c.lastMs).map (·.sib.carrier)
        let heard := (heard.mergeSort fun a b => ¬ b < a).destutter (· ≠ ·)
        return { (ue.ev (.noService heard)).tune ch with
            st := .search ni (now.ms + ue.cfg.dwellMs) now.ms 0 }
      return { ue.tune ch with st := .search ni (now.ms + ue.cfg.dwellMs) sweepFrom swept }

/-- What has not been heard for ten seconds is forgotten, and so is what is no longer barred. -/
def expire (ue : Ue prim L) (now : Now) : Ue prim L :=
  { ue with cells := ue.cells.filter fun _ c => now.ms - c.lastMs < 10000,
            barred := ue.barred.filter fun _ t => now.ms < t }

/-- An attach that takes too long begins again. -/
def tickAttach (radio : Radio L) (ue : Ue prim L) (deadline : ℕ) (now : Now) : Exec (Ue prim L) :=
  if now.ms ≥ deadline then (ue.emit (.log "attach timed out".toList)).search now
    else ue.pumpUl radio now

def tick (radio : Radio L) (ue : Ue prim L) (now : Now) : Exec (Ue prim L) :=
  let ue := ue.expire now
  match ue.st with
  | .off => .ok ue
  | .rejected => .ok ue
  | .search idx til sweepFrom swept => ue.tickSearch radio idx til sweepFrom swept now
  | .backoff til => if now.ms ≥ til then ue.search now else .ok ue
  | .rach cell _ tries deadline cause =>
    if now.ms ≥ deadline then
      if tries ≥ 5 ∨ ue.cells[cell]?.isNone then (ue.bar cell 5000 now).search now
      else ue.rach cell (tries + 1) cause now
    else .ok ue
  | .attach _ deadline => ue.tickAttach radio deadline now
  | .auth _ deadline => ue.tickAttach radio deadline now
  | .secure _ deadline _ => ue.tickAttach radio deadline now
  | .connected cell => ue.tickConnected radio cell now
  | .handingOver _ _ deadline _ _ =>
    if now.ms ≥ deadline then
      let ue :=
        ((ue.emit (.log "handover failed".toList)).resetSession).ev (.released .handoverFailed)
      { ue with auth := none, tmsi := 0 }.search now
    else .ok ue
  | .idle cell =>
    if now.ms - ue.lastHeard cell > ue.cfg.rlfMs then .ok (ue.searchKeepIdle now)
    else if ue.paged ∨ ue.ulQ ≠ [] then { ue with paged := true }.rach cell 0 .service now
    else .ok ue
  | .detaching deadline => if now.ms ≥ deadline then .ok ue.finishDetach else ue.pumpUl radio now

/-! ## Calls -/

/-- Power on with the SIM in the slot: search for a cell of its carrier. -/
def start (ue : Ue prim L) (sim : Sim) (now : Now) : Exec (Ue prim L) :=
  match sim.identity with
  | some (imsi, carrier) => { ue with imsi, carrier, auth := none, tmsi := 0 }.search now
  | none => .ok { ue.ev .simError with st := .off }

/-- Detach (or just stop when not attached). -/
def detach (radio : Radio L) (ue : Ue prim L) (now : Now) : Exec (Ue prim L) :=
  match ue.st with
  | .connected _ =>
    { ue with
        ctlQ := [Item.detach .userDetach], ulQ := [], ulSegs := [],
        st := .detaching (now.ms + 1000) }.pumpUl radio
      now
  | _ => .ok ({ ue.resetSession with st := .off }.ev .detached)

/-- Does a packet belong to a call's voice? -/
def voice (ue : Ue prim L) (pkt : List Byte) : Bool := ue.bearers.any fun b => b.matches pkt

/-- A call's voice goes before everything else waiting.  Where all of a full queue is voice, its
place is behind what is left of the queue: the program panics. -/
def enqueue (ue : Ue prim L) (pkt : List Byte) : Exec (Ue prim L) :=
  if ue.voice pkt then
    let at' := (ue.ulQ.takeWhile ue.voice).length
    let q := if ue.ulQ.length ≥ ulQueue then ue.ulQ.dropLast else ue.ulQ
    if at' > q.length then .error .panic else .ok { ue with ulQ := q.insertIdx at' pkt }
  else .ok { ue with ulQ := (if ue.ulQ.length ≥ ulQueue then ue.ulQ.tail else ue.ulQ) ++ [pkt] }

/-- Queue an uplink IP packet.  Without a session it is refused. -/
def sendIp (radio : Radio L) (ue : Ue prim L) (pkt : List Byte) (now : Now) : Exec (Ue prim L) :=
  match ue.st with
  | .connected _ => do
    let ue ← ue.enqueue pkt
    ue.pumpUl radio now
  | .handingOver _ _ _ _ _ => ue.enqueue pkt
  -- uplink data resumes the session
  | .idle _ => { ue with paged := true }.enqueue pkt
  | _ => .ok ue

/-- Ask the network to put the phone in idle now. -/
def goIdle (radio : Radio L) (ue : Ue prim L) (now : Now) : Exec (Ue prim L) :=
  match ue.st with
  | .connected _ =>
    if ue.ulQ ≠ [] ∨ ue.ulSegs ≠ [] ∨ ue.bearers ≠ [] then .ok ue
    else { ue with ctlQ := if Item.idleRequest ∈ ue.ctlQ then ue.ctlQ
      else ue.ctlQ ++ [Item.idleRequest] }.pumpUl radio now
  | _ => .ok ue

def takeOut (ue : Ue prim L) : Ue prim L := { ue with out := [] }

def setTxLeadUs (ue : Ue prim L) (us : ℕ) : Ue prim L :=
  { ue with cfg := { ue.cfg with txLeadUs := us } }

end Ue

/-- What a driver calls. -/
inductive UeCall (L : Type) where
  | start (sim : Sim)
  | detach
  | sendIp (pkt : List Byte)
  | goIdle
  | onPhy (e : PhyEvent L) (sim : Sim)
  | tick
  | takeOut
  | setTxLeadUs (us : ℕ)

namespace Ue

def call (radio : Radio L) (ue : Ue prim L) (now : Now) : UeCall L → Exec (Ue prim L)
  | .start sim => ue.start sim now
  | .detach => ue.detach radio now
  | .sendIp pkt => ue.sendIp radio pkt now
  | .goIdle => ue.goIdle radio now
  | .onPhy e sim => ue.onPhy radio e sim now
  | .tick => ue.tick radio now
  | .takeOut => .ok ue.takeOut
  | .setTxLeadUs us => .ok (ue.setTxLeadUs us)

end EvansComputer.Cell.Ue
