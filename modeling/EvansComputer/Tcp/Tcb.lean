import EvansComputer.Tcp.Segment

/-!
# The connection state machine

One transmission control block, as `ecm-net/src/tcb.rs` computes it.  Every
method of the source takes `&mut self` and appends the segments it wants sent to
`out`; here it takes the block and the list `out` and returns both.  Time is an
argument, so a method is a function.

Two loops need a bound.  `outputLoop` sends at least one byte a round and stops
at the FIN, so `tx.length + 1` rounds are enough; `drainOoo` removes one entry a
round, so `ooo.length` rounds are.  That neither bound is ever what stops the
loop is proved beside the invariants that need it (`outputLoop_exit` in
`Tcp.Timers`, `drainLoop_spec` in `Tcp.ReceiveSpace`).

`onSynchronized` is the long method of the source.  Its numbered steps are
functions of their own here, in the order in which the source runs them, and the
early returns inside the ACK step are the `stop` outcomes of `Flow`.
-/

namespace EvansComputer.Tcp

open SerialNumber

/-! ## Constants -/

/-- Receive buffer, and the largest advertised window. -/
def rxCap : ℕ := 32 * 1024
/-- Send buffer: unacknowledged and unsent bytes. -/
def txCap : ℕ := 64 * 1024
def initialRtoMs : ℤ := 1000
def minRtoMs : ℤ := 200
def maxRtoMs : ℤ := 60000
/-- Retransmissions of the same data before the connection is aborted. -/
def maxRetries : ℕ := 10
def timeWaitMs : ℤ := 2 * 15000
def finWait2TimeoutMs : ℤ := 60000
/-- Out-of-order segments held for reassembly. -/
def maxOoo : ℕ := 32

/-! ## The block -/

/-- The transmission control block. -/
structure Tcb where
  state : TcpState
  localAddr : SocketAddr
  remote : SocketAddr
  iss : Seq
  sndUna : Seq
  sndNxt : Seq
  /-- Highest sequence number ever sent, plus one. -/
  sndMax : Seq
  sndWnd : BitVec 32
  sndWl1 : Seq
  sndWl2 : Seq
  sndMss : ℕ
  tx : List Byte
  /-- The user asked for a FIN. -/
  finPending : Bool
  /-- Sequence number of our FIN once it has been sent. -/
  finSeq : Option Seq
  finAcked : Bool
  rcvNxt : Seq
  rx : List Byte
  ooo : List (Seq × List Byte)
  /-- Sequence number of the peer's FIN, once seen in the window. -/
  rxFinSeq : Option Seq
  finReceived : Bool
  lastAdvWnd : ℕ
  /-- The user closed the handle: incoming data is acknowledged and discarded. -/
  discardRx : Bool
  rto : ℤ
  srtt : Option ℤ
  rttvar : ℤ
  rttProbe : Option (Seq × ℤ)
  rtoDeadline : Option ℤ
  retries : ℕ
  dupacks : ℕ
  closeDeadline : Option ℤ
  error : Option NetError
  /-- The user holds a handle to this block. -/
  userOpen : Bool
  retransmits : ℕ
  deriving DecidableEq

namespace Tcb

def blank (localAddr remote : SocketAddr) (iss : Seq) (state : TcpState) : Tcb where
  state := state
  localAddr := localAddr
  remote := remote
  iss := iss
  sndUna := iss
  sndNxt := iss
  sndMax := iss
  sndWnd := 0
  sndWl1 := 0
  sndWl2 := 0
  sndMss := defaultMss
  tx := []
  finPending := false
  finSeq := none
  finAcked := false
  rcvNxt := 0
  rx := []
  ooo := []
  rxFinSeq := none
  finReceived := false
  lastAdvWnd := 0
  discardRx := false
  rto := initialRtoMs
  srtt := none
  rttvar := 0
  rttProbe := none
  rtoDeadline := none
  retries := 0
  dupacks := 0
  closeDeadline := none
  error := none
  userOpen := true
  retransmits := 0

/-! ## Helpers -/

def rcvWnd (t : Tcb) : ℕ :=
  if t.discardRx then rxCap else rxCap - min t.rx.length rxCap

/-- The advertised window, and the block that remembers it. -/
def advWindow (t : Tcb) : Tcb × UInt16 :=
  let w := min t.rcvWnd 65535
  ({ t with lastAdvWnd := w }, UInt16.ofNat w)

def seg (t : Tcb) (seq : Seq) (flags : Flags) (payload : List Byte) : Tcb × Seg :=
  let r := t.advWindow
  (r.1, { seq, ack := t.rcvNxt, flags, window := r.2, mss := none, payload })

def synFlags (t : Tcb) : Flags := if t.state = .synSent then SYN else SYN ||| ACK

/-- Our SYN or SYN-ACK; without the ACK flag the acknowledgment is zero. -/
def synSeg (t : Tcb) : Seg :=
  { seq := t.iss
    ack := if t.synFlags &&& ACK = 0 then 0 else t.rcvNxt
    flags := t.synFlags
    window := t.advWindow.2
    mss := some (UInt16.ofNat tcpMss)
    payload := [] }

def sendSyn (t : Tcb) (out : List Seg) : Tcb × List Seg :=
  (t.advWindow.1, out ++ [t.synSeg])

def sendAck (t : Tcb) (out : List Seg) : Tcb × List Seg :=
  let r := t.seg t.sndNxt ACK []
  (r.1, out ++ [r.2])

/-- The bare reset sent in answer to an unacceptable acknowledgment, or by
`abort`. -/
def rstSeg (seq : Seq) : Seg :=
  { seq, ack := 0, flags := RST, window := 0, mss := none, payload := [] }

def synchronized (t : Tcb) : Bool :=
  match t.state with
  | .closed | .listen | .synSent | .synReceived => false
  | _ => true

def canSendData (t : Tcb) : Bool :=
  match t.state with
  | .established | .closeWait | .finWait1 | .closing | .lastAck => true
  | _ => false

def setClosed (t : Tcb) (err : Option NetError) : Tcb :=
  { t with
    state := .closed
    error := if t.error.isNone then err else t.error
    rtoDeadline := none
    closeDeadline := none
    tx := []
    ooo := [] }

def enterTimeWait (t : Tcb) (now : ℤ) : Tcb :=
  { t with
    state := .timeWait
    rtoDeadline := none
    closeDeadline := some (now + timeWaitMs)
    tx := [] }

def enterFinWait2 (t : Tcb) (now : ℤ) : Tcb :=
  { t with
    state := .finWait2
    rtoDeadline := none
    closeDeadline :=
      if t.userOpen then t.closeDeadline else some (now + finWait2TimeoutMs) }

/-- The smoothed round-trip estimate; the divisions truncate toward zero. -/
def updateRtt (t : Tcb) (sample : ℤ) : Tcb :=
  let r := max sample 1
  let (srtt, rttvar) :=
    match t.srtt with
    | none => (r, r.tdiv 2)
    | some s => ((7 * s + r).tdiv 8, (3 * t.rttvar + |s - r|).tdiv 4)
  { t with
    srtt := some srtt
    rttvar := rttvar
    rto := max minRtoMs (min maxRtoMs (srtt + max (4 * rttvar) 10)) }

/-- Bytes of data sent but unacknowledged, measured to `sndNxt`. -/
def dataInFlight (t : Tcb) : ℕ := min (t.sndNxt - t.sndUna).toNat t.tx.length

def txSpace (t : Tcb) : ℕ := txCap - t.tx.length

/-! ## Output -/

/-- How far into `tx` the next segment starts. -/
def sendOffset (t : Tcb) : ℕ := (t.sndNxt - t.sndUna).toNat

/-- Room left in the peer's window; a probe may send one byte past a zero
window. -/
def usable (t : Tcb) (probe : Bool) : ℕ :=
  let wndEnd := t.sndUna + t.sndWnd
  let room := if seqLt t.sndNxt wndEnd then (wndEnd - t.sndNxt).toNat else 0
  if probe && room == 0 && decide (t.sendOffset < t.tx.length) then 1 else room

/-- How many bytes the next segment carries. -/
def sendLen (t : Tcb) (probe : Bool) : ℕ :=
  min (min (t.tx.length - t.sendOffset) (t.usable probe)) t.sndMss

/-- Does the next segment carry the FIN? -/
def finNow (t : Tcb) (probe : Bool) : Bool :=
  t.finPending && (t.finSeq.all fun f => seqGe f t.sndNxt)
    && t.sendOffset + t.sendLen probe == t.tx.length

/-- What one round of the send loop decides: where the next segment starts, how
many bytes it carries, and whether it carries the FIN.  `none` when the loop
stops here: the FIN is in flight, or there is nothing to send. -/
def outputPlan (t : Tcb) (probe : Bool) : Option (ℕ × ℕ × Bool) :=
  if t.tx.length < t.sendOffset then none
  else if t.sendLen probe = 0 ∧ t.finNow probe = false then none
  else some (t.sendOffset, t.sendLen probe, t.finNow probe)

/-- The flags of a data segment. -/
def dataFlags (len : ℕ) (fin : Bool) : Flags :=
  ACK ||| (if 0 < len then PSH else 0) ||| (if fin then FIN else 0)

/-- The body of the send loop: emit the planned segment and move `sndNxt`. -/
def outputSend (t : Tcb) (now : ℤ) (offset len : ℕ) (finNow : Bool) : Tcb × Seg :=
  let seq := t.sndNxt
  let r := t.seg seq (dataFlags len finNow) ((t.tx.drop offset).take len)
  let isNew := seqGe seq t.sndMax
  let nxt := seq + BitVec.ofNat 32 (len + finNow.toNat)
  ({ r.1 with
      retransmits := if isNew then t.retransmits else t.retransmits + 1
      sndNxt := nxt
      sndMax := if seqGt nxt t.sndMax then nxt else t.sndMax
      finSeq := if finNow then some (nxt - 1) else t.finSeq
      rttProbe :=
        if isNew && t.rttProbe.isNone && decide (0 < len) then some (nxt, now)
        else t.rttProbe }, r.2)

/-- The send loop.  It leaves by `outputPlan` or right after the FIN. -/
def outputLoop : ℕ → Tcb → ℤ → List Seg → Bool → Bool → Tcb × List Seg × Bool
  | 0, t, _, out, _, sentAny => (t, out, sentAny)
  | fuel + 1, t, now, out, probe, sentAny =>
    match t.outputPlan probe with
    | none => (t, out, sentAny)
    | some (offset, len, finNow) =>
      let r := t.outputSend now offset len finNow
      if finNow then (r.1, out ++ [r.2], true)
      else outputLoop fuel r.1 now (out ++ [r.2]) false true

/-- The timer after a round of output: armed while anything is unacknowledged,
or as a persist timer when the peer's window is closed and data is waiting. -/
def armRto (t : Tcb) (now : ℤ) : Tcb :=
  let outstanding := t.sndUna != t.sndMax
  let persist := t.sndWnd == 0 && decide (t.dataInFlight < t.tx.length)
  if (outstanding || persist) && t.rtoDeadline.isNone then
    { t with rtoDeadline := some (now + t.rto) }
  else t

/-- Send whatever the window allows: data, then FIN. -/
def output (t : Tcb) (now : ℤ) (out : List Seg) (forceAck probe : Bool) : Tcb × List Seg :=
  if t.canSendData then
    let r := outputLoop (t.tx.length + 1) t now out probe false
    let t := r.1.armRto now
    -- `r.2.2` is `sent_any`
    if !r.2.2 && forceAck then t.sendAck r.2.1 else (t, r.2.1)
  else if forceAck then t.sendAck out else (t, out)

/-- Retransmit one segment starting at `sndUna` (fast retransmit). -/
def retransmitFirst (t : Tcb) (out : List Seg) : Tcb × List Seg :=
  let len := min t.tx.length t.sndMss
  let fin := t.finSeq == some (t.sndUna + BitVec.ofNat 32 len)
  if len = 0 ∧ fin = false then (t, out)
  else
    let r := t.seg t.sndUna (dataFlags len fin) (t.tx.take len)
    ({ r.1 with retransmits := t.retransmits + 1, rttProbe := none }, out ++ [r.2])

/-! ## Opening -/

/-- Active open: emits a SYN. -/
def newConnect (localAddr remote : SocketAddr) (iss : Seq) (now : ℤ) (out : List Seg) :
    Tcb × List Seg :=
  let t := blank localAddr remote iss .synSent
  let t := { t with sndNxt := iss + 1, sndMax := iss + 1 }
  let r := t.sendSyn out
  ({ r.1 with rtoDeadline := some (now + t.rto) }, r.2)

/-- Passive open from a received SYN: emits a SYN-ACK. -/
def newPassive (localAddr remote : SocketAddr) (iss : Seq) (syn : TcpHeader) (now : ℤ)
    (out : List Seg) : Tcb × List Seg :=
  let t := blank localAddr remote iss .synReceived
  let t := { t with
    userOpen := false
    rcvNxt := syn.seqNum + 1
    sndNxt := iss + 1
    sndMax := iss + 1
    sndWnd := BitVec.ofNat 32 syn.window.toNat
    sndWl1 := syn.seqNum
    sndMss := clampMss syn.mss }
  let r := t.sendSyn out
  ({ r.1 with rtoDeadline := some (now + t.rto) }, r.2)

/-! ## The user side -/

/-- Queue data; also returns how many bytes were accepted. -/
def write (t : Tcb) (data : List Byte) (now : ℤ) (out : List Seg) : Tcb × List Seg × ℕ :=
  let n := min data.length t.txSpace
  let r := { t with tx := t.tx ++ data.take n }.output now out false false
  (r.1, r.2, n)

/-- Read at most `cap` buffered bytes; may emit a window update. -/
def read (t : Tcb) (cap : ℕ) (out : List Seg) : Tcb × List Seg × List Byte :=
  let n := min cap t.rx.length
  let bytes := t.rx.take n
  let t := { t with rx := t.rx.drop n }
  if decide (0 < n) && t.synchronized && !t.finReceived then
    let w := t.rcvWnd
    let step := min (2 * tcpMss) (rxCap / 2)
    if w ≥ t.lastAdvWnd + step ∨ (t.lastAdvWnd = 0 ∧ 0 < w) then
      let r := t.sendAck out
      (r.1, r.2, bytes)
    else (t, out, bytes)
  else (t, out, bytes)

/-- Half-close: FIN once `tx` drains. -/
def shutdownWrite (t : Tcb) (now : ℤ) (out : List Seg) : Tcb × List Seg :=
  match t.state with
  | .established =>
    { t with finPending := true, state := .finWait1 }.output now out false false
  | .closeWait =>
    { t with finPending := true, state := .lastAck }.output now out false false
  | _ => (t, out)

/-- User close.  The Boolean asks the caller to abort instead, in a state with
no established connection. -/
def close (t : Tcb) (now : ℤ) (out : List Seg) : Tcb × List Seg × Bool :=
  let t := { t with userOpen := false, discardRx := true, rx := [] }
  match t.state with
  | .listen | .synSent | .synReceived | .closed => (t, out, true)
  | .established | .closeWait =>
    let r := t.shutdownWrite now out
    (r.1, r.2, false)
  | .finWait2 => ({ t with closeDeadline := some (now + finWait2TimeoutMs) }, out, false)
  | _ => (t, out, false)

/-- Abort: RST if there is a peer to tell, and close. -/
def abort (t : Tcb) (out : List Seg) : Tcb × List Seg :=
  let out :=
    if t.synchronized || t.state == .synReceived then out ++ [rstSeg t.sndNxt] else out
  (t.setClosed (some .connectionAborted), out)

/-- Local teardown: closed with `err`, nothing sent. -/
def fail (t : Tcb) (err : NetError) : Tcb := t.setClosed (some err)

/-- ARP or routing failure for our packets. -/
def onUnreachable (t : Tcb) : Tcb :=
  if t.state = .synSent then t.setClosed (some .hostUnreachable) else t

/-! ## Timers -/

def nextDeadline (t : Tcb) : Option ℤ :=
  match t.rtoDeadline, t.closeDeadline with
  | some a, some b => some (min a b)
  | a, b => a.or b

/-- The peer's window is closed, nothing is in flight and data is waiting: the
timer is a persist timer. -/
def persisting (t : Tcb) : Bool :=
  t.sndWnd == 0 && t.sndUna == t.sndMax && !t.tx.isEmpty

/-- A timeout counts against the connection, unless it was the persist timer. -/
def countRetry (t : Tcb) : Tcb :=
  if t.persisting then t else { t with retries := min (t.retries + 1) 255 }

def backoff (t : Tcb) : Tcb :=
  { t with
    rto := min (t.rto * 2) maxRtoMs
    rttProbe := none
    dupacks := 0 }

/-- What a timeout sends: the SYN again, or everything from `sndUna` on. -/
def rtoResend (t : Tcb) (now : ℤ) (out : List Seg) : Tcb × List Seg :=
  if t.state = .synSent ∨ t.state = .synReceived then
    let r := t.sendSyn out
    ({ r.1 with retransmits := r.1.retransmits + 1 }, r.2)
  else if t.canSendData then
    { t with sndNxt := t.sndUna }.output now out false true
  else (t, out)

/-- The timer is armed again as long as there is something to wait for. -/
def rtoRearm (t : Tcb) (now : ℤ) (persist : Bool) : Tcb :=
  if t.rtoDeadline.isNone && t.state != .closed && (t.sndUna != t.sndMax || persist) then
    { t with rtoDeadline := some (now + t.rto) }
  else t

/-- The retransmission deadline has passed. -/
def onRto (t : Tcb) (now : ℤ) (out : List Seg) : Tcb × List Seg :=
  let t := { t with rtoDeadline := none }
  let persist := t.persisting
  let t := t.countRetry
  if !persist && decide (maxRetries < t.retries) then (t.setClosed (some .timedOut), out)
  else
    let r := t.backoff.rtoResend now out
    (r.1.rtoRearm now persist, r.2)

def onTimer (t : Tcb) (now : ℤ) (out : List Seg) : Tcb × List Seg :=
  if t.closeDeadline.any (fun d => d ≤ now) && (t.state == .timeWait || t.state == .finWait2) then
    (t.setClosed none, out)
  else if t.rtoDeadline.any (fun d => d ≤ now) then t.onRto now out
  else (t, out)

/-! ## Input -/

def onSynSent (t : Tcb) (h : TcpHeader) (now : ℤ) (out : List Seg) : Tcb × List Seg :=
  let ackOk := h.has ACK && seqGt h.ackNum t.iss && seqLe h.ackNum t.sndMax
  if h.has ACK && !ackOk then
    if h.has RST then (t, out) else (t, out ++ [rstSeg h.ackNum])
  else if h.has RST then
    if ackOk then (t.setClosed (some .connectionRefused), out) else (t, out)
  else if !h.has SYN then (t, out)
  else
    let t := { t with rcvNxt := h.seqNum + 1, sndMss := clampMss h.mss }
    if ackOk then
      -- data on a SYN-ACK is not accepted: the peer will retransmit it
      { t with
        sndUna := h.ackNum
        sndWnd := BitVec.ofNat 32 h.window.toNat
        sndWl1 := h.seqNum
        sndWl2 := h.ackNum
        state := .established
        rtoDeadline := none
        retries := 0
        rto := initialRtoMs }.output now out true false
    else
      -- simultaneous open
      let t := { t with
        state := .synReceived
        sndWnd := BitVec.ofNat 32 h.window.toNat
        sndWl1 := h.seqNum }
      let r := t.sendSyn out
      ({ r.1 with rtoDeadline := some (now + t.rto) }, r.2)

/-- `in_wnd` of the sequence check. -/
def inWnd (t : Tcb) (s : Seq) : Bool :=
  seqGe s t.rcvNxt && seqLt s (t.rcvNxt + BitVec.ofNat 32 t.rcvWnd)

def acceptable (t : Tcb) (seq : Seq) (segLen : BitVec 32) : Bool :=
  if segLen = 0 then
    if t.rcvWnd = 0 then seq == t.rcvNxt else t.inWnd seq
  else
    if t.rcvWnd = 0 then false else t.inWnd seq || t.inWnd (seq + (segLen - 1))

/-- Either the method returns here, or it goes on to the next step. -/
inductive Flow where
  | stop (t : Tcb) (out : List Seg)
  | next (t : Tcb) (out : List Seg)

/-- The handshake is complete: step 4 in `SynReceived`. -/
def ackSynReceived (t : Tcb) (h : TcpHeader) (out : List Seg) : Flow :=
  if seqGt h.ackNum t.sndUna && seqLe h.ackNum t.sndMax then
    .next { t with
      state := .established
      sndUna := h.ackNum
      sndWnd := BitVec.ofNat 32 h.window.toNat
      sndWl1 := h.seqNum
      sndWl2 := h.ackNum
      rtoDeadline := none
      retries := 0
      rto := initialRtoMs } out
  else .stop t (out ++ [rstSeg h.ackNum])

/-- New sequence space is acknowledged: drop it from the send buffer. -/
def ackTx (t : Tcb) (ack : Seq) : Tcb :=
  let n := (ack - t.sndUna).toNat
  { t with
    finAcked := t.finAcked || t.finSeq.any (fun f => ack == f + 1)
    tx := t.tx.drop (min n t.tx.length)
    sndUna := ack
    sndNxt := if seqLt t.sndNxt ack then ack else t.sndNxt }

/-- The round-trip sample, if the acknowledgment covers the timed segment. -/
def sampleRtt (t : Tcb) (ack : Seq) (now : ℤ) : Tcb :=
  match t.rttProbe with
  | some (pseq, sent) =>
    if seqGe ack pseq then { t.updateRtt (now - sent) with rttProbe := none } else t
  | none => t

/-- The connection makes progress: the timer restarts or stops. -/
def ackTimer (t : Tcb) (now : ℤ) : Tcb :=
  { t with
    retries := 0
    dupacks := 0
    rtoDeadline := if t.sndUna == t.sndMax then none else some (now + t.rto) }

/-- An acknowledgment of new sequence space. -/
def ackAdvance (t : Tcb) (ack : Seq) (now : ℤ) : Tcb :=
  ((t.ackTx ack).sampleRtt ack now).ackTimer now

/-- An acknowledgment of nothing new counts as a duplicate. -/
def isDupAck (t : Tcb) (h : TcpHeader) (payload : List Byte) : Bool :=
  payload.isEmpty && !h.has FIN && BitVec.ofNat 32 h.window.toNat == t.sndWnd
    && t.sndUna != t.sndMax

/-- Count a duplicate acknowledgment; the third one retransmits. -/
def countDupAck (t : Tcb) (out : List Seg) : Tcb × List Seg :=
  let t := { t with dupacks := min (t.dupacks + 1) 255 }
  if t.dupacks = 3 then t.retransmitFirst out else (t, out)

/-- A zero window shows that the peer is alive, just not reading. -/
def peerAlive (t : Tcb) (h : TcpHeader) : Tcb :=
  if h.window = 0 then { t with retries := 0 } else t

/-- An acknowledgment that repeats `sndUna`. -/
def ackRepeat (t : Tcb) (h : TcpHeader) (payload : List Byte) (out : List Seg) :
    Tcb × List Seg :=
  let r := if t.isDupAck h payload then t.countDupAck out else (t, out)
  (r.1.peerAlive h, r.2)

/-- The window update at the end of step 4. -/
def updateWindow (t : Tcb) (h : TcpHeader) : Tcb :=
  if seqLt t.sndWl1 h.seqNum || (t.sndWl1 == h.seqNum && seqLe t.sndWl2 h.ackNum) then
    { t with
      sndWnd := BitVec.ofNat 32 h.window.toNat
      sndWl1 := h.seqNum
      sndWl2 := h.ackNum }
  else t

/-- Step 4: the acknowledgment. -/
def processAck (t : Tcb) (h : TcpHeader) (payload : List Byte) (now : ℤ) (out : List Seg) :
    Flow :=
  if t.state = .synReceived then t.ackSynReceived h out
  else if seqGt h.ackNum t.sndMax then .stop (t.sendAck out).1 (t.sendAck out).2
  else if seqGt h.ackNum t.sndUna then .next ((t.ackAdvance h.ackNum now).updateWindow h) out
  else if h.ackNum = t.sndUna then
    let r := t.ackRepeat h payload out
    .next (r.1.updateWindow h) r.2
  else .next (t.updateWindow h) out

/-- Has our FIN been acknowledged? -/
def checkFinAcked (t : Tcb) (now : ℤ) (out : List Seg) : Flow :=
  if t.finAcked then
    match t.state with
    | .finWait1 => .next (t.enterFinWait2 now) out
    | .closing => .next (t.enterTimeWait now) out
    | .lastAck => .stop (t.setClosed none) out
    | _ => .next t out
  else .next t out

/-- In-order bytes enter the receive buffer. -/
def pushRx (t : Tcb) (data : List Byte) : Tcb :=
  { t with
    rx := if t.discardRx then t.rx else t.rx ++ data
    rcvNxt := t.rcvNxt + BitVec.ofNat 32 data.length }

/-- `Vec::swap_remove`: the last entry takes the place of the removed one. -/
def swapRemove {α : Type*} (l : List α) (i : ℕ) : List α :=
  match l.getLast? with
  | none => l
  | some x => (l.set i x).dropLast

/-- Out-of-order entries that have become deliverable, one a round. -/
def drainLoop : ℕ → Tcb → Tcb
  | 0, t => t
  | fuel + 1, t =>
    match t.ooo.findIdx? (fun e => seqLe e.1 t.rcvNxt) with
    | none => t
    | some i =>
      match t.ooo[i]? with
      | none => t
      | some (s, d) =>
        let t := { t with ooo := swapRemove t.ooo i }
        let skip := (t.rcvNxt - s).toNat
        drainLoop fuel (if skip < d.length then t.pushRx (d.drop skip) else t)

def drainOoo (t : Tcb) : Tcb := drainLoop t.ooo.length t

/-- The second half of `accept_data`: cut bytes at or after `rcvNxt` at the right
edge of the window, then buffer them in order or out of order. -/
def bufferData (t : Tcb) (seq : Seq) (data : List Byte) : Tcb :=
  let wnd := t.rcvWnd
  let off := (seq - t.rcvNxt).toNat
  if wnd ≤ off then t
  else
    let data := data.take (wnd - off)
    if data.isEmpty then t
    else if seq = t.rcvNxt then (t.pushRx data).drainOoo
    else if decide (t.ooo.length < maxOoo)
        && !t.ooo.any (fun e => e.1 == seq && decide (data.length ≤ e.2.length)) then
      { t with ooo := t.ooo ++ [(seq, data)] }
    else t

/-- Drop what has been received before, then buffer the rest. -/
def acceptData (t : Tcb) (seq : Seq) (payload : List Byte) : Tcb :=
  if seqLt seq t.rcvNxt then
    let skip := (t.rcvNxt - seq).toNat
    if payload.length ≤ skip then t else t.bufferData t.rcvNxt (payload.drop skip)
  else t.bufferData seq payload

/-- The payload of step 5. -/
def takePayload (t : Tcb) (h : TcpHeader) (payload : List Byte) : Tcb :=
  if payload.isEmpty then t else t.acceptData h.seqNum payload

/-- The FIN of step 5: remember where it is. -/
def noteFin (t : Tcb) (h : TcpHeader) (payload : List Byte) : Tcb :=
  let f := h.seqNum + BitVec.ofNat 32 payload.length
  if h.has FIN && seqGe f t.rcvNxt && t.rxFinSeq.isNone then { t with rxFinSeq := some f }
  else t

/-- Step 5: data.  The Boolean is `need_ack`. -/
def processData (t : Tcb) (h : TcpHeader) (payload : List Byte) : Tcb × Bool :=
  if t.state = .established ∨ t.state = .finWait1 ∨ t.state = .finWait2 then
    ((t.takePayload h payload).noteFin h payload, !payload.isEmpty || h.has FIN)
  else (t, h.has FIN || !payload.isEmpty)

/-- Step 6: the peer's FIN, once all data before it has arrived. -/
def processFin (t : Tcb) (now : ℤ) : Tcb :=
  if !t.finReceived && t.rxFinSeq == some t.rcvNxt then
    let t := { t with finReceived := true, rcvNxt := t.rcvNxt + 1, ooo := [] }
    match t.state with
    | .established => { t with state := .closeWait }
    | .finWait1 => if t.finAcked then t.enterTimeWait now else { t with state := .closing }
    | .finWait2 => t.enterTimeWait now
    | _ => t
  else t

/-- A retransmitted FIN restarts TIME_WAIT. -/
def refreshTimeWait (t : Tcb) (h : TcpHeader) (now : ℤ) : Tcb :=
  if t.state = .timeWait ∧ h.has FIN then { t with closeDeadline := some (now + timeWaitMs) }
  else t

/-- The error a reset leaves behind. -/
def resetError (t : Tcb) : Option NetError :=
  match t.state with
  | .synReceived => if t.userOpen then some .connectionRefused else none
  | .closing | .lastAck | .timeWait => none
  | _ => some .connectionReset

/-- Steps 5 and 6 and the closing output, for a segment that passed step 4. -/
def deliver (t : Tcb) (h : TcpHeader) (payload : List Byte) (now : ℤ) (out : List Seg) :
    Tcb × List Seg :=
  let r := t.processData h payload
  -- `r.2` is `need_ack`
  ((r.1.processFin now).refreshTimeWait h now).output now out r.2 false

/-- Sequence space the segment occupies. -/
def segLen (h : TcpHeader) (payload : List Byte) : BitVec 32 :=
  BitVec.ofNat 32 (payload.length + (h.has SYN).toNat + (h.has FIN).toNat)

/-- A FIN-only segment at `rcvNxt` is accepted even with a zero window. -/
def finOnlyInOrder (t : Tcb) (h : TcpHeader) (payload : List Byte) : Bool :=
  payload.isEmpty && h.has FIN && !h.has SYN && h.seqNum == t.rcvNxt

def onSynchronized (t : Tcb) (h : TcpHeader) (payload : List Byte) (now : ℤ)
    (out : List Seg) : Tcb × List Seg :=
  -- retransmitted SYN while we wait for the handshake ACK
  if t.state == .synReceived && h.has SYN && !h.has ACK && h.seqNum + 1 == t.rcvNxt then
    t.sendSyn out
  -- 1. sequence check
  else if !t.acceptable h.seqNum (segLen h payload) && !t.finOnlyInOrder h payload then
    if h.has RST then (t, out) else (t.refreshTimeWait h now).sendAck out
  -- 2. RST: exact match resets, in-window gets a challenge ACK
  else if h.has RST then
    if h.seqNum ≠ t.rcvNxt then t.sendAck out else (t.setClosed t.resetError, out)
  -- 3. SYN in a synchronized state: challenge ACK
  else if h.has SYN then t.sendAck out
  -- 4. ACK
  else if !h.has ACK then (t, out)
  else
    match t.processAck h payload now out with
    | .stop t out => (t, out)
    | .next t out =>
      match t.checkFinAcked now out with
      | .stop t out => (t, out)
      | .next t out => t.deliver h payload now out

/-- Process one segment for this connection. -/
def onSegment (t : Tcb) (h : TcpHeader) (payload : List Byte) (now : ℤ) (out : List Seg) :
    Tcb × List Seg :=
  match t.state with
  | .closed | .listen => (t, out)
  | .synSent => t.onSynSent h now out
  | _ => t.onSynchronized h payload now out

end EvansComputer.Tcp.Tcb
