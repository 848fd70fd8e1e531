import EvansComputer.Library.OrderedMap
import EvansComputer.Library.Text
import Mathlib

/-!
# The short message centre

Texts are stored, sent to their recipients under references of one byte, and removed when the
recipient acknowledges.  Undelivered texts are tried again, and expire.

A request is what the centre reads of it, and the responses to requests are left out, as are the
texts of the log.  What a text is made of is the parameter `UserData`, with the ways to cut a text
into parts as parameters too.  The numbers of stored texts and the times are natural numbers.
-/

namespace EvansComputer.Tel

open Text

abbrev Number := List Char
abbrev CallId := UInt64
abbrev Branch := UInt64

def timeoutMs : ℕ := 64 * 500

/-- The carrier's balance service. -/
def balanceCode : Number := "22225".toList

namespace Status

def delivered : UInt8 := 0x00
def permRemoteProcedureError : UInt8 := 0x40
def permIncompatibleDestination : UInt8 := 0x41
def permValidityExpired : UInt8 := 0x46

end Status

/-- How a text is cut into parts, and what a part says. -/
structure Coding (UserData : Type) where
  text : UserData → List Char
  splitText : List Char → UInt8 → List UserData
  binaryParts : List UInt8 → UInt8 → List UserData

structure SmscConfig where
  validityMs : ℕ
  ratePerMin : ℕ

/-- One stored text. -/
structure Stored (UserData : Type) where
  id : ℕ
  sender : Number
  recipient : Number
  ud : UserData
  /-- The sender asked for a status report, with this reference. -/
  reportMr : Option UInt8
  submittedMs : ℕ
  attempts : ℕ := 0
  nextTryMs : ℕ
  /-- Waiting for the acknowledgement under this reference. -/
  inflight : Option UInt8 := none
  deriving DecidableEq

/-! ## Messages -/

/-- What is sent to a phone in an RP-DATA. -/
inductive Tpdu (UserData : Type) where
  | deliver (s : Stored UserData)
  | statusReport (s : Stored UserData) (status : UInt8)
  /-- The report of another carrier, passed on. -/
  | passedOn
  deriving DecidableEq

inductive Rp (UserData : Type) where
  | data (mr : UInt8) (tpdu : Tpdu UserData)
  | ack (mr : UInt8)
  | error (mr cause : UInt8)
  deriving DecidableEq

inductive SmscOut (UserData : Type) where
  /-- A `MESSAGE` to a number. -/
  | message (callId : CallId) (recipient : Number) (rp : Rp UserData)
  | hss (id : ℕ) (number : Number)
  | shortCode (code sender : Number) (text : List Char)
  deriving DecidableEq

/-- A transfer PDU from a phone. -/
inductive MoTpdu (UserData : Type) where
  | submit (destination : Number) (ud : UserData) (statusReportRequest : Bool)
  | other

/-- An RP message from a phone.  An answer is to the RP-DATA of one `MESSAGE`, which is not in
it. -/
inductive PhoneRp (UserData : Type) where
  | data (mr : UInt8) (tpdu : MoTpdu UserData)
  | ack (mr : UInt8) (answers : CallId)
  | error (mr cause : UInt8) (answers : CallId)
  | smma
  | bad

/-- What another carrier sends for one of our numbers. -/
inductive PeerTpdu (UserData : Type) where
  | deliver (originator : Number) (ud : UserData)
  | statusReport
  | other

/-- What is read of a SIP request. -/
inductive Request (UserData : Type) where
  | wapPush (recipient : Option Number) (body : List UInt8)
  | serviceText (recipient : Option Number) (code : Number) (text : List Char)
  | peer (recipient : Number) (tpdu : PeerTpdu UserData)
  | phone (sender : Option Number) (rp : PhoneRp UserData)
  | notify (registered : List Number)
  /-- Anything else gets a response only. -/
  | other

inductive Pending (UserData : Type) where
  /-- The block list, before the text is stored. -/
  | udr (msg : Stored UserData)
  | balance (recipient : Number)

/-- Why a text left the queue. -/
inductive Gone where
  | delivered
  | refused
  | dropped
  | expired
  deriving DecidableEq

structure Smsc (UserData : Type) where
  rng : UInt64
  /-- The requests in flight: owner and deadline of each branch. -/
  client : OrderedMap Branch (ℕ × ℕ) := ∅
  queue : OrderedMap ℕ (Stored UserData) := ∅
  nextId : ℕ := 1
  nextMr : UInt8 := 1
  /-- Our reference towards a phone, and the text. -/
  mr : OrderedMap UInt8 ℕ := ∅
  /-- The Call-ID of a `MESSAGE`, and the text. -/
  sent : OrderedMap CallId ℕ := ∅
  pending : OrderedMap ℕ (Pending UserData) := ∅
  rate : OrderedMap Number (List ℕ) := ∅
  nextRef : UInt8
  /-- All that was sent so far. -/
  out : List (SmscOut UserData) := []
  /-- The texts that left the queue so far. -/
  gone : List (Stored UserData × Gone) := []

variable {UserData : Type}

def trim (s : List Char) : List Char := ((s.dropWhile isSpace).reverse.dropWhile isSpace).reverse

/-- 30 s, 1 min, 2 min, and at most 10 min. -/
def backoff (attempts : ℕ) : ℕ := min (30000 * 2 ^ min (attempts - 1) 5) 600000

/-- A step of the xorshift generator: the next value and state. -/
def Rng.next (x : UInt64) : UInt64 × UInt64 :=
  let x := x ^^^ (x >>> 12)
  let x := x ^^^ (x <<< 25)
  let x := x ^^^ (x >>> 27)
  (x * 0x2545F4914F6CDD1D, x)

def nextReference (r : UInt8) : UInt8 := max (r + 1) 1

namespace Smsc

variable (s : Smsc UserData)

def new (seed : UInt64) : Smsc UserData := { rng := seed ||| 1, nextRef := max seed.toUInt8 1 }

/-! ## Sending -/

/-- The tag of a response. -/
def respond : Smsc UserData := { s with rng := (Rng.next s.rng).2 }

/-- A `MESSAGE` with an RP body, which may carry a stored text. -/
def sendRp (recipient : Number) (rp : Rp UserData) (track : Option ℕ) (now : ℕ) : Smsc UserData :=
  let (_, rng) := Rng.next s.rng
  let (callId, rng) := Rng.next rng
  let (branch, rng) := Rng.next rng
  { s with
    rng
    sent := match track with
      | some id => s.sent.insert callId id
      | none => s.sent
    client := s.client.insert branch (track.getD 0, now + timeoutMs)
    out := s.out ++ [.message callId recipient rp] }

/-- The reference of the next RP-DATA. -/
def mrNext : UInt8 × Smsc UserData := (s.nextMr, { s with nextMr := s.nextMr + 1 })

def tryDeliver (id now : ℕ) : Smsc UserData :=
  match s.queue[id]? with
  | none => s
  | some t =>
    if t.inflight.isSome then s
    else
      let (mr, s) := s.mrNext
      let s := { s with
        queue := s.queue.insert id
          { t with
              inflight := some mr, attempts := t.attempts + 1,
              nextTryMs := now + backoff (t.attempts + 1) }
        mr := s.mr.insert mr id }
      s.sendRp t.recipient (.data mr (.deliver t)) (some id) now

def store (t : Stored UserData) (now : ℕ) : Smsc UserData :=
  let id := s.nextId
  tryDeliver { s with nextId := s.nextId + 1, queue := s.queue.insert id { t with id } } id now

def report (t : Stored UserData) (status : UInt8) (now : ℕ) : Smsc UserData :=
  match t.reportMr with
  | none => s
  | some _ =>
    let (mr, s) := s.mrNext
    if t.sender.head? = some '+' then s.sendRp t.sender (.data mr (.statusReport t status)) none now
      else s

/-- A text leaves the queue. -/
def remove (t : Stored UserData) (why : Gone) : Smsc UserData :=
  { s with queue := s.queue.erase t.id, gone := s.gone ++ [(t, why)] }

def delivered (mr : UInt8) (now : ℕ) : Smsc UserData :=
  match s.mr[mr]? with
  | none => s
  | some id =>
    let s := { s with mr := s.mr.erase mr }
    match s.queue[id]? with
    | none => s
    | some t => (s.remove t .delivered).report t Status.delivered now

def refused (mr cause : UInt8) (now : ℕ) : Smsc UserData :=
  match s.mr[mr]? with
  | none => s
  | some id =>
    let s := { s with mr := s.mr.erase mr }
    if cause = 22 then { s with queue := s.queue.modify id fun t => { t with inflight := none } }
    else
      match s.queue[id]? with
      | none => s
      | some t => (s.remove t .refused).report t Status.permRemoteProcedureError now

/-- A text is no longer in flight. -/
def ground (id : ℕ) : Smsc UserData :=
  match s.queue[id]? with
  | none => s
  | some t =>
    match t.inflight with
    | none => s
    | some mr =>
      { s with mr := s.mr.erase mr, queue := s.queue.insert id { t with inflight := none } }

def stored (p : Stored UserData → Bool) : List ℕ := (s.queue.values.filter p).map (·.id)

/-- Everything that waits for a number goes out. -/
def retryFor (number : Number) (now : ℕ) : Smsc UserData :=
  (s.stored fun t => t.recipient = number && t.inflight.isNone).foldl
    (fun s id => s.tryDeliver id now) s

def sendText (coding : Coding UserData) (code recipient : Number) (text : List Char) (now : ℕ) :
    Smsc UserData :=
  (coding.splitText text s.nextRef).foldl
    (fun s ud => s.store { id := 0, sender := code, recipient, ud, reportMr := none,
                           submittedMs := now, nextTryMs := now } now)
    { s with nextRef := nextReference s.nextRef }

/-! ## Requests -/

def nextPending : ℕ × Smsc UserData := (s.nextId + 1 + 1000000, { s with nextId := s.nextId + 1 })

/-- The block list of the recipient first. -/
def checkAndStore (t : Stored UserData) : Smsc UserData :=
  let (id, s) := s.nextPending
  { s with pending := s.pending.insert id (.udr t), out := s.out ++ [.hss id t.recipient] }

/-- The submits of a sender in the last minute. -/
def recent (sender : Number) (now : ℕ) : List ℕ :=
  ((s.rate[sender]?).getD []).dropWhile fun t => 60000 ≤ now - t

def submit (coding : Coding UserData) (cfg : SmscConfig) (sender : Number) (mr : UInt8)
    (tpdu : MoTpdu UserData) (now : ℕ) : Smsc UserData :=
  match tpdu with
  | .other => s.sendRp sender (.error mr 96) none now
  | .submit recipient ud statusReportRequest =>
    let q := s.recent sender now
    if q.length ≥ cfg.ratePerMin then
      sendRp { s with rate := s.rate.insert sender q } sender (.error mr 42) none now
    else
      let s := { s with rate := s.rate.insert sender (q ++ [now]) }
      if 5 ≤ recipient.length ∧ recipient.length ≤ 6 ∧ recipient.all (·.isDigit) then
        let s := s.sendRp sender (.ack mr) none now
        if recipient = balanceCode ∧ (trim (coding.text ud)).map Char.toUpper = "BAL".toList then
          let (id, s) := s.nextPending
          { s with
              pending := s.pending.insert id (.balance sender), out := s.out ++ [.hss id sender] }
        else { s with out := s.out ++ [.shortCode recipient sender (coding.text ud)] }
      else if recipient.head? ≠ some '+' then s.sendRp sender (.error mr 1) none now
      else
        -- accepted: the sender sees that it was sent
        (s.sendRp sender (.ack mr) none now).checkAndStore
          { id := 0, sender, recipient, ud, reportMr :=
            if statusReportRequest then some mr else none, submittedMs := now, nextTryMs := now }

def onRequest (coding : Coding UserData) (cfg : SmscConfig) (r : Request UserData) (now : ℕ) :
    Smsc UserData :=
  let s := s.respond
  match r with
  | .wapPush none _ => s
  | .wapPush (some recipient) body =>
    (coding.binaryParts body s.nextRef).foldl
      (fun s ud => s.store { id := 0, sender := "MMS".toList, recipient, ud, reportMr := none,
                             submittedMs := now, nextTryMs := now } now)
      { s with nextRef := nextReference s.nextRef }
  | .serviceText none _ _ => s
  | .serviceText (some recipient) code text => s.sendText coding code recipient text now
  | .peer recipient (.deliver originator ud) =>
    s.checkAndStore { id := 0, sender := originator, recipient, ud, reportMr := none,
                      submittedMs := now, nextTryMs := now }
  | .peer recipient .statusReport =>
    let (mr, s) := s.mrNext
    s.sendRp recipient (.data mr .passedOn) none now
  | .peer _ .other => s
  | .phone none _ => s
  | .phone (some sender) (.data mr tpdu) => s.submit coding cfg sender mr tpdu now
  | .phone (some _) (.ack mr _) => s.delivered mr now
  | .phone (some _) (.error mr cause _) => s.refused mr cause now
  | .phone (some sender) .smma => s.retryFor sender now
  | .phone (some _) .bad => s
  | .notify registered => registered.foldl (fun s n => s.retryFor n now) s
  | .other => s

/-! ## Answers and time -/

def onResponse (code : ℕ) (callId : CallId) (branch : Branch) (now : ℕ) : Smsc UserData :=
  if code < 200 then s
  else
    let s := { s with client := s.client.erase branch }
    match s.sent[callId]? with
    | none => s
    | some id =>
      let s := { s with sent := s.sent.erase callId }
      if code < 300 then
        -- 202: the centre of another carrier has it
        if code = 202 then
          match (s.queue[id]?).bind (·.inflight) with
          | some mr => s.delivered mr now
          | none => s
        else s
      else
        let s := s.ground id
        match s.queue[id]? with
        | none => s
        | some t =>
          if code = 404 ∨ code = 403 then (s.remove t .dropped).report t
            Status.permIncompatibleDestination now else s

/-- The answer of the HSS: who is blocked, and what the balance service says of it. -/
def onHss (coding : Coding UserData) (id : ℕ)
    (block : List Number) (balance : List Char) (now : ℕ) : Smsc UserData :=
  match s.pending[id]? with
  | none => s
  | some p =>
    let s := { s with pending := s.pending.erase id }
    match p with
    | .udr t => if block.contains t.sender then s else s.store t now
    | .balance recipient => s.sendText coding balanceCode recipient balance now

def expire (id now : ℕ) : Smsc UserData :=
  match s.queue[id]? with
  | none => s
  | some t => (s.remove t .expired).report t Status.permValidityExpired now

def tick (cfg : SmscConfig) (now : ℕ) : Smsc UserData :=
  let owners := (s.client.toList.filter fun e => e.2.2 ≤ now).map fun e => e.2.1
  let s := { s with client := s.client.filter fun _ c => now < c.2 }
  let s := owners.foldl (fun s id => s.ground id) s
  -- the acknowledgement never came
  let s := (s.stored fun t => t.inflight.isSome && t.nextTryMs + 30000 ≤ now).foldl
    (fun s id => s.ground id) s
  let s :=
    (s.stored fun t => cfg.validityMs ≤ now - t.submittedMs).foldl (fun s id => s.expire id now) s
  (s.stored fun t => t.inflight.isNone && t.nextTryMs ≤ now).foldl
    (fun s id => s.tryDeliver id now) s

end Smsc

/-! ## Runs -/

inductive Event (UserData : Type) where
  | request (r : Request UserData) (now : ℕ)
  | response (code : ℕ) (callId : CallId) (branch : Branch) (now : ℕ)
  | hss (id : ℕ) (block : List Number) (balance : List Char) (now : ℕ)
  | shortCodeReply (code recipient : Number) (text : List Char) (now : ℕ)
  | tick (now : ℕ)

namespace Smsc

def step (coding : Coding UserData) (cfg : SmscConfig) (s : Smsc UserData) :
    Event UserData → Smsc UserData
  | .request r now => s.onRequest coding cfg r now
  | .response code callId branch now => s.onResponse code callId branch now
  | .hss id block balance now => s.onHss coding id block balance now
  | .shortCodeReply code recipient text now => s.sendText coding code recipient text now
  | .tick now => s.tick cfg now

def run (coding : Coding UserData) (cfg : SmscConfig) (s : Smsc UserData)
    (es : List (Event UserData)) : Smsc UserData :=
  es.foldl (step coding cfg) s

end Smsc

end EvansComputer.Tel
