import EvansComputer.Library.Cursor
import EvansComputer.Tel.SipValues

/-!
# SIP messages

Requests and responses as lists of headers, the bytes they are sent as, and the response that is
made to a request.  What a response says of the request it answers is what it copies: the Vias
and the CSeq, so it carries the branch, the sender and the method that the request has.
-/

namespace EvansComputer.Tel.Sip

open Text

inductive Method where
  | register
  | invite
  | ack
  | bye
  | cancel
  | options
  | message
  | subscribe
  | notify
  | refer
  | prack
  | update
  | info
  /-- Any other token (methods are case-sensitive). -/
  | other (name : Str)
  deriving DecidableEq

namespace Method

def asStr : Method → Str
  | .register => "REGISTER".toList
  | .invite => "INVITE".toList
  | .ack => "ACK".toList
  | .bye => "BYE".toList
  | .cancel => "CANCEL".toList
  | .options => "OPTIONS".toList
  | .message => "MESSAGE".toList
  | .subscribe => "SUBSCRIBE".toList
  | .notify => "NOTIFY".toList
  | .refer => "REFER".toList
  | .prack => "PRACK".toList
  | .update => "UPDATE".toList
  | .info => "INFO".toList
  | .other s => s

/-- The methods that have a name of their own. -/
def named : List Method :=
  [.register, .invite, .ack, .bye, .cancel, .options, .message, .subscribe, .notify, .refer, .prack,
    .update, .info]

def fromToken (s : Str) : Except SipError Method :=
  if ¬ isToken s then .error .method else .ok ((named.find? fun m => m.asStr = s).getD (.other s))

end Method

/-- `CSeq: 1 INVITE`. -/
structure CSeq where
  seq : UInt32
  method : Method
  deriving DecidableEq

def CSeq.parse (s : Str) : Except SipError CSeq :=
  match words s with
  | [n, m] =>
    if 10 < n.length ∨ ¬ n.all Char.isDigit then .error (.value "CSeq")
    else do
      let seq ← okOr (.value "CSeq") ((readDigits n).filter (· < 4294967296))
      let method ← Method.fromToken m
      return { seq := UInt32.ofNat seq, method }
  | _ => .error (.value "CSeq")

def Headers.cseq (h : Headers) : Except SipError CSeq := do
  let v ← h.required "CSeq"
  CSeq.parse v

inductive Message where
  | request (method : Method) (uri : Uri) (headers : Headers) (body : List UInt8)
  | response (code : ℕ) (reason : Str) (headers : Headers) (body : List UInt8)
  deriving DecidableEq

/-- The standard reason phrases. -/
def reasonPhrases : List (ℕ × String) :=
  [(100, "Trying"), (180, "Ringing"), (181, "Call Is Being Forwarded"), (182, "Queued"),
    (183, "Session Progress"),
    (200, "OK"), (202, "Accepted"), (301, "Moved Permanently"), (302, "Moved Temporarily"),
      (400, "Bad Request"),
    (401, "Unauthorized"), (403, "Forbidden"), (404, "Not Found"),
      (407, "Proxy Authentication Required"),
    (408, "Request Timeout"), (415, "Unsupported Media Type"), (480, "Temporarily Unavailable"),
    (481, "Call/Transaction Does Not Exist"), (486, "Busy Here"), (487, "Request Terminated"),
    (488, "Not Acceptable Here"), (500, "Server Internal Error"), (503, "Service Unavailable"),
    (600, "Busy Everywhere"), (603, "Decline"), (604, "Does Not Exist Anywhere")]

def reasonPhrase (code : ℕ) : Str :=
  ((reasonPhrases.find? fun x => x.1 = code).map fun x => x.2.toList).getD []

namespace Message

def headers : Message → Headers
  | .request _ _ h _ => h
  | .response _ _ h _ => h

def body : Message → List UInt8
  | .request _ _ _ b => b
  | .response _ _ _ b => b

def code : Message → Option ℕ
  | .request .. => none
  | .response c .. => some c

/-- A header line, which `Content-Length` has none of: it is computed. -/
def headerLine (x : Str × Str) : Str :=
  if nameIs x.1 "Content-Length".toList then [] else x.1 ++ ": ".toList ++ x.2 ++ "\r\n".toList

def startLine : Message → Str
  | .request method uri _ _ => method.asStr ++ ' ' :: uri.display ++ " SIP/2.0\r\n".toList
  | .response code reason _ _ => "SIP/2.0 ".toList ++ decimal code ++ ' ' :: reason ++ "\r\n".toList

/-- The wire bytes, CRLF line ends, with a computed Content-Length last. -/
def toBytes (m : Message) : List UInt8 :=
  (m.startLine ++ m.headers.flatMap headerLine ++ "Content-Length: ".toList ++
    decimal m.body.length ++
    "\r\n\r\n".toList).flatMap String.utf8EncodeChar ++ m.body

/-- The To of a response: the tag is added unless there is one (or the code is 100). -/
def responseTag (code : ℕ) (toTag : Option Str) (raw : Str) : Except SipError Str :=
  match toTag with
  | some tag =>
    if code ≠ 100 then do
      let addr ← NameAddr.parse raw
      return if addr.tag.isNone then (addr.setTag tag).text else raw
    else return raw
  | none => return raw

/-- A response to this request: copies every Via, From, To, Call-ID and CSeq, and Record-Route on
101..=299 responses. -/
def responseTo (m : Message) (code : ℕ) (toTag : Option Str) : Except SipError Message :=
  match m with
  | .response .. => .error .notRequest
  | .request _ _ headers _ => do
    let h := (headers.getAll "Via".toList).foldl (fun h v => Headers.push h "Via".toList v) []
    let h := Headers.push h "From".toList (← headers.required "From")
    let raw ← headers.required "To"
    let h := Headers.push h "To".toList (← responseTag code toTag raw)
    let h := Headers.push h "Call-ID".toList (← headers.required "Call-ID")
    let h := Headers.push h "CSeq".toList (← headers.required "CSeq")
    let h :=
      if 101 ≤ code ∧ code < 300 then
        (headers.getAll "Record-Route".toList).foldl
          (fun h v => Headers.push h "Record-Route".toList v) h
      else h
    return .response code (reasonPhrase code) h []

end Message

/-- The method of a request, or that of the request which a response answers. -/
def methodOf : Message → Option Method
  | .request method _ _ _ => some method
  | .response _ _ headers _ => headers.cseq.toOption.map (·.method)

/-- The top Via's branch. -/
def branchOf (m : Message) : Option Str := m.headers.topVia.toOption.bind Via.branch

/-! ## What a response copies -/

namespace Headers

theorem getAll_append (h h' : Headers) (name : Str) :
    Headers.getAll (h ++ h') name = Headers.getAll h name ++ Headers.getAll h' name := by
  rw [getAll, List.filter_append, List.map_append]
  rfl

theorem foldl_push (h : Headers) (name : Str) (l : List Str) :
    l.foldl (fun h v => Headers.push h name v) h = h ++ l.map fun v => (expandName name, v) := by
  induction l generalizing h with
  | nil => rw [List.foldl_nil, List.map_nil, List.append_nil]
  | cons v l ih =>
    rw [List.foldl_cons, ih, push, List.map_cons, List.append_assoc, List.singleton_append]

theorem getAll_map {n name : Str} (l : List Str) :
    Headers.getAll (l.map fun v => (n, v)) name = if nameIs n name then l else [] := by
  induction l with
  | nil => rw [List.map_nil, ite_self]; rfl
  | cons v l ih =>
    have hcons : Headers.getAll ((n, v) :: l.map fun v => (n, v)) name =
        (if nameIs n name then [v] else []) ++ Headers.getAll (l.map fun v => (n, v)) name := by
      rw [← List.singleton_append, getAll_append]
      congr 1
      by_cases hn : nameIs n name = true <;> simp [getAll, hn]
    rw [List.map_cons, hcons, ih]
    split
    · rfl
    · rfl

theorem get_eq_head (h : Headers) (name : Str) : h.get name = (h.getAll name).head? := by
  rw [get, getAll, List.head?_map, List.head?_filter]

end Headers

namespace Message

/-- Whom a message is between, and the request that it belongs to. -/
def parties (sender target callId cseq : Str) : Headers :=
  [("From".toList, sender), ("To".toList, target), ("Call-ID".toList, callId),
    ("CSeq".toList, cseq)]

/-- The headers that a response consists of. -/
theorem responseTo_eq {m r : Message} {code : ℕ} {toTag : Option Str}
    (h : m.responseTo code toTag = .ok r) :
    ∃ (sender target callId cseq : Str) (routes : List Str),
      m.headers.get "CSeq".toList = some cseq ∧
      r = .response code (reasonPhrase code)
        ((m.headers.getAll "Via".toList).map (fun v => ("Via".toList, v)) ++
          parties sender target callId cseq ++
          routes.map fun v => ("Record-Route".toList, v)) [] := by
  cases m with
  | response => cases h
  | request method uri headers body =>
    obtain ⟨sender, -, h⟩ := exists_of_bind_eq_ok h
    obtain ⟨raw, -, h⟩ := exists_of_bind_eq_ok h
    obtain ⟨target, -, h⟩ := exists_of_bind_eq_ok h
    obtain ⟨callId, -, h⟩ := exists_of_bind_eq_ok h
    obtain ⟨cseq, hcseq, h⟩ := exists_of_bind_eq_ok h
    refine ⟨sender, target, callId, cseq,
      if 101 ≤ code ∧ code < 300 then headers.getAll "Record-Route".toList else [],
        okOr_eq_ok hcseq, ?_⟩
    cases h
    have hnames : ∀ n ∈ ["Via", "From", "To", "Call-ID", "CSeq", "Record-Route"],
      expandName n.toList = n.toList := by
      decide +kernel
    have hvia := hnames "Via" (by decide)
    have hroute := hnames "Record-Route" (by decide)
    have hfour : Headers.push (Headers.push (Headers.push (Headers.push
        ((headers.getAll "Via".toList).foldl (fun h v => Headers.push h "Via".toList v) [])
          "From".toList sender)
        "To".toList target) "Call-ID".toList callId) "CSeq".toList cseq =
        (headers.getAll "Via".toList).map (fun v => ("Via".toList, v)) ++
          parties sender target callId cseq := by
      rw [Headers.foldl_push, hvia, Headers.push, Headers.push, Headers.push, Headers.push,
        hnames "From" (by decide), hnames "To" (by decide), hnames "Call-ID" (by decide),
          hnames "CSeq" (by decide)]
      simp [parties]
    congr 1
    rw [hfour]
    split
    · rw [Headers.foldl_push, hroute]
      rfl
    · rw [List.map_nil, List.append_nil]
      rfl

/-- **A response carries the branch of its request, and the method of its CSeq.** -/
theorem carries_of_responseTo {m r : Message} {code : ℕ} {toTag : Option Str}
    (h : m.responseTo code toTag = .ok r) :
    r.headers.topVia = m.headers.topVia ∧ r.headers.cseq = m.headers.cseq ∧ r.code = some code := by
  obtain ⟨sender, target, callId, cseq, routes, hcseq, rfl⟩ := responseTo_eq h
  have hother : ∀ n ∈ ["From", "To", "Call-ID", "CSeq", "Record-Route"],
    nameIs n.toList "Via".toList = false := by
    decide +kernel
  have hseq : ∀ n ∈ ["Via", "From", "To", "Call-ID", "Record-Route"],
    nameIs n.toList "CSeq".toList = false := by
    decide +kernel
  have hvia : nameIs "Via".toList "Via".toList = true := by decide +kernel
  have hcs : nameIs "CSeq".toList "CSeq".toList = true := by decide +kernel
  generalize hvias : (m.headers.getAll "Via".toList).map (fun v => ("Via".toList, v)) = vias
  have hall : ∀ name : Str, Headers.getAll (vias ++ parties sender target callId cseq ++
      routes.map fun v => ("Record-Route".toList, v)) name =
      (if nameIs "Via".toList name then m.headers.getAll "Via".toList else []) ++
        (parties sender target callId cseq).getAll name ++
        if nameIs "Record-Route".toList name then routes else [] := fun name => by
    rw [Headers.getAll_append, Headers.getAll_append, ← hvias, Headers.getAll_map,
      Headers.getAll_map]
  refine ⟨?_, ?_, rfl⟩
  · have hvalues : Headers.values (vias ++ parties sender target callId cseq ++
        routes.map fun v => ("Record-Route".toList, v)) "Via".toList =
          m.headers.values "Via".toList := by
      have hnone : (parties sender target callId cseq).getAll "Via".toList = [] := by
        rw [parties, Headers.getAll, List.filter_eq_nil_iff.mpr, List.map_nil]
        simp only [List.forall_mem_cons]
        refine ⟨?_, ?_, ?_, ?_, nofun⟩
        all_goals exact Bool.eq_false_iff.mp (hother _ (by decide))
      rw [Headers.values, hall, if_pos hvia, hnone,
        if_neg (Bool.eq_false_iff.mp (hother "Record-Route" (by decide))),
        List.append_nil, List.append_nil]
      rfl
    rw [Headers.topVia, Headers.topVia]
    exact congrArg (fun l : List Str => do
      let v ← okOr (.missing "Via") l.head?
      Via.parse v) hvalues
  · have hget : Headers.get (vias ++ parties sender target callId cseq ++
        routes.map fun v => ("Record-Route".toList, v)) "CSeq".toList =
          m.headers.get "CSeq".toList := by
      have hone : (parties sender target callId cseq).getAll "CSeq".toList = [cseq] := by
        have hfrom := hseq "From" (by decide)
        have hto := hseq "To" (by decide)
        have hid := hseq "Call-ID" (by decide)
        simp only [parties, Headers.getAll, List.filter_cons, hfrom, hto, hid, hcs]
        rfl
      rw [Headers.get_eq_head, hall, if_neg (Bool.eq_false_iff.mp (hseq "Via" (by decide))),
        hone, hcseq]
      rfl
    rw [Headers.cseq, Headers.cseq]
    exact congrArg (fun o : Option Str => do
      let v ← okOr (.missing "CSeq") o
      CSeq.parse v) hget

end Message

end EvansComputer.Tel.Sip
