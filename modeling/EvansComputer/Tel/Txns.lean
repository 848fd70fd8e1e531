import EvansComputer.Library.OrderedMap
import EvansComputer.Tel.SipMessages
import Mathlib

/-!
# SIP transactions

The transaction layer of one endpoint.  A request that was sent is sent again until there is a
response to it, a request that was received is handed up once and its copies are answered with
the last response, and a 2xx to an INVITE is sent again until the ACK.

There are three tables.  The client table goes by the branch, the table of 2xx by the Call-ID,
and the server table by branch, method and sender: of a request when it arrives, and of a
response when it is given.
-/

namespace EvansComputer.Tel.Sip

open Text

variable {m : Message} {calls : List (ℕ × Call)}

/-! ## Keys -/

instance lawfulEqOrd {α β : Type} [Ord α] [Ord β] [Std.LawfulEqOrd α] [Std.LawfulEqOrd β] :
    Std.LawfulEqOrd (α ×ₗ β) where
  compare_self {a} := by
    rw [Prod.Lex.compare_def, compareLex_eq_eq]
    exact ⟨Std.ReflOrd.compare_self, Std.ReflOrd.compare_self⟩
  eq_of_compare {a b} h := by
    rw [Prod.Lex.compare_def, compareLex_eq_eq] at h
    exact Prod.ext (Std.LawfulEqOrd.eq_of_compare h.1) (Std.LawfulEqOrd.eq_of_compare h.2)

/-- (branch, method, sent-by) -/
abbrev Key := Str ×ₗ Str ×ₗ Str

/-- IPv4 address and port. -/
structure Addr where
  ip : UInt8 × UInt8 × UInt8 × UInt8
  port : UInt16
  deriving DecidableEq

def Addr.host (a : Addr) : Str :=
  decimal a.ip.1.toNat ++ '.' :: decimal a.ip.2.1.toNat ++ '.' :: decimal a.ip.2.2.1.toNat ++
    '.' :: decimal a.ip.2.2.2.toNat

def Addr.text (a : Addr) : Str := a.host ++ ':' :: decimal a.port.toNat

/-- The top Via's sent-by (`host:port`) as written by the client, which a response carries
unchanged. -/
def sentBy (m : Message) (peer : Addr) : Str :=
  match m.headers.topVia with
  | .ok v => v.host ++ ':' :: decimal (v.port.getD 5060).toNat
  | .error _ => peer.text

/-! ## The tables -/

/-- What happened to a client transaction: no response in time. -/
structure Timeout where
  owner : ℕ
  branch : Str
  method : Method
  deriving DecidableEq

structure Client where
  owner : ℕ
  method : Method
  dest : Addr
  bytes : List UInt8
  nextMs : ℕ
  interval : ℕ
  deadline : ℕ
  provisional : Bool
  deriving DecidableEq

structure Server where
  last : Option (Addr × List UInt8)
  atMs : ℕ
  deriving DecidableEq

structure Ok2xx where
  dest : Addr
  bytes : List UInt8
  nextMs : ℕ
  interval : ℕ
  deadline : ℕ
  deriving DecidableEq

/-- The transaction layer of one SIP endpoint. -/
structure Txns where
  client : OrderedMap Str Client := ∅
  server : OrderedMap Key Server := ∅
  ok2xx : OrderedMap Str Ok2xx := ∅
  sends : List (Addr × List UInt8) := []
  events : List Timeout := []
  retransmits : ℕ := 0

def t1Ms : ℕ := 500

def timeoutMs : ℕ := 64 * t1Ms

namespace Txns

/-- Sends a request and keeps resending it until a response arrives.  ACK is sent once (no
transaction). -/
def request (s : Txns) (owner : ℕ) (dest : Addr) (m : Message) (now : ℕ) : Txns :=
  let bytes := m.toBytes
  let s := { s with sends := s.sends ++ [(dest, bytes)] }
  let method := (methodOf m).getD (.other ['?'])
  if method = .ack then s
  else
    match branchOf m with
    | none => s
    | some branch =>
      let c : Client :=
        { owner, method, dest, bytes, nextMs := now + t1Ms, interval := t1Ms,
          deadline := now + timeoutMs,
          provisional := false }
      { s with client := s.client.insert branch c }

/-- A response arrived: stops the matching client transaction's resends.  Returns the owner. -/
def onResponse (s : Txns) (m : Message) : Txns × Option ℕ :=
  match m.code, branchOf m with
  | some code, some branch =>
    match s.client[branch]? with
    | none => (s, none)
    | some c =>
      if 200 ≤ code then ({ s with client := s.client.erase branch }, some c.owner)
      else if c.method = .invite then
        ({ s with client := s.client.insert branch { c with provisional := true } }, some c.owner)
      else (s, some c.owner)
  | _, _ => (s, none)

/-- Forgets a client transaction. -/
def cancel (s : Txns) (branch : Str) : Txns := { s with client := s.client.erase branch }

/-- An ACK ends 2xx resending for that dialog. -/
def acknowledged (s : Txns) (m : Message) : Txns :=
  match m.headers.callId with
  | .ok cid => { s with ok2xx := s.ok2xx.erase cid }
  | .error _ => s

/-- A request arrived.  False when it is a retransmission (its last response was resent). -/
def onRequest (s : Txns) (sender : Addr) (m : Message) (now : ℕ) : Txns × Bool :=
  match methodOf m with
  | none => (s, false)
  | some method =>
    if method = .ack then (s.acknowledged m, true)
    else
      match branchOf m with
      | none => (s, true)
      | some branch =>
        let key : Key := toLex (branch, toLex (method.asStr, sentBy m sender))
        match s.server[key]? with
        | some e => ({ s with sends := s.sends ++ e.last.toList }, false)
        | none => ({ s with server := s.server.insert key { last := none, atMs := now } }, true)

/-- A 2xx to an INVITE is kept until its ACK. -/
def keep2xx (s : Txns) (dest : Addr) (m : Message) (method : Method) (now : ℕ) : Txns :=
  if method = .invite ∧ m.code.any (fun c => 200 ≤ c && c < 300) then
    match m.headers.callId with
    | .ok cid =>
      let o : Ok2xx :=
        { dest, bytes := m.toBytes, nextMs := now + t1Ms, interval := t1Ms,
          deadline := now + timeoutMs }
      { s with ok2xx := s.ok2xx.insert cid o }
    | .error _ => s
  else s

/-- Sends a response (to the request whose branch/method it carries). -/
def respond (s : Txns) (dest : Addr) (m : Message) (now : ℕ) : Txns :=
  let bytes := m.toBytes
  let s := { s with sends := s.sends ++ [(dest, bytes)] }
  match branchOf m, methodOf m with
  | some branch, some method =>
    let key : Key := toLex (branch, toLex (method.asStr, sentBy m dest))
    let s := { s with server := s.server.modify key fun e => { e with last := some (dest, bytes) } }
    s.keep2xx dest m method now
  | _, _ => s

/-! ### The timer -/

/-- A request that is sent again. -/
def clientDue (now : ℕ) (c : Client) : Bool := now < c.deadline && !c.provisional && c.nextMs ≤ now

def clientNext (now : ℕ) (c : Client) : Client :=
  if clientDue now c then
    { c with interval := min (c.interval * 2) 4000, nextMs := now + min (c.interval * 2) 4000 }
  else c

/-- The requests that are sent again, with their branches, in the order of the table. -/
def resends (s : Txns) (now : ℕ) : List (Str × Addr × List UInt8) :=
  s.client.toList.filterMap fun (b, c) => if clientDue now c then some (b, c.dest, c.bytes)
    else none

/-- The transactions that end without a response, except for an INVITE that got a provisional one
and waits for its final one. -/
def timeouts (s : Txns) (now : ℕ) : List Timeout :=
  s.client.toList.filterMap fun (b, c) =>
    if c.deadline ≤ now ∧ ¬ (c.provisional ∧ c.method = .invite) then some ⟨c.owner, b, c.method⟩
      else none

def ok2xxDue (now : ℕ) (o : Ok2xx) : Bool := now < o.deadline && o.nextMs ≤ now

def ok2xxNext (now : ℕ) (o : Ok2xx) : Ok2xx :=
  if ok2xxDue now o then
    { o with interval := min (o.interval * 2) 4000, nextMs := now + min (o.interval * 2) 4000 }
  else o

/-- The 2xx that are sent again, with their Call-IDs. -/
def resends2xx (s : Txns) (now : ℕ) : List (Str × Addr × List UInt8) :=
  s.ok2xx.toList.filterMap fun (cid, o) => if ok2xxDue now o then some (cid, o.dest, o.bytes)
    else none

/-- Resends what is due; expires old state. -/
def tick (s : Txns) (now : ℕ) : Txns :=
  { client := (s.client.filter fun _ c => now < c.deadline).map fun _ c => clientNext now c,
    server := s.server.filter fun _ e => now - e.atMs < timeoutMs,
    ok2xx := (s.ok2xx.filter fun _ o => now < o.deadline).map fun _ o => ok2xxNext now o,
    sends := s.sends ++ (s.resends now).map (·.2) ++ (s.resends2xx now).map (·.2),
    events := s.events ++ s.timeouts now,
    retransmits := s.retransmits + (s.resends now).length }

def takeSends (s : Txns) : Txns × List (Addr × List UInt8) := ({ s with sends := [] }, s.sends)

def takeEvents (s : Txns) : Txns × List Timeout := ({ s with events := [] }, s.events)

end Txns

/-! ## Runs -/

/-- What is asked of the transactions. -/
inductive Call where
  | request (owner : ℕ) (dest : Addr) (m : Message)
  | onResponse (m : Message)
  | cancel (branch : Str)
  | onRequest (sender : Addr) (m : Message)
  | respond (dest : Addr) (m : Message)
  | tick
  | takeSends
  | takeEvents

namespace Txns

def step (s : Txns) (now : ℕ) : Call → Txns
  | .request owner dest m => s.request owner dest m now
  | .onResponse m => (s.onResponse m).1
  | .cancel branch => s.cancel branch
  | .onRequest sender m => (s.onRequest sender m now).1
  | .respond dest m => s.respond dest m now
  | .tick => s.tick now
  | .takeSends => s.takeSends.1
  | .takeEvents => s.takeEvents.1

/-- Calls, each at its time. -/
def run (s : Txns) (calls : List (ℕ × Call)) : Txns := calls.foldl (fun s x => s.step x.1 x.2) s

theorem run_cons (s : Txns) (x : ℕ × Call) (calls : List (ℕ × Call)) :
    s.run (x :: calls) = (s.step x.1 x.2).run calls := rfl

theorem run_append (s : Txns) (calls calls' : List (ℕ × Call)) :
    s.run (calls ++ calls') = (s.run calls).run calls' :=
  List.foldl_append

end Txns

/-! ## What is known of a message -/

/-- The key of a request, and of a response to it. -/
def keyOf (m : Message) : Option Key :=
  match methodOf m, m.headers.topVia with
  | some method, .ok v =>
    v.branch.map fun branch =>
      toLex (branch, toLex (method.asStr, v.host ++ ':' :: decimal (v.port.getD 5060).toNat))
  | _, _ => none

theorem branchOf_eq {branch : Str} : branchOf m = some branch ↔
    ∃ v, m.headers.topVia = .ok v ∧ v.branch = some branch := by
  rw [branchOf]
  cases m.headers.topVia with
  | error e => exact ⟨nofun, fun ⟨v, hv, _⟩ => nomatch hv⟩
  | ok v =>
    constructor
    · intro h
      exact ⟨v, rfl, h⟩
    · rintro ⟨_, ⟨⟩, h⟩
      exact h

/-- The key that the code computes, whoever the message is from or to. -/
theorem keyOf_eq {branch : Str} {method : Method} (hbranch : branchOf m = some branch)
    (hmethod : methodOf m = some method) (peer : Addr) :
    keyOf m = some (toLex (branch, toLex (method.asStr, sentBy m peer))) := by
  obtain ⟨v, hv, hb⟩ := branchOf_eq.mp hbranch
  rw [keyOf, hmethod, hv, sentBy, hv]
  dsimp only
  rw [hb]
  rfl

theorem exists_of_keyOf {k : Key} (h : keyOf m = some k) :
    ∃ branch method, branchOf m = some branch ∧ methodOf m = some method := by
  rw [keyOf] at h
  split at h
  · rename_i method v hmethod hv
    obtain ⟨branch, hbranch, -⟩ := Option.map_eq_some_iff.mp h
    exact ⟨branch, method, branchOf_eq.mpr ⟨v, hv, hbranch⟩, hmethod⟩
  · cases h

theorem keyOf_eq_none (h : branchOf m = none ∨ methodOf m = none) : keyOf m = none := by
  cases hk : keyOf m with
  | none => rfl
  | some k =>
    obtain ⟨branch, method, hbranch, hmethod⟩ := exists_of_keyOf hk
    rcases h with h | h
    · rw [hbranch] at h
      cases h
    · rw [hmethod] at h
      cases h

/-- **The two paths agree**: the response that is made to a request whose CSeq names its method
has the key of the request. -/
theorem keyOf_responseTo {r : Message} {code : ℕ} {toTag : Option Str}
    (h : m.responseTo code toTag = .ok r) {c : CSeq} (hc : m.headers.cseq = .ok c)
    (hmethod : methodOf m = some c.method) : keyOf r = keyOf m := by
  obtain ⟨hvia, hcseq, hcode⟩ := Message.carries_of_responseTo h
  have hr : methodOf r = some c.method := by
    cases r with
    | request => cases hcode
    | response code reason headers body =>
      have hok : headers.cseq = .ok c := hcseq.trans hc
      rw [methodOf, hok]
      rfl
  rw [keyOf, keyOf, hvia, hr, hmethod]

/-! ## What each call does to the tables -/

namespace Txns

variable {s : Txns} {now : ℕ} {m : Message} {k : Key}

/-- A request that is handed up or answered again, by its key. -/
theorem onRequest_eq (hkey : keyOf m = some k) (hack : methodOf m ≠ some .ack) (sender : Addr) :
    s.onRequest sender m now =
      match s.server[k]? with
      | some e => ({ s with sends := s.sends ++ e.last.toList }, false)
      | none => ({ s with server := s.server.insert k { last := none, atMs := now } }, true) := by
  obtain ⟨branch, method, hbranch, hmethod⟩ := exists_of_keyOf hkey
  have hk := keyOf_eq hbranch hmethod sender
  rw [hkey] at hk
  obtain rfl := Option.some.inj hk
  have hne : method ≠ .ack := fun h => hack (h ▸ hmethod)
  rw [onRequest, hmethod]
  dsimp only
  rw [if_neg hne, hbranch]

theorem server_onRequest (sender : Addr) : (s.onRequest sender m now).1.server = s.server ∨
    ∃ k, s.server[k]? = none ∧ (s.onRequest sender m now).1.server = s.server.insert k
      { last := none, atMs := now } := by
  rw [onRequest]
  split
  · exact .inl rfl
  · split
    · refine .inl ?_
      dsimp only
      rw [acknowledged]
      split <;> rfl
    · split
      · exact .inl rfl
      · dsimp only
        split
        · exact .inl rfl
        · rename_i hnone
          exact .inr ⟨_, hnone, rfl⟩

theorem server_keep2xx (dest : Addr) (method : Method) :
    (s.keep2xx dest m method now).server = s.server := by
  rw [keep2xx]
  split
  · split <;> rfl
  · rfl

theorem server_respond (dest : Addr) : (s.respond dest m now).server =
    match keyOf m with
    | some k => s.server.modify k fun e => { e with last := some (dest, m.toBytes) }
    | none => s.server := by
  rw [respond]
  dsimp only
  split
  · rename_i branch method hbranch hmethod
    rw [server_keep2xx, keyOf_eq hbranch hmethod dest]
  · rename_i hnone
    rw [keyOf_eq_none]
    cases hbranch : branchOf m with
    | none => exact .inl rfl
    | some branch =>
      cases hmethod : methodOf m with
      | none => exact .inr rfl
      | some method => exact absurd hmethod (hnone branch method hbranch)

theorem server_onResponse : (s.onResponse m).1.server = s.server := by
  rw [onResponse]
  split
  · split
    · rfl
    · split
      · rfl
      · split <;> rfl
  · rfl

theorem server_request (owner : ℕ) (dest : Addr) :
    (s.request owner dest m now).server = s.server := by
  rw [request]
  dsimp only
  split
  · rfl
  · split <;> rfl

/-! ### The server table, over a run -/

/-- The last response that was given for a key. -/
def lastOf (k : Key) (last : Option (Addr × List UInt8)) : Call → Option (Addr × List UInt8)
  | .respond dest m => if keyOf m = some k then some (dest, m.toBytes) else last
  | _ => last

def lastResponse (k : Key) (calls : List (ℕ × Call)) : Option (Addr × List UInt8) :=
  calls.foldl (fun last x => lastOf k last x.2) none

/-- **Nothing but time takes an entry away**, and it holds what was given last. -/
theorem server_step {last : Option (Addr × List UInt8)} {t₀ : ℕ}
    (h : s.server[k]? = some ⟨last, t₀⟩) (hnow : now - t₀ < timeoutMs) (call : Call) :
    (s.step now call).server[k]? = some ⟨lastOf k last call, t₀⟩ := by
  cases call with
  | request owner dest m =>
    show (s.request owner dest m now).server[k]? = _
    rw [server_request, h]
    rfl
  | onResponse m =>
    show (s.onResponse m).1.server[k]? = _
    rw [server_onResponse, h]
    rfl
  | cancel branch => exact h
  | onRequest sender m =>
    show (s.onRequest sender m now).1.server[k]? = _
    rcases @server_onRequest s now m sender with heq | ⟨k', hnone, heq⟩
    · rw [heq, h]
      rfl
    · rw [heq, OrderedMap.getElem?_insert', if_neg, h]
      · rfl
      · rintro rfl
        rw [h] at hnone
        cases hnone
  | respond dest m =>
    show (s.respond dest m now).server[k]? = _
    rw [server_respond, lastOf]
    cases hkey : keyOf m with
    | none =>
      rw [if_neg nofun]
      exact h
    | some k' =>
      dsimp only
      rw [OrderedMap.getElem?_modify', h]
      by_cases hk : k' = k
      · rw [if_pos hk, if_pos (congrArg some hk)]
        rfl
      · rw [if_neg hk, if_neg fun heq => hk (Option.some.inj heq)]
  | tick =>
    show (s.server.filter fun _ e => now - e.atMs < timeoutMs)[k]? = _
    rw [Std.ExtTreeMap.getElem?_filter', h]
    simp [hnow, lastOf]
  | takeSends => exact h
  | takeEvents => exact h

theorem server_run {last : Option (Addr × List UInt8)} {t₀ : ℕ} (h : s.server[k]? = some ⟨last, t₀⟩)
    (hnow : ∀ x ∈ calls, x.1 - t₀ < timeoutMs) :
    (s.run calls).server[k]? = some ⟨calls.foldl (fun last x => lastOf k last x.2) last, t₀⟩ := by
  induction calls generalizing s last with
  | nil => exact h
  | cons x calls ih =>
    rw [run_cons, List.foldl_cons]
    exact ih (server_step h (hnow x List.mem_cons_self) x.2) fun y hy =>
      hnow y (List.mem_cons_of_mem _ hy)

/-- **A request is handed up once.**  Where it was handed up, each copy less than the timeout
later is not, and is answered with the last response that was given for it, if there was one. -/
theorem onRequest_again {sender : Addr} {t₀ : ℕ} (hkey : keyOf m = some k)
    (hack : methodOf m ≠ some .ack) (hup : (s.onRequest sender m t₀).2 = true) {t : ℕ}
    (hclock : (t₀ :: calls.map Prod.fst ++ [t]).Pairwise (· ≤ ·)) (ht : t < t₀ + timeoutMs)
    {m' : Message} (hkey' : keyOf m' = some k) (hack' : methodOf m' ≠ some .ack) (sender' : Addr) :
    (((s.onRequest sender m t₀).1.run calls).onRequest sender' m' t) =
      ({ (s.onRequest sender m t₀).1.run calls with
          sends := ((s.onRequest sender m t₀).1.run calls).sends ++ (lastResponse k calls).toList },
            false) := by
  have hfirst : (s.onRequest sender m t₀).1.server[k]? = some ⟨none, t₀⟩ := by
    rw [onRequest_eq hkey hack] at hup ⊢
    cases hold : s.server[k]? with
    | some e =>
      rw [hold] at hup
      cases hup
    | none =>
      dsimp only
      rw [OrderedMap.getElem?_insert', if_pos rfl]
  have hle : ∀ x ∈ calls, x.1 - t₀ < timeoutMs := by
    intro x hx
    have hxt : x.1 ≤ t := (List.pairwise_append.mp hclock).2.2 x.1
      (List.mem_cons_of_mem _ (List.mem_map_of_mem hx)) t List.mem_cons_self
    have h0 : 0 < timeoutMs := by decide
    omega
  rw [onRequest_eq hkey' hack', server_run hfirst hle]
  rfl

/-! ### How a client transaction ends -/

/-- A client transaction ends with an answer to its owner, without one, because it was cancelled,
or because nobody waits for it any more. -/
inductive Ending where
  | answered (owner : ℕ)
  | timeout (e : Timeout)
  | cancelled
  | expired
  deriving DecidableEq

/-- How a call ends the transaction of a branch, in everything that tells of it: the owner that is
returned for a final response, the events of the timer, and whether the table holds the branch. -/
def endings (s : Txns) (b : Str) (now : ℕ) : Call → List Ending
  | .onResponse m =>
    if branchOf m = some b ∧ m.code.any (200 ≤ ·) then (s.onResponse m).2.toList.map .answered
      else []
  | .cancel branch => if branch = b ∧ s.client[b]?.isSome then [.cancelled] else []
  | .tick =>
    ((s.timeouts now).filter (·.branch = b)).map .timeout ++
      if (s.timeouts now).filter (·.branch = b) = [] ∧ s.client[b]?.isSome ∧
        (s.tick now).client[b]? = none then
        [.expired]
      else []
  | _ => []

def runEndings (s : Txns) (b : Str) : List (ℕ × Call) → List Ending
  | [] => []
  | x :: calls => s.endings b x.1 x.2 ++ (s.step x.1 x.2).runEndings b calls

/-- Does a call send a request of that branch? -/
def Call.uses (b : Str) : Call → Prop
  | .request _ _ m => branchOf m = some b
  | _ => False

/-- Is a call a provisional response of that branch? -/
def provisionalOf (b : Str) : Call → Bool
  | .onResponse m => branchOf m = some b ∧ m.code.any (· < 200)
  | _ => false

variable {b : Str} {x : Client}

theorem client_request (owner : ℕ) (dest : Addr) (h : branchOf m ≠ some b) :
    (s.request owner dest m now).client[b]? = s.client[b]? := by
  rw [request]
  dsimp only
  split
  · rfl
  · split
    · rfl
    · rename_i branch hbranch
      dsimp only
      rw [OrderedMap.getElem?_insert', if_neg]
      rintro rfl
      exact h hbranch

theorem client_onRequest (sender : Addr) : (s.onRequest sender m now).1.client = s.client := by
  rw [onRequest]
  split
  · rfl
  · split
    · dsimp only
      rw [acknowledged]
      split <;> rfl
    · split
      · rfl
      · dsimp only
        split <;> rfl

theorem client_respond (dest : Addr) : (s.respond dest m now).client = s.client := by
  rw [respond]
  dsimp only
  split
  · rw [keep2xx]
    split
    · split <;> rfl
    · rfl
  · rfl

theorem client_tick : (s.tick now).client[b]? = (s.client[b]?.filter fun c => now < c.deadline).map
    (clientNext now) := by
  show ((s.client.filter fun _ c => now < c.deadline).map fun _ c => clientNext now c)[b]? = _
  simp

theorem filter_filterMap {κ α β : Type} [DecidableEq κ] {g : κ → α → Option β} {key : β → κ}
    (hkey : ∀ k v e, g k v = some e → key e = k) (b : κ) {l : List (κ × α)}
    (hnodup : (l.map Prod.fst).Nodup) {o : Option α} (hmem : ∀ v, (b, v) ∈ l ↔ o = some v) :
    (l.filterMap fun x => g x.1 x.2).filter (fun e => key e = b) = (o.bind (g b)).toList := by
  induction l generalizing o with
  | nil =>
    cases o with
    | none => rfl
    | some v => exact absurd ((hmem v).mpr rfl) List.not_mem_nil
  | cons x l ih =>
    obtain ⟨k, v⟩ := x
    obtain ⟨hk, hnodup⟩ := List.nodup_cons.mp hnodup
    have hhead : ((g k v).toList).filter (fun e => key e = b) = if k = b then (g k v).toList
      else [] := by
      cases hg : g k v with
      | none => simp
      | some e =>
        have he := hkey k v e hg
        by_cases hkb : k = b <;> simp [he, hkb]
    have hsplit : ((k, v) :: l).filterMap (fun x => g x.1 x.2) =
        (g k v).toList ++ l.filterMap fun x => g x.1 x.2 := by
      cases hg : g k v <;> simp [hg]
    rw [hsplit, List.filter_append, hhead]
    by_cases hkb : k = b
    · subst hkb
      obtain rfl : o = some v := (hmem v).mp List.mem_cons_self
      have hrest := @ih hnodup none fun w => ⟨fun hw => absurd (List.mem_map_of_mem hw) hk, nofun⟩
      rw [if_pos rfl, hrest]
      exact List.append_nil _
    · rw [if_neg hkb, List.nil_append]
      refine ih hnodup fun w => ?_
      rw [← hmem w, List.mem_cons]
      refine ⟨.inr, fun h => h.resolve_left fun heq => hkb ?_⟩
      exact (congrArg Prod.fst heq).symm

theorem timeouts_of_branch : (s.timeouts now).filter (·.branch = b) =
    (s.client[b]?.bind fun c =>
      if c.deadline ≤ now ∧
        ¬ (c.provisional ∧ c.method = .invite) then some (Timeout.mk c.owner b c.method)
      else none).toList := by
  refine @filter_filterMap Str Client Timeout _ (fun b c =>
    if c.deadline ≤ now ∧
      ¬ (c.provisional ∧ c.method = .invite) then some (Timeout.mk c.owner b c.method) else none)
    Timeout.branch (fun k v e he => ?_) b _ OrderedMap.nodup_map_fst_toList _ fun v =>
      Std.ExtTreeMap.mem_toList_iff_getElem?_eq_some
  obtain ⟨-, he⟩ := Option.ite_none_right_eq_some.mp he
  rw [← Option.some.inj he]

theorem client_onResponse_ne (hb : branchOf m ≠ some b) :
    (s.onResponse m).1.client[b]? = s.client[b]? := by
  rw [onResponse]
  split
  · rename_i code branch _ hbranch
    have hne : branch ≠ b := fun heq => hb (heq ▸ hbranch)
    split
    · rfl
    · split
      · dsimp only
        rw [OrderedMap.getElem?_erase', if_neg hne]
      · split
        · dsimp only
          rw [OrderedMap.getElem?_insert', if_neg hne]
        · rfl
  · rfl

/-- A transaction that goes on, as the call leaves it. -/
def GoesOn (s : Txns) (b : Str) (x : Client) (provisional : Bool) : Prop :=
  ∃ y, s.client[b]? = some y ∧ y.owner = x.owner ∧ y.method = x.method ∧ y.deadline = x.deadline ∧
    y.provisional = (x.provisional || (provisional && x.method = .invite))

/-- What an ending says of the transaction: it is silent only for an INVITE that got a provisional
response. -/
def Ending.Fits (b : Str) (x : Client) (provisional : Bool) : Ending → Prop
  | .answered owner => owner = x.owner
  | .timeout e => e = ⟨x.owner, b, x.method⟩
  | .cancelled => True
  | .expired => x.method = .invite ∧ (x.provisional || provisional) = true

/-- **A branch that is not in the table** stays out of it until a request uses it, and nothing tells
of it. -/
theorem client_step_none (now : ℕ) (h : s.client[b]? = none) {call : Call}
    (hfresh : ¬ Call.uses b call) :
    (s.step now call).client[b]? = none ∧ s.endings b now call = [] := by
  cases call with
  | request owner dest m => exact ⟨(client_request owner dest hfresh).trans h, rfl⟩
  | onResponse m =>
    show (s.onResponse m).1.client[b]? = none ∧ (if _ then _ else _) = _
    have hnone : branchOf m = some b → s.onResponse m = (s, none) := by
      intro hb
      rw [onResponse, hb]
      split
      · rename_i heq
        cases heq
        rw [h]
      · rfl
    by_cases hb : branchOf m = some b
    · rw [hnone hb]
      refine ⟨h, ?_⟩
      split <;> rfl
    · exact ⟨(client_onResponse_ne hb).trans h, if_neg fun hand => hb hand.1⟩
  | cancel branch =>
    constructor
    · show (s.client.erase branch)[b]? = none
      rw [OrderedMap.getElem?_erase', h, ite_self]
    · refine if_neg ?_
      rw [h]
      exact fun hand => Bool.false_ne_true hand.2
  | onRequest sender m =>
    refine ⟨?_, rfl⟩
    show (s.onRequest sender m now).1.client[b]? = none
    rw [client_onRequest, h]
  | respond dest m =>
    refine ⟨?_, rfl⟩
    show (s.respond dest m now).client[b]? = none
    rw [client_respond, h]
  | tick =>
    constructor
    · show (s.tick now).client[b]? = none
      rw [client_tick, h]
      rfl
    · show ((s.timeouts now).filter (·.branch = b)).map _ ++ (if _ then _ else _) = _
      rw [timeouts_of_branch, h, if_neg fun hand => Bool.false_ne_true hand.2.1]
      rfl
  | takeSends => exact ⟨h, rfl⟩
  | takeEvents => exact ⟨h, rfl⟩

theorem client_step_onResponse (now : ℕ) (m : Message) (h : s.client[b]? = some x) :
    GoesOn (s.step now (.onResponse m)) b x (provisionalOf b (.onResponse m)) ∧
      s.endings b now (.onResponse m) = [] ∧ (Call.onResponse m = .tick → now < x.deadline) ∨
    (s.step now (.onResponse m)).client[b]? = none ∧
      ∃ e, s.endings b now (.onResponse m) = [e] ∧ e.Fits b x
        (provisionalOf b (.onResponse m)) := by
  by_cases hb : branchOf m = some b
  · cases hcode : m.code with
    | none =>
      refine .inl ⟨⟨x, ?_, rfl, rfl, rfl, ?_⟩, if_neg fun hand => ?_, nofun⟩
      · show (s.onResponse m).1.client[b]? = some x
        rw [onResponse, hcode]
        exact h
      · simp [provisionalOf, hcode]
      · rw [hcode] at hand
        exact Bool.false_ne_true hand.2
    | some code =>
      by_cases hfinal : 200 ≤ code
      · have hanswer : s.onResponse m = ({ s with client := s.client.erase b }, some x.owner) := by
          rw [onResponse, hcode, hb]
          dsimp only
          rw [h]
          exact if_pos hfinal
        refine .inr ⟨?_, .answered x.owner, ?_, rfl⟩
        · show (s.onResponse m).1.client[b]? = none
          rw [hanswer]
          exact (OrderedMap.getElem?_erase').trans (if_pos rfl)
        · show (if _ then _ else _) = _
          rw [if_pos ⟨hb, by rw [hcode]; exact decide_eq_true hfinal⟩, hanswer]
          rfl
      · have hends : s.endings b now (.onResponse m) = [] := by
          refine if_neg fun hand => hfinal ?_
          rw [hcode] at hand
          exact of_decide_eq_true hand.2
        have hprovisional : provisionalOf b (.onResponse m) = true := by
          simp only [provisionalOf, hcode, hb, Option.any_some, decide_eq_true_eq, true_and]
          omega
        refine .inl ⟨?_, hends, nofun⟩
        show GoesOn (s.onResponse m).1 b x _
        rw [hprovisional, onResponse, hcode, hb]
        dsimp only
        rw [h]
        dsimp only
        rw [if_neg hfinal]
        by_cases hinvite : x.method = .invite
        · rw [if_pos hinvite]
          exact ⟨{ x with provisional := true }, (OrderedMap.getElem?_insert').trans (if_pos rfl),
            rfl, rfl, rfl,
            by simp [hinvite]⟩
        · rw [if_neg hinvite]
          exact ⟨x, h, rfl, rfl, rfl, by simp [hinvite]⟩
  · refine .inl ⟨⟨x, (client_onResponse_ne hb).trans h, rfl, rfl, rfl, ?_⟩,
      if_neg fun hand => hb hand.1, nofun⟩
    simp [provisionalOf, hb]

theorem client_step_tick (now : ℕ) (h : s.client[b]? = some x) :
    GoesOn (s.step now .tick) b x (provisionalOf b .tick) ∧ s.endings b now .tick = [] ∧
      (Call.tick = .tick → now < x.deadline) ∨
    (s.step now .tick).client[b]? = none ∧
      ∃ e, s.endings b now .tick = [e] ∧ e.Fits b x (provisionalOf b .tick) := by
  have hevents := @timeouts_of_branch s now b
  have hclient : (s.step now .tick).client[b]? = _ := client_tick
  rw [h] at hevents hclient
  have hends : s.endings b now .tick = ((s.timeouts now).filter (·.branch = b)).map .timeout ++
      if (s.timeouts now).filter (·.branch = b) = [] ∧ s.client[b]?.isSome ∧
        (s.tick now).client[b]? = none then
        [Ending.expired]
      else [] := rfl
  rw [hevents, show (s.tick now).client[b]? = _ from hclient, h] at hends
  by_cases hlive : now < x.deadline
  · have hkept : Option.filter (fun c : Client => decide (now < c.deadline)) (some x) = some x :=
      Option.filter_eq_some_iff.mpr ⟨rfl, decide_eq_true hlive⟩
    rw [hkept] at hclient hends
    refine .inl ⟨⟨clientNext now x, hclient, ?_⟩, ?_, fun _ => hlive⟩
    · rw [clientNext]
      split <;> simp [provisionalOf]
    · rw [hends, Option.bind_some, if_neg fun hand => absurd hlive (by omega)]
      rfl
  · have hgone : Option.filter (fun c : Client => decide (now < c.deadline)) (some x) = none := by
      rw [Option.filter_some, if_neg fun hd => hlive (of_decide_eq_true hd)]
    rw [hgone] at hclient hends
    refine .inr ⟨hclient, ?_⟩
    by_cases hwaits : x.provisional ∧ x.method = .invite
    · refine ⟨.expired, ?_, hwaits.2, by simp [hwaits.1]⟩
      rw [hends, Option.bind_some, if_neg fun hand => hand.2 hwaits]
      rfl
    · refine ⟨.timeout ⟨x.owner, b, x.method⟩, ?_, rfl⟩
      rw [hends, Option.bind_some, if_pos ⟨Nat.le_of_not_lt hlive, hwaits⟩]
      rfl

/-- **A transaction goes on or ends**, in one way. -/
theorem client_step (now : ℕ) (h : s.client[b]? = some x) {call : Call}
    (hfresh : ¬ Call.uses b call) :
    GoesOn (s.step now call) b x (provisionalOf b call) ∧ s.endings b now call = [] ∧
      (call = .tick → now < x.deadline) ∨
    (s.step now call).client[b]? = none ∧ ∃ e, s.endings b now call = [e] ∧
      e.Fits b x (provisionalOf b call) := by
  have hstay : GoesOn s b x false := ⟨x, h, rfl, rfl, rfl, by simp⟩
  cases call with
  | request owner dest m =>
    refine .inl ⟨⟨x, (client_request owner dest hfresh).trans h, rfl, rfl, rfl, ?_⟩, rfl, nofun⟩
    simp [provisionalOf]
  | onResponse m => exact client_step_onResponse now m h
  | cancel branch =>
    by_cases hb : branch = b
    · refine .inr ⟨?_, .cancelled, if_pos ⟨hb, by rw [h]; rfl⟩, trivial⟩
      show (s.client.erase branch)[b]? = none
      rw [OrderedMap.getElem?_erase', if_pos hb]
    · refine .inl ⟨⟨x, ?_, rfl, rfl, rfl, by simp [provisionalOf]⟩,
        if_neg fun hand => hb hand.1, nofun⟩
      show (s.client.erase branch)[b]? = some x
      rw [OrderedMap.getElem?_erase', if_neg hb, h]
  | onRequest sender m =>
    refine .inl ⟨⟨x, ?_, rfl, rfl, rfl, by simp [provisionalOf]⟩, rfl, nofun⟩
    show (s.onRequest sender m now).1.client[b]? = some x
    rw [client_onRequest, h]
  | respond dest m =>
    refine .inl ⟨⟨x, ?_, rfl, rfl, rfl, by simp [provisionalOf]⟩, rfl, nofun⟩
    show (s.respond dest m now).client[b]? = some x
    rw [client_respond, h]
  | tick => exact client_step_tick now h
  | takeSends => exact .inl ⟨hstay, rfl, nofun⟩
  | takeEvents => exact .inl ⟨hstay, rfl, nofun⟩

/-! ### Over a run -/

theorem client_run_none (h : s.client[b]? = none) (hfresh : ∀ y ∈ calls, ¬ Call.uses b y.2) :
    (s.run calls).client[b]? = none ∧ s.runEndings b calls = [] := by
  induction calls generalizing s with
  | nil => exact ⟨h, rfl⟩
  | cons y calls ih =>
    obtain ⟨hnext, hends⟩ := client_step_none y.1 h (hfresh y List.mem_cons_self)
    obtain ⟨hrun, hrest⟩ := ih hnext fun z hz => hfresh z (List.mem_cons_of_mem _ hz)
    exact ⟨hrun, by rw [runEndings, hends, hrest]; rfl⟩

/-- Was there a provisional response? -/
def gotProvisional (b : Str) (calls : List (ℕ × Call)) : Bool :=
  calls.any fun y => provisionalOf b y.2

theorem fits_mono {b : Str} {x y : Client} {p q : Bool} {e : Ending} (howner : y.owner = x.owner)
    (hmethod : y.method = x.method) (hp : (y.provisional || p) = true → (x.provisional || q) = true)
    (h : e.Fits b y p) : e.Fits b x q := by
  cases e with
  | answered owner => exact h.trans howner
  | timeout e =>
    have heq : e = ⟨y.owner, b, y.method⟩ := h
    show e = ⟨x.owner, b, x.method⟩
    rw [heq, howner, hmethod]
  | cancelled => trivial
  | expired => exact ⟨hmethod ▸ h.1, hp h.2⟩

/-- **One ending.**  As long as no request uses the branch again, a transaction is in the table and
nothing told of its end, or it is gone and one thing did; and it is gone when the timer ran at its
deadline or later. -/
theorem client_run (h : s.client[b]? = some x) (hfresh : ∀ y ∈ calls, ¬ Call.uses b y.2) :
    GoesOn (s.run calls) b x (gotProvisional b calls) ∧ s.runEndings b calls = [] ∧
      (∀ t, (t, Call.tick) ∈ calls → t < x.deadline) ∨
    (s.run calls).client[b]? = none ∧ ∃ e, s.runEndings b calls = [e] ∧
      e.Fits b x (gotProvisional b calls) := by
  induction calls generalizing s x with
  | nil => exact .inl ⟨⟨x, h, rfl, rfl, rfl, by simp [gotProvisional]⟩, rfl, nofun⟩
  | cons y calls ih =>
    have hrest : ∀ z ∈ calls, ¬ Call.uses b z.2 := fun z hz => hfresh z (List.mem_cons_of_mem _ hz)
    rcases client_step y.1 h (hfresh y List.mem_cons_self) with
      ⟨⟨x', hx', howner, hmethod, hdeadline, hprovisional⟩, hends, htick⟩ | ⟨hnone, e, hends, hfits⟩
    · have himp : ∀ p, (x'.provisional || (p && x'.method = .invite)) =
          (x.provisional || ((provisionalOf b y.2 || p) && x.method = .invite)) := by
        intro p
        rw [hprovisional, hmethod]
        cases x.provisional <;> cases provisionalOf b y.2 <;> cases p <;> simp
      rcases ih hx' hrest with
        ⟨⟨x'', hx'', howner', hmethod', hdeadline', hprovisional'⟩, hends', htick'⟩ | ⟨hnone, e,
          hends', hfits⟩
      · refine .inl ⟨⟨x'', hx'', howner'.trans howner, hmethod'.trans hmethod,
          hdeadline'.trans hdeadline, ?_⟩, ?_,
          fun t ht => ?_⟩
        · rw [hprovisional', himp]
          rfl
        · rw [runEndings, hends, hends']
          rfl
        · rcases List.mem_cons.mp ht with heq | ht
          · have hy : y.2 = .tick := (congrArg Prod.snd heq).symm
            have ht1 : t = y.1 := congrArg Prod.fst heq
            rw [ht1]
            exact htick hy
          · rw [← hdeadline]
            exact htick' t ht
      · refine .inr ⟨hnone, e, by rw [runEndings, hends, hends']; rfl,
          fits_mono howner hmethod ?_ hfits⟩
        rw [hprovisional]
        simp only [gotProvisional, List.any_cons, Bool.or_eq_true, Bool.and_eq_true]
        tauto
    · obtain ⟨hrun, hends'⟩ := client_run_none hnone hrest
      refine .inr ⟨hrun, e, by rw [runEndings, hends, hends']; rfl, fits_mono rfl rfl ?_ hfits⟩
      simp only [gotProvisional, List.any_cons, Bool.or_eq_true]
      tauto

/-- What the timer sends again for a branch is due in the table. -/
theorem not_mem_resends (h : ∀ y, s.client[b]? = some y → y.provisional = true) (now : ℕ) :
    b ∉ (s.resends now).map (·.1) := by
  intro hmem
  obtain ⟨x, hx, rfl⟩ := List.mem_map.mp hmem
  obtain ⟨⟨b', c⟩, hc, hmade⟩ := List.mem_filterMap.mp hx
  obtain ⟨hdue, heq⟩ := Option.ite_none_right_eq_some.mp hmade
  obtain rfl := Option.some.inj heq
  have hp := h c (Std.ExtTreeMap.mem_toList_iff_getElem?_eq_some.mp hc)
  rw [clientDue, hp] at hdue
  simp at hdue

/-- **A response ends the resending**: a final one of any request, and any one of an INVITE. -/
theorem not_resent {calls' : List (ℕ × Call)} {t : ℕ} (h : s.client[b]? = some x)
    (hfresh : ∀ y ∈ calls ++ (t, .onResponse m) :: calls', ¬ Call.uses b y.2)
    (hb : branchOf m = some b) {code : ℕ} (hcode : m.code = some code)
    (hstop : 200 ≤ code ∨ x.method = .invite) (now : ℕ) :
    b ∉ ((s.run (calls ++ (t, .onResponse m) :: calls')).resends now).map (·.1) := by
  refine not_mem_resends (fun y hy => ?_) now
  rw [run_append, run_cons] at hy
  have hbefore : ∀ z ∈ calls, ¬ Call.uses b z.2 := fun z hz => hfresh z (List.mem_append_left _ hz)
  have hafter : ∀ z ∈ calls', ¬ Call.uses b z.2 := fun z hz =>
    hfresh z (List.mem_append_right _ (List.mem_cons_of_mem _ hz))
  have hgone : ∀ s' : Txns, s'.client[b]? = none → (s'.run calls').client[b]? ≠ some y :=
    fun s' hs' => by
    rw [(client_run_none hs' hafter).1]
    exact nofun
  rcases client_run h hbefore with ⟨⟨x₁, hx₁, -, hmethod₁, -, -⟩, -, -⟩ | ⟨hnone, -⟩
  · by_cases hfinal : 200 ≤ code
    · refine absurd hy (hgone _ ?_)
      show ((s.run calls).onResponse m).1.client[b]? = none
      rw [onResponse, hcode, hb]
      dsimp only
      rw [hx₁]
      dsimp only
      rw [if_pos hfinal]
      exact (OrderedMap.getElem?_erase').trans (if_pos rfl)
    · have hinvite : x₁.method = .invite := hmethod₁.trans (hstop.resolve_left hfinal)
      rcases client_step_onResponse t m hx₁ with ⟨⟨x₂, hx₂, -, hmethod₂, -, hp₂⟩, -, -⟩ | ⟨hnone, -⟩
      · have hprovisional : provisionalOf b (.onResponse m) = true := by
          simp only [provisionalOf, hcode, hb, Option.any_some, decide_eq_true_eq, true_and]
          omega
        rw [hprovisional, hinvite] at hp₂
        rcases client_run hx₂ hafter with ⟨⟨x₃, hx₃, -, -, -, hp₃⟩, -, -⟩ | ⟨hnone, -⟩
        · rw [show (((s.run calls).step t (.onResponse m)).run calls').client[b]? =
            _ from hx₃] at hy
          obtain rfl := Option.some.inj hy
          rw [hp₃, hp₂]
          simp
        · rw [show (((s.run calls).step t (.onResponse m)).run calls').client[b]? =
            _ from hnone] at hy
          cases hy
      · exact absurd hy (hgone _ hnone)
  · have hnext := client_step_none t hnone (show ¬ Call.uses b (.onResponse m) from id)
    exact absurd hy (hgone _ hnext.1)

/-! ### 2xx and their ACK -/

/-- Is a call a 2xx to an INVITE, of that Call-ID? -/
def gives2xx (cid : Str) : Call → Prop
  | .respond _ m => methodOf m = some .invite ∧ (m.code.any fun c => 200 ≤ c && c < 300) = true ∧
      m.headers.callId.toOption = some cid
  | _ => False

variable {cid : Str}

theorem ok2xx_step (h : s.ok2xx[cid]? = none) {call : Call} (hnot : ¬ gives2xx cid call) :
    (s.step now call).ok2xx[cid]? = none := by
  cases call with
  | request owner dest m =>
    show (s.request owner dest m now).ok2xx[cid]? = none
    rw [request]
    dsimp only
    split
    · exact h
    · split <;> exact h
  | onResponse m =>
    show (s.onResponse m).1.ok2xx[cid]? = none
    rw [onResponse]
    split
    · split
      · exact h
      · split
        · exact h
        · split <;> exact h
    · exact h
  | cancel branch => exact h
  | onRequest sender m =>
    show (s.onRequest sender m now).1.ok2xx[cid]? = none
    rw [onRequest]
    split
    · exact h
    · split
      · dsimp only
        rw [acknowledged]
        split
        · exact (OrderedMap.getElem?_erase').trans (by rw [h, ite_self])
        · exact h
      · split
        · exact h
        · dsimp only
          split <;> exact h
  | respond dest m =>
    show (s.respond dest m now).ok2xx[cid]? = none
    rw [respond]
    dsimp only
    split
    · rename_i branch method _ hmethod
      rw [keep2xx]
      split
      · rename_i hgives
        split
        · rename_i cid' hcid
          refine (OrderedMap.getElem?_insert').trans ((if_neg ?_).trans h)
          rintro rfl
          exact hnot ⟨hgives.1 ▸ hmethod, hgives.2, by rw [hcid]; rfl⟩
        · exact h
      · exact h
    · exact h
  | tick =>
    show ((s.ok2xx.filter fun _ o => now < o.deadline).map fun _ o => ok2xxNext now o)[cid]? = none
    simp [h]
  | takeSends => exact h
  | takeEvents => exact h

theorem ok2xx_run (h : s.ok2xx[cid]? = none) (hnot : ∀ y ∈ calls, ¬ gives2xx cid y.2) :
    (s.run calls).ok2xx[cid]? = none := by
  induction calls generalizing s with
  | nil => exact h
  | cons y calls ih =>
    exact ih (ok2xx_step h (hnot y List.mem_cons_self)) fun z hz =>
      hnot z (List.mem_cons_of_mem _ hz)

theorem mem_resends2xx : cid ∈ (s.resends2xx now).map (·.1) ↔ ∃ o, s.ok2xx[cid]? = some o ∧
    ok2xxDue now o = true := by
  constructor
  · intro hmem
    obtain ⟨x, hx, rfl⟩ := List.mem_map.mp hmem
    obtain ⟨⟨cid', o⟩, ho, hmade⟩ := List.mem_filterMap.mp hx
    obtain ⟨hdue, heq⟩ := Option.ite_none_right_eq_some.mp hmade
    obtain rfl := Option.some.inj heq
    exact ⟨o, Std.ExtTreeMap.mem_toList_iff_getElem?_eq_some.mp ho, hdue⟩
  · rintro ⟨o, ho, hdue⟩
    refine List.mem_map.mpr
      ⟨(cid, o.dest, o.bytes), List.mem_filterMap.mpr ⟨(cid, o), ?_, if_pos hdue⟩, rfl⟩
    exact Std.ExtTreeMap.mem_toList_iff_getElem?_eq_some.mpr ho

/-- **An ACK ends the resending of a 2xx**, until another one is given for the dialog. -/
theorem not_resent2xx {sender : Addr} {t : ℕ} (hack : methodOf m = some .ack)
    (hcid : m.headers.callId = .ok cid) (hnot : ∀ y ∈ calls, ¬ gives2xx cid y.2) (now : ℕ) :
    cid ∉ (((s.onRequest sender m t).1.run calls).resends2xx now).map (·.1) := by
  have hgone : (s.onRequest sender m t).1.ok2xx[cid]? = none := by
    rw [onRequest, hack]
    dsimp only
    rw [if_pos rfl, acknowledged, hcid]
    exact (OrderedMap.getElem?_erase').trans (if_pos rfl)
  intro hmem
  obtain ⟨o, ho, -⟩ := mem_resends2xx.mp hmem
  rw [ok2xx_run hgone hnot] at ho
  cases ho

theorem request_client {method : Method} (hb : branchOf m = some b)
    (hmethod : methodOf m = some method) (hack : method ≠ .ack) (owner : ℕ) (dest : Addr) (t₀ : ℕ) :
    (s.request owner dest m t₀).client[b]? =
      some ⟨owner, method, dest, m.toBytes, t₀ + t1Ms, t1Ms, t₀ + timeoutMs, false⟩ := by
  rw [request]
  dsimp only
  rw [hmethod, Option.getD_some, if_neg hack, hb]
  exact (OrderedMap.getElem?_insert').trans (if_pos rfl)

theorem ok2xx_respond {branch : Str} (hb : branchOf m = some branch)
    (hmethod : methodOf m = some .invite) (hcode : (m.code.any fun c => 200 ≤ c && c < 300) = true)
    (hcid : m.headers.callId = .ok cid) (dest : Addr) : (s.respond dest m now).ok2xx[cid]? =
      some ⟨dest, m.toBytes, now + t1Ms, t1Ms, now + timeoutMs⟩ := by
  rw [respond]
  dsimp only
  rw [hb, hmethod]
  dsimp only
  rw [keep2xx, if_pos ⟨rfl, hcode⟩, hcid]
  exact (OrderedMap.getElem?_insert').trans (if_pos rfl)

/-- **Transactions happen once**, whatever is called in between and in whatever order.

A request other than an ACK that was handed up is not handed up again in a copy that comes before the
timeout, and each copy is answered with exactly the last response of its key; the response that is
made to a request whose CSeq names its method has that key.

A request that was sent, other than an ACK, is in the table until it ends, and ends in one way: its
owner is returned for a final response, or there is one event, or it was cancelled, or it was an
INVITE with a provisional response and nothing tells of it.  It has ended when the timer ran at its
deadline, and it is not sent again behind a final response, nor an INVITE behind any.

A 2xx to an INVITE is not sent again behind an ACK with its Call-ID, as long as no other one is
given. -/
theorem transactions_happen_once :
    (∀ (s : Txns) (sender : Addr) (m : Message) (k : Key) (t₀ : ℕ),
      keyOf m = some k → methodOf m ≠ some .ack →
      (s.onRequest sender m t₀).2 = true → ∀ (calls : List (ℕ × Call)) (t : ℕ),
      (t₀ :: calls.map Prod.fst ++ [t]).Pairwise (· ≤ ·) → t < t₀ + timeoutMs →
      ∀ (sender' : Addr) (m' : Message), keyOf m' = some k → methodOf m' ≠ some .ack →
      ((s.onRequest sender m t₀).1.run calls).onRequest sender' m' t =
        ({ (s.onRequest sender m t₀).1.run calls with
            sends :=
  ((s.onRequest sender m t₀).1.run calls).sends ++ (lastResponse k calls).toList }, false)) ∧
    (∀ (m r : Message) (code : ℕ) (toTag : Option Str) (c : CSeq), m.responseTo code toTag = .ok r →
      m.headers.cseq = .ok c → methodOf m = some c.method → keyOf r = keyOf m) ∧
    (∀ (s : Txns) (owner : ℕ) (dest : Addr) (m : Message) (method : Method) (b : Str) (t₀ : ℕ),
      branchOf m = some b → methodOf m = some method → method ≠ .ack →
      ∀ calls : List (ℕ × Call), (∀ y ∈ calls, ¬ Call.uses b y.2) →
      ((((s.request owner dest m t₀).run calls).client[b]?.isSome ∧
          (s.request owner dest m t₀).runEndings b calls = [] ∧
          ∀ t, (t, Call.tick) ∈ calls → t < t₀ + timeoutMs) ∨
        ((s.request owner dest m t₀).run calls).client[b]? = none ∧
          ∃ e, (s.request owner dest m t₀).runEndings b calls = [e] ∧
            (e = .answered owner ∨ e = .timeout ⟨owner, b, method⟩ ∨ e = .cancelled ∨
              e = .expired ∧ method = .invite ∧ gotProvisional b calls = true)) ∧
      ∀ (before after : List (ℕ × Call)) (t : ℕ) (m' : Message) (code : ℕ),
        calls = before ++ (t, .onResponse m') :: after → branchOf m' = some b →
          m'.code = some code →
        200 ≤ code ∨ method = .invite →
        ∀ now, b ∉ (((s.request owner dest m t₀).run calls).resends now).map (·.1)) ∧
    ∀ (s : Txns) (sender : Addr) (m : Message) (cid : Str) (t : ℕ), methodOf m = some .ack →
      m.headers.callId = .ok cid → ∀ calls : List (ℕ × Call), (∀ y ∈ calls, ¬ gives2xx cid y.2) →
      ∀ now, cid ∉ (((s.onRequest sender m t).1.run calls).resends2xx now).map (·.1) := by
  refine ⟨fun s sender m k t₀ hkey hack hup calls t hclock ht sender' m' hkey' hack' =>
      onRequest_again hkey hack hup hclock ht hkey' hack' sender',
    fun m r code toTag c h hc hmethod => keyOf_responseTo h hc hmethod,
    fun s owner dest m method b t₀ hb hmethod hack calls hfresh => ?_,
    fun s sender m cid t hack hcid calls hnot now => not_resent2xx hack hcid hnot now⟩
  have hclient := @request_client s m b method hb hmethod hack owner dest t₀
  constructor
  · rcases client_run hclient hfresh with ⟨⟨y, hy, -⟩, hends, htick⟩ | ⟨hnone, e, hends, hfits⟩
    · exact .inl ⟨by rw [hy]; rfl, hends, htick⟩
    · refine .inr ⟨hnone, e, hends, ?_⟩
      cases e with
      | answered owner' => exact .inl (congrArg _ hfits)
      | timeout e => exact .inr (.inl (congrArg _ hfits))
      | cancelled => exact .inr (.inr (.inl rfl))
      | expired => exact .inr (.inr (.inr ⟨rfl, hfits⟩))
  · rintro before after t m' code rfl hb' hcode hstop now
    exact not_resent hclient hfresh hb' hcode hstop now

/-! ### One exchange -/

/-- The headers of a request of that method, with one branch and one Call-ID. -/
def sampleHeaders (method : Method) : Headers :=
  [("Via".toList, "SIP/2.0/UDP 10.250.0.2:5060;branch=z9hG4bK1".toList),
    ("From".toList, "<sip:a@b>;tag=a".toList),
    ("To".toList, "<sip:c@b>".toList), ("Call-ID".toList, "c1".toList),
      ("CSeq".toList, "1 ".toList ++ method.asStr)]

def sampleRequest (method : Method) : Message :=
  .request method ⟨.sip, some ['c'], ['b'], none, [], []⟩ (sampleHeaders method) []

def sampleResponse : Message := .response 200 "OK".toList (sampleHeaders .invite) []

def samplePeer : Addr := ⟨(10, 250, 0, 2), 5060⟩

/-- An INVITE is handed up and answered; its copy is not handed up, and gets the answer.  The client
is told of the answer once, and sends the INVITE no more; the server sends its 2xx no more when the
ACK has come. -/
theorem transactions_happen_once_invite :
    let s := (({} : Txns).onRequest samplePeer (sampleRequest .invite) 0).1.run
      [(1, .respond samplePeer sampleResponse), (40, .takeSends)]
    let c := ({} : Txns).request 5 samplePeer (sampleRequest .invite) 0
    s.onRequest samplePeer (sampleRequest .invite) 100 =
        ({ s with sends := [(samplePeer, sampleResponse.toBytes)] }, false) ∧
      c.runEndings "z9hG4bK1".toList [(60, .onResponse sampleResponse)] = [.answered 5] ∧
      "z9hG4bK1".toList ∉ ((c.run [(60, .onResponse sampleResponse)]).resends 600).map (·.1) ∧
      "c1".toList ∈ (s.resends2xx 600).map (·.1) ∧
      "c1".toList ∉ (((s.onRequest samplePeer (sampleRequest .ack) 120).1.run []).resends2xx
        600).map (·.1) := by
  intro s c
  obtain ⟨hserver, -, hclient, hack⟩ := transactions_happen_once
  refine ⟨?_, ?_, ?_, ?_, ?_⟩
  · obtain ⟨k, hk⟩ : ∃ k, keyOf (sampleRequest .invite) = some k :=
      Option.isSome_iff_exists.mp (by decide +kernel)
    have hkey : keyOf sampleResponse = some k := by
      rw [← hk]
      decide +kernel
    have hup : (({} : Txns).onRequest samplePeer (sampleRequest .invite) 0).2 = true := by
      rw [onRequest_eq hk (by decide)]
      rfl
    have hlast : lastResponse k [(1, .respond samplePeer sampleResponse), (40, .takeSends)] =
        some (samplePeer, sampleResponse.toBytes) := if_pos hkey
    rw [hserver {} samplePeer (sampleRequest .invite) k 0 hk (by decide) hup
      [(1, .respond samplePeer sampleResponse), (40, .takeSends)] 100 (by decide)
        (by decide) samplePeer
      (sampleRequest .invite) hk (by decide), hlast]
    rfl
  · decide +kernel
  · exact (hclient {} 5 samplePeer (sampleRequest .invite) .invite "z9hG4bK1".toList 0
      (by decide +kernel) (by decide) (by decide)
      [(60, .onResponse sampleResponse)] (by simp [Call.uses])).2 [] [] 60 sampleResponse 200 rfl
        (by decide +kernel) rfl
        (.inr rfl) 600
  · have hb : branchOf sampleResponse = some "z9hG4bK1".toList := by decide +kernel
    have hkept : s.ok2xx["c1".toList]? = _ :=
      ok2xx_respond hb (by decide +kernel) (by decide) (by decide +kernel) samplePeer
    exact mem_resends2xx.mpr ⟨_, hkept, by decide⟩
  · exact hack s samplePeer (sampleRequest .ack) "c1".toList 120 (by decide) (by decide +kernel) []
      (by simp) 600

/-- Copies of an ACK are handed up each time, and a 2xx that is given again behind the ACK is sent
again. -/
theorem ack_is_handed_up_again :
    (keyOf (sampleRequest .ack)).isSome ∧
    (({} : Txns).onRequest samplePeer (sampleRequest .ack) 0).2 = true ∧
    ((({} : Txns).onRequest samplePeer (sampleRequest .ack) 0).1.onRequest samplePeer
    (sampleRequest .ack) 1).2 =
      true ∧
    "c1".toList ∈ ((({} : Txns).run [(0, .onRequest samplePeer (sampleRequest .invite)),
      (1, .respond samplePeer sampleResponse), (2, .onRequest samplePeer (sampleRequest .ack)),
      (3, .respond samplePeer sampleResponse)]).resends2xx 600).map (·.1) := by
  refine ⟨by decide +kernel, rfl, rfl, mem_resends2xx.mpr ?_⟩
  obtain ⟨branch, hb⟩ : ∃ branch, branchOf sampleResponse = some branch :=
    Option.isSome_iff_exists.mp (by decide +kernel)
  exact ⟨_, ok2xx_respond hb (by decide +kernel) (by decide)
    (by decide +kernel) samplePeer, by decide⟩

end Txns

end EvansComputer.Tel.Sip
