import EvansComputer.Dns.Lookups
import EvansComputer.Dns.Secondaries

/-!
# Recursive clients

A query of a client that may have recursion goes to the resolver, and its answer goes back under
the id that the resolver gave it.  The clients that wait are matched to the queries that the
resolver works on: one for one, each under its own name and type.  A reload replaces the resolver,
whose ids begin again, and keeps the clients; the match holds in runs where none waits then.
-/

namespace EvansComputer.Dns

open Server

/-- The query that a client waits for. -/
def Client.ask (c : Client) : Ask := (c.q, c.query.question.map fun q => (q.name, q.qtype))

/-- The answer to a client. -/
def answerTo (p : Client × Resolution) : Out :=
  let m := p.1.query.responseTo p.2.rcode
  .udp p.1.from_ p.1.port
    { m with header.ra := true, answers := p.2.answers, authority := p.2.authority }

/-- Does the output look like the answer to a recursive query? -/
def isRecursive : Out → Bool
  | .udp _ _ m => m.header.qr && m.header.ra
  | _ => false

namespace Server

variable {s s' : Server Resolver} {now : ℤ}

/-! ## What is accepted, sent and produced -/

/-- The client of a query that goes to the resolver. -/
def accepted (s : Server Resolver) : ServerCall → List Client
  | .onUdp from_ port (.message m) now =>
    if m.header.qr || m.header.opcode ≠ opQuery || (s.answer from_ port m now true).2.isSome then []
    else
      match s.resolver, m.question with
      | some r, some q =>
        [{ q := (ResolverOps.resolve r q.name q.qtype now).1, from_, port, query := m }]
      | _, _ => []
  | _ => []

/-- The answers to recursive queries that a call sends; a query that is answered at once has no
other. -/
def recursiveAnswers (s : Server Resolver) (c : ServerCall) : List Out :=
  let sent := ((s.call c).out.drop s.out.length).filter isRecursive
  match c with
  | .onUdp from_ port (.message m) now =>
    if !m.header.qr && m.header.opcode = opQuery &&
      (s.answer from_ port m now true).2.isSome then [] else sent
  | _ => sent

/-- The resolutions that the resolver produces in a call. -/
def produced (s : Server Resolver) (c : ServerCall) : List (UInt32 × Resolution) :=
  match s.resolver, c with
  | some r, .tick now => (r.tick now).done
  | some r, .onResolverUdp from_ data now => (r.onPacket from_ data now).done
  | some r, .onUdp from_ port (.message m) now =>
    if m.header.qr then []
    else if m.header.opcode = opNotify then if (s.notified from_ m).isSome then (r.tick now).done
      else []
    else if m.header.opcode = opQuery ∧ (s.answer from_ port m now true).2 = none then
      match m.question with
      | some q => (r.resolve q.name q.qtype now).2.done
      | none => []
    else []
  | _, _ => []

/-- Each client that waits is matched to a query that the resolver works on. -/
def Matched (s : Server Resolver) : Prop :=
  match s.resolver with
  | none => s.clients = []
  | some r => r.Ids ∧ r.done = [] ∧ (s.clients.map Client.ask).Perm (tops r.tasks)

/-- Lookups of the resolver have ids of their own. -/
def FewStarted (s : Server Resolver) : Prop :=
  ∀ r, s.resolver = some r → r.started ≤ Resolver.maxStarted

/-! ## Handing out what is done -/

/-- Clients and resolver are as before, and what is sent is no answer to a recursive query. -/
structure Adds (s s' : Server Resolver) : Prop where
  clients : s'.clients = s.clients
  resolver : s'.resolver = s.resolver
  out : ∃ ext, s'.out = s.out ++ ext ∧ ext.filter isRecursive = []

variable {s'' : Server Resolver} {new : List Client} {done : List (UInt32 × Resolution)}

theorem Adds.trans (h : Adds s s') (h' : Adds s' s'') : Adds s s'' := by
  obtain ⟨ext, hout, hnone⟩ := h.out
  obtain ⟨ext', hout', hnone'⟩ := h'.out
  refine ⟨h'.clients.trans h.clients, h'.resolver.trans h.resolver, ext ++ ext', ?_, ?_⟩
  · rw [hout', hout, List.append_assoc]
  · rw [List.filter_append, hnone, hnone', List.append_nil]

theorem Matched.nodup (h : Matched s) : (s.clients.map Client.q).Nodup := by
  unfold Matched at h
  split at h
  · rw [h]
    exact List.nodup_nil
  · rename_i r _
    obtain ⟨hids, -, hperm⟩ := h
    have hq : s.clients.map Client.q = (s.clients.map Client.ask).map Prod.fst := by
      rw [List.map_map]
      rfl
    have htops : (tops r.tasks).map Prod.fst = (r.tasks.filter (·.parent.isNone)).map (·.id) := by
      unfold tops
      rw [List.map_map]
      rfl
    rw [hq, (hperm.map _).nodup_iff, htops]
    exact hids.nodup.sublist (List.filter_sublist.map _)

/-- What a call does to the clients, in terms of what it accepts, produces and sends. -/
structure Serves (s : Server Resolver) (c : ServerCall) : Prop where
  matched : Matched (s.call c)
  answers : ∃ fin : List (Client × Resolution), fin.map (fun p => (p.1.q, p.2)) = produced s c ∧
    (∀ p ∈ fin, p.1.ask = (p.1.q, some (p.2.qname, p.2.qtype))) ∧
    (s.clients ++ accepted s c).Perm ((s.call c).clients ++ fin.map (·.1)) ∧
      recursiveAnswers s c = fin.map answerTo

/-- The server after calls. -/
def run (s : Server Resolver) (calls : List ServerCall) : Server Resolver := calls.foldl call s

/-- What `f` lists of each call, over the whole run. -/
def along {α : Type*} (f : Server Resolver → ServerCall → List α) (s : Server Resolver) :
    List ServerCall → List α
  | [] => []
  | c :: cs => f s c ++ along f (s.call c) cs

/-- The condition: no client waits at a reload, and the ids of the resolver are not used up. -/
def Meets (s : Server Resolver) (c : ServerCall) : Prop :=
  (∀ conf disk now, c = .reload conf disk now → s.clients = []) ∧ FewStarted (s.call c)

/-- Each client that was accepted waits, or was answered, once, with what the resolver produced for
its own name and type. -/
def Answered (s : Server Resolver) (calls : List ServerCall) : Prop :=
  ∃ fin : List (Client × Resolution), fin.map (fun p => (p.1.q, p.2)) = along produced s calls ∧
    (∀ p ∈ fin, p.1.ask = (p.1.q, some (p.2.qname, p.2.qtype))) ∧
    (s.clients ++ along accepted s calls).Perm ((run s calls).clients ++ fin.map (·.1)) ∧
    along recursiveAnswers s calls = fin.map answerTo

/-- Where an output goes. -/
def destination : Out → Option Ipv4Addr
  | .udp to_ _ _ => some to_
  | _ => none

end EvansComputer.Dns.Server
