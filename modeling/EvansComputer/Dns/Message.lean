import EvansComputer.Net.Types

/-!
# Names, records and messages

What name servers say to each other.  A name is its canonical text, without the trailing dot;
the root is the empty name.  How a message is written in octets is left out: a datagram is the
message that it decodes to, or nothing that decodes.
-/

namespace EvansComputer.Dns

/-! ## Names -/

/-- A canonical name. -/
abbrev Name := List Char

/-- Is `name` equal to or below `zone`? -/
def isSub (name zone : Name) : Bool :=
  zone = [] || name = zone ||
    (name.length > zone.length + 1 && zone.isSuffixOf name &&
      name[name.length - zone.length - 1]? = some '.')

/-- The parent of a name; the root has none. -/
def parent (name : Name) : Option Name :=
  if name = [] then none else some ((name.dropWhile (· ≠ '.')).drop 1)

/-- The top-level label. -/
def tld (name : Name) : Name := (name.reverse.takeWhile (· ≠ '.')).reverse

/-! ## Records -/

def typeA : UInt16 := 1
def typeNs : UInt16 := 2
def typeCname : UInt16 := 5
def typeSoa : UInt16 := 6
def typePtr : UInt16 := 12
def typeMx : UInt16 := 15
def typeTxt : UInt16 := 16
def typeSrv : UInt16 := 33
def typeNaptr : UInt16 := 35
def typeAxfr : UInt16 := 252
def typeAny : UInt16 := 255
def classIn : UInt16 := 1

structure Soa where
  mname : Name
  rname : Name
  serial : UInt32
  refresh : UInt32
  retry : UInt32
  expire : UInt32
  minimum : UInt32
  deriving DecidableEq

structure Srv where
  priority : UInt16
  weight : UInt16
  port : UInt16
  target : Name
  deriving DecidableEq

structure Naptr where
  order : UInt16
  preference : UInt16
  flags : List Char
  services : List Char
  regexp : List Char
  replacement : Name
  deriving DecidableEq

inductive RData where
  | a (ip : Ipv4Addr)
  | ns (name : Name)
  | cname (name : Name)
  | ptr (name : Name)
  | mx (preference : UInt16) (name : Name)
  | txt (parts : List (List Char))
  | soa (soa : Soa)
  | srv (srv : Srv)
  | naptr (naptr : Naptr)
  | other (data : List Byte)
  deriving DecidableEq

/-- A target name the record points at. -/
def RData.target : RData → Option Name
  | ns n | cname n | ptr n | mx _ n => some n
  | srv s => some s.target
  | _ => none

structure Record where
  name : Name
  rtype : UInt16
  class_ : UInt16 := classIn
  ttl : UInt32
  data : RData
  deriving DecidableEq

namespace Record

def soa (r : Record) : Option Soa :=
  match r.data with
  | .soa s => some s
  | _ => none

def a (r : Record) : Option Ipv4Addr :=
  match r.data with
  | .a ip => some ip
  | _ => none

/-- The name that the record points at; the root if it points at none. -/
def targetName (r : Record) : Name := r.data.target.getD []

end Record

/-! ## Messages -/

def opQuery : Byte := 0
def opNotify : Byte := 4

def noerror : Byte := 0
def formerr : Byte := 1
def servfail : Byte := 2
def nxdomain : Byte := 3
def notimp : Byte := 4
def refused : Byte := 5
def notauth : Byte := 9

structure Question where
  name : Name
  qtype : UInt16
  qclass : UInt16
  deriving DecidableEq

structure Header where
  id : UInt16 := 0
  qr : Bool := false
  opcode : Byte := 0
  aa : Bool := false
  tc : Bool := false
  rd : Bool := false
  ra : Bool := false
  rcode : Byte := 0
  deriving DecidableEq

structure Message where
  header : Header := {}
  questions : List Question := []
  answers : List Record := []
  authority : List Record := []
  additional : List Record := []
  deriving DecidableEq

namespace Message

/-- A query for one name. -/
def query (id : UInt16) (name : Name) (qtype : UInt16) (rd : Bool) : Message where
  header := { id, rd }
  questions := [{ name, qtype, qclass := classIn }]

/-- The response skeleton for `q`: same id, question, opcode and RD. -/
def responseTo (q : Message) (rcode : Byte) : Message where
  header := { id := q.header.id, qr := true, opcode := q.header.opcode, rd := q.header.rd, rcode }
  questions := q.questions

def question (m : Message) : Option Question := m.questions.head?

/-- SOA serial of a response's answer, if it carries one. -/
def answerSerial (m : Message) : Option UInt32 :=
  m.answers.findSome? fun r =>
    match r.data with
    | .soa s => if r.rtype = typeSoa then some s.serial else none
    | _ => none

end Message

/-! ## Serials -/

/-- Serial arithmetic: is `a` newer than `b`? -/
def serialNewer (a b : UInt32) : Bool := a ≠ b && a - b < 0x80000000

/-! ## Zones -/

/-- A zone: its origin and records, the SOA first. -/
structure Zone where
  origin : Name
  soaRecord : Record
  rest : List Record
  soa : Soa
  soa_first : soaRecord.data = .soa soa

namespace Zone

def records (z : Zone) : List Record := z.soaRecord :: z.rest

def serial (z : Zone) : UInt32 := z.soa.serial

/-- Records with this owner name and type. -/
def get (z : Zone) (name : Name) (rtype : UInt16) : List Record :=
  z.records.filter fun r => r.name = name && r.rtype = rtype

/-- The SOA as sent with a negative answer. -/
def negativeSoa (z : Zone) : Record := { z.soaRecord with ttl := min z.soaRecord.ttl z.soa.minimum }

/-- The names from `name` up to the origin, without the origin; none if it is not below. -/
def pathUp (origin : Name) : ℕ → Name → Option (List Name)
  | 0, _ => none
  | fuel + 1, n =>
    if n = origin then some []
    else
      match parent n with
      | none => none
      | some p => (pathUp origin fuel p).map (n :: ·)

/-- The highest delegation point strictly below the origin on the way to `name`. -/
def cutAbove (z : Zone) (name : Name) : Option Name :=
  (pathUp z.origin (name.length + 1) name).bind fun path =>
    path.reverse.find? fun c => z.records.any fun r => r.name = c && r.rtype = typeNs

/-- Addresses in this zone for the targets of `ns`. -/
def glue (z : Zone) (ns : List Record) : List Record :=
  ns.foldl (fun out r =>
    match r.data.target with
    | some t => (z.get t typeA).foldl (fun out a => if out.contains a then out else out ++ [a]) out
    | none => out) []

end Zone

def maxCname : ℕ := 8

inductive Lookup where
  /-- Data, after any aliases. -/
  | answer (records : List Record)
  /-- The name is below a delegation. -/
  | referral (chain ns glue : List Record)
  | nxDomain (chain : List Record) (soa : Record)
  | noData (chain : List Record) (soa : Record)

/-- Answer a question from the zone; `fuel` aliases may still be followed. -/
def Zone.lookupFrom (z : Zone) (qtype : UInt16) : ℕ → List Record → Name → Lookup
  | fuel, chain, name =>
    match z.cutAbove name with
    | some cut =>
      let ns := z.get cut typeNs
      .referral chain ns (z.glue ns)
    | none =>
      let here := z.records.filter (·.name = name)
      match if qtype ≠ typeCname ∧ qtype ≠ typeAny
        then here.find? (·.rtype = typeCname) else none with
      | some c =>
        let chain := chain ++ [c]
        let target := c.targetName
        if chain.length ≥ maxCname ∨ !isSub target z.origin then .answer chain
        else
          match fuel with
          | 0 => .answer chain
          | fuel + 1 => lookupFrom z qtype fuel chain target
      | none =>
        let hits := here.filter fun r => qtype = typeAny || r.rtype = qtype
        if hits ≠ [] then .answer (chain ++ hits)
        else if here ≠ [] ∨ z.records.any fun r =>
          isSub r.name name then .noData chain z.negativeSoa
        else .nxDomain chain z.negativeSoa

/-- Answer a question from the zone. -/
def Zone.lookup (z : Zone) (qname : Name) (qtype : UInt16) : Lookup :=
  z.lookupFrom qtype maxCname [] qname

/-- The zones one server is authoritative for. -/
structure Authority where
  zones : List Zone := []

namespace Authority

/-- The closest enclosing zone for `name`; of several, the last. -/
def find (auth : Authority) (name : Name) : Option Zone :=
  (auth.zones.filter fun z => isSub name z.origin).foldl (fun best z =>
    match best with
    | some b => if b.origin.length > z.origin.length then some b else some z
    | none => some z) none

def zone? (auth : Authority) (origin : Name) : Option Zone := auth.zones.find? (·.origin = origin)

/-- Replace (or add) a zone. -/
def put (auth : Authority) (zone : Zone) : Authority where
  zones :=
    match auth.zones.findIdx? (·.origin = zone.origin) with
    | some i => auth.zones.set i zone
    | none => auth.zones ++ [zone]

/-- Addresses of NS, MX and SRV targets we have, for the additional section. -/
def additionalFor (auth : Authority) (records : List Record) : List Record :=
  records.foldl (fun out r =>
    if r.rtype ≠ typeNs ∧ r.rtype ≠ typeMx ∧ r.rtype ≠ typeSrv then out
    else
      match r.data.target.bind fun t => (auth.find t).map fun z => z.get t typeA with
      | some as => as.foldl (fun out a => if out.contains a then out else out ++ [a]) out
      | none => out) []

/-- Authoritative response to a standard query, or nothing when no zone covers it. -/
def respond (auth : Authority) (q : Message) : Option Message := do
  let question ← q.question
  let zone ← auth.find question.name
  let r := q.responseTo noerror
  match zone.lookup question.name question.qtype with
  | .answer records =>
    return { r with
        header.aa := true, additional := auth.additionalFor records, answers := records }
  | .referral chain ns glue =>
    return { r with
        header.aa := !chain.isEmpty, answers := chain, authority := ns, additional := glue }
  | .nxDomain chain soa =>
    return { r with header := { r.header with
        aa := true, rcode := nxdomain }, answers := chain, authority := [soa] }
  | .noData chain soa =>
    return { r with header.aa := true, answers := chain, authority := [soa] }

end EvansComputer.Dns.Authority
