import EvansComputer.Dns.Names
import EvansComputer.Library.OrderedMap

/-!
# The registry of a top-level domain

The domains under one TLD, which registrar sponsors each, and the commands of registrars: one line
each, with a reply to each.  Of a reply only its code is kept; the texts are left out.
-/

namespace EvansComputer.Dns

open Text

def minTtl : UInt32 := 60
def defaultTtl : UInt32 := 300
def maxRecords : ℕ := 64
def maxNs : ℕ := 8

/-- Labels that are never for sale. -/
def reservedLabels : List (List Char) :=
  ["nic".toList, "www".toList, "root".toList, "whois".toList, "iana".toList, "registry".toList,
    "registrar".toList, "dns".toList,
    "ns1".toList, "ns2".toList, "example".toList, "test".toList, "localhost".toList]

structure Domain where
  name : Name
  registrar : List Char
  registrant : List Char
  created : UInt64
  updated : UInt64
  /-- The name servers and their addresses, where the domain is delegated. -/
  ns : List (Name × Option Ipv4Addr) := []
  /-- The records that the registry serves, where it is not. -/
  records : List Record := []
  deriving DecidableEq

structure Registry where
  tld : Name
  domains : OrderedMap (List Char) Domain := ∅
  /-- The secret of each registrar. -/
  registrars : OrderedMap (List Char) (List Char) := ∅

/-! ## What is typed in -/

/-- Is it a label that a registrant may have? -/
def checkLabel (label : List Char) : Bool :=
  3 ≤ byteLength label && byteLength label ≤ 63 && isLdh label && !reservedLabels.contains label &&
    !(label.head? = some 'v' && (readUnsigned (2 ^ 32 - 1) label.tail).any fun n => 1 ≤ n && n ≤ 10)

def stripSuffix (p s : List Char) : Option (List Char) :=
  if p.isSuffixOf s then some (s.take (s.length - p.length)) else none

/-- A time to live: seconds, or numbers with units. -/
def ttlFrom : ℕ → ℕ → Bool → List Char → Option ℕ
  | total, _, digits, [] => if digits then none else some total
  | total, num, digits, c :: s =>
    if c.isDigit then
      let num := num * 10 + (c.toNat - 48)
      if num > 2 ^ 32 - 1 then none else ttlFrom total num true s
    else
      let mult : Option ℕ := match c.toLower with
        | 's' => some 1
        | 'm' => some 60
        | 'h' => some 3600
        | 'd' => some 86400
        | 'w' => some 604800
        | _ => none
      match mult with
      | none => none
      | some mult => if !digits then none else ttlFrom ((total + num * mult) % 2 ^ 64) 0 false s

def parseTtl (s : List Char) : Option UInt32 :=
  match readUnsigned (2 ^ 32 - 1) s with
  | some n => some (UInt32.ofNat n)
  | none => ((ttlFrom 0 0 false s).filter (· ≤ 2 ^ 32 - 1)).map UInt32.ofNat

def typeAaaa : UInt16 := 28

def typeFromName (s : List Char) : Option UInt16 :=
  let u := s.map Char.toUpper
  if u = "A".toList then some typeA
  else if u = "NS".toList then some typeNs
  else if u = "CNAME".toList then some typeCname
  else if u = "SOA".toList then some typeSoa
  else if u = "PTR".toList then some typePtr
  else if u = "MX".toList then some typeMx
  else if u = "TXT".toList then some typeTxt
  else if u = "AAAA".toList then some typeAaaa
  else if u = "SRV".toList then some typeSrv
  else if u = "NAPTR".toList then some typeNaptr
  else if u = "AXFR".toList then some typeAxfr
  else if u = "ANY".toList ∨ u = ['*'] then some typeAny
  else ((stripPrefix "TYPE".toList u).bind (readUnsigned (2 ^ 16 - 1))).map UInt16.ofNat

def readOctets : List (List Char) → Option (List Byte)
  | [] => some []
  | p :: ps =>
    if p = [] ∨ byteLength p > 3 ∨ !p.all (·.isDigit) then none
    else (readUnsigned 255 p).bind fun n => (readOctets ps).map (UInt8.ofNat n :: ·)

def parseIp (s : List Char) : Option Ipv4Addr :=
  match readOctets (split (· = '.') (trim s)) with
  | some [a, b, c, d] => some ⟨a, b, c, d⟩
  | _ => none

def readU16 (s : List Char) : Option UInt16 := (readUnsigned (2 ^ 16 - 1) s).map UInt16.ofNat

def characterString (s : List Char) : Option (List Char) :=
  if byteLength s > 255 then none else some s

/-- The data of a record from its tokens. -/
def rdataFromText (rtype : UInt16) (tokens : List (List Char)) (origin : Name) : Option RData :=
  if rtype = typeA then
    match tokens with
    | [ip] => (parseIp ip).map .a
    | _ => none
  else if rtype = typeNs then
    match tokens with
    | [n] => (absolute n origin).map .ns
    | _ => none
  else if rtype = typeCname then
    match tokens with
    | [n] => (absolute n origin).map .cname
    | _ => none
  else if rtype = typePtr then
    match tokens with
    | [n] => (absolute n origin).map .ptr
    | _ => none
  else if rtype = typeMx then
    match tokens with
    | [p, n] => (readU16 p).bind fun p => (absolute n origin).map (.mx p)
    | _ => none
  else if rtype = typeTxt then if tokens = [] then none else some (.txt tokens)
  else if rtype = typeSrv then
    match tokens with
    | [p, w, port, n] =>
      do return .srv ⟨← readU16 p, ← readU16 w, ← readU16 port, ← absolute n origin⟩
    | _ => none
  else if rtype = typeNaptr then
    match tokens with
    | [o, p, f, s, e, n] => do
      return .naptr ⟨← readU16 o, ← readU16 p, ← characterString f, ← characterString
        s, ← characterString e, ← absolute n origin⟩
    | _ => none
  else if rtype = typeSoa then
    match tokens with
    | [m, r, a, b, c, d, e] => do
      return .soa ⟨← absolute m origin, ← absolute r origin, ← parseTtl a, ← parseTtl b, ← parseTtl
        c, ← parseTtl d, ← parseTtl e⟩
    | _ => none
  else none

/-- A quoted string up to its end, and what is after it. -/
def quoted : List Char → List Char → Option (List Char × List Char)
  | _, [] => none
  | t, '"' :: s => some (t, s)
  | _, '\\' :: [] => none
  | t, '\\' :: n :: s => quoted (t ++ [n]) s
  | t, c :: s => quoted (t ++ [c]) s

/-- Record data as tokens: quoted strings keep their spaces. -/
def tokensFrom : ℕ → List Char → Option (List (List Char))
  | _, [] => some []
  | 0, _ :: _ => none
  | fuel + 1, c :: s =>
    if isSpace c then tokensFrom fuel s
    else if c = '"' then (quoted [] s).bind fun (t, s) => (tokensFrom fuel s).map (t :: ·)
    else (tokensFrom fuel (s.dropWhile fun c => !isSpace c)).map
      ((c :: s.takeWhile fun c => !isSpace c) :: ·)

def tokens (s : List Char) : Option (List (List Char)) := tokensFrom s.length s

/-- An owner name, relative to the domain or absolute. -/
def owner (name : List Char) (domain : Name) : Option Name :=
  let n :=
    if name = ['@'] then some domain
    else if name.getLast? = some '.' then normalize name
    else
      match normalize name with
      | none => none
      | some n => if isSub n domain then some n else normalize (name ++ '.' :: domain)
  n.filter fun n => isSub n domain

/-- One name server of a list, `name` or `name=address`. -/
def nameServer (d : Name) (item : List Char) : Except UInt16 (Name × Option Ipv4Addr) :=
  let n := item.takeWhile (· ≠ '=')
  let g := item.drop (n.length + 1)
  match normalize n with
  | none => .error 2005
  | some n =>
    match if g = [] then some none else (parseIp g).map some with
    | none => .error 2005
    | some glue => if isSub n d ≠ glue.isSome then .error 2306 else .ok (n, glue)

/-! ## Commands -/

/-- A session of a registrar. -/
structure Session where
  registrar : Option (List Char) := none
  deriving DecidableEq

/-- The reply to a command: no code means `OK`. -/
structure Reply where
  code : Option UInt16
  /-- The zone changed and is to be published. -/
  changed : Bool := false
  close : Bool := false
  deriving DecidableEq

namespace Domain

def addRecord (dom : Domain) (d : Name) (name ttl t : List Char) (data : List (List Char))
    (now : UInt64) : Except UInt16 Domain :=
  match owner name d with
  | none => .error 2005
  | some owner =>
    match parseTtl ttl with
    | none => .error 2005
    | some ttl =>
      if ttl < minTtl then .error 2306
      else
        match (typeFromName t).filter fun t => t =
          typeA ∨ t = typeCname ∨ t = typeMx ∨ t = typeTxt with
        | none => .error 2306
        | some rtype =>
          match (tokens (unwords data)).bind fun toks => rdataFromText rtype toks d with
          | none => .error 2005
          | some data =>
            let rec_ : Record := { name := owner, rtype, ttl, data }
            if rtype = typeCname ∧ (owner = d ∨ dom.records.any fun r =>
              r.name = owner && r.rtype ≠ typeCname) then .error 2306
            else if rtype ≠ typeCname ∧ dom.records.any fun r =>
              r.name = owner && r.rtype = typeCname then .error 2306
            else if dom.records.length ≥ maxRecords then .error 2308
            else
              .ok { dom with
                records :=
                  (dom.records.filter fun r =>
                  !(r.name = owner && r.rtype = rtype && r.data = data)) ++ [rec_]
                updated := now }

def delRecord (dom : Domain) (d : Name) (name t : List Char) (data : List (List Char))
    (now : UInt64) : Except UInt16 Domain :=
  match owner name d, typeFromName t with
  | none, _ => .error 2005
  | some _, none => .error 2005
  | some owner, some rtype =>
    match if data = [] then some none
      else ((tokens (unwords data)).bind fun toks => rdataFromText rtype toks d).map some with
    | none => .error 2005
    | some want =>
      let records := dom.records.filter fun r =>
        !(r.name = owner && r.rtype = rtype && want.all fun w => w = r.data)
      if records.length = dom.records.length then .error 2303
        else .ok { dom with records, updated := now }

def setNs (dom : Domain) (d : Name) (list : List (List Char)) (now : UInt64) :
    Except UInt16 Domain :=
  if list = [] ∨ list.length > maxNs then .error 2306 else (list.mapM (nameServer d)).map fun ns =>
    { dom with ns, updated := now }

/-- What an `UPDATE` does to the domain `d`. -/
def update (dom : Domain) (d : Name) (w : List (List Char)) (now : UInt64) : Except UInt16 Domain :=
  match w with
  | kind :: verb :: rest =>
    let isVerb (k v : String) : Bool :=
      (kind = k.toList && verb = v.toList) || (kind = k.toLower.toList && verb = v.toLower.toList)
    if isVerb "RR" "ADD" then
      match rest with
      | name :: ttl :: t :: data => dom.addRecord d name ttl t data now
      | _ => .error 2001
    else if isVerb "RR" "DEL" then
      match rest with
      | name :: t :: data => dom.delRecord d name t data now
      | _ => .error 2001
    else if isVerb "NS" "HOSTED" ∧ rest = [] then .ok { dom with ns := [], updated := now }
    else if isVerb "NS" "SET" then dom.setNs d rest now
    else .error 2001
  | _ => .error 2001

end Domain

namespace Registry

/-- `label.tld` from what a registrar sent. -/
def domainName (r : Registry) (s : List Char) : Except UInt16 Name :=
  match normalize s with
  | none => .error 2005
  | some n =>
    match stripSuffix ('.' :: r.tld) n with
    | none => .error 2306
    | some label => if label.contains '.' || !checkLabel label then .error 2306 else .ok n

/-- A domain as an argument of a command. -/
def argument (r : Registry) : List (List Char) → Except UInt16 Name
  | [] => .error 2001
  | s :: _ => r.domainName s

/-- Commands of a registrar that is logged in. -/
def sponsored (r : Registry) (me : List Char) (cmd : List Char) (args : List (List Char))
    (now : UInt64) : Reply × Registry :=
  if cmd = "CHECK".toList then
    match r.argument args with
    | .ok _ => (⟨none, false, false⟩, r)
    | .error e => (⟨some e, false, false⟩, r)
  else if cmd = "CREATE".toList then
    match r.argument args, args.drop 1 with
    | .error e, _ => (⟨some e, false, false⟩, r)
    | .ok _, [] => (⟨some 2001, false, false⟩, r)
    | .ok d, registrant :: _ =>
      if r.domains.contains d then (⟨some 2302, false, false⟩, r)
      else
        (⟨none, true, false⟩,
          { r with domains := r.domains.insert d { name := d, registrar := me, registrant,
                                                   created := now, updated := now } })
  else if cmd = "LIST".toList then (⟨none, false, false⟩, r)
  else if cmd = "INFO".toList then
    match r.argument args with
    | .error e => (⟨some e, false, false⟩, r)
    | .ok d => (⟨if r.domains.contains d then none else some 2303, false, false⟩, r)
  else if cmd = "DELETE".toList ∨ cmd = "UPDATE".toList then
    match r.argument args with
    | .error e => (⟨some e, false, false⟩, r)
    | .ok d =>
      match r.domains[d]? with
      | none => (⟨some 2303, false, false⟩, r)
      | some dom =>
        if dom.registrar ≠ me then (⟨some 2201, false, false⟩, r)
        else if cmd =
          "DELETE".toList then (⟨none, true, false⟩, { r with domains := r.domains.erase d })
        else
          match dom.update d (args.drop 1) now with
          | .error e => (⟨some e, false, false⟩, r)
          | .ok dom => (⟨none, true, false⟩, { r with domains := r.domains.insert d dom })
  else (⟨some 2000, false, false⟩, r)

/-- Run one command. -/
def command (r : Registry) (sess : Session) (line : List Char) (now : UInt64) :
    Reply × Registry × Session :=
  match words line with
  | [] => (⟨some 2001, false, false⟩, r, sess)
  | cmd :: args =>
    let cmd := cmd.map Char.toUpper
    if cmd = "LOGIN".toList then
      match args with
      | [id, secret] =>
        if r.registrars[id]? = some secret then (⟨none, false, false⟩, r, { registrar := some id })
        else (⟨some 2200, false, false⟩, r, sess)
      | _ => (⟨some 2001, false, false⟩, r, sess)
    else if cmd = "LOGOUT".toList then (⟨none, false, true⟩, r, sess)
    else
      match sess.registrar with
      | none => (⟨some 2002, false, false⟩, r, sess)
      | some me =>
        let (reply, r) := r.sponsored me cmd args now
        (reply, r, sess)

end Registry

end EvansComputer.Dns
