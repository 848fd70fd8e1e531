import EvansComputer.Cell.Codec
import EvansComputer.Library.OrderedMap

/-!
# The carrier core's subscriber database

A text file the core owns on its computer, rewritten whole on every change: the
carrier, its address pools, the sites that may register and the subscribers with their
keys, quotas, numbers and sticky addresses.  Parsing is strict, and an error names its
line.

Addresses are sticky: a subscriber keeps the first one handed out.  The lowest address
that no subscriber has is the next, for the data addresses and for the IMS addresses
apart from each other.
-/

namespace EvansComputer.Cell

open Text

instance : Std.TransOrd Ipv4Addr := OrderedMap.transOrd
instance : Std.LawfulEqOrd Ipv4Addr := OrderedMap.lawfulEqOrd

/-! ## What is valid -/

/-- `+` and 8 to 15 digits, not starting with 0 (E.164). -/
def validE164 : Str → Bool
  | '+' :: d => 8 ≤ d.length && d.length ≤ 15 && d.all (·.isDigit) && d.head? ≠ some '0'
  | _ => false

/-- The two halves around the first separator. -/
def splitOnce (sep : Char) (s : Str) : Option (Str × Str) :=
  (s.idxOf? sep).map fun i => (s.take i, s.drop (i + 1))

/-- A number block `NPA-NXX`: two groups of three digits, each starting 2-9 and not
`N11`. -/
def validBlock (s : Str) : Bool :=
  let ok3 (g : Str) := g.length = 3 && g.all (·.isDigit) && '2' ≤ g.headD '0' && g.tail ≠ ['1', '1']
  match splitOnce '-' s with
  | some (a, b) => ok3 a && ok3 b
  | none => false

/-- A port-out code: 4 to 16 of letters, digits and `-`. -/
def validPortCode (s : Str) : Bool :=
  4 ≤ s.length && s.length ≤ 16 && s.all fun c => c.isAlphanum || c = '-'

/-- A subscriber label: 1 to 32 of `a-z A-Z 0-9 . _ -`. -/
def validLabel (s : Str) : Bool :=
  1 ≤ s.length && s.length ≤ 32 && s.all fun c => c.isAlphanum || c = '.' || c = '_' || c = '-'

/-- A site id: same characters as a label. -/
def validSiteId (s : Str) : Bool := validLabel s

/-- 6 to 15 digits. -/
def validImsi (s : Str) : Bool := 6 ≤ s.length && s.length ≤ 15 && s.all (·.isDigit)

/-- Carrier id: `[a-z0-9_-]{1,24}`. -/
def validCarrier (s : Str) : Bool :=
  1 ≤ s.length && s.length ≤ 24 && s.all fun c => c.isLower || c.isDigit || c = '_' || c = '-'

/-- The carrier's SIP domain. -/
def validDomain (s : Str) : Bool :=
  s ≠ [] && s.length ≤ 63 && s.all fun c => c.isAlphanum || c = '-' || c = '.'

/-- A country code. -/
def validCc (s : Str) : Bool :=
  1 ≤ s.length && s.length ≤ 3 && s.all (·.isDigit) && s.head? ≠ some '0'

/-! ## The data -/

/-- What the HSS keeps for telephony per subscriber. -/
structure ImsProfile where
  /-- E.164 number (empty: none yet). -/
  msisdn : Str := []
  /-- The sticky IMS bearer address. -/
  imsIp : Option Ipv4Addr := none
  cfu : Str := []
  cfb : Str := []
  cfnr : Str := []
  cfnrc : Str := []
  /-- Call waiting. -/
  cw : Bool := true
  /-- Caller ID hidden by default. -/
  clir : Bool := false
  /-- Do not disturb. -/
  dnd : Bool := false
  /-- Voicemail on. -/
  vm : Bool := true
  /-- Numbers the network refuses calls and texts from. -/
  blocked : List Str := []
  /-- Port-out code (empty: none issued). -/
  port : Str := []
  /-- The number was ported in. -/
  ported : Bool := false
  deriving DecidableEq

structure Subscriber where
  key : List Byte
  quota : UInt64 := 0
  used : UInt64 := 0
  revoked : Bool := false
  ip : Option Ipv4Addr := none
  /-- The operator's name for the SIM (may be empty). -/
  label : Str := []
  ims : ImsProfile := {}
  deriving DecidableEq

def Subscriber.overQuota (s : Subscriber) : Bool := s.quota > 0 && s.used ≥ s.quota

/-- The IMS bearer configuration. -/
structure ImsConf where
  pool : Ipv4Addr
  prefixLen : UInt8
  /-- What the phones register with. -/
  pcscf : Ipv4Addr
  domain : Str
  /-- Where IMS-bearer traffic may go: the IMS core network. -/
  net : Ipv4Addr
  netPrefix : UInt8
  /-- Traffic to and from it on the default bearer is zero-rated. -/
  mmsc : Option Ipv4Addr
  deriving DecidableEq

structure Db where
  carrier : Str
  pool : Ipv4Addr
  prefixLen : UInt8
  gateway : Ipv4Addr
  dns : Ipv4Addr := Ipv4Addr.zero
  mtu : UInt16 := 1500
  sites : OrderedMap Str (List Byte) := ∅
  subs : OrderedMap Str Subscriber := ∅
  /-- Country code. -/
  cc : Str := ['1']
  /-- Number blocks held, `NPA-NXX`. -/
  blocks : List Str := []
  /-- The IMS bearer, when the carrier offers calls. -/
  ims : Option ImsConf := none
  /-- The key issued with the carrier's blocks. -/
  enumKey : Option (List Byte) := none

structure DbError where
  line : ℕ
  msg : Str
  deriving DecidableEq

/-! ## Parsing -/

/-- The `ims` line: what it gives and what it leaves to be filled in. -/
structure ImsLine where
  pool : Option (Ipv4Addr × UInt8) := none
  pcscf : Option Ipv4Addr := none
  domain : Option Str := none
  net : Option (Ipv4Addr × UInt8) := none
  mmsc : Option Ipv4Addr := none

/-- What the lines read so far have said. -/
structure Parse where
  db : Db := { carrier := [], pool := .zero, prefixLen := 0, gateway := .zero }
  versionSeen : Bool := false
  carrier : Option Str := none
  pool : Option (Ipv4Addr × UInt8) := none
  gateway : Option Ipv4Addr := none
  ims : Option ((Ipv4Addr × UInt8) × ImsLine) := none

/-- `what 'word'` -/
def quoted (what : String) (w : Str) : Str := what.toList ++ " '".toList ++ w ++ ['\'']

/-- What is there, or an error. -/
def need {α : Type} (o : Option α) (msg : Str) : Except Str α :=
  match o with
  | some a => .ok a
  | none => .error msg

/-- `key=value` -/
def keyValue (kv : Str) : Except Str (Str × Str) :=
  need (splitOnce '=' kv) ("expected key=value, got '".toList ++ kv ++ ['\''])

/-- `0` or `1` -/
def flag (k v : Str) : Except Str Bool :=
  if v = ['0'] then .ok false else if v = ['1'] then .ok true
  else .error (k ++ " must be 0 or 1".toList)

/-- A pool's prefix is 8 to 30. -/
def isPool (p : Ipv4Addr × UInt8) : Bool := 8 ≤ p.2 && p.2 ≤ 30

def imsKey (l : ImsLine) (kv : Str) : Except Str ImsLine := do
  let (k, v) ← keyValue kv
  if k = "pool".toList then
    let p ← need ((parseCidr v).filter isPool) (quoted "bad ims pool" v)
    return { l with pool := some p }
  else if k = "pcscf".toList then
    let a ← need (Ipv4Addr.parse v) (quoted "bad pcscf" v)
    return { l with pcscf := some a }
  else if k = "domain".toList then
    if !validDomain v then throw (quoted "bad domain" v)
    return { l with domain := some (v.map Char.toLower) }
  else if k = "net".toList then
    let n ← need (parseCidr v) (quoted "bad ims net" v)
    return { l with net := some n }
  else if k = "mmsc".toList then
    let a ← need (Ipv4Addr.parse v) (quoted "bad mmsc" v)
    return { l with mmsc := some a }
  else throw (quoted "unknown ims key" k)

/-- A number that may be empty. -/
def forward (k v : Str) : Except Str Str :=
  if v ≠ [] ∧ ¬ validE164 v then .error ("bad ".toList ++ k ++ quoted " number" v) else .ok v

/-- The numbers of a block list. -/
def blockList (v : Str) : Except Str (List Str) :=
  ((split (· == ',') v).filter (· ≠ [])).mapM fun n =>
    if validE164 n then .ok n else .error (quoted "bad blocked number" n)

/-- One field of a subscriber; the flag says whether its key has been given. -/
def subKey (st : Subscriber × Bool) (kv : Str) : Except Str (Subscriber × Bool) := do
  let (k, v) ← keyValue kv
  let (s, haveKey) := st
  if k = "key".toList then
    let key ← need (unhex 16 v) "key must be 32 hex digits".toList
    return ({ s with key }, true)
  else if k = "quota".toList then
    let n ← need (readUnsigned 18446744073709551615 v) (quoted "bad quota" v)
    return ({ s with quota := UInt64.ofNat n }, haveKey)
  else if k = "used".toList then
    let n ← need (readUnsigned 18446744073709551615 v) (quoted "bad used" v)
    return ({ s with used := UInt64.ofNat n }, haveKey)
  else if k = "revoked".toList then return ({ s with revoked := ← flag k v }, haveKey)
  else if k = "ip".toList then
    let a ← need (Ipv4Addr.parse v) (quoted "bad ip" v)
    return ({ s with ip := some a }, haveKey)
  else if k = "label".toList then
    if !validLabel v then throw (quoted "bad label" v)
    return ({ s with label := v }, haveKey)
  else if k = "msisdn".toList then
    if !validE164 v then
      throw (quoted "bad msisdn" v ++ " (E.164, e.g. +12145550142)".toList)
    return ({ s with ims := { s.ims with msisdn := v } }, haveKey)
  else if k = "ims_ip".toList then
    let a ← need (Ipv4Addr.parse v) (quoted "bad ims_ip" v)
    return ({ s with ims := { s.ims with imsIp := some a } }, haveKey)
  else if k = "cfu".toList then
    return ({ s with ims := { s.ims with cfu := ← forward k v } }, haveKey)
  else if k = "cfb".toList then
    return ({ s with ims := { s.ims with cfb := ← forward k v } }, haveKey)
  else if k = "cfnr".toList then
    return ({ s with ims := { s.ims with cfnr := ← forward k v } }, haveKey)
  else if k = "cfnrc".toList then
    return ({ s with ims := { s.ims with cfnrc := ← forward k v } }, haveKey)
  else if k = "cw".toList then
    return ({ s with ims := { s.ims with cw := ← flag k v } }, haveKey)
  else if k = "clir".toList then
    return ({ s with ims := { s.ims with clir := ← flag k v } }, haveKey)
  else if k = "dnd".toList then
    return ({ s with ims := { s.ims with dnd := ← flag k v } }, haveKey)
  else if k = "vm".toList then
    return ({ s with ims := { s.ims with vm := ← flag k v } }, haveKey)
  else if k = "block".toList then
    return ({ s with ims := { s.ims with blocked := s.ims.blocked ++ (← blockList v) } }, haveKey)
  else if k = "port".toList then
    if !validPortCode v then throw (quoted "bad port-out code" v)
    return ({ s with ims := { s.ims with port := v } }, haveKey)
  else if k = "ported".toList then
    return ({ s with ims := { s.ims with ported := ← flag k v } }, haveKey)
  else throw (quoted "unknown key" k)

/-- One line that is neither empty nor a comment, as its words; `l` is the line. -/
def parseWords (st : Parse) (l : Str) : List Str → Except Str Parse
  | [k, v] =>
    if k = "version".toList then
      if v = ['1'] then .ok { st with versionSeen := true }
      else .error ("unsupported version ".toList ++ v)
    else if k = "carrier".toList then
      if validCarrier v then .ok { st with carrier := some v } else .error (quoted "bad carrier" v)
    else if k = "pool".toList then do
      let p ← need (parseCidr v) (quoted "bad pool" v)
      if !isPool p then throw "pool prefix must be /8../30".toList
      return { st with pool := some p }
    else if k = "gateway".toList then do
      let a ← need (Ipv4Addr.parse v) (quoted "bad gateway" v)
      return { st with gateway := some a }
    else if k = "dns".toList then do
      let a ← need (Ipv4Addr.parse v) (quoted "bad dns" v)
      return { st with db := { st.db with dns := a } }
    else if k = "mtu".toList then do
      let n ← need ((readUnsigned 65535 v).filter fun n => 576 ≤ n && n ≤ 1500)
        "mtu must be 576..1500".toList
      return { st with db := { st.db with mtu := UInt16.ofNat n } }
    else if k = "cc".toList then
      if validCc v then .ok { st with db := { st.db with cc := v } }
      else .error (quoted "bad country code" v)
    else if k = "block".toList then
      if !validBlock v then
        .error (quoted "bad number block" v ++ " (NPA-NXX, e.g. 214-555)".toList)
      else if v ∈ st.db.blocks then .error ("block ".toList ++ v ++ " twice".toList)
      else .ok { st with db := { st.db with blocks := st.db.blocks ++ [v] } }
    else if k = "enum".toList then
      if "key=".toList.isPrefixOf v then do
        let key ← need (unhex 16 (v.drop 4)) "the enum key must be 32 hex digits".toList
        return { st with db := { st.db with enumKey := some key } }
      else .error ("expected key=<32 hex>, got '".toList ++ v ++ ['\''])
    else if k = "ims".toList then imsWords st [v]
    else .error (quoted "unknown line" l)
  | [k, id, v] =>
    if k = "site".toList then do
      let secret ← need (unhex 16 v) "site secret must be 32 hex digits".toList
      if id = [] ∨ (toUtf8 id).length > 32 then throw "site id must be 1..32 characters".toList
      if st.db.sites.contains id then throw (quoted "site" id ++ " twice".toList)
      return { st with db := { st.db with sites := st.db.sites.insert id secret } }
    else if k = "sub".toList then subWords st id [v]
    else if k = "ims".toList then imsWords st [id, v]
    else .error (quoted "unknown line" l)
  | k :: w :: rest =>
    if k = "ims".toList then imsWords st (w :: rest)
    else if k = "sub".toList then subWords st w rest
    else .error (quoted "unknown line" l)
  | _ => .error (quoted "unknown line" l)
where
  /-- `ims key=value ..` -/
  imsWords (st : Parse) (kvs : List Str) : Except Str Parse := do
    let i ← kvs.foldlM imsKey {}
    let p ← need i.pool "ims needs pool=".toList
    return { st with ims := some (p, i) }
  /-- `sub imsi key=value ..` -/
  subWords (st : Parse) (imsi : Str) (kvs : List Str) : Except Str Parse := do
    if !validImsi imsi then throw (quoted "bad IMSI" imsi)
    let (s, haveKey) ← kvs.foldlM subKey ({ key := List.replicate 16 0 }, false)
    if !haveKey then throw ("subscriber ".toList ++ imsi ++ " has no key".toList)
    if st.db.subs.contains imsi then throw ("subscriber ".toList ++ imsi ++ " twice".toList)
    return { st with db := { st.db with subs := st.db.subs.insert imsi s } }

/-- `trim` -/
def trim (l : Str) : Str := ((l.dropWhile isSpace).reverse.dropWhile isSpace).reverse

/-- One line, with its number. -/
def parseLine (st : Parse) (line : ℕ × Str) : Except DbError Parse :=
  let l := trim (line.2.takeWhile (· ≠ '#'))
  if l = [] then .ok st
  else
    match parseWords st l (words l) with
    | .ok st => .ok st
    | .error msg => .error ⟨line.1, msg⟩

/-- The checks over a whole file: numbers are not given twice, and addresses are in
their pools. -/
def checkSub (db : Db) (numbers : List Str) (sub : Str × Subscriber) : Except Str (List Str) := do
  let (imsi, s) := sub
  if s.ims.msisdn ≠ [] ∧ s.ims.msisdn ∈ numbers then
    throw ("number ".toList ++ s.ims.msisdn ++ " is given to two subscribers (one is ".toList ++
      imsi ++ [')'])
  if let (some ip, some ims) := (s.ims.imsIp, db.ims) then
    if !inSubnet ip ims.pool ims.prefixLen then
      throw ("subscriber ".toList ++ imsi ++ " has ims_ip ".toList ++ ip.display ++
        " outside the ims pool".toList)
  if let some ip := s.ip then
    if !inSubnet ip db.pool db.prefixLen || ip = db.gateway then
      throw ("subscriber ".toList ++ imsi ++ " has ip ".toList ++ ip.display ++
        " outside the pool".toList)
  return if s.ims.msisdn = [] then numbers else s.ims.msisdn :: numbers

/-- The database that the lines come to. -/
def Parse.finish (st : Parse) : Except Str Db := do
  if !st.versionSeen then throw "missing 'version 1'".toList
  let carrier ← need st.carrier "missing 'carrier'".toList
  let (pool, prefixLen) ← need st.pool "missing 'pool'".toList
  let gateway ← need st.gateway "missing 'gateway'".toList
  if !inSubnet gateway pool prefixLen then throw "gateway is outside the pool".toList
  let ims := st.ims.map fun (p, i) =>
    let pcscf := i.pcscf.getD gateway
    let net := i.net.getD (pcscf, 32)
    { pool := p.1, prefixLen := p.2, pcscf, domain := i.domain.getD (carrier ++ ".ecm".toList),
      net := net.1, netPrefix := net.2, mmsc := i.mmsc : ImsConf }
  let db := { st.db with carrier, pool, prefixLen, gateway, ims }
  let _ ← db.subs.toList.foldlM (checkSub db) []
  return db

namespace Db

def parse (text : Str) : Except DbError Db :=
  let ls := lines text
  match (ls.zipIdx 1).foldlM (fun st l => parseLine st (l.2, l.1)) {} with
  | .error e => .error e
  | .ok st =>
    match st.finish with
    | .ok db => .ok db
    | .error msg => .error ⟨ls.length, msg⟩

/-! ## Writing -/

/-- ` key=value`, where there is something to write. -/
def field (k : String) (v : Str) : Str := if v = [] then [] else ' ' :: k.toList ++ '=' :: v

/-- ` key=0` or ` key=1`, where it is not the default. -/
def flagField (k : String) (v dv : Bool) : Str :=
  if v = dv then [] else ' ' :: k.toList ++ ['=', if v then '1' else '0']

def subLine (imsi : Str) (u : Subscriber) : Str :=
  let p := u.ims
  "sub ".toList ++ imsi ++ " key=".toList ++ hex u.key ++ " quota=".toList ++
    decimal u.quota.toNat ++ " used=".toList ++ decimal u.used.toNat ++ " revoked=".toList ++
    [if u.revoked then '1' else '0'] ++ field "ip" (u.ip.elim [] Ipv4Addr.display) ++
    field "label" u.label ++ field "msisdn" p.msisdn ++
    field "ims_ip" (p.imsIp.elim [] Ipv4Addr.display) ++ field "cfu" p.cfu ++ field "cfb" p.cfb ++
    field "cfnr" p.cfnr ++ field "cfnrc" p.cfnrc ++ flagField "cw" p.cw true ++
    flagField "clir" p.clir false ++ flagField "dnd" p.dnd false ++ flagField "vm" p.vm true ++
    field "block" (List.intercalate [','] p.blocked) ++ field "port" p.port ++
    flagField "ported" p.ported false

def imsLine (i : ImsConf) : Str :=
  "ims pool=".toList ++ i.pool.display ++ '/' :: decimal i.prefixLen.toNat ++ " pcscf=".toList ++
    i.pcscf.display ++ " domain=".toList ++ i.domain ++ " net=".toList ++ i.net.display ++
    '/' :: decimal i.netPrefix.toNat ++ field "mmsc" (i.mmsc.elim [] Ipv4Addr.display)

/-- The lines of the file. -/
def textLines (db : Db) : List Str :=
  ["# ecm-cell subscriber database (owned by cored; edit with the Carrier Console or cored's admin commands)".toList,
    "version 1".toList, "carrier ".toList ++ db.carrier,
    "pool ".toList ++ db.pool.display ++ '/' :: decimal db.prefixLen.toNat,
    "gateway ".toList ++ db.gateway.display] ++
  (if db.dns ≠ .zero then ["dns ".toList ++ db.dns.display] else []) ++
  ["mtu ".toList ++ decimal db.mtu.toNat] ++
  (if db.cc ≠ ['1'] then ["cc ".toList ++ db.cc] else []) ++
  db.blocks.map ("block ".toList ++ ·) ++
  (db.enumKey.elim [] fun k => ["enum key=".toList ++ hex k]) ++
  (db.ims.elim [] fun i => [imsLine i]) ++
  (db.sites.toList.map fun s => "site ".toList ++ s.1 ++ ' ' :: hex s.2) ++
  db.subs.toList.map fun s => subLine s.1 s.2

def toText (db : Db) : Str := db.textLines.flatMap (· ++ ['\n'])

/-! ## Addresses and numbers -/

/-- A change of one subscriber. -/
def modifySub (db : Db) (imsi : Str) (f : Subscriber → Subscriber) : Db :=
  { db with subs := db.subs.modify imsi f }

/-- The first of `n` addresses from `base + host` on that is free. -/
def firstFree (free : Ipv4Addr → Bool) (base : UInt32) : ℕ → ℕ → Option Ipv4Addr
  | 0, _ => none
  | n + 1, host =>
    let ip := Ipv4Addr.fromU32 (base + UInt32.ofNat host)
    if free ip then some ip else firstFree free base n (host + 1)

/-- The network a pool starts at. -/
def poolBase (pool : Ipv4Addr) (len : UInt8) : UInt32 :=
  pool.toU32 &&& (0xffffffff <<< (32 - len).toUInt32)

def poolSize (len : UInt8) : ℕ := 2 ^ (32 - len.toNat)

/-- The subscriber's sticky address, assigning the lowest free one the first time. -/
def addressFor (db : Db) (imsi : Str) : Db × Option Ipv4Addr :=
  match db.subs[imsi]? with
  | none => (db, none)
  | some sub =>
    match sub.ip with
    | some ip => (db, some ip)
    | none =>
      let used := db.subs.values.filterMap (·.ip)
      match firstFree (fun ip => ip ≠ db.gateway && !used.contains ip)
          (poolBase db.pool db.prefixLen) (poolSize db.prefixLen - 2) 1 with
      | some ip => (db.modifySub imsi fun s => { s with ip := some ip }, some ip)
      | none => (db, none)

/-- The subscriber's sticky IMS bearer address (lowest free in the IMS pool the first
time). -/
def imsAddressFor (db : Db) (imsi : Str) : Db × Option Ipv4Addr :=
  match db.ims, db.subs[imsi]? with
  | some ims, some sub =>
    match sub.ims.imsIp with
    | some ip => (db, some ip)
    | none =>
      let used := db.subs.values.filterMap (·.ims.imsIp)
      match firstFree (fun ip => !used.contains ip) (poolBase ims.pool ims.prefixLen)
          (poolSize ims.prefixLen - 3) 2 with
      | some ip =>
        (db.modifySub imsi fun s => { s with ims := { s.ims with imsIp := some ip } }, some ip)
      | none => (db, none)
  | _, _ => (db, none)

/-- The first line handed out in a block. -/
def firstLine : ℕ := 100

/-- The subscriber with number `msisdn`. -/
def byNumber (db : Db) (msisdn : Str) : Option Str :=
  (db.subs.toList.find? (·.2.ims.msisdn = msisdn)).map (·.1)

/-- `{:04}` -/
def fourDigits (n : ℕ) : Str :=
  List.replicate (4 - (decimal n).length) '0' ++ decimal n

/-- The E.164 number of line `line` in `block`. -/
def blockNumber (db : Db) (block : Str) (line : ℕ) : Str :=
  let (a, b) := (splitOnce '-' block).getD (block, [])
  '+' :: db.cc ++ a ++ b ++ fourDigits line

/-- The block a number of this carrier belongs to. -/
def blockOf (db : Db) (msisdn : Str) : Option Str :=
  db.blocks.find? fun b => ((db.blockNumber b 0).take (2 + db.cc.length + 5)).isPrefixOf msisdn

/-- The next free number in the carrier's blocks. -/
def nextFreeNumber (db : Db) : Option Str :=
  let used := db.subs.values.map (·.ims.msisdn)
  db.blocks.findSome? fun b =>
    (List.range' firstLine (9999 + 1 - firstLine)).findSome? fun line =>
      let n := db.blockNumber b line
      if used.contains n then none else some n

/-- The number that `imsi` is to have: the requested one, or the next free one. -/
def chooseNumber (db : Db) (imsi : Str) (requested : Option Str) (ported : Bool) : Except Str Str :=
  match requested with
  | some r =>
    let ours := (db.blockOf r).isSome
    if !validE164 r then
      .error (quoted "bad number" r ++ " (E.164, e.g. +12145550142)".toList)
    else if (db.byNumber r).any fun other => other ≠ imsi then
      .error (r ++ " already belongs to ".toList ++ (db.byNumber r).getD [])
    else if ported && ours then
      .error (r ++ " is in this carrier's block ".toList ++ (db.blockOf r).getD [] ++
        ": it is not ported in".toList)
    else if !ported && !ours && db.blocks ≠ [] then
      .error (r ++ " is outside this carrier's blocks (add 'ported' for a number ported in)".toList)
    else .ok r
  | none =>
    if ported then .error "a ported number must be given".toList
    else
      need db.nextFreeNumber
        (if db.blocks = [] then "no number block configured (cored block add NPA-NXX)".toList
        else "every number in the blocks is taken".toList)

/-- Give `imsi` a number. -/
def assignNumber (db : Db) (imsi : Str) (requested : Option Str) (ported : Bool) :
    Except Str (Db × Str) :=
  if !db.subs.contains imsi then .error ("no subscriber ".toList ++ imsi)
  else do
    let n ← db.chooseNumber imsi requested ported
    return (db.modifySub imsi fun s => { s with ims := { s.ims with msisdn := n, ported } }, n)

/-- Give every subscriber without a number one (once a block exists).  How many got
one. -/
def fillNumbers (db : Db) : Db × ℕ :=
  if db.blocks = [] then (db, 0)
  else
    ((db.subs.toList.filter (·.2.ims.msisdn = [])).map (·.1)).foldl (fun (db, n) imsi =>
      match db.assignNumber imsi none false with
      | .ok (db, _) => (db, n + 1)
      | .error _ => (db, n)) (db, 0)

end EvansComputer.Cell.Db
