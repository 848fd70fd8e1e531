import EvansComputer.Cell.Core
import Mathlib

/-!
# Operator commands

What the Carrier Console and the admin socket of the core can say.  A command that lists
something returns at once; every other one that succeeds is logged and the database is
saved.  A command answers with a text, or with why it failed.
-/

namespace EvansComputer.Cell.Core

open Text

/-- What a command comes to: the core, and its answer. -/
abbrev Reply := Core × Except Str Str

/-- The subscriber behind an IMSI, a number or a label only one subscriber has. -/
def imsiOf (core : Core) (who : Str) : Option Str :=
  if who.head? = some '+' then core.db.byNumber who
  else if core.db.subs.contains who then some who
  else
    match core.db.subs.toList.filter fun x => x.2.label ≠ [] && x.2.label = who with
    | [x] => some x.1
    | _ => none

/-- A subscriber that has to be there. -/
def subAt (core : Core) (imsi : Str) : Exec Subscriber :=
  Exec.expect (core.db.subs[imsi]? : Option Subscriber)

/-- A change of a subscriber that has to be there. -/
def changeSub (core : Core) (imsi : Str) (f : Subscriber → Subscriber) : Exec Core := do
  let sub ← core.subAt imsi
  return { core with db := { core.db with subs := core.db.subs.insert imsi (f sub) } }

/-- A command that changed something: `admin: ..` in the log, and the database saved. -/
def done (core : Core) (now : ℕ) (answer : Str) : Reply :=
  ((core.log ["admin: ".toList, answer]).save now, .ok answer)

def failed (core : Core) (why : Str) : Reply := (core, .error why)

/-- End every session of a subscriber. -/
def endSessionsOf (core : Core) (imsi : Str) (cause : Cause) (now : ℕ) : Core :=
  (core.sessionIds (·.imsi = imsi)).foldl (fun core id => core.endSession id cause true now) core

def noSub (imsi : Str) : Str := "no subscriber ".toList ++ imsi

/-- The connections of registered sites. -/
def siteConns (core : Core) (p : SiteReg → Bool) : List ConnId :=
  (core.conns.toList.filter fun x => x.2.site.any p).map (·.1)

/-! ## Lists -/

/-- `{:?}` of a list of numbers. -/
def debugList (l : List UInt32) : Str :=
  '[' :: List.intercalate [',', ' '] (l.map fun n => decimal n.toNat) ++ [']']

/-- `{:?}` of a number that may be missing. -/
def debugOption : Option UInt32 → Str
  | some n => "Some(".toList ++ decimal n.toNat ++ [')']
  | none => "None".toList

def list (core : Core) : Str :=
  core.db.subs.toList.flatMap fun (imsi, u) =>
    imsi ++ " ip ".toList ++ u.ip.elim ['-'] Ipv4Addr.display ++ " used ".toList ++
      decimal u.used.toNat ++ " quota ".toList ++ decimal u.quota.toNat ++
      (if u.revoked then " REVOKED".toList else []) ++
      (if u.label = [] then [] else " label ".toList ++ u.label) ++ ['\n']

def sites (core : Core) : Str :=
  List.intercalate ['\n'] (core.conns.toList.filterMap fun (_, c) => c.site.map fun s =>
    s.id ++ [' '] ++ c.peer.display ++ " cells ".toList ++ debugList (s.cells.map (·.cellId)))

/-- A session's state, as the console shows it. -/
def stateName (s : Session) : Str :=
  if s.idle then "idle".toList
  else if s.ho.isSome then "handover".toList
  else if s.active then "active".toList
  else "attaching".toList

def sessionList (core : Core) : Str :=
  List.intercalate ['\n'] (core.sessions.values.map fun s =>
    decimal s.id.toNat ++ [' '] ++ s.imsi ++ [' '] ++ s.ip.display ++ [' '] ++ stateName s ++
      " cell ".toList ++ debugOption (s.serving.map (·.cell)) ++ [' '] ++
      decimal ((core.db.subs[s.imsi]?).elim 0 (·.used)).toNat)

/-- How many subscribers have a number of a block. -/
def usedOf (core : Core) (b : Str) : ℕ :=
  (core.db.subs.values.filter fun s => core.db.blockOf s.ims.msisdn = some b).length

/-- How many lines of a block are left, which is not a number where more are used than handed
out: any line of a block can be asked for. -/
def freeOf (core : Core) (b : Str) : Exec ℕ :=
  if core.usedOf b ≤ 9999 + 1 - Db.firstLine then .ok (9999 + 1 - Db.firstLine - core.usedOf b)
  else .error .overflow

/-- A line of the list of blocks, behind those before. -/
def blockLine (core : Core) (text b : Str) : Exec Str := do
  let free ← core.freeOf b
  return text ++ "block ".toList ++ b ++ " used ".toList ++ decimal (core.usedOf b) ++
    " free ".toList ++
    decimal free ++ ['\n']

def blocks (core : Core) : Exec Str := core.db.blocks.foldlM core.blockLine []

def numbers (core : Core) : Str :=
  core.db.subs.toList.flatMap fun (imsi, u) =>
    if u.ims.msisdn = [] then []
    else
      "num ".toList ++ u.ims.msisdn ++ [' '] ++ imsi ++ [' '] ++
        (if u.label = [] then ['-'] else u.label) ++ ['\n']

/-! ## Subscribers and sites -/

/-- `add <imsi> <key-hex> [quota] [label]` -/
def add (core : Core) (imsi key : Str) (quota label : Option Str) (now : ℕ) : Reply :=
  if !validImsi imsi then core.failed ("bad IMSI ".toList ++ imsi)
  else
    match unhex 16 key with
    | none => core.failed "key must be 32 hex digits".toList
    | some k =>
      match quota.map (readUnsigned 18446744073709551615) with
      | some none => core.failed "bad quota".toList
      | q =>
        if label.any fun l => !validLabel l then
          core.failed (quoted "bad label" (label.getD []) ++ " (1-32 of a-z A-Z 0-9 . _ -)".toList)
        else if core.db.subs.contains imsi then core.failed (imsi ++ " exists".toList)
        else
          let s : Subscriber :=
            { key := k, quota := UInt64.ofNat ((q.getD none).getD 0), label := label.getD [] }
          { core with db := { core.db with subs := core.db.subs.insert imsi s } }.done now
            ("added ".toList ++ imsi)

def siteAdd (core : Core) (id secret : Str) (now : ℕ) : Reply :=
  match unhex 16 secret with
  | none => core.failed "secret must be 32 hex digits".toList
  | some k =>
    if !validSiteId id then
      core.failed (quoted "bad site id" id ++ " (1-32 of a-z A-Z 0-9 . _ -)".toList)
    else
      { core with db := { core.db with sites := core.db.sites.insert id k } }.done now
        ("site ".toList ++ id ++ " added".toList)

def siteRemove (core : Core) (id : Str) (now : ℕ) : Reply :=
  if !core.db.sites.contains id then core.failed ("no site ".toList ++ id)
  else
    let core := { core with db := { core.db with sites := core.db.sites.erase id } }
    ((core.siteConns (·.id = id)).foldl (fun core c => (core.push (.close c)).onDisconnect c now)
      core).done now ("site ".toList ++ id ++ " removed".toList)

def remove (core : Core) (imsi : Str) (now : ℕ) : Reply :=
  if !core.db.subs.contains imsi then core.failed (noSub imsi)
  else
    let core := core.endSessionsOf imsi .admin now
    { core with db := { core.db with subs := core.db.subs.erase imsi } }.done now
      (imsi ++ " removed".toList)

def setLabel (core : Core) (imsi l : Str) (now : ℕ) : Exec Reply :=
  if !core.db.subs.contains imsi then .ok (core.failed (noSub imsi))
  else if !validLabel l then
    .ok (core.failed (quoted "bad label" l ++ " (1-32 of a-z A-Z 0-9 . _ -)".toList))
  else do
    let core ← core.changeSub imsi fun s => { s with label := l }
    return core.done now (imsi ++ " label ".toList ++ l)

/-- `revoke` and `unrevoke` -/
def setRevoked (core : Core) (imsi : Str) (revoke : Bool) (now : ℕ) : Exec Reply :=
  if !core.db.subs.contains imsi then .ok (core.failed (noSub imsi))
  else do
    let core ← core.changeSub imsi fun s => { s with revoked := revoke }
    if revoke then
      let core := (core.siteConns fun _ => true).foldl
        (fun core c => core.send c (.revoked imsi)) core
      return (core.endSessionsOf imsi .revoked now).done now (imsi ++ " revoked".toList)
    else return core.done now (imsi ++ " reinstated".toList)

def setQuota (core : Core) (imsi q : Str) (now : ℕ) : Exec Reply :=
  if !core.db.subs.contains imsi then .ok (core.failed (noSub imsi))
  else
    match readUnsigned 18446744073709551615 q with
    | none => .ok (core.failed "bad quota".toList)
    | some n => do
      let core ← core.changeSub imsi fun s => { s with quota := UInt64.ofNat n }
      return core.done now (imsi ++ " quota ".toList ++ q)

def resetUsage (core : Core) (imsi : Str) (now : ℕ) : Exec Reply :=
  if !core.db.subs.contains imsi then .ok (core.failed (noSub imsi))
  else do
    let core ← core.changeSub imsi fun s => { s with used := 0 }
    return core.done now (imsi ++ " usage reset".toList)

def release (core : Core) (imsi : Str) (now : ℕ) : Reply :=
  if core.sessionIds (·.imsi = imsi) = [] then core.failed (imsi ++ " has no session".toList)
  else (core.endSessionsOf imsi .admin now).done now (imsi ++ " released".toList)

/-! ## Telephony -/

def blockAdd (core : Core) (b : Str) (now : ℕ) : Reply :=
  if !validBlock b then
    core.failed (quoted "bad number block" b ++ " (NPA-NXX, e.g. 214-555)".toList)
  else if b ∈ core.db.blocks then core.failed ("block ".toList ++ b ++ " is already held".toList)
  else
    let (db, n) := { core.db with blocks := core.db.blocks ++ [b] }.fillNumbers
    { core with db }.done now ("block ".toList ++ b ++ " added (".toList ++ decimal n ++
      " subscriber(s) given a number)".toList)

def blockRemove (core : Core) (b : Str) (now : ℕ) : Reply :=
  if core.usedOf b > 0 then
    core.failed (decimal (core.usedOf b) ++ " numbers of ".toList ++ b ++
      " are in use: release or move them first".toList)
  else if b ∉ core.db.blocks then core.failed ("no block ".toList ++ b)
  else
    { core with db := { core.db with blocks := core.db.blocks.filter (· ≠ b) } }.done now
      ("block ".toList ++ b ++ " removed".toList)

def number (core : Core) (who : Str) (requested : Option Str) (ported : Bool) (now : ℕ) : Reply :=
  match core.imsiOf who with
  | none => core.failed (noSub who)
  | some imsi =>
    match core.db.assignNumber imsi requested ported with
    | .error why => core.failed why
    | .ok (db, n) =>
      { core with db }.done now (imsi ++ " number ".toList ++ n ++
        if ported then " (ported in)".toList else [])

def numberRelease (core : Core) (who : Str) (now : ℕ) : Exec Reply :=
  match core.imsiOf who with
  | none => .ok (core.failed (noSub who))
  | some imsi => do
    let old := (← core.subAt imsi).ims.msisdn
    let core ← core.changeSub imsi fun s =>
      { s with ims := { s.ims with msisdn := [], ported := false } }
    if old = [] then return core.failed (imsi ++ " has no number".toList)
    else return core.done now (imsi ++ " released ".toList ++ old)

def numberMove (core : Core) (num to' : Str) (now : ℕ) : Exec Reply :=
  match core.db.byNumber num with
  | none => .ok (core.failed ("nobody has ".toList ++ num))
  | some source =>
    match core.imsiOf to' with
    | none => .ok (core.failed (noSub to'))
    | some target => do
      let held := (← core.subAt target).ims.msisdn
      if held ≠ [] then return core.failed (target ++ " already has ".toList ++ held)
      else
        let ported := (← core.subAt source).ims.ported
        let core ← core.changeSub source fun s =>
          { s with ims := { s.ims with msisdn := [], ported := false } }
        let core ← core.changeSub target fun s =>
          { s with ims := { s.ims with msisdn := num, ported } }
        return core.done now (num ++ " moved from ".toList ++ source ++ " to ".toList ++ target)

/-- One feature of a subscriber's profile, set to a value. -/
def setFeature (key value : Str) (p : ImsProfile) : Except Str ImsProfile :=
  let number := if value = "off".toList ∨ value = ['-'] then [] else value
  let forward : Except Str Str :=
    if number ≠ [] ∧ ¬ validE164 number then .error (quoted "bad number" number) else .ok number
  let onOff : Except Str Bool :=
    if value = "on".toList ∨ value = ['1'] then .ok true
    else if value = "off".toList ∨ value = ['0'] then .ok false
    else .error "value must be on or off".toList
  if key = "cfu".toList then return { p with cfu := ← forward }
  else if key = "cfb".toList then return { p with cfb := ← forward }
  else if key = "cfnr".toList then return { p with cfnr := ← forward }
  else if key = "cfnrc".toList then return { p with cfnrc := ← forward }
  else if key = "cw".toList then return { p with cw := ← onOff }
  else if key = "clir".toList then return { p with clir := ← onOff }
  else if key = "dnd".toList then return { p with dnd := ← onOff }
  else if key = "vm".toList then return { p with vm := ← onOff }
  else if key = "block".toList ∨ key = "unblock".toList then
    if !validE164 value then throw (quoted "bad number" value)
    else
      let others := p.blocked.filter (· ≠ value)
      return { p with blocked := if key = "block".toList then others ++ [value] else others }
  else
    throw (quoted "unknown feature" key ++
      " (cfu cfb cfnr cfnrc cw clir dnd vm block unblock)".toList)

def feature (core : Core) (who key value : Str) (now : ℕ) : Exec Reply :=
  match core.imsiOf who with
  | none => .ok (core.failed (noSub who))
  | some imsi => do
    let sub ← core.subAt imsi
    match setFeature key value sub.ims with
    | .error why => return core.failed why
    | .ok ims => do
      let core ← core.changeSub imsi fun s => { s with ims }
      return core.done now (imsi ++ [' '] ++ key ++ [' '] ++ value)

/-- `ims ..`: the file is rebuilt with the new line, and the database parser judges it. -/
def setIms (core : Core) (rest : List Str) (now : ℕ) : Exec Reply :=
  let text :=
    ((lines core.db.toText).filter fun l => !"ims ".toList.isPrefixOf l).flatMap (· ++ ['\n'])
  let text := text ++ "ims ".toList ++ List.intercalate [' '] rest ++ ['\n']
  match Db.parse text with
  | .error e => .ok (core.failed e.msg)
  | .ok db => do
    let core := { core with db := { core.db with ims := db.ims } }
    let i ← Exec.expect (core.db.ims : Option ImsConf)
    return core.done now ("ims pool ".toList ++ i.pool.display ++ ['/'] ++
      decimal i.prefixLen.toNat ++ " pcscf ".toList ++ i.pcscf.display ++ " domain ".toList ++
      i.domain)

def setPortCode (core : Core) (who code : Str) (now : ℕ) : Exec Reply :=
  match core.imsiOf who with
  | none => .ok (core.failed (noSub who))
  | some imsi =>
    if !validPortCode code then
      .ok (core.failed "a port-out code is 4-16 letters, digits and '-'".toList)
    else do
      let core ← core.changeSub imsi fun s => { s with ims := { s.ims with port := code } }
      return core.done now (imsi ++ " port-out code set".toList)

/-- The port-out code for a number with a nonce. -/
def portCode (prim : Primitives) (key : List Byte) (number nonce : Str) : Str :=
  let m := prim.hmac key [ascii "ECM-PORT", toUtf8 number, toUtf8 nonce]
  nonce ++ ['-'] ++ hex (m.take 4)

def issuePortCode (core : Core) (who : Str) (now : ℕ) : Exec Reply :=
  match core.imsiOf who with
  | none => .ok (core.failed (noSub who))
  | some imsi =>
    match core.db.enumKey with
    | none =>
      .ok (core.failed
        "no enum key (cored enum-key <hex>, the key IANA issued with the block)".toList)
    | some key => do
      let p := (← core.subAt imsi).ims
      if p.msisdn = [] then return core.failed (imsi ++ " has no number".toList)
      else if p.ported || (core.db.blockOf p.msisdn).isNone then
        return core.failed (p.msisdn ++ (" is not in this carrier's blocks: its block's holder " ++
          "issues its port-out codes").toList)
      else
        let (core, nonce) ← core.random 3
        let code := portCode core.prim key p.msisdn (hex nonce)
        let core ← core.changeSub imsi fun s => { s with ims := { s.ims with port := code } }
        return core.done now (imsi ++ " port-out code for ".toList ++ p.msisdn ++ " is ".toList ++
          code)

def setEnumKey (core : Core) (k : Str) (now : ℕ) : Reply :=
  match unhex 16 k with
  | none => core.failed "the enum key is 32 hex digits".toList
  | some key =>
    { core with db := { core.db with enumKey := some key } }.done now
      "enum key set (port-out codes are signed with it)".toList

/-! ## The commands -/

/-- A command as its name and its arguments. -/
def command (core : Core) (name : Str) (args : List Str) (now : ℕ) : Option (Exec Reply) :=
  let is (s : String) : Bool := name = s.toList
  match args with
  | [] =>
    if is "list" then some (.ok (core, .ok core.list))
    else if is "sites" then some (.ok (core, .ok core.sites))
    else if is "sessions" then some (.ok (core, .ok core.sessionList))
    else if is "blocks" then some (core.blocks.map fun answer => (core, .ok answer))
    else if is "numbers" then some (.ok (core, .ok core.numbers))
    else if is "ims-off" then
      some (.ok ({ core with db := { core.db with ims := none } }.done now
        "ims off (phones get no IMS bearer)".toList))
    else none
  | [a] =>
    if is "site-remove" then some (.ok (core.siteRemove a now))
    else if is "remove" then some (.ok (core.remove a now))
    else if is "revoke" then some (core.setRevoked a true now)
    else if is "unrevoke" then some (core.setRevoked a false now)
    else if is "reset-usage" then some (core.resetUsage a now)
    else if is "release" then some (.ok (core.release a now))
    else if is "block-add" then some (.ok (core.blockAdd a now))
    else if is "block-remove" then some (.ok (core.blockRemove a now))
    else if is "number" then some (.ok (core.number a none false now))
    else if is "number-release" then some (core.numberRelease a now)
    else if is "ims" then some (core.setIms [a] now)
    else if is "port-code" then some (core.issuePortCode a now)
    else if is "enum-key" then some (.ok (core.setEnumKey a now))
    else none
  | [a, b] =>
    if is "add" then some (.ok (core.add a b none none now))
    else if is "site-add" then some (.ok (core.siteAdd a b now))
    else if is "label" then some (core.setLabel a b now)
    else if is "quota" then some (core.setQuota a b now)
    else if is "number" then some (.ok (core.number a (some b) false now))
    else if is "number-move" then some (core.numberMove a b now)
    else if is "port-code" then some (core.setPortCode a b now)
    else if is "ims" then some (core.setIms [a, b] now)
    else none
  | [a, b, c] =>
    if is "add" then some (.ok (core.add a b (some c) none now))
    else if is "number" then
      if c = "ported".toList then some (.ok (core.number a (some b) true now)) else none
    else if is "feature" then some (core.feature a b c now)
    else if is "ims" then some (core.setIms [a, b, c] now)
    else none
  | a :: b :: c :: d :: rest =>
    if is "add" then
      if rest = [] then some (.ok (core.add a b (some c) (some d) now)) else none
    else if is "ims" then some (core.setIms (a :: b :: c :: d :: rest) now)
    else none

/-- An operator's line. -/
def admin (core : Core) (line : Str) (now : ℕ) : Exec Reply :=
  let unknown := core.failed (quoted "unknown command" (trim line))
  match words line with
  | [] => .ok unknown
  | name :: args => (core.command name args now).getD (.ok unknown)

end EvansComputer.Cell.Core
