import EvansComputer.Dns.Registry

/-!
# The registrar

Accounts, the domains that each of them holds, and the calls of the API, each of which sends one
command to the registry at most.  The channel is the line protocol of the registry: what is sent is
one command for each of its lines, on a connection that is logged in, and the reply is that to the
first of them.

The hash of a password is the parameter `PasswordHash`.  A form is what it has for each of its
fields; the texts of the replies are left out.
-/

namespace EvansComputer.Dns

open Text

/-- Salted SHA-256 of a password, in hex. -/
abbrev PasswordHash := (salt password : List Char) → List Char

def maxDomains : ℕ := 5

structure Account where
  salt : List Char
  hash : List Char
  created : UInt64
  deriving DecidableEq

structure Accounts where
  accounts : OrderedMap (List Char) Account := ∅
  /-- The handle that holds a domain. -/
  holds : OrderedMap (List Char) (List Char) := ∅

def checkHandle (h : List Char) : Bool :=
  2 ≤ byteLength h && byteLength h ≤ 32 && h.all fun c => c.isAlphanum || c = '-' || c = '_'

/-- The fields of a form. -/
abbrev Form := List Char → Option (List Char)

def Form.field (f : Form) (key : String) : List Char := (f key.toList).getD []

namespace Accounts

def create (hash : PasswordHash) (a : Accounts) (handle password salt : List Char) (now : UInt64) :
    Option Accounts :=
  if !checkHandle handle then none
  else if byteLength password < 4 then none
  else if a.accounts.contains handle then none
  else some { a with accounts := a.accounts.insert handle ⟨salt, hash salt password, now⟩ }

def check (hash : PasswordHash) (a : Accounts) (handle password : List Char) : Bool :=
  (a.accounts[handle]?).any fun acc => hash acc.salt password = acc.hash

def domainsOf (a : Accounts) (handle : List Char) : List (List Char) :=
  (a.holds.toList.filter fun e => e.2 = handle).map (·.1)

/-- The domain of a form, under the TLD of the registrar. -/
def domain (tld : Name) (f : Form) : Option Name :=
  let d := trim (f.field "domain")
  if d = [] then none else (normalize d).filter fun n => ('.' :: tld).isSuffixOf n

/-- The handle of a form, with the right password. -/
def auth (hash : PasswordHash) (a : Accounts) (f : Form) : Option (List Char) :=
  let h := f.field "handle"
  if h = [] then none else if a.check hash h (f.field "password") then some h else none

/-- The domain must be this account's. -/
def mine (hash : PasswordHash) (tld : Name) (a : Accounts) (f : Form) : Option (List Char × Name) :=
  (a.auth hash f).bind fun h => (domain tld f).bind fun d =>
    if a.holds[d]? = some h then some (h, d) else none

/-- What a call comes to: a reply, or a command to the registry and the accounts if that
succeeds. -/
inductive Action where
  | done (ok : Bool) (accounts : Accounts)
  | epp (line : List Char) (onOk : Accounts)

/-- One call of the API; `salt` is fresh for a new account. -/
def api (hash : PasswordHash) (tld : Name) (a : Accounts) (f : Form) (salt : List Char)
    (now : UInt64) : Action :=
  let op := f.field "op"
  let fail := Action.done false a
  if op = "account".toList then
    match a.create hash (f.field "handle") (f.field "password") salt now with
    | some a => .done true a
    | none => fail
  else if op = "login".toList then .done (a.auth hash f).isSome a
  else if op = "check".toList then
    match domain tld f with
    | some d => .epp ("CHECK ".toList ++ d) a
    | none => fail
  else if op = "register".toList then
    match a.auth hash f, domain tld f with
    | some h, some d =>
      if (a.domainsOf h).length ≥ maxDomains then fail
      else .epp ("CREATE ".toList ++ d ++ ' ' :: h) { a with holds := a.holds.insert d h }
    | _, _ => fail
  else if op = "set".toList then
    match a.mine hash tld f with
    | none => fail
    | some (_, d) =>
      let name := (f "name".toList).getD ['@']
      let t := f.field "type"
      let data := f.field "data"
      let ttl := if f.field "ttl" = [] then decimal defaultTtl.toNat else f.field "ttl"
      if t = [] ∨ data = [] then fail
      else .epp ("UPDATE ".toList ++ d ++ ' ' ::
        ("RR ADD ".toList ++ name ++ ' ' :: (ttl ++ ' ' :: (t ++ ' ' :: data)))) a
  else if op = "del".toList then
    match a.mine hash tld f with
    | none => fail
    | some (_, d) =>
      let name := (f "name".toList).getD ['@']
      .epp (trimEnd ("UPDATE ".toList ++ d ++ ' ' ::
        ("RR DEL ".toList ++ name ++ ' ' :: (f.field "type" ++ ' ' :: f.field "data")))) a
  else if op = "ns".toList then
    match a.mine hash tld f with
    | none => fail
    | some (_, d) =>
      let list := (split (fun c => c = ',' || c = ' ') (f.field "ns")).filter (· ≠ [])
      if list = [] then .epp ("UPDATE ".toList ++ d ++ ' ' :: "NS HOSTED".toList) a
      else .epp ("UPDATE ".toList ++ d ++ ' ' :: ("NS SET ".toList ++ unwords list)) a
  else if op = "show".toList then
    match a.mine hash tld f with
    | none => fail
    | some (_, d) => .epp ("INFO ".toList ++ d) a
  else if op = "delete".toList then
    match a.mine hash tld f with
    | none => fail
    | some (_, d) => .epp ("DELETE ".toList ++ d) { a with holds := a.holds.erase d }
  else if op = "list".toList then .done (a.auth hash f).isSome a
  else fail

end Accounts

/-! ## The channel -/

/-- The registry reads commands, one a line, until it closes the connection: whether each was
replied to with `OK`. -/
def Registry.serve (now : UInt64) (published : ℕ → Bool) :
    ℕ → Registry → Session → List (List Char) → List Bool × Registry
  | _, r, _, [] => ([], r)
  | i, r, sess, line :: rest =>
    if trim line = [] then serve now published i r sess rest
    else
      let (reply, r, sess) := r.command sess (trim line) now
      -- a change that could not be published is an error
      let ok := reply.code.isNone && (!reply.changed || published i)
      if reply.close then ([ok], r)
      else
        let (oks, r) := serve now published (i + 1) r sess rest
        (ok :: oks, r)

/-- What the registrar is configured with. -/
structure RegistrarConf where
  id : List Char
  secret : List Char
  tld : Name
  isWord_id : IsWord id
  isWord_secret : IsWord secret

structure DomainService where
  accounts : Accounts := {}
  registry : Registry

/-- A call of the API; `published` says which changes could be published. -/
structure ApiCall where
  form : Form
  salt : List Char
  now : UInt64
  published : ℕ → Bool := fun _ => true

namespace DomainService

/-- One command on a connection that was logged in: whether the reply is `OK`. -/
def send (conf : RegistrarConf) (r : Registry) (line : List Char) (now : UInt64)
    (published : ℕ → Bool) : Bool × Registry :=
  let (login, r, sess) := r.command {} ("LOGIN ".toList ++ conf.id ++ ' ' :: conf.secret) now
  if login.code.isSome then (false, r)
  else
    let (oks, r) := r.serve now published 0 sess (lines (line ++ ['\r', '\n']))
    (oks.headD false, r)

/-- One call: whether it reports success, and what it leaves. -/
def call (hash : PasswordHash) (conf : RegistrarConf) (s : DomainService) (c : ApiCall) :
    Bool × DomainService :=
  match s.accounts.api hash conf.tld c.form c.salt c.now with
  | .done ok accounts => (ok, { s with accounts })
  | .epp line onOk =>
    let (ok, registry) := send conf s.registry line c.now c.published
    (ok, { accounts := if ok then onOk else s.accounts, registry })

def run (hash : PasswordHash) (conf : RegistrarConf) (s : DomainService) (cs : List ApiCall) :
    DomainService :=
  cs.foldl (fun s c => (s.call hash conf c).2) s

end DomainService

end EvansComputer.Dns
