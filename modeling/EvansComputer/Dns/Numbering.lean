import EvansComputer.Dns.Enum
import EvansComputer.Dns.Names
import EvansComputer.Library.OrderedMap

/-!
# The numbering administrator

Blocks of ten thousand numbers are granted to SIP domains, and single numbers are ported between
them with codes that the holder of the block makes.  The state is four tables, which are written to
a file and read back, and from which the zone `e164.arpa` is built.

HMAC-SHA256 is not part of the repository; it is the parameter `Hmac`.  The texts of the replies are
left out.
-/

namespace EvansComputer.Dns

open Text

/-- HMAC-SHA256: the tag of a message under a key. -/
abbrev Hmac := (key message : List Byte) → List Byte

def enumTtl : UInt32 := 300
def negativeTtl : UInt32 := 60

/-- `ECM-PORT` -/
def portTag : List Byte := [0x45, 0x43, 0x4d, 0x2d, 0x50, 0x4f, 0x52, 0x54]

instance lawfulEqOrd : Std.LawfulEqOrd (List Char ×ₗ List Char) where
  eq_of_compare {a b} h := by
    have hthen : (compare a.1 b.1).then (compare a.2 b.2) = .eq := h
    obtain ⟨h₁, h₂⟩ := Ordering.then_eq_eq.mp hthen
    exact Prod.ext (Std.LawfulEqOrd.eq_of_compare h₁) (Std.LawfulEqOrd.eq_of_compare h₂)

structure Numbering where
  /-- SIP domain: key and time. -/
  keys : OrderedMap (List Char) (List Char × UInt64) := ∅
  /-- Block (`+1214555`): domain and time. -/
  blocks : OrderedMap (List Char) (Name × UInt64) := ∅
  /-- Ported number: domain and time. -/
  ports : OrderedMap (List Char) (Name × UInt64) := ∅
  /-- Port-out codes spent: number and nonce. -/
  used : OrderedMap (List Char ×ₗ List Char) Unit := ∅

/-! ## What is typed in -/

/-- NPA and NXX: 3 digits, the first 2 to 9, not N11. -/
def nanp3 (g : List Char) : Bool :=
  g.length = 3 && g.all (·.isDigit) && '2' ≤ g.headD '0' && g.drop 1 ≠ ['1', '1']

/-- The digits of a number, if there is nothing else but separators. -/
def digitsOf (s : List Char) : Option (List Char) :=
  let d := s.filter fun c => c ∉ ['+', '-', ' ', '(', ')', '.']
  if d = [] ∨ !d.all (·.isDigit) then none else some d

/-- A block: the country code and one NPA-NXX. -/
def parseBlock (s cc : List Char) : Option (List Char) :=
  (digitsOf s).bind fun d =>
    let d := if d.length = 6 then cc ++ d else d
    ((stripPrefix cc d).filter (·.length = 6)).bind fun rest =>
      if cc = ['1'] ∧ !(nanp3 (rest.take 3) && nanp3 (rest.drop 3)) then none else some ('+' :: d)

/-- A number: the country code and 10 digits. -/
def parseNumber (s cc : List Char) : Option (List Char) :=
  (digitsOf s).bind fun d =>
    let d := if d.length = 10 then cc ++ d else d
    ((stripPrefix cc d).filter (·.length = 10)).bind fun _ =>
      (parseBlock (d.take (cc.length + 6)) cc).map fun _ => '+' :: d

/-- The block that a number is in. -/
def blockOf (number : List Char) : List Char := number.take (number.length - 4)

/-- A SIP domain: two or more labels, outside `arpa`. -/
def checkDomain (s : List Char) : Option Name :=
  (normalize s).filter fun d => d.contains '.' && (split (· = '.') d).all isLdh &&
    !isSub d "arpa".toList

/-! ## Keys and codes -/

def hexValue (c : Char) : Option ℕ :=
  if c.isDigit then some (c.toNat - 48)
  else if 'a' ≤ c ∧ c ≤ 'f' then some (c.toNat - 87)
  else if 'A' ≤ c ∧ c ≤ 'F' then some (c.toNat - 55)
  else none

/-- `u8::from_str_radix` of two characters, of which the first may be a sign. -/
def fromHex (a b : Char) : Option ℕ :=
  if a = '+' then hexValue b else (hexValue a).bind fun x => (hexValue b).map fun y => x * 16 + y

def unhexFrom : List Char → Option (List Byte)
  | a :: b :: rest => (fromHex a b).bind fun x => (unhexFrom rest).map (UInt8.ofNat x :: ·)
  | [] => some []
  | [_] => none

def unhex16 (s : List Char) : Option (List Byte) := if s.length ≠ 32 then none else unhexFrom s

def hexDigit (n : ℕ) : Char := Char.ofNat (if n < 10 then 48 + n else 87 + n)

def hexByte (b : Byte) : List Char := [hexDigit (b.toNat / 16), hexDigit (b.toNat % 16)]

/-- The 8 hex digits of a port-out code, under a key of 16 bytes. -/
def tag (hmac : Hmac) (key : List Byte) (number nonce : List Char) : List Char :=
  ((hmac key (portTag ++ number.flatMap String.utf8EncodeChar ++
    nonce.flatMap String.utf8EncodeChar)).take 4).flatMap hexByte

def mac (hmac : Hmac) (keyHex number nonce : List Char) : Option (List Char) :=
  (unhex16 keyHex).map fun key => tag hmac key number nonce

def checkKey (k : List Char) : Option (List Char) :=
  let k := (trim k).map Char.toLower
  if (unhex16 k).isNone then none else some k

def isHexDigit (c : Char) : Bool := (hexValue c).isSome

/-- The nonce and the tag of a code as it is typed in. -/
def readCode (code : List Char) : Option (List Char × List Char) :=
  let code := (trim code).map Char.toLower
  if '-' ∈ code then
    let nonce := code.takeWhile (· ≠ '-')
    let m := code.drop (nonce.length + 1)
    if byteLength nonce = 6 ∧ byteLength m = 8 ∧ code.all fun c =>
      isHexDigit c || c = '-' then some (nonce, m) else none
  else none

/-! ## Requests -/

inductive Refusal where
  | notABlock
  | notANumber
  | notADomain
  | held (owner : Name)
  | keyNeeded
  | badKey
  | wrongKey
  | noKey
  | notInService
  | notACode
  | ownerWithoutKey
  | wrongCode
  | usedCode
  | notHeld
  deriving DecidableEq

namespace Numbering

/-- The key that an application is under: that of the domain, or the fresh one, which is then
issued. -/
def applicant (n : Numbering) (d : Name) (key freshKey : List Char) :
    Except Refusal (Option (List Char)) :=
  match n.keys[d]? with
  | some (k, _) =>
    if key = [] then .error .keyNeeded
    else
      match checkKey key with
      | none => .error .badKey
      | some key => if key ≠ k then .error .wrongKey else .ok none
  | none =>
    match checkKey freshKey with
    | none => .error .badKey
    | some k => .ok (some k)

/-- Grant a block to a domain; the key that is issued is returned once. -/
def apply (n : Numbering) (cc block domain key freshKey : List Char) (now : UInt64) :
    Except Refusal (Numbering × Option (List Char)) :=
  match parseBlock block cc, checkDomain domain with
  | none, _ => .error .notABlock
  | some _, none => .error .notADomain
  | some b, some d =>
    match n.blocks[b]? with
    | some (owner, _) => .error (.held owner)
    | none =>
      match n.applicant d key freshKey with
      | .error e => .error e
      | .ok issued =>
        let keys := match issued with
          | some k => n.keys.insert d (k, now)
          | none => n.keys
        .ok ({ n with keys, blocks := n.blocks.insert b (d, now) }, issued)

/-- Is it the key of the domain? -/
def proves (n : Numbering) (d : Name) (key : List Char) : Except Refusal Unit :=
  match n.keys[d]? with
  | some (k, _) => if checkKey key = some k then .ok () else .error .wrongKey
  | none => .error .noKey

/-- The nonce of a code of the block's holder for a number, if it was not used yet. -/
def redeem (hmac : Hmac) (n : Numbering) (owner : Name) (number code : List Char) :
    Except Refusal (List Char) :=
  match readCode code with
  | none => .error .notACode
  | some (nonce, m) =>
    match n.keys[owner]? with
    | none => .error .ownerWithoutKey
    | some (ownerKey, _) =>
      if mac hmac ownerKey number nonce ≠ some m then .error .wrongCode
      else if n.used.contains (toLex (number, nonce)) then .error .usedCode
      else .ok nonce

/-- Port a number to a domain with a code of the block's holder. -/
def port (hmac : Hmac) (n : Numbering) (cc number domain code key : List Char) (now : UInt64) :
    Except Refusal Numbering :=
  match parseNumber number cc, checkDomain domain with
  | none, _ => .error .notANumber
  | some _, none => .error .notADomain
  | some num, some d =>
    match n.blocks[blockOf num]? with
    | none => .error .notInService
    | some (owner, _) =>
      match n.proves d key, n.redeem hmac owner num code with
      | .error e, _ => .error e
      | .ok _, .error e => .error e
      | .ok _, .ok nonce =>
        .ok { n with
          used := n.used.insert (toLex (num, nonce)) ()
          ports := if d = owner then n.ports.erase num else n.ports.insert num (d, now) }

/-- Take a block back: its numbers and their ports go out of service. -/
def revoke (n : Numbering) (cc block : List Char) : Except Refusal Numbering :=
  match parseBlock block cc with
  | none => .error .notABlock
  | some b =>
    if n.blocks.contains b then
      .ok { n with
        blocks := n.blocks.erase b
        ports := n.ports.filter fun num _ => blockOf num ≠ b
        used := n.used.filter fun code _ => blockOf (ofLex code).1 ≠ b }
    else .error .notHeld

/-! ## The file -/

def readTime (s : List Char) : UInt64 := UInt64.ofNat ((readUnsigned (2 ^ 64 - 1) s).getD 0)

/-- One line of the file, as its words; what is no line of this table is ignored. -/
def parseLine (n : Numbering) : List (List Char) → Numbering
  | [kind, a, b] => if kind =
    "enum-used".toList then { n with used := n.used.insert (toLex (a, b)) () } else n
  | [kind, a, b, c] =>
    if kind = "enum-key".toList then { n with keys := n.keys.insert a (b, readTime c) }
    else if kind = "enum-block".toList then { n with blocks := n.blocks.insert a (b, readTime c) }
    else if kind = "enum-port".toList then { n with ports := n.ports.insert a (b, readTime c) }
    else n
  | _ => n

def time (t : UInt64) : List Char := decimal t.toNat

/-- The lines of the file, as their words. -/
def entries (n : Numbering) : List (List (List Char)) :=
  n.keys.toList.map (fun e => ["enum-key".toList, e.1, e.2.1, time e.2.2]) ++
    n.blocks.toList.map (fun e => ["enum-block".toList, e.1, e.2.1, time e.2.2]) ++
    n.ports.toList.map (fun e => ["enum-port".toList, e.1, e.2.1, time e.2.2]) ++
    n.used.toList.map fun e => ["enum-used".toList, (ofLex e.1).1, (ofLex e.1).2]

def render (n : Numbering) : List Char := n.entries.flatMap fun ws => unwords ws ++ ['\n']

/-- Read what was written. -/
def reload (n : Numbering) : Numbering :=
  (lines n.render).foldl (fun n line => n.parseLine (words line)) {}

/-! ## The zone -/

def naptrRecord (name : Name) (domain : Name) : Record where
  name := name
  rtype := typeNaptr
  ttl := enumTtl
  data := .naptr (sipNaptr domain)

/-- The zone `e164.arpa`: a NAPTR record for each block and for each ported number. -/
def zone (n : Numbering) (serial : UInt32) (ns : Name) : Zone where
  origin := e164Arpa
  soaRecord :=
    { name := e164Arpa, rtype := typeSoa, ttl := 3600
      data := .soa ⟨ns, "hostmaster.".toList ++ ns, serial, 300, 60, 604800, negativeTtl⟩ }
  rest :=
    { name := e164Arpa, rtype := typeNs, ttl := 3600, data := .ns ns } ::
      (n.blocks.toList.map (fun e => naptrRecord (enumBlockDomain e.1) e.2.1) ++
        n.ports.toList.map fun e => naptrRecord (enumDomain e.1) e.2.1)
  soa := ⟨ns, "hostmaster.".toList ++ ns, serial, 300, 60, 604800, negativeTtl⟩
  soa_first := rfl

end Numbering

/-- What an answer says of a number. -/
def answerUri (number : List Char) : Lookup → Option (List Char)
  | .answer records => enumSipUri (naptrs records) number
  | _ => none

/-- The SIP URI of a number from a zone: by its own name, or, where that gives no answer, by that
of its block. -/
def route (z : Zone) (number : List Char) : Option (List Char) :=
  match z.lookup (enumDomain number) typeNaptr with
  | .answer records => enumSipUri (naptrs records) number
  | _ => answerUri number (z.lookup (enumBlockDomain (blockOf number)) typeNaptr)

end EvansComputer.Dns
