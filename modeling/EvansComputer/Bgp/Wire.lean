import EvansComputer.Library.Cursor
import EvansComputer.Net.Types

/-!
# BGP messages on the wire

BGP-4 framing, the attributes of an IPv4 unicast UPDATE and the capabilities of
an OPEN, encoded and decoded as `wire.rs` does.

An AS path is kept flat: the list of AS numbers, and beside it the AS_SET
segments as pairs of an offset and a length.  The encoder cuts the sequence
between sets into chunks of at most 255 and the decoder joins them again.  A
loop of the decoder over a byte string is `readAll` with the loop's body; where
the source returns an error from inside, so does the body.
-/

namespace EvansComputer.Bgp

def maxMessage : ℕ := 4096

/-! ## Data -/

/-- An IPv4 prefix. -/
structure Prefix where
  address : Ipv4Addr
  len : UInt8
  deriving DecidableEq

/-- `Prefix::new`: the length is at most 32 and the bits behind it are zero. -/
def Prefix.new (address : Ipv4Addr) (len : UInt8) : Prefix where
  address := address.networkAddr (min len 32)
  len := min len 32

/-- The attributes of a route.  `pathSets` has the offset and the length of each
AS_SET in the flattened `path`. -/
structure Attributes where
  path : List UInt32
  pathSets : List (ℕ × ℕ)
  origin : Byte
  med : UInt32
  localPref : UInt32
  nextHop : Ipv4Addr
  communities : List UInt32
  unknownTransitive : List (Byte × List Byte)
  deriving DecidableEq

def Attributes.default : Attributes where
  path := []
  pathSets := []
  origin := 0
  med := 0
  localPref := 100
  nextHop := Ipv4Addr.zero
  communities := []
  unknownTransitive := []

/-- A BGP message. -/
inductive Message where
  | open (asn : UInt32) (hold : UInt16) (id : Ipv4Addr) (as4 refresh : Bool)
  | update (withdrawn : List Prefix) (attributes : Attributes) (nlri : List Prefix)
  | notification (code subcode : Byte)
  | keepalive
  | refresh
  deriving DecidableEq

/-- The codes of the NOTIFICATION that answers a malformed message. -/
structure WireError where
  code : Byte
  subcode : Byte
  deriving DecidableEq

/-- The AS number that stands for one of more than sixteen bits. -/
def asTrans (asn : UInt32) : UInt16 := if 65535 < asn then 23456 else asn.toUInt16

/-! ## Encoding -/

/-- The bytes of a prefix on the wire: as many as its length needs. -/
def putPrefix (p : Prefix) : List Byte := p.len :: p.address.bytes.take ((p.len.toNat + 7) / 8)

def putPrefixes (ps : List Prefix) : List Byte := ps.flatMap putPrefix

/-- A path attribute, with a two-byte length where one byte is too short. -/
def attr (flags kind : Byte) (value : List Byte) : List Byte :=
  if 255 < value.length then
    [flags ||| 16, kind] ++ u16ToBe (UInt16.ofNat value.length) ++ value
  else [flags, kind, UInt8.ofNat value.length] ++ value

/-- An AS number in a path. -/
def putAsn (as4 : Bool) (asn : UInt32) : List Byte :=
  if as4 then u32ToBe asn else u16ToBe (asTrans asn)

/-- Where the segment that begins at `start` ends: with the set there, else
before the next set, after at most 255. -/
def segmentEnd (length : ℕ) (sets : List (ℕ × ℕ)) (start : ℕ) : ℕ :=
  match sets.find? fun s => s.1 == start with
  | some s => start + s.2
  | none =>
    min ((((sets.filter fun s => start < s.1).map Prod.fst).min?).getD length) (start + 255)

/-- The loop of `put_path`.  Every set has a member, so that each turn moves on
and the length of the path bounds the turns. -/
def putPathLoop (p : List UInt32) (sets : List (ℕ × ℕ)) (as4 : Bool) : ℕ → ℕ → List Byte
  | 0, _ => []
  | fuel + 1, start =>
    if start < p.length then
      let stop := segmentEnd p.length sets start
      let chunk := (p.take stop).drop start
      let kind : Byte := if (sets.find? fun s => s.1 == start).isSome then 1 else 2
      kind :: UInt8.ofNat chunk.length :: chunk.flatMap (putAsn as4) ++
        putPathLoop p sets as4 fuel stop
    else []

def putPath (p : List UInt32) (sets : List (ℕ × ℕ)) (as4 : Bool) : List Byte :=
  putPathLoop p sets as4 p.length 0

/-- The attributes of an UPDATE that announces something. -/
def putAttributes (a : Attributes) (as4 internal : Bool) : List Byte :=
  attr 64 1 [a.origin] ++
  attr 64 2 (putPath a.path a.pathSets as4) ++
  attr 64 3 a.nextHop.bytes ++
  (if !as4 && a.path.any (fun asn => 65535 < asn) then
    attr 192 17 (putPath a.path a.pathSets true) else []) ++
  attr 128 4 (u32ToBe a.med) ++
  (if internal then attr 64 5 (u32ToBe a.localPref) else []) ++
  (if a.communities = [] then [] else attr 192 8 (a.communities.flatMap u32ToBe)) ++
  a.unknownTransitive.flatMap fun u => attr 224 u.1 u.2

/-- The capabilities of an OPEN. -/
def putCapabilities (asn : UInt32) (as4 refresh : Bool) : List Byte :=
  [1, 4, 0, 1, 0, 1] ++ (if as4 then [65, 4] ++ u32ToBe asn else []) ++
    (if refresh then [2, 0] else [])

/-- The type of a message and what follows its header. -/
def Message.body (m : Message) (as4 internal : Bool) : Byte × List Byte :=
  match m with
  | .open asn hold id four refreshes =>
    let caps := putCapabilities asn four refreshes
    (1, 4 :: u16ToBe (asTrans asn) ++ u16ToBe hold ++ id.bytes ++
      [UInt8.ofNat (caps.length + 2), 2, UInt8.ofNat caps.length] ++ caps)
  | .keepalive => (4, [])
  | .notification code subcode => (3, [code, subcode])
  | .refresh => (5, [0, 1, 0, 1])
  | .update withdrawn a nlri =>
    let w := putPrefixes withdrawn
    let v := if nlri = [] then [] else putAttributes a as4 internal
    (2, u16ToBe (UInt16.ofNat w.length) ++ w ++ u16ToBe (UInt16.ofNat v.length) ++ v ++
      putPrefixes nlri)

/-- A header, which gives a length and a type, and what follows it. -/
def frame (len : ℕ) (kind : Byte) (body : List Byte) : List Byte :=
  List.replicate 16 255 ++ u16ToBe (UInt16.ofNat len) ++ kind :: body

@[simp] theorem length_frame (n : ℕ) (kind : Byte) (body : List Byte) :
    (frame n kind body).length = 19 + body.length := by
  simp only [frame, List.length_append, List.length_replicate, length_u16ToBe, List.length_cons]
  omega

def Message.encodeForPeer (m : Message) (as4 internal : Bool) : List Byte :=
  let body := m.body as4 internal
  frame (19 + body.2.length) body.1 body.2

def Message.encode (m : Message) (as4 : Bool) : List Byte := m.encodeForPeer as4 true

/-! ## Decoding -/

/-- The loop body of `prefixes`. -/
def prefixItem (ps : List Prefix) : List Byte → Except WireError (List Prefix × List Byte)
  | [] => .error ⟨3, 10⟩
  | bits :: rest =>
    if 32 < bits then .error ⟨3, 10⟩
    else
      match splitOff ((bits.toNat + 7) / 8) rest with
      | none => .error ⟨3, 10⟩
      | some (bytes, rest) => .ok (ps ++ [Prefix.new (Ipv4Addr.fromBytes bytes) bits], rest)

def prefixes (data : List Byte) : Except WireError (List Prefix) := readAll prefixItem [] data

/-- `count` AS numbers from the front of the data. -/
def readAsns (as4 : Bool) : ℕ → List Byte → Option (List UInt32 × List Byte)
  | 0, data => some ([], data)
  | count + 1, data =>
    match as4, data with
    | true, a :: b :: c :: d :: rest =>
      (readAsns as4 count rest).map fun r => (u32FromBe a b c d :: r.1, r.2)
    | false, a :: b :: rest =>
      (readAsns as4 count rest).map fun r => ((u16FromBe a b).toUInt32 :: r.1, r.2)
    | _, _ => none

/-- A path as the decoder builds it: the AS numbers and the sets among them. -/
abbrev Path := List UInt32 × List (ℕ × ℕ)

/-- The loop body of `path`. -/
def pathItem (as4 : Bool) (p : Path) : List Byte → Except WireError (Path × List Byte)
  | kind :: count :: rest =>
    if (kind ≠ 1 ∧ kind ≠ 2) ∨ count = 0 then .error ⟨3, 11⟩
    else
      let sets := if kind = 1 then p.2 ++ [(p.1.length, count.toNat)] else p.2
      match readAsns as4 count.toNat rest with
      | none => .error ⟨3, 11⟩
      | some (asns, rest) => .ok ((p.1 ++ asns, sets), rest)
  | _ => .error ⟨3, 11⟩

def path (value : List Byte) (as4 : Bool) : Except WireError Path :=
  readAll (pathItem as4) ([], []) value

/-- What the capabilities of an OPEN have said so far. -/
structure OpenState where
  asn : UInt32
  four : Bool
  refresh : Bool
  deriving DecidableEq

def capabilityItem (s : OpenState) : List Byte → Except WireError (OpenState × List Byte)
  | kind :: len :: rest =>
    match splitOff len.toNat rest with
    | none => .error ⟨2, 4⟩
    | some (body, rest) =>
      if kind = 65 then
        match body with
        | [a, b, c, d] => .ok ({ s with four := true, asn := u32FromBe a b c d }, rest)
        | _ => .ok (s, rest)
      else if kind = 2 ∧ body = [] then .ok ({ s with refresh := true }, rest)
      else .ok (s, rest)
  | _ => .error ⟨2, 4⟩

/-- An optional parameter of an OPEN: only capabilities are known. -/
def parameterItem (s : OpenState) : List Byte → Except WireError (OpenState × List Byte)
  | kind :: len :: rest =>
    match splitOff len.toNat rest with
    | none => .error ⟨2, 4⟩
    | some (v, rest) =>
      if kind ≠ 2 then .error ⟨2, 4⟩
      else
        match readAll capabilityItem s v with
        | .error e => .error e
        | .ok s => .ok (s, rest)
  | _ => .error ⟨2, 4⟩

def decodeOpen (p : List Byte) : Except WireError Message :=
  match p with
  | version :: a₁ :: a₂ :: h₁ :: h₂ :: i₁ :: i₂ :: i₃ :: i₄ :: optional :: rest =>
    if version ≠ 4 ∨ rest.length ≠ optional.toNat then .error ⟨2, 4⟩
    else
      let hold := u16FromBe h₁ h₂
      if hold = 1 ∨ hold = 2 then .error ⟨2, 6⟩
      else
        let id : Ipv4Addr := ⟨i₁, i₂, i₃, i₄⟩
        if id.isUnspecified || id.isMulticast || id.isBroadcast then .error ⟨2, 3⟩
        else
          match readAll parameterItem ⟨(u16FromBe a₁ a₂).toUInt32, false, false⟩ rest with
          | .error e => .error e
          | .ok s => .ok (.open s.asn hold id s.four s.refresh)
  | _ => .error ⟨2, 4⟩

/-- What the attributes of an UPDATE have said so far.  `seen` has the kinds that
have occurred. -/
structure UpdateState where
  attributes : Attributes
  seen : List Byte
  as4path : Option Path
  mpNlri : List Prefix
  mpWithdraw : List Prefix
  deriving DecidableEq

def UpdateState.start : UpdateState := ⟨Attributes.default, [], none, [], []⟩

/-- The flags that an attribute of this kind must have. -/
def requiredFlags (kind : Byte) : Option Byte :=
  if kind = 1 ∨ kind = 2 ∨ kind = 3 ∨ kind = 5 then some 64
  else if kind = 4 ∨ kind = 14 ∨ kind = 15 then some 128
  else if kind = 8 ∨ kind = 17 then some 192
  else none

/-- The communities in a value whose length is a multiple of four. -/
def readCommunities : List Byte → List UInt32
  | a :: b :: c :: d :: rest => u32FromBe a b c d :: readCommunities rest
  | _ => []

/-- The `match kind` of the decoder.  A value of a known kind that does not have
the form of that kind is an attribute length error. -/
def readValue (as4 : Bool) (s : UpdateState) (flags kind : Byte) (v : List Byte) :
    Except WireError UpdateState :=
  let a := s.attributes
  if kind = 1 then
    match v with
    | [origin] =>
      if origin ≤ 2 then .ok { s with attributes := { a with origin := origin } }
      else .error ⟨3, 5⟩
    | _ => .error ⟨3, 5⟩
  else if kind = 2 then
    match path v as4 with
    | .error e => .error e
    | .ok p => .ok { s with attributes := { a with path := p.1, pathSets := p.2 } }
  else if kind = 3 then
    match v with
    | [b₁, b₂, b₃, b₄] => .ok { s with attributes := { a with nextHop := ⟨b₁, b₂, b₃, b₄⟩ } }
    | _ => .error ⟨3, 5⟩
  else if kind = 4 then
    match v with
    | [b₁, b₂, b₃, b₄] => .ok { s with attributes := { a with med := u32FromBe b₁ b₂ b₃ b₄ } }
    | _ => .error ⟨3, 5⟩
  else if kind = 5 then
    match v with
    | [b₁, b₂, b₃, b₄] =>
      .ok { s with attributes := { a with localPref := u32FromBe b₁ b₂ b₃ b₄ } }
    | _ => .error ⟨3, 5⟩
  else if kind = 8 then
    if v.length % 4 = 0 then
      .ok { s with attributes := { a with communities := readCommunities v } }
    else .error ⟨3, 5⟩
  else if kind = 17 then
    match path v true with
    | .error e => .error e
    | .ok p => .ok { s with as4path := some p }
  else if kind = 14 then
    match v with
    | 0 :: 1 :: 1 :: 4 :: b₁ :: b₂ :: b₃ :: b₄ :: _ :: rest =>
      match prefixes rest with
      | .error e => .error e
      | .ok ps =>
        .ok { s with attributes := { a with nextHop := ⟨b₁, b₂, b₃, b₄⟩ }, mpNlri := ps }
    | _ => .error ⟨3, 5⟩
  else if kind = 15 then
    match v with
    | 0 :: 1 :: 1 :: rest =>
      match prefixes rest with
      | .error e => .error e
      | .ok ps => .ok { s with mpWithdraw := ps }
    | _ => .error ⟨3, 5⟩
  else if flags &&& 128 = 0 then .error ⟨3, 2⟩
  else if flags &&& 64 ≠ 0 then
    .ok { s with attributes := { a with unknownTransitive := a.unknownTransitive ++ [(kind, v)] } }
  else .ok s

/-- The header of an attribute: its flags, kind and value, and the rest. -/
def readHeader : List Byte → Option (Byte × Byte × List Byte × List Byte)
  | flags :: kind :: l₁ :: rest =>
    if flags &&& 16 ≠ 0 then
      match rest with
      | [] => none
      | l₂ :: rest =>
        (splitOff (u16FromBe l₁ l₂).toNat rest).map fun r => (flags, kind, r.1, r.2)
    else (splitOff l₁.toNat rest).map fun r => (flags, kind, r.1, r.2)
  | _ => none

/-- The flags of an attribute do not fit its kind. -/
def badFlags (flags kind : Byte) : Bool :=
  flags &&& 15 != 0 || (requiredFlags kind).any (fun expected => flags &&& 192 != expected) ||
    (flags &&& 32 != 0 && flags &&& 192 != 192)

/-- The loop body over the attributes. -/
def attributeItem (as4 : Bool) (s : UpdateState) (data : List Byte) :
    Except WireError (UpdateState × List Byte) :=
  match readHeader data with
  | none => .error ⟨3, 1⟩
  | some (flags, kind, v, rest) =>
    if kind ∈ s.seen then .error ⟨3, 1⟩
    else if badFlags flags kind then .error ⟨3, 4⟩
    else
      match readValue as4 { s with seen := kind :: s.seen } flags kind v with
      | .error e => .error e
      | .ok s => .ok (s, rest)

/-- Put the path of four-byte AS numbers in place of the end of the other.  A
set is never cut: its membership is indivisible. -/
def spliceAs4 (a : Attributes) (p : Path) : Except WireError Attributes :=
  if p.1.length ≤ a.path.length then
    let keep := a.path.length - p.1.length
    if a.pathSets.any fun s => s.1 < keep && keep < s.1 + s.2 then .error ⟨3, 11⟩
    else .ok { a with
      path := a.path.take keep ++ p.1
      pathSets := (a.pathSets.filter fun s => s.1 < keep) ++ p.2.map fun s => (s.1 + keep, s.2) }
  else .ok a

/-- The path of four-byte AS numbers counts only where the peer does not send
them in the path itself. -/
def mergeAs4 (as4 : Bool) (s : UpdateState) : Except WireError Attributes :=
  match as4, s.as4path with
  | false, some p => spliceAs4 s.attributes p
  | _, _ => .ok s.attributes

/-- The three parts of an UPDATE: withdrawn routes, attributes and NLRI. -/
def splitUpdate (p : List Byte) : Option (List Byte × List Byte × List Byte) :=
  match p with
  | w₁ :: w₂ :: rest =>
    match splitOff (u16FromBe w₁ w₂).toNat rest with
    | some (w, a₁ :: a₂ :: rest) =>
      (splitOff (u16FromBe a₁ a₂).toNat rest).map fun r => (w, r.1, r.2)
    | _ => none
  | _ => none

def isBadNextHop (ip : Ipv4Addr) : Bool := ip.isUnspecified || ip.isMulticast || ip.isBroadcast

/-- What the decoder makes of the attributes it read, and of the other two
parts. -/
def finishUpdate (as4 : Bool) (w rest : List Byte) (s : UpdateState) :
    Except WireError Message := do
  let a ← mergeAs4 as4 s
  let nlri := (← prefixes rest) ++ s.mpNlri
  if nlri ≠ [] ∧ (1 ∉ s.seen ∨ 2 ∉ s.seen ∨ (3 ∉ s.seen ∧ 14 ∉ s.seen)) then .error ⟨3, 3⟩
  else if nlri ≠ [] ∧ isBadNextHop a.nextHop then .error ⟨3, 8⟩
  else return .update ((← prefixes w) ++ s.mpWithdraw) a nlri

def decodeUpdate (as4 : Bool) (p : List Byte) : Except WireError Message :=
  if p.length < 4 then .error ⟨3, 1⟩
  else
    match splitUpdate p with
    | none => .error ⟨3, 1⟩
    | some (w, values, rest) => do
      let s ← readAll (attributeItem as4) UpdateState.start values
      finishUpdate as4 w rest s

/-- A message by its type. -/
def decodeBody (as4 : Bool) (kind : Byte) (p : List Byte) : Except WireError Message :=
  if kind = 1 then decodeOpen p
  else if kind = 4 ∧ p = [] then .ok .keepalive
  else if kind = 2 then decodeUpdate as4 p
  else if kind = 5 ∧ p = [0, 1, 0, 1] then .ok .refresh
  else
    match kind, p with
    | 3, code :: subcode :: _ => .ok (.notification code subcode)
    | _, _ => .error ⟨1, 3⟩

/-- No message means an incomplete frame; errors hold NOTIFICATION codes. -/
def Message.decode (data : List Byte) (as4 : Bool) : Except WireError (Option (Message × ℕ)) :=
  if data.length < 19 then .ok none
  else if data.take 16 ≠ List.replicate 16 255 then .error ⟨1, 1⟩
  else
    let len := (u16FromBe (data.getD 16 0) (data.getD 17 0)).toNat
    if len < 19 ∨ maxMessage < len then .error ⟨1, 2⟩
    else if data.length < len then .ok none
    else
      match decodeBody as4 (data.getD 18 0) ((data.take len).drop 19) with
      | .error e => .error e
      | .ok m => .ok (some (m, len))

/-! ## Malformed updates -/

/-- The loop body of `withdraw_malformed_update`: only the reachability
attributes matter, and they must be IPv4 unicast. -/
def malformedItem (ps : List Prefix) (data : List Byte) :
    Except Unit (List Prefix × List Byte) :=
  match readHeader data with
  | none => .error ()
  | some (_, kind, v, rest) =>
    if kind = 14 then
      match v with
      | 0 :: 1 :: 1 :: 4 :: _ :: _ :: _ :: _ :: _ :: nlri =>
        match prefixes nlri with
        | .error _ => .error ()
        | .ok qs => .ok (ps ++ qs, rest)
      | _ => .error ()
    else if kind = 15 then
      match v with
      | 0 :: 1 :: 1 :: nlri =>
        match prefixes nlri with
        | .error _ => .error ()
        | .ok qs => .ok (ps ++ qs, rest)
      | _ => .error ()
    else .ok (ps, rest)

/-- Treat a malformed UPDATE as a withdrawal of all it names, where its IPv4 NLRI
can be delimited safely. -/
def withdrawMalformedUpdate (data : List Byte) : Option (Message × ℕ) :=
  if data.length < 23 ∨ data.getD 18 0 ≠ 2 then none
  else
    let len := (u16FromBe (data.getD 16 0) (data.getD 17 0)).toNat
    if data.length < len ∨ len < 23 then none
    else do
      let (w, values, rest) ← splitUpdate ((data.take len).drop 19)
      let withdrawn ← (prefixes w).toOption
      let nlri ← (prefixes rest).toOption
      let withdrawn ← (readAll malformedItem (withdrawn ++ nlri) values).toOption
      return (.update withdrawn Attributes.default [], len)

end EvansComputer.Bgp
