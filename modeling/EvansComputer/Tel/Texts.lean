import Mathlib

/-!
# Texts and their parts

The alphabet of seven bits and UCS-2, the user data of a text with its header, and how a long text
is cut into parts and joined again.

Of a header the elements are those that concatenate and all others.  A position in a text is a
number of characters.
-/

namespace EvansComputer.Tel.Sms

abbrev Byte := UInt8

/-! ## The default alphabet -/

def gsmEsc : Byte := 0x1B

/-- The basic table: the character of each septet. -/
def gsmBasic : List Char :=
  ['@', '£', '$', '¥', 'è', 'é', 'ù', 'ì', 'ò', 'Ç', '\n', 'Ø', 'ø', '\r', 'Å', 'å',
    'Δ', '_', 'Φ', 'Γ', 'Λ', 'Ω', 'Π', 'Ψ', 'Σ', 'Θ', 'Ξ', Char.ofNat 0x1B, 'Æ', 'æ', 'ß', 'É',
    ' ', '!', Char.ofNat 0x22, '#', '¤', '%', '&', Char.ofNat 0x27, '(', ')', '*', '+', ',',
      '-', '.', '/',
    '0', '1', '2', '3', '4', '5', '6', '7', '8', '9', ':', ';', '<', '=', '>', '?',
    '¡', 'A', 'B', 'C', 'D', 'E', 'F', 'G', 'H', 'I', 'J', 'K', 'L', 'M', 'N', 'O',
    'P', 'Q', 'R', 'S', 'T', 'U', 'V', 'W', 'X', 'Y', 'Z', 'Ä', 'Ö', 'Ñ', 'Ü', '§',
    '¿', 'a', 'b', 'c', 'd', 'e', 'f', 'g', 'h', 'i', 'j', 'k', 'l', 'm', 'n', 'o',
    'p', 'q', 'r', 's', 't', 'u', 'v', 'w', 'x', 'y', 'z', 'ä', 'ö', 'ñ', 'ü', 'à']

/-- The extension table: the code after an escape, and its character. -/
def gsmExt : List (Byte × Char) :=
  [(0x0A, Char.ofNat 0x0C), (0x14, '^'), (0x28, '{'), (0x29, '}'), (0x2F, Char.ofNat 0x5C),
    (0x3C, '['), (0x3D, '~'), (0x3E, ']'), (0x40, '|'), (0x65, '€')]

/-- The septet of a character, and the code behind it where that is an escape. -/
def gsm7Lookup (c : Char) : Option (Byte × Option Byte) :=
  if c = Char.ofNat 0x1B then none
  else
    match gsmBasic.idxOf? c with
    | some i => some (UInt8.ofNat i, none)
    | none => (gsmExt.find? fun e => e.2 = c).map fun e => (gsmEsc, some e.1)

def gsm7Cost (c : Char) : Option ℕ := (gsm7Lookup c).map fun s => if s.2.isSome then 2 else 1

def gsm7Encodable (text : List Char) : Bool := text.all fun c => (gsm7Lookup c).isSome

/-- The septets of one character. -/
def septetsOf (s : Byte × Option Byte) : List Byte := s.1 :: s.2.toList

def gsm7Encode (text : List Char) : Option (List Byte) :=
  (text.mapM gsm7Lookup).map (·.flatMap septetsOf)

def gsm7Basic (s : Byte) : Char := gsmBasic.getD s.toNat ' '

/-- An unknown extension is its basic character, and an escape before an escape or at the end a
space. -/
def gsm7Decode : List Byte → List Char
  | [] => []
  | s :: rest =>
    if s &&& 0x7F ≠ gsmEsc then gsm7Basic (s &&& 0x7F) :: gsm7Decode rest
    else
      match rest with
      | [] => [' ']
      | e :: rest =>
        if e &&& 0x7F = gsmEsc then ' ' :: gsm7Decode rest
        else
          match gsmExt.find? fun x => x.1 = e &&& 0x7F with
          | some x => x.2 :: gsm7Decode rest
          | none => gsm7Basic (e &&& 0x7F) :: gsm7Decode rest

def orAt (l : List Byte) (i : ℕ) (b : Byte) : List Byte := l.modify i (· ||| b)

/-- Septets from the least significant bit on, from the bit `bit` on. -/
def packFrom : List Byte → ℕ → List Byte → List Byte
  | out, _, [] => out
  | out, bit, s :: septets =>
    let v := (s &&& 0x7F).toUInt16 <<< UInt16.ofNat (bit % 8)
    let out := orAt out (bit / 8) v.toUInt8
    let out := if bit % 8 > 1 then orAt out (bit / 8 + 1) (v >>> 8).toUInt8 else out
    packFrom out (bit + 7) septets

def divCeil (a b : ℕ) : ℕ := (a + b - 1) / b

def packSeptets (septets : List Byte) (fillBits : ℕ) : List Byte :=
  packFrom (List.replicate (divCeil (fillBits + 7 * septets.length) 8) 0) fillBits septets

/-- The septet that starts at a bit. -/
def septetAt (bytes : List Byte) (bit : ℕ) : Byte :=
  let v := (bytes.getD (bit / 8) 0).toUInt16 >>> UInt16.ofNat (bit % 8)
  let v := if bit % 8 > 1 then v ||| (bytes.getD (bit / 8 + 1) 0).toUInt16 <<< UInt16.ofNat
    (8 - bit % 8) else v
  (v &&& 0x7F).toUInt8

inductive SmsError where
  | truncated
  | invalid (what : String)
  | unsupported (what : String)
  deriving DecidableEq

def unpackSeptets (bytes : List Byte) (fillBits count : ℕ) : Except SmsError (List Byte) :=
  if bytes.length < divCeil (count * 7 + fillBits) 8 then .error .truncated
  else .ok ((List.range count).map fun i => septetAt bytes (fillBits + 7 * i))

/-! ## UCS-2 -/

def lenUtf16 (c : Char) : ℕ := if c.toNat < 0x10000 then 1 else 2

def utf16Units (c : Char) : List UInt16 :=
  if c.toNat < 0x10000 then [UInt16.ofNat c.toNat]
  else [UInt16.ofNat (0xD800 + (c.toNat - 0x10000) / 0x400),
    UInt16.ofNat (0xDC00 + (c.toNat - 0x10000) % 0x400)]

def encodeUtf16 (text : List Char) : List UInt16 := text.flatMap utf16Units

def toBeBytes (u : UInt16) : List Byte := [UInt8.ofNat (u.toNat / 256), UInt8.ofNat (u.toNat % 256)]

/-- Text of UTF-16, where its surrogates are in pairs. -/
def fromUtf16 : List UInt16 → Option (List Char)
  | [] => some []
  | u :: us =>
    if u.toNat < 0xD800 ∨ 0xE000 ≤ u.toNat then (fromUtf16 us).map (Char.ofNat u.toNat :: ·)
    else if 0xDC00 ≤ u.toNat then none
    else
      match us with
      | [] => none
      | v :: us =>
        if 0xDC00 ≤ v.toNat ∧ v.toNat < 0xE000 then
          (fromUtf16 us).map
          (Char.ofNat (0x10000 + (u.toNat - 0xD800) * 0x400 + (v.toNat - 0xDC00)) :: ·)
        else none

def fromBeBytes : List Byte → List UInt16
  | a :: b :: rest => UInt16.ofNat (a.toNat * 256 + b.toNat) :: fromBeBytes rest
  | _ => []

def ucs2Decode (bytes : List Byte) : Except SmsError (List Char) :=
  if bytes.length % 2 ≠ 0 then .error (.invalid "UCS-2 odd length")
  else
    match fromUtf16 (fromBeBytes bytes) with
    | some text => .ok text
    | none => .error (.invalid "UCS-2 surrogate")

/-! ## User data -/

/-- An element of the header. -/
inductive Ie where
  | concat8 (reference total seq : UInt8)
  | concat16 (reference : UInt16) (total seq : UInt8)
  | other (id : UInt8) (data : List Byte)
  deriving DecidableEq

def Ie.encode : Ie → List Byte
  | .concat8 reference total seq => [0x00, 3, reference, total, seq]
  | .concat16 reference total seq => 0x08 :: 4 :: (toBeBytes reference ++ [total, seq])
  | .other id data => id :: UInt8.ofNat (min data.length 255) :: data.take 255

def concatValid (total seq : UInt8) : Bool := total ≠ 0 && seq ≠ 0 && seq ≤ total

/-- One element; the ports are among the others. -/
def parseIe (id : UInt8) (d : List Byte) : Except SmsError Ie :=
  if id = 0x00 then
    match d with
    | [reference, total, seq] =>
      if concatValid total seq then .ok (.concat8 reference total seq)
        else .error (.invalid "concatenation IE")
    | _ => .error (.invalid "concatenation IE")
  else if id = 0x08 then
    match d with
    | [a, b, total, seq] =>
      if concatValid total seq then .ok
        (.concat16 (UInt16.ofNat (a.toNat * 256 + b.toNat)) total seq)
      else .error (.invalid "concatenation IE")
    | _ => .error (.invalid "concatenation IE")
  else if id = 0x05 ∧ d.length ≠ 4 then .error (.invalid "port IE")
  else .ok (.other id d)

/-- The elements of a header, which has at most 255 bytes. -/
def parseIes : ℕ → List Byte → Except SmsError (List Ie)
  | _, [] => .ok []
  | 0, _ :: _ => .error .truncated
  | _ + 1, [_] => .error .truncated
  | fuel + 1, id :: len :: rest =>
    if rest.length < len.toNat then .error .truncated
    else (parseIe id (rest.take len.toNat)).bind fun ie =>
      (parseIes fuel (rest.drop len.toNat)).map (ie :: ·)

inductive Body where
  | text (t : List Char)
  | binary (b : List Byte)
  deriving DecidableEq

inductive Encoding where
  | gsm7
  | ucs2
  | data8
  deriving DecidableEq

def Encoding.dcs : Encoding → UInt8
  | .gsm7 => 0x00
  | .ucs2 => 0x08
  | .data8 => 0x04

/-- The character set of a coding scheme. -/
def Encoding.fromDcs (dcs : UInt8) : Except SmsError Encoding :=
  let group := dcs.toNat / 16
  if group < 8 then
    if dcs &&& 0x20 ≠ 0 then .error (.unsupported "compressed DCS")
    else if dcs &&& 0x0C = 0x00 then .ok .gsm7
    else if dcs &&& 0x0C = 0x04 then .ok .data8
    else if dcs &&& 0x0C = 0x08 then .ok .ucs2
    else .error (.invalid "DCS alphabet")
  else if group < 0xC then .error (.invalid "reserved DCS group")
  else if group < 0xE then .ok .gsm7
  else if group = 0xE then .ok .ucs2
  else .ok (if dcs &&& 0x04 ≠ 0 then .data8 else .gsm7)

structure UserData where
  udh : List Ie
  body : Body
  deriving DecidableEq

namespace UserData

def encoding (ud : UserData) : Encoding :=
  match ud.body with
  | .text t => if gsm7Encodable t then .gsm7 else .ucs2
  | .binary _ => .data8

/-- Reference, total and number of the first element that concatenates. -/
def concat (ud : UserData) : Option (UInt16 × UInt8 × UInt8) :=
  ud.udh.findSome? fun
    | .concat8 reference total seq => some (reference.toUInt16, total, seq)
    | .concat16 reference total seq => some (reference, total, seq)
    | .other _ _ => none

/-- The header as it is sent. -/
def header (ud : UserData) : List Byte :=
  let hdr := ud.udh.flatMap Ie.encode
  if hdr.length > 139 then [] else hdr

/-- The septets of a text that fit behind a header. -/
def cutSeptets (s : List Byte) (n : ℕ) : List Byte :=
  let s := s.take n
  if s.getLast? = some gsmEsc then s.dropLast else s

/-- The units of a text that fit behind a header. -/
def cutUnits (units : List UInt16) (n : ℕ) : List UInt16 :=
  let units := units.take n
  if (units.getLast?).any fun u => 0xD800 ≤ u.toNat && u.toNat <
    0xDC00 then units.dropLast else units

/-- The octets of the header with its length. -/
def front (ud : UserData) : List Byte :=
  if ud.header = [] then [] else UInt8.ofNat ud.header.length :: ud.header

/-- The septets that a header takes up. -/
def headerSeptets (hlen : ℕ) : ℕ := divCeil (hlen * 8) 7

/-- Coding scheme, length, bytes, and whether there is a header. -/
def encodeUd (ud : UserData) : UInt8 × UInt8 × List Byte × Bool :=
  let hlen := ud.front.length
  match ud.body with
  | .text t =>
    if ud.encoding = .gsm7 then
      let hs := headerSeptets hlen
      let s := cutSeptets ((gsm7Encode t).getD []) (160 - hs)
      (ud.encoding.dcs, UInt8.ofNat (hs + s.length),
        ud.front ++ packSeptets s (hs * 7 - hlen * 8), hlen > 0)
    else
      let out := ud.front ++ (cutUnits (encodeUtf16 t) ((140 - hlen) / 2)).flatMap toBeBytes
      (ud.encoding.dcs, UInt8.ofNat out.length, out, hlen > 0)
  | .binary b =>
    let out := ud.front ++ b.take (140 - hlen)
    (ud.encoding.dcs, UInt8.ofNat out.length, out, hlen > 0)

/-- The header of user data, and its octets. -/
def readHeader (udhi : Bool) (ud : List Byte) : Except SmsError (List Ie × ℕ) :=
  if !udhi then .ok ([], 0)
  else
    match ud with
    | [] => .error (.invalid "UDHI without header")
    | hl :: rest =>
      if hl.toNat > rest.length then .error (.invalid "UDH longer than UD")
      else (parseIes 255 (rest.take hl.toNat)).map fun udh => (udh, 1 + hl.toNat)

/-- The body of user data behind its header. -/
def readBody (enc : Encoding) (udl : ℕ) (ud : List Byte) (hbytes : ℕ) : Except SmsError Body :=
  match enc with
  | .gsm7 =>
    let hs := headerSeptets hbytes
    if hs > udl then .error (.invalid "UDH longer than UD")
    else (unpackSeptets (ud.drop hbytes) (hs * 7 - hbytes * 8) (udl - hs)).map fun s =>
      .text (gsm7Decode s)
  | .ucs2 => (ucs2Decode (ud.drop hbytes)).map .text
  | .data8 => .ok (.binary (ud.drop hbytes))

def maxLength (enc : Encoding) : ℕ := if enc = .gsm7 then 160 else 140

/-- The octets that a length stands for. -/
def octets (enc : Encoding) (udl : ℕ) : ℕ := if enc = .gsm7 then divCeil (udl * 7) 8 else udl

/-- The user data of a message, from its length on. -/
def decodeUd (dcs : UInt8) (udhi : Bool) (bytes : List Byte) : Except SmsError UserData :=
  match Encoding.fromDcs dcs, bytes with
  | .error e, _ => .error e
  | .ok _, [] => .error .truncated
  | .ok enc, udl :: bytes =>
    if udl.toNat > maxLength enc then .error (.invalid "TP-UDL")
    else if bytes.length < octets enc udl.toNat then .error .truncated
    else
      let ud := bytes.take (octets enc udl.toNat)
      (readHeader udhi ud).bind fun (udh, hbytes) =>
        (readBody enc udl.toNat ud hbytes).map fun body => { udh, body }

end UserData

/-! ## Parts of a text -/

def encodingOf (text : List Char) : Encoding := if gsm7Encodable text then .gsm7 else .ucs2

/-- The septets or units of a character. -/
def cost (enc : Encoding) (c : Char) : ℕ := if enc = .gsm7 then (gsm7Cost c).getD 1 else lenUtf16 c

def costs (enc : Encoding) (text : List Char) : ℕ := (text.map (cost enc)).sum

/-- The parts behind a part already begun, each with its cost; `n` more fit. -/
def chunkFrom (enc : Encoding) (multi : ℕ) : ℕ → List Char → ℕ → List Char → List (List Char × ℕ)
  | _, part, used, [] => [(part, used)]
  | n, part, used, c :: text =>
    if used + cost enc c > multi then
      if n ≤ 1 then [(part, used)]
      else (part, used) :: chunkFrom enc multi (n - 1) [c] (cost enc c) text
    else chunkFrom enc multi n (part ++ [c]) (used + cost enc c) text

/-- The encoding of a text, the limit of a part, and the parts with their costs. -/
def chunk (text : List Char) : Encoding × ℕ × List (List Char × ℕ) :=
  let enc := encodingOf text
  let single := if enc = .gsm7 then 160 else 70
  let multi := if enc = .gsm7 then 153 else 67
  let total := costs enc text
  if total ≤ single then (enc, single, [(text, total)])
    else (enc, multi, chunkFrom enc multi 255 [] 0 text)

def splitText (text : List Char) (reference : UInt8) : List UserData :=
  let parts := (chunk text).2.2
  if parts.length = 1 then [{ udh := [], body := .text text }]
  else
    parts.zipIdx.map fun (p, i) =>
      { udh := [.concat8 reference (UInt8.ofNat parts.length) (UInt8.ofNat i + 1)],
        body := .text p.1 }

/-- The encoding, the number of parts, and what is left in the last. -/
def partsNeeded (text : List Char) : Encoding × ℕ × ℕ :=
  let (enc, limit, parts) := chunk text
  (enc, parts.length, limit - (parts.getLast?.map (·.2)).getD 0)

/-! ## Reassembly -/

def maxPendingSets : ℕ := 256

/-- Sender, reference and total. -/
abbrev SetKey := List Char × UInt16 × UInt8

structure PendingSet where
  firstMs : ℕ
  parts : List (Option UserData)
  have' : ℕ

/-- An element that numbers a part. -/
def Ie.concatenates : Ie → Bool
  | .concat8 _ _ _ => true
  | .concat16 _ _ _ => true
  | .other _ _ => false

def Body.isText : Body → Bool
  | .text _ => true
  | .binary _ => false

/-- The text of a body, if it is text. -/
def Body.chars : Body → List Char
  | .text t => t
  | .binary _ => []

def Body.bytes : Body → List Byte
  | .text t => t.flatMap String.utf8EncodeChar
  | .binary b => b

def join (parts : List UserData) : UserData where
  udh := (parts.head?.map fun p => p.udh.filter fun ie => !ie.concatenates).getD []
  body :=
    if parts.all fun p => p.body.isText then .text (parts.flatMap fun p => p.body.chars)
    else .binary (parts.flatMap fun p => p.body.bytes)

/-- The sets that are not complete, in no order. -/
structure Reassembler where
  timeoutMs : ℕ
  sets : List (SetKey × PendingSet) := []

namespace Reassembler

def get (r : Reassembler) (key : SetKey) : Option PendingSet :=
  (r.sets.find? fun e => e.1 = key).map (·.2)

def remove (r : Reassembler) (key : SetKey) : Reassembler :=
  { r with sets := r.sets.filter fun e => e.1 ≠ key }

def put (r : Reassembler) (key : SetKey) (p : PendingSet) : Reassembler :=
  { r with sets := (key, p) :: (r.remove key).sets }

/-- The sets whose first part is too old are dropped. -/
def expire (r : Reassembler) (now : ℕ) : Reassembler :=
  { r with sets := r.sets.filter fun e => now - e.2.firstMs < r.timeoutMs }

/-- The oldest set goes. -/
def evict (r : Reassembler) : Reassembler :=
  match r.sets.argmin fun e => e.2.firstMs with
  | some e => r.remove e.1
  | none => r

/-- One part, and the whole text where the part completes it. -/
def push (r : Reassembler) (sender : List Char) (ud : UserData) (now : ℕ) :
    Option UserData × Reassembler :=
  let r := r.expire now
  match ud.concat with
  | none => (some ud, r)
  | some (reference, total, seq) =>
    if !concatValid total seq then (none, r)
    else if total = 1 then (some (join [ud]), r)
    else
      let key : SetKey := (sender, reference, total)
      let r := if (r.get key).isNone ∧ r.sets.length ≥ maxPendingSets then r.evict else r
      let p :=
        (r.get key).getD { firstMs := now, parts := List.replicate total.toNat none, have' := 0 }
      if (p.parts.getD (seq.toNat - 1) none).isSome then (none, r.put key p)
      else
        let p := { p with parts := p.parts.set (seq.toNat - 1) (some ud), have' := p.have' + 1 }
        if p.have' < total.toNat then (none, r.put key p)
          else (some (join (p.parts.filterMap id)), r.remove key)

end Reassembler

end EvansComputer.Tel.Sms
