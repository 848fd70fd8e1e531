import EvansComputer.Library.Text

/-!
# SIP header values

The texts of SIP headers: quoted strings, parameters, URIs, addresses, Vias and digests, and
what is done to find them in a line.  A text is cut in three ways, which have to agree on what
is quoted: at the separators outside quotes, at the commas outside quotes and angle brackets,
and behind the quote that closes a quoted string.
-/

namespace EvansComputer.Tel.Sip

open Text

abbrev Str := List Char

inductive SipError where
  | empty
  | utf8
  | startLine
  | version
  | method
  | status
  | uri (part : String)
  | header (why : String)
  | missing (name : String)
  | value (name : String)
  | contentLength
  | truncated
  | tooLarge
  | notRequest
  deriving DecidableEq

/-- `ok_or` -/
def okOr {α : Type} (e : SipError) : Option α → Except SipError α
  | some a => .ok a
  | none => .error e

theorem okOr_eq_ok {α : Type} {e : SipError} {o : Option α} {a : α} (h : okOr e o = .ok a) :
    o = some a := by
  cases o with
  | none => cases h
  | some b =>
    cases h
    rfl

/-! ## Lexing -/

def isTokenChar (c : Char) : Bool := c.isAlphanum || "-.!%*_+`'~".toList.contains c

def isToken (s : Str) : Bool := s ≠ [] && s.all isTokenChar

/-- `is_ascii_graphic` -/
def isGraphic (c : Char) : Bool := 33 ≤ c.toNat && c.toNat ≤ 126

def trimStart (s : Str) : Str := s.dropWhile isSpace

def trim (s : Str) : Str := ((s.dropWhile isSpace).reverse.dropWhile isSpace).reverse

/-- What is before the first separator, and what is behind it. -/
def cut (sep : Char → Bool) : Str → Option (Str × Str)
  | [] => none
  | c :: s => if sep c then some ([], s) else (cut sep s).map fun (a, b) => (c :: a, b)

/-- What is before a character, and what begins with it. -/
def splitFirst (s : Str) (c : Char) : Str × Str := (s.takeWhile (· ≠ c), s.dropWhile (· ≠ c))

/-- The content of a quoted string that has been opened, and what follows the closing quote. -/
def quotedRest : Str → Option (Str × Str)
  | [] => none
  | c :: s =>
    if c = '\\' then
      match s with
      | [] => none
      | d :: s => (quotedRest s).map fun (a, b) => (d :: a, b)
    else if c = '"' then some ([], s)
    else (quotedRest s).map fun (a, b) => (c :: a, b)

/-- A quoted string at the beginning of a text. -/
def parseQuoted : Str → Option (Str × Str)
  | '"' :: s => quotedRest s
  | _ => none

/-- A character behind a backslash, if it needs one. -/
def escape (c : Char) : Str := if c = '"' ∨ c = '\\' then ['\\', c] else [c]

def quote (s : Str) : Str := '"' :: (s.flatMap escape ++ ['"'])

/-- The loop of `split_outside_quotes`, behind what there is of a part. -/
def splitOutside (sep : Char) : (inQ esc : Bool) → (acc : Str) → Str → List Str
  | _, _, acc, [] => [acc]
  | inQ, true, acc, c :: s => splitOutside sep inQ false (acc ++ [c]) s
  | inQ, false, acc, c :: s =>
    if inQ && c = '\\' then splitOutside sep inQ true (acc ++ [c]) s
    else if c = '"' then splitOutside sep (!inQ) false (acc ++ [c]) s
    else if c = sep && !inQ then acc :: splitOutside sep inQ false [] s
    else splitOutside sep inQ false (acc ++ [c]) s

/-- Splits on `sep` outside quoted strings. -/
def splitOutsideQuotes (s : Str) (sep : Char) : List Str := splitOutside sep false false [] s

/-- The loop of `split_list`. -/
def splitCommas : (inQ esc angle : Bool) → (acc : Str) → Str → List Str
  | _, _, _, acc, [] => [trim acc]
  | inQ, true, angle, acc, c :: s => splitCommas inQ false angle (acc ++ [c]) s
  | true, false, angle, acc, c :: s =>
    splitCommas (c ≠ '"') (c = '\\') angle (acc ++ [c]) s
  | false, false, angle, acc, c :: s =>
    if c = '"' then splitCommas true false angle (acc ++ [c]) s
    else if c = '<' then splitCommas false false true (acc ++ [c]) s
    else if c = '>' then splitCommas false false false (acc ++ [c]) s
    else if c = ',' && !angle then trim acc :: splitCommas false false angle [] s
    else splitCommas false false angle (acc ++ [c]) s

/-- Splits a header list value on commas outside quotes and `<...>`; empty elements are
dropped. -/
def splitList (s : Str) : List Str := (splitCommas false false false [] s).filter (· ≠ [])

/-- `eq_ignore_ascii_case` -/
def eqIgnoreCase (s t : Str) : Bool := s.map Char.toLower = t.map Char.toLower

/-! ## Parameters -/

/-- `;name=value;flag` parameters, in order.  Header parameter values keep their quotes as
written. -/
abbrev Params := List (Str × Option Str)

namespace Params

/-- The value (`""` for a flag), or `none` when absent. -/
def get (p : Params) (name : Str) : Option Str :=
  (p.find? fun x => eqIgnoreCase x.1 name).map fun x => x.2.getD []

/-- Replaces the first `name` (or appends it); `none` makes it a flag. -/
def set (p : Params) (name : Str) (value : Option Str) : Params :=
  if p.any fun x => eqIgnoreCase x.1 name then
    p.modify (p.findIdx fun x => eqIgnoreCase x.1 name) fun x => (x.1, value)
  else p ++ [(name, value)]

/-- A value that is not quoted. -/
def plainValue (v : Str) : Bool := v.all fun c => isGraphic c && !";,\"<>?".toList.contains c

/-- A value that may stand: `header` allows a quoted one. -/
def valueOk (header : Bool) (v : Str) : Bool :=
  if header && v.head? = some '"' then (parseQuoted v).any fun x => x.2 = [] else plainValue v

/-- One parameter. -/
def parseOne (header : Bool) (seg : Str) : Option (Str × Option Str) :=
  let seg := trim seg
  let (name, value) :=
    match cut (· = '=') seg with
    | some (n, v) => (trim n, some (trim v))
    | none => (seg, none)
  if isToken name && value.all (valueOk header) then some (name, value) else none

/-- Parses `""` or `;a=b;c...`. -/
def parse (s : Str) (header : Bool) : Option Params :=
  match trim s with
  | [] => some []
  | c :: s =>
    if c = ';' then
      (if header then splitOutsideQuotes s ';' else split (· = ';') s).mapM (parseOne header)
    else none

/-- How one parameter is written. -/
def displayOne : Str × Option Str → Str
  | (n, some v) => ';' :: n ++ '=' :: v
  | (n, none) => ';' :: n

def display (p : Params) : Str := p.flatMap displayOne

end Params

/-! ## URIs -/

inductive Scheme where
  | sip
  | sips
  | tel
  deriving DecidableEq

/-- `sip:user@host:port;params?headers`, `sips:...`, or `tel:+12145550142;params`.  For `tel:`
the number is the user and the host is empty. -/
structure Uri where
  scheme : Scheme
  user : Option Str
  host : Str
  port : Option UInt16
  params : Params
  headers : List (Str × Str)
  deriving DecidableEq

def isHexDigit (c : Char) : Bool :=
  c.isDigit || ('a'.toNat ≤ c.toNat && c.toNat ≤ 'f'.toNat) ||
    ('A'.toNat ≤ c.toNat && c.toNat ≤ 'F'.toNat)

/-- A port, from one to five digits. -/
def parsePort (p : Str) : Option UInt16 :=
  if p = [] ∨ 5 < p.length ∨ ¬ p.all Char.isDigit then none
  else (readDigits p).bind fun n => if n < 65536 then some (UInt16.ofNat n) else none

/-- A host and what is behind it. -/
def parseHost (s : Str) : Option (Str × Str) :=
  match s with
  | '[' :: s =>
    match cut (· = ']') s with
    | some (inner, rest) =>
      if inner ≠ [] && inner.all
        (fun c => isHexDigit c || c = ':' || c = '.') then some ('[' :: inner ++ [']'], rest)
      else none
    | none => none
  | s =>
    let (h, rest) := splitFirst s ':'
    if h ≠ [] && h.all (fun c => c.isAlphanum || c = '-' || c = '.' || c = '_') then some (h, rest)
      else none

def parseHostport (s : Str) : Option (Str × Option UInt16) :=
  match parseHost s with
  | none => none
  | some (host, []) => some (host, none)
  | some (host, c :: p) => if c = ':' then (parsePort p).map fun port => (host, some port) else none

/-- How a port is written behind a host. -/
def displayPort : Option UInt16 → Str
  | some p => ':' :: decimal p.toNat
  | none => []

namespace Uri

/-- A name or a value of a URI header. -/
def headerText (s : Str) : Bool := s.all fun c => isGraphic c && !"&<>\"".toList.contains c

/-- `k=v` -/
def parseHeader (kv : Str) : Option (Str × Str) :=
  (cut (· = '=') kv).filter fun (k, v) => k ≠ [] && headerText k && headerText v

def parseTel (rest : Str) : Except SipError Uri :=
  let (num, params) := splitFirst rest ';'
  if num = [] ∨ ¬ num.all (fun c => isHexDigit c || "*#+-.()".toList.contains c) then .error
    (.uri "number")
  else if '?' ∈ rest then .error (.uri "tel headers")
  else do
    let params ← okOr (.uri "params") (Params.parse params false)
    return { scheme := .tel, user := some num, host := [], port := none, params, headers := [] }

/-- The user, and what is behind it. -/
def parseUser (main : Str) : Except SipError (Option Str × Str) :=
  match cut (· = '@') main with
  | none => .ok (none, main)
  | some (user, rest) =>
    if user = [] ∨ ¬ user.all (fun c => isGraphic c && !"<>\"".toList.contains c) then .error
      (.uri "user")
    else .ok (some user, rest)

def parseHeaders : Option Str → Except SipError (List (Str × Str))
  | none => .ok []
  | some h => okOr (.uri "headers") ((split (· = '&') h).mapM parseHeader)

def parseSip (scheme : Scheme) (rest : Str) : Except SipError Uri := do
  let (main, hdrs) :=
    match cut (· = '?') rest with
    | some (main, h) => (main, some h)
    | none => (rest, none)
  let (user, hostpart) ← parseUser main
  let (hp, params) := splitFirst hostpart ';'
  let (host, port) ← okOr (.uri "host") (parseHostport hp)
  let params ← okOr (.uri "params") (Params.parse params false)
  let headers ← parseHeaders hdrs
  return { scheme, user, host, port, params, headers }

def parse (s : Str) : Except SipError Uri :=
  let s := trim s
  if ¬ s.all (fun c => c.toNat < 128) then .error (.uri "non-ASCII")
  else
    match cut (· = ':') s with
    | none => .error (.uri "scheme")
    | some (scheme, rest) =>
      if eqIgnoreCase scheme "sip".toList then parseSip .sip rest
      else if eqIgnoreCase scheme "sips".toList then parseSip .sips rest
      else if eqIgnoreCase scheme "tel".toList then parseTel rest
      else .error (.uri "scheme")

/-- The headers of a URI behind its parameters. -/
def displayHeaders : List (Str × Str) → Str
  | [] => []
  | l => '?' :: List.intercalate ['&'] (l.map fun (k, v) => k ++ '=' :: v)

def displayUser : Option Str → Str
  | some u => u ++ ['@']
  | none => []

def display (u : Uri) : Str :=
  match u.scheme with
  | .tel => "tel:".toList ++ u.user.getD [] ++ u.params.display
  | .sip =>
    "sip:".toList ++ displayUser u.user ++ u.host ++ displayPort u.port ++ u.params.display ++
      displayHeaders u.headers
  | .sips =>
    "sips:".toList ++ displayUser u.user ++ u.host ++ displayPort u.port ++ u.params.display ++
      displayHeaders u.headers

end Uri

/-! ## Typed headers -/

/-- `"Display" <uri>;params` (From, To, Contact, Route...).  The bare form parses too; its
params are header params. -/
structure NameAddr where
  «display» : Option Str
  uri : Uri
  params : Params
  deriving DecidableEq

namespace NameAddr

/-- The display name, the URI and the parameters, as texts. -/
def pieces (s : Str) : Option (Option Str × Str × Str) :=
  if s.head? = some '"' then do
    let (d, after) ← parseQuoted s
    match trimStart after with
    | '<' :: after => do
      let (uri, rest) ← cut (· = '>') after
      return (some d, uri, rest)
    | _ => none
  else
    match cut (· = '<') s with
    | some (d, after) =>
      if (trim d).any fun c => c = '"' || c = '>' then none
      else do
        let (uri, rest) ← cut (· = '>') after
        return (some (trim d), uri, rest)
    | none => some (none, splitFirst s ';')

def parse (s : Str) : Except SipError NameAddr := do
  let (d, uri, rest) ← okOr (.value "name-addr") (pieces (trim s))
  let uri ← Uri.parse uri
  let params ← okOr (.value "name-addr") (Params.parse rest true)
  return { «display» := d.filter (· ≠ []), uri, params }

def displayName : Option Str → Str
  | some d => quote d ++ [' ']
  | none => []

def text (a : NameAddr) : Str :=
  displayName a.display ++ '<' :: a.uri.display ++ '>' :: a.params.display

def tag (a : NameAddr) : Option Str := a.params.get "tag".toList

def setTag (a : NameAddr) (tag : Str) : NameAddr :=
  { a with params := a.params.set "tag".toList (some tag) }

end NameAddr

/-- One Via value: `SIP/2.0/UDP host:port;branch=...;received=...;rport`. -/
structure Via where
  transport : Str
  host : Str
  port : Option UInt16
  params : Params
  deriving DecidableEq

namespace Via

def parse? (s : Str) : Option Via := do
  let (name, s) ← cut (· = '/') s
  let (ver, s) ← cut (· = '/') s
  let rest := trimStart s
  if ¬ eqIgnoreCase (trim name) "SIP".toList ∨ trim ver ≠ "2.0".toList then none
  let transport := rest.takeWhile fun c => !isSpace c
  let behind := rest.dropWhile fun c => !isSpace c
  if behind = [] ∨ ¬ isToken transport then none
  let (sb, params) := splitFirst (trimStart behind) ';'
  let (host, port) ← parseHostport (trim sb)
  let params ← Params.parse params true
  return { transport, host, port, params }

def parse (s : Str) : Except SipError Via := okOr (.value "Via") (parse? s)

def branch (v : Via) : Option Str := v.params.get "branch".toList

def text (v : Via) : Str :=
  "SIP/2.0/".toList ++ v.transport ++ ' ' :: v.host ++ displayPort v.port ++ v.params.display

end Via

/-- Digest-style credentials or challenges.  Values are stored unquoted. -/
structure Digest where
  scheme : Str
  params : List (Str × Str)
  deriving DecidableEq

/-! ### What is behind a piece -/

theorem cut_eq_some {sep : Char → Bool} {s a b : Str} (h : cut sep s = some (a, b)) :
    (∀ c ∈ a, sep c = false) ∧ ∃ c, sep c = true ∧ s = a ++ c :: b := by
  induction s generalizing a with
  | nil => cases h
  | cons c s ih =>
    rw [cut] at h
    split at h
    · rename_i hc
      cases h
      exact ⟨nofun, c, hc, rfl⟩
    · rename_i hc
      obtain ⟨⟨a', b'⟩, hcut, heq⟩ := Option.map_eq_some_iff.mp h
      cases heq
      obtain ⟨ha, d, hd, rfl⟩ := ih hcut
      refine ⟨fun x hx => ?_, d, hd, rfl⟩
      rcases List.mem_cons.mp hx with rfl | hx
      · exact Bool.not_eq_true _ ▸ hc
      · exact ha x hx

theorem length_of_quotedRest {s a b : Str} (h : quotedRest s = some (a, b)) :
    b.length < s.length := by
  induction s using quotedRest.induct generalizing a with
  | case1 => cases h
  | case2 => cases h
  | case3 d s ih =>
    rw [quotedRest, if_pos rfl] at h
    obtain ⟨⟨a', b'⟩, hrest, heq⟩ := Option.map_eq_some_iff.mp h
    cases heq
    exact Nat.lt_succ_of_lt (Nat.lt_succ_of_lt (ih hrest))
  | case4 s hne =>
    rw [quotedRest.eq_def] at h
    cases h
    exact Nat.lt_succ_self _
  | case5 c s hc hquote ih =>
    rw [quotedRest.eq_def] at h
    simp only [if_neg hc, if_neg hquote] at h
    obtain ⟨⟨a', b'⟩, hrest, heq⟩ := Option.map_eq_some_iff.mp h
    cases heq
    exact Nat.lt_succ_of_lt (ih hrest)

theorem length_of_parseQuoted {s a b : Str} (h : parseQuoted s = some (a, b)) :
    b.length < s.length := by
  unfold parseQuoted at h
  split at h
  · exact Nat.lt_succ_of_lt (length_of_quotedRest h)
  · cases h

theorem length_trimStart_le (s : Str) : (trimStart s).length ≤ s.length :=
  (List.dropWhile_suffix _).length_le

namespace Digest

/-- A value, and what is behind it. -/
def parseValue (after : Str) : Option (Str × Str) :=
  if after.head? = some '"' then parseQuoted after
  else
    let (v, t) := splitFirst after ','
    let v := trim v
    if ¬ isToken v ∧ ¬ v.all (fun c => isGraphic c && !"\",".toList.contains c) ∨
      v = [] then none else some (v, t)

/-- The first parameter, and what is behind the comma. -/
def parseParam (rest : Str) : Option ((Str × Str) × Str) := do
  let (name, after) ← cut (· = '=') rest
  if ¬ isToken (trim name) then none
  let (value, tail) ← parseValue (trimStart after)
  match trimStart tail with
  | [] => return ((trim name, value), [])
  | c :: t => if c = ',' ∧ trimStart t ≠ [] then return ((trim name, value), trimStart t) else none

theorem length_of_parseValue {after v t : Str} (h : parseValue after = some (v, t)) :
    t.length ≤ after.length := by
  unfold parseValue at h
  split at h
  · exact Nat.le_of_lt (length_of_parseQuoted h)
  · dsimp only [splitFirst] at h
    split at h
    · cases h
    · cases h
      exact (List.dropWhile_suffix _).length_le

/-- Every parameter takes something of the text. -/
theorem length_of_parseParam {rest rest' : Str} {x : Str × Str}
    (h : parseParam rest = some (x, rest')) :
    rest'.length < rest.length := by
  obtain ⟨⟨name, after⟩, hcut, h⟩ := Option.bind_eq_some_iff.mp h
  obtain ⟨-, c, -, hsplit⟩ := cut_eq_some hcut
  have hafter : after.length < rest.length := by
    rw [hsplit, List.length_append, List.length_cons]
    omega
  dsimp only at h
  split at h
  · cases h
  · obtain ⟨⟨value, tail⟩, hvalue, h⟩ := Option.bind_eq_some_iff.mp h
    have htail := Nat.le_trans (length_of_parseValue hvalue) (length_trimStart_le after)
    have htrim := length_trimStart_le tail
    dsimp only at h
    split at h
    · cases h
      exact Nat.lt_of_le_of_lt (Nat.zero_le _) hafter
    · rename_i d t heq
      split at h
      · cases h
        rw [heq, List.length_cons] at htrim
        have ht := length_trimStart_le t
        omega
      · cases h

/-- The parameters, up to the end. -/
def parseParams (rest : Str) : Option (List (Str × Str)) :=
  if rest = [] then some []
  else
    match _h : parseParam rest with
    | none => none
    | some (x, rest') => (parseParams rest').map (x :: ·)
termination_by rest.length
decreasing_by exact length_of_parseParam _h

def parse? (s : Str) : Option Digest :=
  let s := trim s
  let scheme := s.takeWhile fun c => !isSpace c
  if ¬ isToken scheme then none
  else (parseParams (trimStart (s.dropWhile fun c => !isSpace c))).map fun params =>
    { scheme, params }

def parse (s : Str) : Except SipError Digest := okOr (.value "Digest") (parse? s)

/-- Is a value written without quotes? -/
def bare (n v : Str) : Bool :=
  ["algorithm", "nc", "stale", "qop"].any (fun b => eqIgnoreCase n b.toList) && isToken v

/-- `n=v` -/
def displayOne (x : Str × Str) : Str := x.1 ++ '=' :: if bare x.1 x.2 then x.2 else quote x.2

def displayParams : List (Str × Str) → Str
  | [] => []
  | l => ' ' :: List.intercalate ", ".toList (l.map displayOne)

def text (d : Digest) : Str := d.scheme ++ displayParams d.params

end Digest

/-! ## The header list -/

/-- Compact names, and what they stand for. -/
def compactNames : List (Char × String) :=
  [('v', "Via"), ('f', "From"), ('t', "To"), ('i', "Call-ID"), ('m', "Contact"),
    ('l', "Content-Length"),
    ('c', "Content-Type"), ('k', "Supported"), ('s', "Subject"), ('e', "Content-Encoding"),
      ('o', "Event"),
    ('r', "Refer-To"), ('u', "Allow-Events"), ('x', "Session-Expires"), ('b', "Referred-By")]

def expandName (name : Str) : Str :=
  match name with
  | [c] => ((compactNames.find? fun x => x.1 = c.toLower).map fun x => x.2.toList).getD name
  | _ => name

def nameIs (a b : Str) : Bool := eqIgnoreCase (expandName a) (expandName b)

/-- The header list: order kept, names case-insensitive (compact forms match their full
names). -/
abbrev Headers := List (Str × Str)

namespace Headers

/-- Every header line of a name, in order. -/
def getAll (h : Headers) (name : Str) : List Str := (h.filter fun x => nameIs x.1 name).map (·.2)

/-- The first value of a name. -/
def get (h : Headers) (name : Str) : Option Str := (h.find? fun x => nameIs x.1 name).map (·.2)

/-- Every comma-separated element of every line of a name. -/
def values (h : Headers) (name : Str) : List Str := (h.getAll name).flatMap splitList

/-- Appends (compact names are expanded). -/
def push (h : Headers) (name value : Str) : Headers := h ++ [(expandName name, value)]

def required (h : Headers) (name : String) : Except SipError Str :=
  okOr (.missing name) (h.get name.toList)

def topVia (h : Headers) : Except SipError Via := do
  let v ← okOr (.missing "Via") (h.values "Via".toList).head?
  Via.parse v

def callId (h : Headers) : Except SipError Str := do
  let v ← h.required "Call-ID"
  if trim v = [] ∨ (trim v).any isSpace then .error (.value "Call-ID") else return trim v

end Headers

end EvansComputer.Tel.Sip
