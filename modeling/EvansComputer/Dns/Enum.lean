import EvansComputer.Dns.Message
import Mathlib.Data.List.Sort
import Mathlib.Data.List.TakeWhile
import Mathlib.Tactic.Common

/-!
# Telephone numbers as names

A number becomes a name under `e164.arpa`, its digits reversed, and the NAPTR records of that name
say how to rewrite the number into a URI.  The rewriting is a substitution with a regular
expression, of which a small subset is understood: it is compiled into a list of nodes and matched
by backtracking, the longest run first.
-/

namespace EvansComputer.Dns

/-- The tree of telephone numbers. -/
def e164Arpa : Name := "e164.arpa".toList

/-- The digits of a number, without what separates them. -/
def digits (e164 : List Char) : List Char := e164.filter (·.isDigit)

/-- The domain of a number under `e164.arpa`. -/
def enumDomain (e164 : List Char) : Name :=
  List.intercalate ['.'] ((digits e164).reverse.map (fun d => [d]) ++ [e164Arpa])

/-- The domain of a block of numbers, from the digits that they share. -/
def enumBlockDomain (pfx : List Char) : Name := enumDomain pfx

/-- The string that the expressions are applied to: `+` and the digits. -/
def aus (e164 : List Char) : List Char := '+' :: digits e164

def eqIgnoreCase (s t : List Char) : Bool := s.map Char.toLower = t.map Char.toLower

def isSipService (services : List Char) : Bool :=
  eqIgnoreCase services "E2U+sip".toList || eqIgnoreCase services "SIP+E2U".toList

/-! ## Regular expressions -/

inductive Atom where
  | char (c : Char)
  | any
  | set (negated : Bool) (items : List (Char × Char))
  deriving DecidableEq

inductive Node where
  /-- An atom, from `least` to `most` times; without a bound if there is none. -/
  | atom (atom : Atom) (least : ℕ) (most : Option ℕ)
  | opening (group : ℕ)
  | closing (group : ℕ)
  deriving DecidableEq

structure Regex where
  nodes : List Node
  groups : ℕ
  startAnchor : Bool
  endAnchor : Bool
  /-- Upper and lower case are the same. -/
  ci : Bool
  deriving DecidableEq

namespace Regex

/-- The items of a bracket set up to its `]`, and what is after it. -/
def setItems : Bool → List (Char × Char) → List Char → Option (List (Char × Char) × List Char)
  | _, _, [] => none
  | first, items, c :: '-' :: e :: rest =>
    if c = ']' ∧ !first then some (items, '-' :: e :: rest)
    else if e ≠ ']' then
      if e < c then none else setItems false (items ++ [(c, e)]) rest
    else setItems false (items ++ [(c, c)]) ('-' :: e :: rest)
  | first, items, c :: rest => if c = ']' ∧ !first then some (items, rest)
    else setItems false (items ++ [(c, c)]) rest

/-- One atom, and what is after it. -/
def readAtom : List Char → Option (Atom × List Char)
  | [] => none
  | '\\' :: [] => none
  | '\\' :: n :: rest => some (.char n, rest)
  | '.' :: rest => some (.any, rest)
  | '[' :: '^' :: rest => (setItems true [] rest).map fun (items, rest) => (.set true items, rest)
  | '[' :: rest => (setItems true [] rest).map fun (items, rest) => (.set false items, rest)
  | c :: rest => if c ∈ ['*', '+', '?', '|', '{', '}', '^', '$'] then none else some (.char c, rest)

/-- The quantifier after an atom. -/
def readQuantifier : List Char → (ℕ × Option ℕ) × List Char
  | '*' :: rest => ((0, none), rest)
  | '+' :: rest => ((1, none), rest)
  | '?' :: rest => ((0, some 1), rest)
  | rest => ((1, some 1), rest)

/-- The nodes of a pattern and the number of its groups; every turn reads a character at least. -/
def compileFrom : ℕ → List Char → List Node → ℕ → Option ℕ → Option (List Node × ℕ)
  | _, [], nodes, groups, opened => if opened.isSome then none else some (nodes, groups)
  | 0, _ :: _, _, _, _ => none
  | fuel + 1, '(' :: rest, nodes, groups, opened =>
    -- nesting is outside the subset
    if opened.isSome ∨ groups ≥ 9 then none else compileFrom fuel rest (nodes ++ [.opening groups])
      (groups + 1) (some groups)
  | fuel + 1, ')' :: rest, nodes, groups, opened => opened.bind fun g => compileFrom fuel rest
    (nodes ++ [.closing g]) groups none
  | fuel + 1, p, nodes, groups, opened =>
    (readAtom p).bind fun (atom, rest) =>
      let ((least, most), rest) := readQuantifier rest
      compileFrom fuel rest (nodes ++ [.atom atom least most]) groups opened

def compile (pattern : List Char) (ci : Bool) : Option Regex :=
  let startAnchor := pattern.head? = some '^'
  let p := if startAnchor then pattern.tail else pattern
  -- a trailing `$` is an anchor unless it is escaped
  let endAnchor := p.getLast? = some '$' && (p.dropLast.reverse.takeWhile (· = '\\')).length % 2 = 0
  let p := if endAnchor then p.dropLast else p
  (compileFrom (p.length + 1) p [] 0 none).map fun (nodes, groups) =>
    { nodes, groups, startAnchor, endAnchor, ci }

def inRange (c : Char) (item : Char × Char) : Bool := item.1 ≤ c && c ≤ item.2

def atomMatches (re : Regex) (atom : Atom) (c : Char) : Bool :=
  match atom with
  | .any => true
  | .char x => if re.ci then x.toLower = c.toLower else x = c
  | .set negated items =>
    (items.any fun item => inRange c item ||
      (re.ci && (inRange c.toLower item || inRange c.toUpper item))) ≠ negated

/-- What each group matched. -/
abbrev Caps := List (Option (ℕ × ℕ))

/-- Match the nodes from `pos` on: where the match ends, and the groups. -/
def step (re : Regex) (text : List Char) : List Node → ℕ → Caps → List ℕ → Option (ℕ × Caps)
  | [], pos, caps, _ => if !re.endAnchor || pos = text.length then some (pos, caps) else none
  | .opening g :: nodes, pos, caps, opened => step re text nodes pos caps (opened.set g pos)
  | .closing g :: nodes, pos, caps, opened => step re text nodes pos
    (caps.set g (some (opened.getD g 0, pos))) opened
  | .atom atom least most :: nodes, pos, caps, opened =>
    let run := ((text.drop pos).takeWhile (re.atomMatches atom)).length
    let n := (most.map (min run)).getD run
    if n < least then none
    -- the longest run first, then one less at a time
    else ((List.range (n + 1)).drop least).reverse.findSome? fun k =>
      step re text nodes (pos + k) caps opened

/-- The leftmost match: start, end and groups. -/
def find (re : Regex) (text : List Char) : Option (ℕ × ℕ × Caps) :=
  (List.range ((if re.startAnchor then 0 else text.length) + 1)).findSome? fun start =>
    (re.step text re.nodes start (List.replicate re.groups none) (List.replicate re.groups 0)).map
      fun (stop, caps) => (start, stop, caps)

end Regex

/-! ## Substitutions -/

/-- The parts of an expression between its delimiters; an escaped delimiter is none. -/
def splitExpression (delim : Char) : List Char → List Char → Option (List (List Char))
  | part, [] => some [part]
  | _, '\\' :: [] => none
  | part, '\\' :: n :: rest => splitExpression delim (part ++ ['\\', n]) rest
  | part, c :: rest =>
    if c = delim then (splitExpression delim [] rest).map (part :: ·) else splitExpression delim
      (part ++ [c]) rest

/-- The replacement, with the groups put in. -/
def substitute (text : List Char) (start stop : ℕ) (caps : Regex.Caps) :
    List Char → Option (List Char)
  | [] => some []
  | '\\' :: [] => none
  | '\\' :: d :: rest =>
    if '1' ≤ d ∧ d ≤ '9' then
      let i := d.toNat - '1'.toNat
      -- without any group, the first reference is the whole match
      (if caps.isEmpty ∧ i = 0 then some (start, stop) else (caps.getD i none)).bind fun (s, e) =>
        (substitute text start stop caps rest).map ((text.take e).drop s ++ ·)
    else (substitute text start stop caps rest).map (d :: ·)
  | c :: rest => (substitute text start stop caps rest).map (c :: ·)

/-- Apply one substitution expression, `!pattern!replacement!flags`. -/
def applyRegexp (expression input : List Char) : Option (List Char) :=
  match expression with
  | [] => none
  | delim :: rest =>
    if delim.isDigit ∨ delim = '\\' ∨ delim = 'i' then none
    else
      match splitExpression delim [] rest with
      | some [pattern, replacement, flags] =>
        if flags ≠ [] ∧ flags ≠ ['i'] then none
        else
          (Regex.compile pattern (flags = ['i'])).bind fun re =>
            (re.find input).bind fun (start, stop, caps) =>
              (substitute input start stop caps replacement).map fun out =>
                input.take start ++ out ++ input.drop stop
      | _ => none

/-- The NAPTR data among the records. -/
def naptrs (records : List Record) : List Naptr :=
  records.filterMap fun r =>
    match r.data with
    | .naptr n => some n
    | _ => none

/-- Is it used before the other? -/
def Naptr.before (m n : Naptr) : Prop :=
  m.order < n.order ∨ (m.order = n.order ∧ m.preference ≤ n.preference)

instance : DecidableRel Naptr.before := fun m n =>
  inferInstanceAs
    (Decidable (m.order < n.order ∨ (m.order = n.order ∧ m.preference ≤ n.preference)))

/-- The SIP URI of a number, from the first record that applies to it. -/
def enumSipUri (records : List Naptr) (e164 : List Char) : Option (List Char) :=
  let sip := records.filter fun n => eqIgnoreCase n.flags ['u'] && isSipService n.services &&
    n.regexp ≠ []
  (sip.insertionSort Naptr.before).findSome? fun n => applyRegexp n.regexp (aus e164)

/-! ## The expression of the numbering administrator -/

/-- `100 10 "u" "E2U+sip" "!^.*$!sip:\1@domain!" .`: the number at `domain`. -/
def sipNaptr (domain : Name) : Naptr where
  order := 100
  preference := 10
  flags := ['u']
  services := "E2U+sip".toList
  regexp := "!^.*$!sip:\\1@".toList ++ domain ++ ['!']
  replacement := []

theorem splitExpression_plain {delim : Char} {d : List Char} (h : ∀ c ∈ d, c ≠ '\\' ∧ c ≠ delim)
    (part rest : List Char) :
    splitExpression delim part (d ++ rest) = splitExpression delim (part ++ d) rest := by
  induction d generalizing part with
  | nil => rw [List.nil_append, List.append_nil]
  | cons c d ih =>
    obtain ⟨hescape, hdelim⟩ := h c List.mem_cons_self
    rw [List.cons_append, splitExpression.eq_def]
    split
    · contradiction
    · rename_i heq
      exact absurd (List.cons.inj heq).1 hescape
    · rename_i heq
      exact absurd (List.cons.inj heq).1 hescape
    · rename_i heq
      obtain ⟨rfl, rfl⟩ := List.cons.inj heq
      rw [if_neg hdelim, ih (fun c hc => h c (List.mem_cons_of_mem _ hc)), List.append_assoc,
        List.singleton_append]

theorem substitute_plain {d : List Char} (h : ∀ c ∈ d, c ≠ '\\') (text : List Char) (start stop : ℕ)
    (caps : Regex.Caps) :
    substitute text start stop caps d = some d := by
  induction d with
  | nil => rfl
  | cons c d ih =>
    have hrest := ih fun c hc => h c (List.mem_cons_of_mem _ hc)
    rw [substitute.eq_def]
    split
    · contradiction
    · rename_i heq
      exact absurd (List.cons.inj heq).1 (h c List.mem_cons_self)
    · rename_i heq
      exact absurd (List.cons.inj heq).1 (h c List.mem_cons_self)
    · rename_i heq
      obtain ⟨rfl, rfl⟩ := List.cons.inj heq
      rw [hrest]
      rfl

/-- `^.*$` -/
def anything : Regex where
  nodes := [.atom .any 0 none]
  groups := 0
  startAnchor := true
  endAnchor := true
  ci := false

theorem compile_anything : Regex.compile "^.*$".toList false = some anything := by decide +kernel

theorem find_anything (text : List Char) : anything.find text = some (0, text.length, []) := by
  have hrun : (text.takeWhile (anything.atomMatches .any)).length = text.length := by
    have hall : ∀ c ∈ text, anything.atomMatches .any c = true := fun _ _ => rfl
    rw [List.takeWhile_eq_self_iff.mpr hall]
  have hstep : anything.step text anything.nodes 0 [] [] = some (text.length, []) := by
    rw [anything, Regex.step]
    change (if (text.takeWhile (anything.atomMatches .any)).length < 0 then none
      else ((List.range ((text.takeWhile (anything.atomMatches .any)).length + 1)).drop
        0).reverse.findSome?
        fun k => anything.step text [] (0 + k) [] []) = some (text.length, [])
    rw [hrun, if_neg (Nat.not_lt_zero _), List.drop_zero, List.range_succ, List.reverse_append,
      List.reverse_singleton,
      List.singleton_append, List.findSome?_cons, Nat.zero_add]
    simp [Regex.step]
  unfold Regex.find
  change (List.range (0 + 1)).findSome? (fun start =>
    (anything.step text anything.nodes start [] []).map fun (stop, caps) => (start, stop, caps)) = _
  rw [Nat.zero_add, List.range_one, List.findSome?_cons, hstep]
  rfl

/-- **The whole number goes before the domain.** -/
theorem applyRegexp_sipNaptr {domain : Name} (h : ∀ c ∈ domain, c ≠ '\\' ∧ c ≠ '!')
    (input : List Char) :
    applyRegexp (sipNaptr domain).regexp input =
      some ("sip:".toList ++ input ++ '@' :: domain) := by
  have hregexp : (sipNaptr domain).regexp = '!' :: ("^.*$!sip:\\1@".toList ++ (domain ++ ['!'])) :=
    rfl
  have hparts : splitExpression '!' [] ("^.*$!sip:\\1@".toList ++ (domain ++ ['!'])) =
      some ["^.*$".toList, "sip:\\1@".toList ++ domain, []] := by
    have hpattern : splitExpression '!' [] ("^.*$!sip:\\1@".toList ++ (domain ++ ['!'])) =
        (splitExpression '!' "sip:\\1@".toList (domain ++ ['!'])).map ("^.*$".toList :: ·) := by
      simp [splitExpression]
    rw [hpattern, splitExpression_plain h]
    rfl
  have hout : substitute input 0 input.length [] ("sip:\\1@".toList ++ domain) =
    some ("sip:".toList ++ input ++ '@' :: domain) := by
    have hsplit :
      "sip:\\1@".toList ++ domain = 's' :: 'i' :: 'p' :: ':' :: '\\' :: '1' :: '@' :: domain := rfl
    rw [hsplit]
    simp [substitute, substitute_plain fun c hc => (h c hc).1]
  rw [hregexp, applyRegexp]
  rw [if_neg (by decide), hparts]
  dsimp only
  rw [if_neg (by simp)]
  change (Regex.compile "^.*$".toList false).bind _ = _
  rw [compile_anything, Option.bind_some, find_anything, Option.bind_some]
  dsimp only
  rw [hout]
  simp

theorem enumSipUri_sipNaptr {domain : Name} (h : ∀ c ∈ domain, c ≠ '\\' ∧ c ≠ '!')
    (e164 : List Char) :
    enumSipUri [sipNaptr domain] e164 = some ("sip:".toList ++ aus e164 ++ '@' :: domain) := by
  have hsip :
    (eqIgnoreCase (sipNaptr domain).flags ['u'] && isSipService (sipNaptr domain).services) =
    true := by
    have hflags : eqIgnoreCase ['u'] ['u'] = true := by decide
    have hservice : isSipService "E2U+sip".toList = true := by decide
    exact Bool.and_eq_true_iff.mpr ⟨hflags, hservice⟩
  have hregexp : (sipNaptr domain).regexp ≠ [] := List.cons_ne_nil _ _
  unfold enumSipUri
  rw [List.filter_cons, if_pos (by rw [hsip, Bool.true_and]; exact decide_eq_true hregexp),
    List.filter_nil]
  dsimp only
  rw [List.insertionSort_cons, List.insertionSort_nil, List.orderedInsert_nil, List.findSome?_cons,
    applyRegexp_sipNaptr h]

example : enumSipUri [sipNaptr "cell-red.ecm".toList] "+12145550142".toList =
    some "sip:+12145550142@cell-red.ecm".toList := by
  decide +kernel

example : applyRegexp "!^\\+1([0-9]+)$!sip:\\1@b.ecm!".toList "+12145550142".toList =
    some "sip:2145550142@b.ecm".toList := by decide +kernel

end EvansComputer.Dns
