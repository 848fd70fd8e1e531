import EvansComputer.Dns.Matching

/-!
# Patterns as regular expressions

A pattern is a sequence of atoms, each with a quantifier, and of groups of them, between anchors.
`Spells` says what text such a pattern is written as: what has a meaning of its own is escaped or
stands in a set.  Its language is built of the words of one letter; a match is a word of the
language at its place in the text.
-/

namespace EvansComputer.Dns

open Computability

inductive Quantifier where
  | one
  | star
  | plus
  | optional

structure Piece where
  atom : Atom
  quantifier : Quantifier

inductive Item where
  | piece (p : Piece)
  | group (ps : List Piece)

structure Pattern where
  startAnchor : Bool
  items : List Item
  endAnchor : Bool

/-! ## How a pattern is spelled -/

def Quantifier.text : Quantifier → List Char
  | one => []
  | star => ['*']
  | plus => ['+']
  | optional => ['?']

/-- The items of a set, and its end.  A bracket that comes first does not close it, and what can be
read as a range is one. -/
inductive SpellsSet : Bool → List (Char × Char) → List Char → Prop
  | close : SpellsSet false [] [']']
  | range {first : Bool} {c e : Char} {items : List (Char × Char)} {w : List Char}
    (hc : first = false → c ≠ ']') (hle : c ≤ e)
      (he : e ≠ ']') (h : SpellsSet false items w) :
      SpellsSet first ((c, e) :: items) (c :: '-' :: e :: w)
  | single {first : Bool} {c : Char} {items : List (Char × Char)} {w : List Char}
    (hc : first = false → c ≠ ']')
      (hw : ∀ e w', w = '-' :: e :: w' → e = ']') (h : SpellsSet false items w) :
      SpellsSet first ((c, c) :: items) (c :: w)

/-- The characters that stand for themselves only when they are escaped. -/
def special : List Char := ['(', ')', '\\', '.', '[', '*', '+', '?', '|', '{', '}', '^', '$']

inductive SpellsAtom : Atom → List Char → Prop
  | plain {c : Char} (hc : c ∉ special) : SpellsAtom (.char c) [c]
  | escaped (c : Char) : SpellsAtom (.char c) ['\\', c]
  | any : SpellsAtom .any ['.']
  | set {items : List (Char × Char)} {w : List Char} (h : SpellsSet true items w)
    (hw : w.head? ≠ some '^') :
      SpellsAtom (.set false items) ('[' :: w)
  | negated {items : List (Char × Char)} {w : List Char} (h : SpellsSet true items w) :
      SpellsAtom (.set true items) ('[' :: '^' :: w)

inductive SpellsPieces : List Piece → List Char → Prop
  | nil : SpellsPieces [] []
  | cons {p : Piece} {ps : List Piece} {w v : List Char} (hp : SpellsAtom p.atom w)
    (hps : SpellsPieces ps v) :
      SpellsPieces (p :: ps) (w ++ (p.quantifier.text ++ v))

inductive SpellsItems : List Item → List Char → Prop
  | nil : SpellsItems [] []
  | piece {p : Piece} {items : List Item} {w v : List Char} (hp : SpellsAtom p.atom w)
    (hitems : SpellsItems items v) :
      SpellsItems (.piece p :: items) (w ++ (p.quantifier.text ++ v))
  | group {ps : List Piece} {items : List Item} {w v : List Char} (hps : SpellsPieces ps w)
    (hitems : SpellsItems items v) :
      SpellsItems (.group ps :: items) ('(' :: (w ++ ')' :: v))

def Pattern.Spells (p : Pattern) (w : List Char) : Prop :=
  ∃ body, SpellsItems p.items body ∧ w = (if p.startAnchor then ['^'] else []) ++ body ++
    (if p.endAnchor then ['$'] else [])

/-! ## What it means -/

def Quantifier.least : Quantifier → ℕ
  | one => 1
  | star => 0
  | plus => 1
  | optional => 0

def Quantifier.most : Quantifier → Option ℕ
  | one => some 1
  | star => none
  | plus => none
  | optional => some 1

def Piece.node (p : Piece) : Node := .atom p.atom p.quantifier.least p.quantifier.most

/-- The nodes of the items, of which the first group is the group `g`. -/
def nodesFrom : ℕ → List Item → List Node
  | _, [] => []
  | g, .piece p :: items => p.node :: nodesFrom g items
  | g, .group ps :: items => .opening g ::
    (ps.map Piece.node ++ .closing g :: nodesFrom (g + 1) items)

def groupCount : List Item → ℕ
  | [] => 0
  | .piece _ :: items => groupCount items
  | .group _ :: items => groupCount items + 1

def Pattern.regex (p : Pattern) (ci : Bool) : Regex where
  nodes := nodesFrom 0 p.items
  groups := groupCount p.items
  startAnchor := p.startAnchor
  endAnchor := p.endAnchor
  ci := ci

/-- The words of one letter that an atom matches. -/
def Regex.letters (re : Regex) (atom : Atom) : Language Char :=
  {w | ∃ c, w = [c] ∧ re.atomMatches atom c = true}

def Quantifier.of (l : Language Char) : Quantifier → Language Char
  | one => l
  | star => l∗
  | plus => l * l∗
  | optional => 1 + l

def Regex.pieceLanguage (re : Regex) (p : Piece) : Language Char :=
  p.quantifier.of (re.letters p.atom)

def Regex.itemLanguage (re : Regex) : Item → Language Char
  | .piece p => re.pieceLanguage p
  | .group ps => (ps.map re.pieceLanguage).prod

namespace Pattern

def language (p : Pattern) (ci : Bool) : Language Char :=
  (p.items.map (p.regex ci).itemLanguage).prod

/-- A word of the language stands in the text from `start` to `stop`, where the anchors allow it. -/
def Matches (p : Pattern) (ci : Bool) (text : List Char) (start stop : ℕ) : Prop :=
  (p.startAnchor = true → start = 0) ∧ (p.endAnchor = true → stop = text.length) ∧
    start ≤ text.length ∧
    ∃ w ∈ p.language ci, w <+: text.drop start ∧ stop = start + w.length

/-- How often each atom is taken, in a match from `start` on. -/
def Way (p : Pattern) (ci : Bool) (text : List Char) (start : ℕ) (ks : List ℕ) : Prop :=
  (p.regex ci).Takes text (nodesFrom 0 p.items) ks start

end Pattern

/-- Where the groups are in a match that begins at `pos`. -/
def spans : List Item → List ℕ → ℕ → List (ℕ × ℕ)
  | [], _, _ => []
  | .piece _ :: items, ks, pos => spans items ks.tail (pos + ks.headI)
  | .group ps :: items, ks, pos =>
    let stop := pos + (ks.take ps.length).sum
    (pos, stop) :: spans items (ks.drop ps.length) stop

/-- The leftmost match, and of those that begin there the one that takes most, atom after atom, with
its groups; or there is no match. -/
def Pattern.Finds (p : Pattern) (ci : Bool) (text : List Char) : Option (ℕ × ℕ × Regex.Caps) → Prop
  | none => ∀ start stop, ¬ p.Matches ci text start stop
  | some (start, stop, caps) =>
    p.Matches ci text start stop ∧ (∀ start' < start, ∀ stop', ¬ p.Matches ci text start' stop') ∧
      ∃ ks, IsGreatest {ks | p.Way ci text start ks} ks ∧ stop = start + ks.sum ∧
        caps = (spans p.items ks start).map some

/-! ## Compiling -/

namespace Regex

variable {re : Regex} {text : List Char}

theorem of_setItems {first : Bool} {acc items : List (Char × Char)} {p rest : List Char}
    (h : setItems first acc p = some (items, rest)) :
    ∃ new w, items = acc ++ new ∧ p = w ++ rest ∧ SpellsSet first new w := by
  fun_induction setItems first acc p with
  | case1 => cases h
  | case2 first acc c e tail hclose =>
    cases h
    obtain ⟨rfl, hfirst⟩ := hclose
    obtain rfl : first = false := by simpa using hfirst
    exact ⟨[], [']'], (List.append_nil _).symm, rfl, .close⟩
  | case3 => cases h
  | case4 first acc c e tail hclose he hlt ih =>
    obtain ⟨new, w, rfl, rfl, hspells⟩ := ih h
    refine ⟨(c, e) :: new, c :: '-' :: e :: w, by simp, rfl,
      .range (fun hfirst hc => ?_) (Char.not_lt.mp hlt) he hspells⟩
    exact hclose ⟨hc, by rw [hfirst]; rfl⟩
  | case5 first acc c e tail hclose he ih =>
    obtain ⟨new, w, rfl, hw, hspells⟩ := ih h
    refine ⟨(c, c) :: new, c :: w, by simp, by rw [hw]; rfl,
      .single (fun hfirst hc => ?_) (fun e' w' heq => ?_) hspells⟩
    · exact hclose ⟨hc, by rw [hfirst]; rfl⟩
    · rw [heq] at hw
      cases hw
      exact not_not.mp he
  | case6 first acc c tail hother hclose =>
    cases h
    obtain ⟨rfl, hfirst⟩ := hclose
    obtain rfl : first = false := by simpa using hfirst
    exact ⟨[], [']'], (List.append_nil _).symm, rfl, .close⟩
  | case7 first acc c tail hother hclose ih =>
    obtain ⟨new, w, rfl, rfl, hspells⟩ := ih h
    refine ⟨(c, c) :: new, c :: w, by simp, rfl,
      .single (fun hfirst hc => ?_) (fun e' w' heq => ?_) hspells⟩
    · exact hclose ⟨hc, by rw [hfirst]; rfl⟩
    · rw [heq] at hother
      exact absurd rfl (hother _ _)

theorem of_readAtom {p rest : List Char} {atom : Atom} (h : readAtom p = some (atom, rest))
    (hopen : ∀ p', p ≠ '(' :: p') (hclose : ∀ p', p ≠ ')' :: p') :
    ∃ w, SpellsAtom atom w ∧ p = w ++ rest := by
  unfold readAtom at h
  split at h
  · cases h
  · cases h
  · cases h
    exact ⟨_, .escaped _, rfl⟩
  · cases h
    exact ⟨_, .any, rfl⟩
  · obtain ⟨⟨items, rest'⟩, hset, heq⟩ := Option.map_eq_some_iff.mp h
    cases heq
    obtain ⟨new, w, hnew, rfl, hspells⟩ := of_setItems hset
    obtain rfl : items = new := hnew
    exact ⟨_, .negated hspells, rfl⟩
  · rename_i hneg
    obtain ⟨⟨items, rest'⟩, hset, heq⟩ := Option.map_eq_some_iff.mp h
    cases heq
    obtain ⟨new, w, hnew, rfl, hspells⟩ := of_setItems hset
    obtain rfl : items = new := hnew
    refine ⟨_, .set hspells fun hhead => ?_, rfl⟩
    obtain ⟨w', rfl⟩ : ∃ w', w = '^' :: w' := by
      cases w with
      | nil => cases hhead
      | cons c w => exact ⟨w, by cases hhead; rfl⟩
    exact hneg _ rfl
  · rename_i c rest hend hescape hdot _ hset
    split_ifs at h with hspecial
    cases h
    have hescaped : c ≠ '\\' := by
      rintro rfl
      cases rest with
      | nil => exact hend rfl rfl
      | cons n rest => exact hescape n rest rfl rfl
    refine ⟨_, .plain fun hc => ?_, rfl⟩
    simp only [special, List.mem_cons] at hc
    have hopen' : c ≠ '(' := fun heq => hopen rest (by rw [heq])
    have hclose' : c ≠ ')' := fun heq => hclose rest (by rw [heq])
    simp only [List.mem_cons, not_or] at hspecial
    grind

theorem readQuantifier_eq (p : List Char) :
    ∃ (q : Quantifier) (rest : List Char), readQuantifier p = ((q.least, q.most), rest) ∧
      p = q.text ++ rest := by
  unfold readQuantifier
  split
  · exact ⟨.star, _, rfl, rfl⟩
  · exact ⟨.plus, _, rfl, rfl⟩
  · exact ⟨.optional, _, rfl, rfl⟩
  · exact ⟨.one, _, rfl, rfl⟩

/-- What is read of a pattern, outside of groups or in one. -/
def Reads : Option ℕ → ℕ → List Char → List Node → ℕ → Prop
  | none, g, p, new, n => ∃ items, SpellsItems items p ∧ new = nodesFrom g items ∧
    n = groupCount items
  | some o, g, p, new, n => ∃ ps items w v, SpellsPieces ps w ∧ SpellsItems items v ∧
    p = w ++ ')' :: v ∧
      new = ps.map Piece.node ++ .closing o :: nodesFrom g items ∧ n = groupCount items

/-- **What is compiled is the pattern that is spelled.** -/
theorem of_compileFrom {fuel groups groups' : ℕ} {p : List Char} {nodes nodes' : List Node}
    {opened : Option ℕ} (h : compileFrom fuel p nodes groups opened = some (nodes', groups')) :
    ∃ new n, nodes' = nodes ++ new ∧ groups' = groups + n ∧ Reads opened groups p new n := by
  fun_induction compileFrom fuel p nodes groups opened with
  | case1 => cases h
  | case2 fuel nodes groups opened hopened =>
    cases h
    rw [Option.not_isSome_iff_eq_none.mp hopened]
    exact ⟨[], 0, (List.append_nil _).symm, rfl, [], .nil, rfl, rfl⟩
  | case3 => cases h
  | case4 => cases h
  | case5 fuel rest nodes groups opened hopened ih =>
    -- a group begins
    rw [not_or] at hopened
    obtain rfl := Option.not_isSome_iff_eq_none.mp hopened.1
    obtain ⟨new, n, rfl, rfl, ps, items, w, v, hps, hitems, rfl, rfl, rfl⟩ := ih h
    refine ⟨_, groupCount items + 1, List.append_assoc _ _ _, by omega, .group ps :: items,
      .group hps hitems, rfl, rfl⟩
  | case6 fuel rest nodes groups opened ih =>
    -- and ends
    obtain ⟨g, rfl, h⟩ := Option.bind_eq_some_iff.mp h
    obtain ⟨new, n, rfl, rfl, items, hitems, rfl, rfl⟩ := ih g h
    exact ⟨_, _, List.append_assoc _ _ _, rfl, [], items, [], _, .nil, hitems, rfl, rfl, rfl⟩
  | case7 fuel p nodes groups opened hnil hopen hclose ih =>
    obtain ⟨⟨atom, rest⟩, hatom, h⟩ := Option.bind_eq_some_iff.mp h
    obtain ⟨q, rest', hq, rfl⟩ := readQuantifier_eq rest
    dsimp only at h
    rw [hq] at h
    have hrest := ih atom q.least q.most rest' h
    obtain ⟨w, hspells, rfl⟩ := of_readAtom hatom hopen hclose
    cases opened with
    | none =>
      obtain ⟨new, n, rfl, rfl, items, hitems, rfl, rfl⟩ := hrest
      exact ⟨_, _, List.append_assoc _ _ _, rfl, .piece ⟨atom, q⟩ :: items,
        .piece (p := ⟨atom, q⟩) hspells hitems, rfl, rfl⟩
    | some g =>
      obtain ⟨new, n, rfl, rfl, ps, items, w', v, hps, hitems, rfl, rfl, rfl⟩ := hrest
      refine ⟨_, _, List.append_assoc _ _ _, rfl, ⟨atom, q⟩ :: ps, items, _, v,
        .cons (p := ⟨atom, q⟩) hspells hps, hitems, ?_,
        rfl, rfl⟩
      simp

theorem of_compile {pattern : List Char} {ci : Bool} (h : compile pattern ci = some re) :
    ∃ p : Pattern, p.Spells pattern ∧ re = p.regex ci := by
  unfold compile at h
  dsimp only at h
  generalize hbody : (if pattern.head? = some '^' then pattern.tail else pattern) = body at h
  generalize hend : (decide (body.getLast? = some '$') &&
    decide ((body.dropLast.reverse.takeWhile (· = '\\')).length % 2 = 0)) = anchored at h
  obtain ⟨⟨nodes, groups⟩, hcompiled, rfl⟩ := Option.map_eq_some_iff.mp h
  obtain ⟨new, n, hnodes, hgroups, items, hitems, rfl, rfl⟩ := of_compileFrom hcompiled
  obtain rfl : nodes = nodesFrom 0 items := hnodes
  obtain rfl : groups = groupCount items := hgroups.trans (Nat.zero_add _)
  refine ⟨⟨decide (pattern.head? = some '^'), items, anchored⟩, ⟨_, hitems, ?_⟩, rfl⟩
  have hstart :
    pattern = (if decide (pattern.head? = some '^') = true then ['^'] else []) ++ body := by
    simp only [decide_eq_true_eq]
    rw [← hbody]
    split_ifs with hhead
    · exact (List.cons_head?_tail hhead).symm
    · rfl
  refine hstart.trans ?_
  rw [List.append_assoc]
  congr 1
  cases anchored with
  | true =>
    have hlast := of_decide_eq_true (Bool.and_eq_true_iff.mp hend).1
    exact (List.dropLast_append_getLast? _ hlast).symm
  | false => exact (List.append_nil _).symm

/-! ## Words and ways -/

/-- What a node matches. -/
def nodeLanguage (re : Regex) : Node → Language Char
  | .atom atom least most =>
    {w | (least ≤ w.length ∧ ∀ m ∈ most, w.length ≤ m) ∧ ∀ c ∈ w, re.atomMatches atom c = true}
  | _ => 1

theorem mem_letters_kstar {atom : Atom} {w : List Char} :
    w ∈ (re.letters atom)∗ ↔ ∀ c ∈ w, re.atomMatches atom c = true := by
  rw [Language.mem_kstar]
  constructor
  · rintro ⟨L, rfl, hL⟩ c hc
    obtain ⟨y, hy, hcy⟩ := List.mem_flatten.mp hc
    obtain ⟨c', rfl, hmatch⟩ := hL y hy
    rwa [List.mem_singleton.mp hcy]
  · intro hw
    refine ⟨w.map fun c => [c], by rw [← List.flatMap_def, List.flatMap_singleton'], fun y hy => ?_⟩
    obtain ⟨c, hc, rfl⟩ := List.mem_map.mp hy
    exact ⟨c, rfl, hw c hc⟩

theorem nodeLanguage_piece (re : Regex) (p : Piece) :
    re.nodeLanguage p.node = re.pieceLanguage p := by
  obtain ⟨atom, q⟩ := p
  ext w
  show ((q.least ≤ w.length ∧ ∀ m ∈ q.most, w.length ≤ m) ∧ ∀ c ∈ w, re.atomMatches atom c = true) ↔
    w ∈ q.of (re.letters atom)
  cases q with
  | one =>
    constructor
    · rintro ⟨⟨hleast, hmost⟩, hw⟩
      obtain ⟨c, rfl⟩ := List.length_eq_one_iff.mp (le_antisymm (hmost 1 rfl) hleast)
      exact ⟨c, rfl, hw c List.mem_cons_self⟩
    · rintro ⟨c, rfl, hc⟩
      simp [Quantifier.least, Quantifier.most, hc]
  | star =>
    rw [Quantifier.of, mem_letters_kstar]
    simp [Quantifier.least, Quantifier.most]
  | plus =>
    rw [Quantifier.of, Language.mem_mul]
    constructor
    · rintro ⟨⟨hleast, -⟩, hw⟩
      cases w with
      | nil => exact absurd hleast (by simp [Quantifier.least])
      | cons c w =>
        obtain ⟨hc, hw⟩ := List.forall_mem_cons.mp hw
        exact ⟨[c], ⟨c, rfl, hc⟩, w, mem_letters_kstar.mpr hw, rfl⟩
    · rintro ⟨u, ⟨c, rfl, hc⟩, v, hv, rfl⟩
      refine ⟨by simp [Quantifier.least, Quantifier.most], ?_⟩
      exact List.forall_mem_cons.mpr ⟨hc, mem_letters_kstar.mp hv⟩
  | optional =>
    rw [Quantifier.of, Language.mem_add, Language.mem_one]
    constructor
    · rintro ⟨⟨-, hmost⟩, hw⟩
      cases w with
      | nil => exact .inl rfl
      | cons c w =>
        obtain rfl : w = [] := by simpa [Quantifier.most] using hmost
        exact .inr ⟨c, rfl, hw c List.mem_cons_self⟩
    · rintro (rfl | ⟨c, rfl, hc⟩)
      · simp [Quantifier.least, Quantifier.most]
      · simp [Quantifier.least, Quantifier.most, hc]

theorem language_nodes (re : Regex) (g : ℕ) (items : List Item) :
    ((nodesFrom g items).map re.nodeLanguage).prod = (items.map re.itemLanguage).prod := by
  induction items generalizing g with
  | nil => rfl
  | cons item items ih =>
    cases item with
    | piece p =>
      rw [nodesFrom, List.map_cons, List.prod_cons, nodeLanguage_piece, ih, List.map_cons,
        List.prod_cons]
      rfl
    | group ps =>
      have hpieces : (ps.map Piece.node).map re.nodeLanguage = ps.map re.pieceLanguage := by
        rw [List.map_map]
        exact List.map_congr_left fun p _ => nodeLanguage_piece re p
      rw [nodesFrom, List.map_cons, List.map_append, List.map_cons, List.prod_cons,
        List.prod_append, List.prod_cons, hpieces,
        ih, List.map_cons, List.prod_cons]
      show 1 * ((ps.map re.pieceLanguage).prod * (1 * _)) = _
      rw [one_mul, one_mul]
      rfl

/-- **A way takes a word of the language.** -/
theorem mem_of_takes {nodes : List Node} {ks : List ℕ} {pos : ℕ} (h : Takes re text nodes ks pos) :
    (text.drop pos).take ks.sum ∈ (nodes.map re.nodeLanguage).prod ∧
      ks.sum ≤ (text.drop pos).length ∧
      (re.endAnchor = true → pos + ks.sum = text.length) := by
  induction nodes generalizing ks pos with
  | nil =>
    obtain ⟨rfl, hend⟩ := h
    exact ⟨Language.nil_mem_one, Nat.zero_le _, hend⟩
  | cons node nodes ih =>
    rw [List.map_cons, List.prod_cons]
    cases node with
    | opening g =>
      rw [show re.nodeLanguage (.opening g) = 1 from rfl, one_mul]
      exact ih h
    | closing g =>
      rw [show re.nodeLanguage (.closing g) = 1 from rfl, one_mul]
      exact ih h
    | atom atom least most =>
      cases ks with
      | nil => exact absurd h id
      | cons k ks =>
        obtain ⟨hbounds, ⟨hlen, hmatch⟩, hrest⟩ := h
        obtain ⟨hmem, hsum, hend⟩ := ih hrest
        rw [← List.drop_drop] at hmem hsum
        rw [List.sum_cons, List.take_add]
        refine ⟨Language.append_mem_mul ⟨?_, hmatch⟩ hmem, ?_, fun hanchor => ?_⟩
        · rwa [List.length_take_of_le hlen]
        · rw [List.length_drop] at hsum
          omega
        · rw [← Nat.add_assoc]
          exact hend hanchor

/-- **And every word is taken by one.** -/
theorem takes_of_mem {nodes : List Node} {w : List Char} {pos : ℕ}
    (hw : w ∈ (nodes.map re.nodeLanguage).prod) (hpre : w <+: text.drop pos)
    (hend : re.endAnchor = true → pos + w.length = text.length) :
    ∃ ks, Takes re text nodes ks pos ∧ ks.sum = w.length := by
  induction nodes generalizing w pos with
  | nil =>
    obtain rfl : w = [] := hw
    exact ⟨[], ⟨rfl, hend⟩, rfl⟩
  | cons node nodes ih =>
    rw [List.map_cons, List.prod_cons] at hw
    cases node with
    | opening g =>
      rw [show re.nodeLanguage (.opening g) = 1 from rfl, one_mul] at hw
      exact ih hw hpre hend
    | closing g =>
      rw [show re.nodeLanguage (.closing g) = 1 from rfl, one_mul] at hw
      exact ih hw hpre hend
    | atom atom least most =>
      obtain ⟨u, hu, v, hv, rfl⟩ := Language.mem_mul.mp hw
      obtain ⟨rest, hrest⟩ := hpre
      rw [List.append_assoc] at hrest
      have hdrop : text.drop (pos + u.length) = v ++ rest := by
        rw [← List.drop_drop, ← hrest, List.drop_left]
      obtain ⟨ks, htakes, hsum⟩ := ih hv ⟨rest, hdrop.symm⟩ fun hanchor => by
        rw [Nat.add_assoc, ← List.length_append]
        exact hend hanchor
      refine ⟨u.length :: ks, ⟨hu.1, ⟨?_, ?_⟩, htakes⟩, ?_⟩
      · rw [← hrest, List.length_append]
        exact Nat.le_add_right _ _
      · rw [← hrest, List.take_left]
        exact hu.2
      · rw [List.sum_cons, hsum, List.length_append]

/-! ## The groups of a way -/

theorem capsOf_pieces (ps : List Piece) (nodes : List Node) (ks : List ℕ) (pos : ℕ) (caps : Caps)
    (opened : List ℕ) :
    capsOf (ps.map Piece.node ++ nodes) ks pos caps opened =
      capsOf nodes (ks.drop ps.length) (pos + (ks.take ps.length).sum) caps opened := by
  induction ps generalizing ks pos with
  | nil => simp
  | cons p ps ih =>
    rw [List.map_cons, List.cons_append, Piece.node, capsOf, ih]
    cases ks with
    | nil => simp
    | cons k ks => simp [Nat.add_assoc]

/-- **The groups stand where the way has them.** -/
theorem capsOf_spans (items : List Item) (ks : List ℕ) (pos : ℕ) (done : Caps) (opened : List ℕ)
    (hopened : done.length + groupCount items ≤ opened.length) :
    capsOf (nodesFrom done.length items) ks pos
      (done ++ List.replicate (groupCount items) none) opened =
      done ++ (spans items ks pos).map some := by
  induction items generalizing ks pos done opened with
  | nil => rfl
  | cons item items ih =>
    cases item with
    | piece p => exact ih ks.tail (pos + ks.headI) done opened hopened
    | group ps =>
      rw [groupCount] at hopened ⊢
      have hget : (opened.set done.length pos).getD done.length 0 = pos := by
        rw [List.getD_eq_getElem?_getD, List.getElem?_set_self (by omega)]
        rfl
      rw [nodesFrom, capsOf, capsOf_pieces, capsOf, hget, List.replicate_succ,
        List.set_append_right _ _ le_rfl, Nat.sub_self,
        List.set_cons_zero, List.append_cons]
      have hlen :
        done.length + 1 = (done ++ [some (pos, pos + (ks.take ps.length).sum)]).length := by simp
      rw [hlen, ih]
      · simp [spans]
      · simp
        omega

/-! ## What is found -/

theorem findSome?_ascending {β : Type*} {f : ℕ → Option β} {m : ℕ} :
    match (List.range m).findSome? f with
    | none => ∀ k < m, f k = none
    | some b => ∃ k < m, f k = some b ∧ ∀ k' < k, f k' = none := by
  induction m with
  | zero => exact fun k hk => absurd hk (Nat.not_lt_zero k)
  | succ m ih =>
    rw [List.range_succ, List.findSome?_append]
    cases hfind : (List.range m).findSome? f with
    | some b =>
      rw [hfind] at ih
      obtain ⟨k, hk, hb, hnone⟩ := ih
      exact ⟨k, Nat.lt_succ_of_lt hk, hb, hnone⟩
    | none =>
      rw [hfind] at ih
      rw [Option.none_or, List.findSome?_singleton]
      cases hm : f m with
      | some b => exact ⟨m, Nat.lt_succ_self m, hm, ih⟩
      | none =>
        intro k hk
        rcases Nat.lt_succ_iff_lt_or_eq.mp hk with hk | rfl
        · exact ih k hk
        · exact hm

end Regex

namespace Pattern

variable {p : Pattern} {ci : Bool} {text : List Char} {start stop : ℕ}

/-- **A match is what a way takes.** -/
theorem matches_iff : p.Matches ci text start stop ↔
    (p.startAnchor = true → start = 0) ∧ start ≤ text.length ∧ ∃ ks, p.Way ci text start ks ∧
      stop = start + ks.sum := by
  unfold Matches language Way
  rw [← Regex.language_nodes _ 0]
  constructor
  · rintro ⟨hstart, hend, hle, w, hw, hpre, rfl⟩
    obtain ⟨ks, htakes, hsum⟩ := Regex.takes_of_mem hw hpre hend
    exact ⟨hstart, hle, ks, htakes, by rw [hsum]⟩
  · rintro ⟨hstart, hle, ks, htakes, rfl⟩
    obtain ⟨hmem, hsum, hend⟩ := Regex.mem_of_takes htakes
    refine ⟨hstart, hend, hle, _, hmem, List.take_prefix _ _, ?_⟩
    rw [List.length_take_of_le hsum]

/-- **The search finds what the pattern says.** -/
theorem find_finds (p : Pattern) (ci : Bool) (text : List Char) :
    p.Finds ci text ((p.regex ci).find text) := by
  have hstep (start : ℕ) := Regex.step_best (p.regex ci) text (p.regex ci).nodes start
    (List.replicate (p.regex ci).groups none) (List.replicate (p.regex ci).groups 0)
  generalize hf : (fun start => ((p.regex ci).step text (p.regex ci).nodes start
    (List.replicate (p.regex ci).groups none) (List.replicate (p.regex ci).groups 0)).map
      (Prod.mk start)) = f
  have hfind : (p.regex ci).find text =
      (List.range ((if (p.regex ci).startAnchor then 0 else text.length) + 1)).findSome? f := by
    rw [← hf]
    rfl
  rw [hfind]
  clear hfind
  -- where a match may begin
  have hplace {start stop : ℕ} (h : p.Matches ci text start stop) :
      start < (if (p.regex ci).startAnchor then 0 else text.length) + 1 := by
    obtain ⟨hstart, hle, -⟩ := matches_iff.mp h
    split_ifs with hanchor
    · exact (hstart hanchor).symm ▸ Nat.zero_lt_one
    · exact Nat.lt_succ_of_le hle
  have hnone {start : ℕ} (h : f start = none) (stop : ℕ) : ¬ p.Matches ci text start stop := by
    intro hmatch
    obtain ⟨-, -, ks, htakes, -⟩ := matches_iff.mp hmatch
    rw [← hf] at h
    have hbest := hstep start
    rw [Option.map_eq_none_iff.mp h] at hbest
    exact hbest ks htakes
  have hfind := Regex.findSome?_ascending (f := f)
    (m := (if (p.regex ci).startAnchor then 0 else text.length) + 1)
  cases hcases :
    (List.range ((if (p.regex ci).startAnchor then 0 else text.length) + 1)).findSome? f with
  | none =>
    rw [hcases] at hfind
    exact fun start stop hmatch => hnone (hfind start (hplace hmatch)) stop hmatch
  | some r =>
    rw [hcases] at hfind
    obtain ⟨start, hlt, hsome, hbefore⟩ := hfind
    rw [← hf] at hsome
    obtain ⟨⟨stop, caps⟩, hstop, rfl⟩ := Option.map_eq_some_iff.mp hsome
    have hbest := hstep start
    rw [hstop] at hbest
    obtain ⟨ks, hgreatest, rfl, rfl⟩ := hbest
    refine ⟨matches_iff.mpr ⟨fun hanchor => ?_, ?_, ks, hgreatest.1, rfl⟩,
      fun start' hlt' => hnone (hbefore start' hlt'), ks,
      hgreatest, rfl, ?_⟩
    · have hanchor : (p.regex ci).startAnchor = true := hanchor
      rw [if_pos hanchor] at hlt
      omega
    · split_ifs at hlt
      · omega
      · omega
    · exact Regex.capsOf_spans p.items ks start [] _
        (by rw [List.length_replicate]; exact (Nat.zero_add _).le)

end Pattern

/-- **The matcher is exact.**  A pattern that is compiled is spelled by a pattern, and in every text
what is found, with the groups changed in place, is the leftmost match, of those the one that takes
most, atom after atom, with the groups of just this match; nothing is found exactly where the
language has no match.  A substitution replaces this match, and leaves the rest of the text. -/
theorem matcher_exact {pattern : List Char} {ci : Bool} {re : Regex}
    (h : Regex.compile pattern ci = some re) :
    ∃ p : Pattern, p.Spells pattern ∧ ∀ text, p.Finds ci text (re.findInPlace text) ∧
      ∀ delim rest replacement flags, ¬ (delim.isDigit = true ∨ delim = '\\' ∨ delim = 'i') →
        splitExpression delim [] rest = some [pattern, replacement, flags] →
          flags = (if ci then ['i'] else []) →
          applyRegexp (delim :: rest) text = (re.findInPlace text).bind fun (start, stop, caps) =>
            (substitute text start stop caps replacement).map fun out =>
              text.take start ++ out ++ text.drop stop := by
  obtain ⟨p, hspells, rfl⟩ := Regex.of_compile h
  refine ⟨p, hspells, fun text => ?_⟩
  rw [Regex.findInPlace_eq]
  refine ⟨p.find_finds ci text, fun delim rest replacement flags hdelim hsplit hflags => ?_⟩
  have hci : decide (flags = ['i']) = ci := by
    rw [hflags]
    cases ci <;> rfl
  rw [applyRegexp, if_neg hdelim, hsplit]
  dsimp only
  rw [if_neg, hci, h, Option.bind_some]
  rw [hflags]
  cases ci <;> simp

/-- The numbers of a country, of which the rest is a group. -/
def countryPattern : List Char := "^\\+49(.*)(0?)$".toList

def countryRegex : Regex where
  nodes := [.atom (.char '+') 1 (some 1), .atom (.char '4') 1 (some 1),
    .atom (.char '9') 1 (some 1), .opening 0,
    .atom .any 0 none, .closing 0, .opening 1, .atom (.char '0') 0 (some 1), .closing 1]
  groups := 2
  startAnchor := true
  endAnchor := true
  ci := false

theorem countryPattern_exact : ∃ p : Pattern, p.Spells countryPattern ∧
    p.Finds false "+49300".toList (some (0, 6, [some (3, 6), some (6, 6)])) := by
  obtain ⟨p, hspells, hfinds⟩ :=
    matcher_exact (by decide +kernel : Regex.compile countryPattern false = some countryRegex)
  have hfound : countryRegex.findInPlace "+49300".toList =
    some (0, 6, [some (3, 6), some (6, 6)]) := by decide +kernel
  exact ⟨p, hspells, hfound ▸ (hfinds "+49300".toList).1⟩

end EvansComputer.Dns
