import EvansComputer.Dns.Enum
import Mathlib

/-!
# What the matcher finds

A way to match a list of nodes is how often each atom is taken (`Takes`).  Ways are compared in the
order of the atoms, and the one that takes more is the greater (the order of lists).  The search
tries the greatest way first, so what it finds is the greatest, with the groups that this way makes.
-/

namespace EvansComputer.Dns.Regex

variable {re : Regex} {text : List Char} {nodes : List Node} {pos : ℕ} {caps : Caps}
    {opened : List ℕ}

/-! ## The groups in place -/

/-- What became of the text, the groups and their openings. -/
abbrev Walk := Option ℕ × Caps × List ℕ

/-- Try one length after the other, on the same groups. -/
def tries (f : ℕ → Caps → List ℕ → Walk) : List ℕ → Caps → List ℕ → Walk
  | [], caps, opened => (none, caps, opened)
  | k :: ks, caps, opened =>
    match f k caps opened with
    | (none, caps, opened) => tries f ks caps opened
    | (some stop, caps, opened) => (some stop, caps, opened)

/-- `step`, with the groups and their openings changed in place: what a node changed is put back
when the nodes after it do not match. -/
def walk (re : Regex) (text : List Char) : List Node → ℕ → Caps → List ℕ → Walk
  | [], pos, caps, opened =>
    (if !re.endAnchor || pos = text.length then some pos else none, caps, opened)
  | .opening g :: nodes, pos, caps, opened =>
    match walk re text nodes pos caps (opened.set g pos) with
    | (none, caps, opened') => (none, caps, opened'.set g (opened.getD g 0))
    | (some stop, caps, opened') => (some stop, caps, opened')
  | .closing g :: nodes, pos, caps, opened =>
    match walk re text nodes pos (caps.set g (some (opened.getD g 0, pos))) opened with
    | (none, caps', opened) => (none, caps'.set g (caps.getD g none), opened)
    | (some stop, caps', opened) => (some stop, caps', opened)
  | .atom atom least most :: nodes, pos, caps, opened =>
    let run := ((text.drop pos).takeWhile (re.atomMatches atom)).length
    let n := (most.map (min run)).getD run
    if n < least then (none, caps, opened)
    else tries (fun k caps opened => walk re text nodes (pos + k) caps opened)
      ((List.range (n + 1)).drop least).reverse
      caps opened

def findInPlace (re : Regex) (text : List Char) : Option (ℕ × ℕ × Caps) :=
  (List.range ((if re.startAnchor then 0 else text.length) + 1)).findSome? fun start =>
    match re.walk text re.nodes start (List.replicate re.groups none) (List.replicate re.groups 0) with
    | (some stop, caps, _) => some (start, stop, caps)
    | (none, _) => none

theorem set_set_getD {α : Type*} (l : List α) (i : ℕ) (x d : α) :
    (l.set i x).set i (l.getD i d) = l := by
  rw [List.set_set]
  by_cases hi : i < l.length
  · rw [List.getD_eq_getElem?_getD, List.getElem?_eq_getElem hi, Option.getD_some,
      List.set_getElem_self]
  · exact List.set_eq_of_length_le (Nat.le_of_not_lt hi)

/-- Does the walk come to this end, with nothing changed where there is none? -/
def Ends (r : Option (ℕ × Caps)) (caps : Caps) (opened : List ℕ) (w : Walk) : Prop :=
  match r with
  | none => w = (none, caps, opened)
  | some (stop, caps') => ∃ opened', w = (some stop, caps', opened')

theorem tries_ends {f : ℕ → Caps → List ℕ → Walk} {g : ℕ → Option (ℕ × Caps)}
    (h : ∀ k, Ends (g k) caps opened (f k caps opened)) (ks : List ℕ) :
    Ends (ks.findSome? g) caps opened (tries f ks caps opened) := by
  induction ks with
  | nil => rfl
  | cons k ks ih =>
    have hk := h k
    rw [List.findSome?_cons, tries]
    cases hg : g k with
    | none =>
      rw [hg] at hk
      rw [show f k caps opened = (none, caps, opened) from hk]
      exact ih
    | some r =>
      rw [hg] at hk
      obtain ⟨opened', hw⟩ := hk
      rw [hw]
      exact ⟨opened', rfl⟩

/-- **Changed in place and put back, the groups are those of the way that is taken.** -/
theorem walk_ends (re : Regex) (text : List Char) (nodes : List Node) (pos : ℕ) (caps : Caps)
    (opened : List ℕ) :
    Ends (re.step text nodes pos caps opened) caps opened (re.walk text nodes pos caps opened) := by
  induction nodes generalizing pos caps opened with
  | nil =>
    rw [step, walk]
    split_ifs
    · exact ⟨opened, rfl⟩
    · rfl
  | cons node nodes ih =>
    cases node with
    | opening g =>
      have hrest := ih pos caps (opened.set g pos)
      rw [step, walk]
      cases hstep : re.step text nodes pos caps (opened.set g pos) with
      | none =>
        rw [hstep] at hrest
        rw [show re.walk text nodes pos caps (opened.set g pos) = _ from hrest]
        show (_, _, _) = _
        rw [set_set_getD]
      | some r =>
        rw [hstep] at hrest
        obtain ⟨opened', hw⟩ := hrest
        rw [hw]
        exact ⟨opened', rfl⟩
    | closing g =>
      have hrest := ih pos (caps.set g (some (opened.getD g 0, pos))) opened
      rw [step, walk]
      cases hstep : re.step text nodes pos (caps.set g (some (opened.getD g 0, pos))) opened with
      | none =>
        rw [hstep] at hrest
        rw [show re.walk text nodes pos (caps.set g (some (opened.getD g 0, pos))) opened =
          _ from hrest]
        show (_, _, _) = _
        rw [set_set_getD]
      | some r =>
        rw [hstep] at hrest
        obtain ⟨opened', hw⟩ := hrest
        rw [hw]
        exact ⟨opened', rfl⟩
    | atom atom least most =>
      rw [step, walk]
      split_ifs
      · rfl
      · exact tries_ends (fun k => ih (pos + k) caps opened) _

theorem findInPlace_eq (re : Regex) (text : List Char) : re.findInPlace text = re.find text := by
  unfold findInPlace find
  congr 1
  ext1 start
  have hends :=
    walk_ends re text re.nodes start (List.replicate re.groups none) (List.replicate re.groups 0)
  cases hstep :
    re.step text re.nodes start (List.replicate re.groups none) (List.replicate re.groups 0) with
  | none =>
    rw [hstep] at hends
    rw [show re.walk text re.nodes start _ _ = _ from hends]
    rfl
  | some r =>
    rw [hstep] at hends
    obtain ⟨opened', hw⟩ := hends
    rw [hw]
    rfl

/-! ## Ways -/

/-- The nodes are matched from `pos` on when the atoms are taken so often. -/
def Takes (re : Regex) (text : List Char) : List Node → List ℕ → ℕ → Prop
  | [], ks, pos => ks = [] ∧ (re.endAnchor = true → pos = text.length)
  | .opening _ :: nodes, ks, pos => Takes re text nodes ks pos
  | .closing _ :: nodes, ks, pos => Takes re text nodes ks pos
  | .atom atom least most :: nodes, k :: ks, pos =>
    (least ≤ k ∧ ∀ m ∈ most, k ≤ m) ∧
    (k ≤ (text.drop pos).length ∧ ∀ c ∈ (text.drop pos).take k, re.atomMatches atom c = true) ∧
      Takes re text nodes ks (pos + k)
  | .atom .. :: _, [], _ => False

/-- The groups that a way makes. -/
def capsOf : List Node → List ℕ → ℕ → Caps → List ℕ → Caps
  | [], _, _, caps, _ => caps
  | .opening g :: nodes, ks, pos, caps, opened => capsOf nodes ks pos caps (opened.set g pos)
  | .closing g :: nodes, ks, pos, caps, opened => capsOf nodes ks pos
    (caps.set g (some (opened.getD g 0, pos))) opened
  | .atom .. :: nodes, ks, pos, caps, opened => capsOf nodes ks.tail (pos + ks.headI) caps opened

/-- The end is that of the greatest way, or there is none. -/
def Best (re : Regex) (text : List Char) (nodes : List Node) (pos : ℕ) (caps : Caps)
    (opened : List ℕ) (r : Option (ℕ × Caps)) :
    Prop :=
  match r with
  | none => ∀ ks, ¬ Takes re text nodes ks pos
  | some (stop, caps') =>
    ∃ ks, IsGreatest {ks | Takes re text nodes ks pos} ks ∧ stop = pos + ks.sum ∧
      caps' = capsOf nodes ks pos caps opened

theorem le_length_takeWhile {α : Type*} {p : α → Bool} {l : List α} {k : ℕ} :
    k ≤ (l.takeWhile p).length ↔ k ≤ l.length ∧ ∀ c ∈ l.take k, p c = true := by
  induction l generalizing k with
  | nil => simp
  | cons c l ih =>
    cases k with
    | zero => simp
    | succ k =>
      rw [List.takeWhile_cons]
      cases hc : p c with
      | true => simp [hc, ih]
      | false => simp [hc]

theorem le_getD_min {most : Option ℕ} {run k : ℕ} :
    k ≤ (most.map (min run)).getD run ↔ (∀ m ∈ most, k ≤ m) ∧ k ≤ run := by
  cases most with
  | none => simp
  | some m =>
    simp
    omega

/-- From the top down, the first that gives something. -/
theorem findSome?_descending {β : Type*} {f : ℕ → Option β} {l m : ℕ} :
    match ((List.range m).drop l).reverse.findSome? f with
    | none => ∀ k, l ≤ k → k < m → f k = none
    | some b => ∃ k, l ≤ k ∧ k < m ∧ f k = some b ∧ ∀ k', k < k' → k' < m → f k' = none := by
  induction m with
  | zero =>
    rw [List.range_zero, List.drop_nil]
    exact fun k _ hk => absurd hk (Nat.not_lt_zero k)
  | succ m ih =>
    by_cases hle : l ≤ m
    · rw [List.range_succ, List.drop_append_of_le_length (by rwa [List.length_range]),
        List.reverse_append,
        List.reverse_singleton, List.singleton_append, List.findSome?_cons]
      cases hm : f m with
      | some b => exact ⟨m, hle, Nat.lt_succ_self m, hm, fun k' hlt hk' => absurd hk' (by omega)⟩
      | none =>
        dsimp only
        cases hfind : ((List.range m).drop l).reverse.findSome? f with
        | none =>
          rw [hfind] at ih
          intro k hk hlt
          rcases Nat.lt_succ_iff_lt_or_eq.mp hlt with hlt | rfl
          · exact ih k hk hlt
          · exact hm
        | some b =>
          rw [hfind] at ih
          obtain ⟨k, hk, hlt, hb, hnone⟩ := ih
          refine ⟨k, hk, Nat.lt_succ_of_lt hlt, hb, fun k' hkk' hlt' => ?_⟩
          rcases Nat.lt_succ_iff_lt_or_eq.mp hlt' with hlt' | rfl
          · exact hnone k' hkk' hlt'
          · exact hm
    · rw [List.drop_of_length_le (by rw [List.length_range]; omega)]
      exact fun k hk hlt => absurd hk (by omega)

/-- **The search finds the greatest way**, where there is one. -/
theorem step_best (re : Regex) (text : List Char) (nodes : List Node) (pos : ℕ) (caps : Caps)
    (opened : List ℕ) :
    Best re text nodes pos caps opened (re.step text nodes pos caps opened) := by
  induction nodes generalizing pos caps opened with
  | nil =>
    rw [step]
    split_ifs with hend
    · refine ⟨[], ⟨⟨rfl, fun hanchor => ?_⟩, fun ks hks => ?_⟩, rfl, rfl⟩
      · simpa [hanchor] using hend
      · rw [hks.1]
    · rintro ks ⟨-, hanchor⟩
      refine hend (Bool.or_eq_true_iff.mpr ?_)
      cases h : re.endAnchor with
      | true => exact .inr (decide_eq_true (hanchor h))
      | false => exact .inl rfl
  | cons node nodes ih =>
    cases node with
    | opening g => exact ih pos caps (opened.set g pos)
    | closing g => exact ih pos (caps.set g (some (opened.getD g 0, pos))) opened
    | atom atom least most =>
      rw [step]
      generalize hn : (most.map (min ((text.drop pos).takeWhile (re.atomMatches atom)).length)).getD
        ((text.drop pos).takeWhile (re.atomMatches atom)).length = n
      -- what an atom takes
      have htakes (k : ℕ) (ks : List ℕ) :
        Takes re text (.atom atom least most :: nodes) (k :: ks) pos ↔
          least ≤ k ∧ k ≤ n ∧ Takes re text nodes ks (pos + k) := by
        rw [← hn, le_getD_min, le_length_takeWhile]
        constructor
        · rintro ⟨⟨hleast, hmost⟩, hrun, hrest⟩
          exact ⟨hleast, ⟨hmost, hrun⟩, hrest⟩
        · rintro ⟨hleast, ⟨hmost, hrun⟩, hrest⟩
          exact ⟨⟨hleast, hmost⟩, hrun, hrest⟩
      split_ifs with hfew
      · rintro (_ | ⟨k, ks⟩) hks
        · exact hks
        · obtain ⟨hleast, hk, -⟩ := (htakes k ks).mp hks
          omega
      have htried := findSome?_descending (f := fun k => re.step text nodes (pos + k) caps opened)
        (l := least) (m := n + 1)
      cases hfind : ((List.range (n + 1)).drop least).reverse.findSome? fun k =>
        re.step text nodes (pos + k) caps opened with
      | none =>
        rw [hfind] at htried
        rintro (_ | ⟨k, ks⟩) hks
        · exact hks
        · obtain ⟨hleast, hk, hrest⟩ := (htakes k ks).mp hks
          have hbest := ih (pos + k) caps opened
          rw [htried k hleast (Nat.lt_succ_of_le hk)] at hbest
          exact hbest ks hrest
      | some r =>
        rw [hfind] at htried
        obtain ⟨stop, caps'⟩ := r
        obtain ⟨k, hleast, hk, hsome, hnone⟩ := htried
        have hbest := ih (pos + k) caps opened
        rw [hsome] at hbest
        obtain ⟨ks, ⟨htake, hgreatest⟩, rfl, rfl⟩ := hbest
        refine ⟨k :: ks, ⟨(htakes k ks).mpr ⟨hleast, Nat.le_of_lt_succ hk, htake⟩, ?_⟩, ?_, rfl⟩
        · rintro (_ | ⟨k', ks'⟩) hks'
          · exact absurd hks' id
          · obtain ⟨hleast', hk', hrest'⟩ := (htakes k' ks').mp hks'
            rcases lt_trichotomy k' k with hlt | rfl | hgt
            · exact le_of_lt (List.Lex.rel hlt)
            · rcases (hgreatest hrest').eq_or_lt with rfl | hlt
              · exact le_rfl
              · exact le_of_lt (List.Lex.cons hlt)
            · have hbest' := ih (pos + k') caps opened
              rw [hnone k' hgt (Nat.lt_succ_of_le hk')] at hbest'
              exact absurd hrest' (hbest' ks')
        · rw [List.sum_cons, Nat.add_assoc]

end EvansComputer.Dns.Regex
