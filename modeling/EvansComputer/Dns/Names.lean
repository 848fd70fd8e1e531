import EvansComputer.Dns.Message
import EvansComputer.Library.Text
import Mathlib

/-!
# Names that are typed in

How the text of a name becomes a canonical name, and which labels are host names.
-/

namespace EvansComputer.Dns

open Text

variable {s : List Char} {c : Char} {n : Name}

def trimEnd (s : List Char) : List Char := (s.reverse.dropWhile isSpace).reverse

def trim (s : List Char) : List Char := ((s.dropWhile isSpace).reverse.dropWhile isSpace).reverse

def byteLength (s : List Char) : ℕ := (s.map Char.utf8Size).sum

def stripPrefix (p s : List Char) : Option (List Char) :=
  if p.isPrefixOf s then some (s.drop p.length) else none

def maxName : ℕ := 253
def maxLabel : ℕ := 63

/-- Validate a name and make it canonical: lower case, without the trailing dot. -/
def normalize (s : List Char) : Option Name :=
  let s := trim s
  if s = ['.'] ∨ s = [] then some []
  else
    let s := if s.getLast? = some '.' then s.dropLast else s
    if byteLength s > maxName then none
    else if (split (· = '.') s).all fun label =>
        label ≠ [] && byteLength label ≤ maxLabel && label.all fun c =>
          0x21 ≤ c.toNat && c.toNat ≤ 0x7e && c ≠ '\\' then
      some (s.map Char.toLower)
    else none

/-- Letters, digits and hyphens, no hyphen at either end. -/
def isLdh (label : List Char) : Bool :=
  label ≠ [] && label.length ≤ maxLabel && (label.all fun c => c.isAlphanum || c = '-') &&
    label.head? ≠ some '-' &&
    label.getLast? ≠ some '-'

/-- A name as it is written in a zone: with a trailing dot it is absolute, `@` is the origin, else
it is below the origin. -/
def absolute (name : List Char) (origin : Name) : Option Name :=
  if name = ['@'] then some origin
  else if name.getLast? = some '.' ∨ origin = [] then normalize name
  else normalize (name ++ '.' :: origin)

/-! ## Words and lines -/

/-- Space at the end of a text adds no word. -/
theorem wordsFrom_append_space (acc s : List Char) {t : List Char}
    (ht : ∀ c ∈ t, isSpace c = true) :
    wordsFrom acc (s ++ t) = wordsFrom acc s := by
  induction s generalizing acc with
  | nil =>
    rw [List.nil_append]
    induction t generalizing acc with
    | nil => rfl
    | cons c t ih =>
      have hstep := ih (fun c hc => ht c (List.mem_cons_of_mem _ hc)) []
      rw [wordsFrom.eq_3, if_pos (ht c List.mem_cons_self), hstep]
      cases acc with
      | nil => rfl
      | cons a acc => rfl
  | cons c s ih => rw [List.cons_append, wordsFrom.eq_3, wordsFrom.eq_3, ih, ih]

theorem words_dropWhile (s : List Char) : words (s.dropWhile isSpace) = words s := by
  induction s with
  | nil => rfl
  | cons c s ih =>
    by_cases hc : isSpace c = true
    · rw [List.dropWhile_cons_of_pos hc, ih]
      unfold words
      rw [wordsFrom, if_pos hc, if_pos rfl]
    · rw [List.dropWhile_cons_of_neg hc]

/-- What is left out at the end of a text. -/
theorem append_takeWhile_reverse (s : List Char) :
    (s.reverse.dropWhile isSpace).reverse ++ (s.reverse.takeWhile isSpace).reverse = s := by
  rw [← List.reverse_append, List.takeWhile_append_dropWhile, List.reverse_reverse]

theorem words_trimEnd (s : List Char) : words (trimEnd s) = words s := by
  have happend :=
    wordsFrom_append_space [] (s := trimEnd s) (t := (s.reverse.takeWhile isSpace).reverse)
    fun c hc => List.mem_takeWhile_imp (List.mem_reverse.mp hc)
  unfold trimEnd at *
  rw [append_takeWhile_reverse] at happend
  exact happend.symm

theorem words_trim (s : List Char) : words (trim s) = words s :=
  (words_trimEnd (s.dropWhile isSpace)).trans (words_dropWhile s)

theorem mem_trimEnd (h : c ∈ trimEnd s) : c ∈ s :=
  List.mem_reverse.mp ((List.dropWhile_sublist _).subset (List.mem_reverse.mp h))

theorem trim_of_not_isSpace (h : ∀ c ∈ s, isSpace c = false) : trim s = s := by
  have hdrop (l : List Char) (hl : ∀ c ∈ l, isSpace c = false) : l.dropWhile isSpace = l := by
    cases l with
    | nil => rfl
    | cons c l => exact List.dropWhile_cons_of_neg (by rw [hl c List.mem_cons_self]; decide)
  unfold trim
  rw [hdrop s h, hdrop _ fun c hc => h c (List.mem_reverse.mp hc), List.reverse_reverse]

/-- A command without a newline is one line. -/
theorem lines_command {line : List Char} (h : '\n' ∉ line) :
    lines (line ++ ['\r', '\n']) = [line] := by
  have hfeed : '\n' ∉ line ++ ['\r'] := by
    intro hmem
    rcases List.mem_append.mp hmem with hmem | hmem
    · exact h hmem
    · exact absurd hmem (by decide)
  have hsplit : line ++ ['\r', '\n'] = (line ++ ['\r']) ++ ['\n'] := by rw [List.append_assoc]; rfl
  rw [hsplit, lines, linesFrom_append hfeed, List.nil_append, linesFrom, if_pos rfl, dropCr,
    if_pos (by simp), List.dropLast_concat]
  rfl

/-! ## Canonical names -/

theorem splitFrom_sep {sep : Char → Bool} (hc : sep c = true) (acc s : List Char) :
    splitFrom sep acc (s ++ [c]) = splitFrom sep acc s ++ [[]] := by
  induction s generalizing acc with
  | nil => simp [splitFrom, hc]
  | cons x s ih =>
    rw [List.cons_append, splitFrom, splitFrom]
    split
    · rw [ih, List.cons_append]
    · exact ih _

theorem splitFrom_map {sep : Char → Bool} {f : Char → Char} (hf : ∀ c, sep (f c) = sep c)
    (acc s : List Char) :
    splitFrom sep (acc.map f) (s.map f) = (splitFrom sep acc s).map (List.map f) := by
  induction s generalizing acc with
  | nil => rfl
  | cons x s ih =>
    rw [List.map_cons, splitFrom, splitFrom, hf]
    split
    · rw [List.map_cons, ← ih]
      rfl
    · rw [← ih, List.map_append]
      rfl

/-- Every character of a text is in one of its fields, or separates two. -/
theorem mem_splitFrom {sep : Char → Bool} {acc s : List Char} {c : Char} (h : c ∈ acc ++ s) :
    sep c = true ∨ ∃ f ∈ splitFrom sep acc s, c ∈ f := by
  induction s generalizing acc with
  | nil => exact .inr ⟨acc, List.mem_singleton_self _, List.append_nil acc ▸ h⟩
  | cons x s ih =>
    rw [splitFrom]
    split
    · rename_i hsep
      rcases List.mem_append.mp h with h | h
      · exact .inr ⟨acc, List.mem_cons_self, h⟩
      rcases List.mem_cons.mp h with rfl | h
      · exact .inl hsep
      · rcases @ih [] h with h | ⟨f, hf, hc⟩
        · exact .inl h
        · exact .inr ⟨f, List.mem_cons_of_mem _ hf, hc⟩
    · exact @ih (acc ++ [x]) (by rwa [List.append_assoc, List.singleton_append])

theorem mem_split (sep : Char → Bool) (h : c ∈ s) : sep c = true ∨ ∃ f ∈ split sep s, c ∈ f :=
  @mem_splitFrom sep [] s c h

theorem toLower_eq_dot (c : Char) : (c.toLower = '.') ↔ c = '.' := by
  by_cases hu : c.isUpper = true
  · have hlow := toNat_toLower hu
    have hrange := isUpper_iff.mp hu
    constructor
    · intro h
      rw [h] at hlow
      have : (46 : ℕ) = c.toNat + 32 := hlow
      omega
    · rintro rfl
      exact absurd hu (by decide)
  · rw [toLower_of_not_isUpper hu]

/-- A printable character of a label. -/
def IsLabelChar (c : Char) : Prop := 0x21 ≤ c.toNat ∧ c.toNat ≤ 0x7e ∧ c ≠ '\\'

theorem isLabelChar_toLower (h : IsLabelChar c) : IsLabelChar c.toLower := by
  by_cases hu : c.isUpper = true
  · have hlow := toNat_toLower hu
    have hrange := isUpper_iff.mp hu
    refine ⟨by omega, by omega, fun heq => ?_⟩
    rw [heq] at hlow
    have : (92 : ℕ) = c.toNat + 32 := hlow
    omega
  · rwa [toLower_of_not_isUpper hu]

theorem byteLength_of_ascii (h : ∀ c ∈ s, c.toNat ≤ 0x7f) : byteLength s = s.length := by
  unfold byteLength
  induction s with
  | nil => rfl
  | cons c s ih =>
    have hsize : c.utf8Size = 1 := by
      have hc := h c List.mem_cons_self
      unfold Char.utf8Size
      rw [if_pos]
      exact hc
    rw [List.map_cons, List.sum_cons, ih fun c hc => h c (List.mem_cons_of_mem _ hc), hsize,
      List.length_cons]
    omega

theorem toNat_toLower_le (h : c.toNat ≤ 0x7f) : c.toLower.toNat ≤ 0x7f := by
  by_cases hu : c.isUpper = true
  · rw [toNat_toLower hu]
    have hrange := isUpper_iff.mp hu
    omega
  · rwa [toLower_of_not_isUpper hu]

/-- The names that `normalize` makes. -/
structure IsCanonical (n : Name) : Prop where
  labels : ∀ label ∈ split (· = '.') n, label ≠ [] ∧ byteLength label ≤ maxLabel ∧ ∀ c ∈ label,
    IsLabelChar c
  short : byteLength n ≤ maxName
  lower : n.map Char.toLower = n

theorem IsCanonical.char (h : IsCanonical n) (hc : c ∈ n) : c = '.' ∨ IsLabelChar c := by
  rcases mem_split (· = '.') hc with hsep | ⟨f, hf, hc⟩
  · exact .inl (of_decide_eq_true hsep)
  · exact .inr ((h.labels f hf).2.2 c hc)

theorem isSpace_of_isLabelChar (h : IsLabelChar c) : isSpace c = false := by
  obtain ⟨hlow, hhigh, -⟩ := h
  simp only [isSpace, Bool.or_eq_false_iff, Bool.and_eq_false_iff, decide_eq_false_iff_not,
    beq_eq_false_iff_ne]
  omega

theorem IsCanonical.ne_nil (h : IsCanonical n) : n ≠ [] := by
  rintro rfl
  exact (h.labels [] List.mem_cons_self).1 rfl

theorem IsCanonical.isWord (h : IsCanonical n) : IsWord n := by
  refine ⟨h.ne_nil, fun c hc => ?_⟩
  rcases h.char hc with rfl | hc
  · decide
  · exact isSpace_of_isLabelChar hc

theorem IsCanonical.getLast?_ne (h : IsCanonical n) : n.getLast? ≠ some '.' := by
  intro hlast
  obtain ⟨m, rfl⟩ := List.getLast?_eq_some_iff.mp hlast
  have hempty : [] ∈ split (· = '.') (m ++ ['.']) := by
    rw [split, splitFrom_sep (by decide)]
    exact List.mem_append_right _ List.mem_cons_self
  exact (h.labels [] hempty).1 rfl

/-- The check of each label. -/
theorem labelCheck_iff (label : List Char) :
    (label ≠ [] && byteLength label ≤ maxLabel && label.all fun c =>
      0x21 ≤ c.toNat && c.toNat ≤ 0x7e && c ≠ '\\') = true ↔
      label ≠ [] ∧ byteLength label ≤ maxLabel ∧ ∀ c ∈ label, IsLabelChar c := by
  simp only [IsLabelChar, Bool.and_eq_true, decide_eq_true_eq, List.all_eq_true, and_assoc]

theorem normalize_of_isCanonical (h : IsCanonical n) : normalize n = some n := by
  have hdot : ¬ (n = ['.'] ∨ n = []) := by
    rintro (rfl | rfl)
    · exact h.getLast?_ne rfl
    · exact h.ne_nil rfl
  unfold normalize
  rw [trim_of_not_isSpace h.isWord.2]
  dsimp only
  rw [if_neg hdot, if_neg h.getLast?_ne, if_neg (Nat.not_lt.mpr h.short),
    if_pos (List.all_eq_true.mpr fun label hl => (labelCheck_iff label).mpr (h.labels label hl)),
      h.lower]

theorem isCanonical_normalize (h : normalize s = some n) (hne : n ≠ []) : IsCanonical n := by
  unfold normalize at h
  dsimp only at h
  split at h
  · cases h
    exact absurd rfl hne
  generalize (if (trim s).getLast? = some '.' then (trim s).dropLast else trim s) = m at h
  split at h
  · cases h
  split at h
  · rename_i hshort hall
    cases h
    have hlabels := fun label hl => (labelCheck_iff label).mp (List.all_eq_true.mp hall label hl)
    have hascii : ∀ c ∈ m, c.toNat ≤ 0x7f := by
      intro c hc
      rcases mem_split (· = '.') hc with hsep | ⟨f, hf, hc⟩
      · rw [of_decide_eq_true hsep]
        decide
      · have hc := (hlabels f hf).2.2 c hc
        exact hc.2.1.trans (by decide)
    have hascii' : ∀ c ∈ m.map Char.toLower, c.toNat ≤ 0x7f := by
      intro c hc
      obtain ⟨b, hb, rfl⟩ := List.mem_map.mp hc
      exact toNat_toLower_le (hascii b hb)
    refine ⟨?_, ?_, ?_⟩
    · have hmap :
        split (· = '.') (m.map Char.toLower) = (split (· = '.') m).map (List.map Char.toLower) :=
        splitFrom_map (fun c => decide_eq_decide.mpr (toLower_eq_dot c)) [] m
      intro label hl
      rw [hmap] at hl
      obtain ⟨old, hold, rfl⟩ := List.mem_map.mp hl
      obtain ⟨hne, hlen, hchars⟩ := hlabels old hold
      have hchars' : ∀ c ∈ old.map Char.toLower, IsLabelChar c := by
        intro c hc
        obtain ⟨b, hb, rfl⟩ := List.mem_map.mp hc
        exact isLabelChar_toLower (hchars b hb)
      refine ⟨mt List.map_eq_nil_iff.mp hne, ?_, hchars'⟩
      rw [byteLength_of_ascii fun c hc => (hchars' c hc).2.1.trans (by decide), List.length_map,
        ← byteLength_of_ascii fun c hc => (hchars c hc).2.1.trans (by decide)]
      exact hlen
    · rw [byteLength_of_ascii hascii', List.length_map, ← byteLength_of_ascii hascii]
      exact Nat.not_lt.mp hshort
    · rw [List.map_map]
      exact List.map_congr_left fun c _ => toLower_toLower c
  · cases h

end EvansComputer.Dns
