import Mathlib.Data.List.Basic
import Mathlib.Data.Int.Notation
import Mathlib.Tactic.Common

/-!
# Words, lines and numbers of a text

A text is a list of characters.  `words`, `lines` and `split` cut it the way the
standard library of the source does, and the theorems say when cutting undoes
joining: words survive if they are not empty and hold no space, lines if they hold
no line feed and do not end in a carriage return, fields if they hold no separator.

Numbers are written in decimal without leading zeros and read with an optional
sign, so reading is not injective and only one round trip holds.
-/

namespace EvansComputer.Text

variable {w acc s f : List Char} {c : Char}

/-- `char::is_whitespace`. -/
def isSpace (c : Char) : Bool :=
  (0x09 ≤ c.toNat && c.toNat ≤ 0x0D) || c.toNat == 0x20 || c.toNat == 0x85 || c.toNat == 0xA0 ||
    c.toNat == 0x1680 || (0x2000 ≤ c.toNat && c.toNat ≤ 0x200A) || c.toNat == 0x2028 ||
    c.toNat == 0x2029 || c.toNat == 0x202F || c.toNat == 0x205F || c.toNat == 0x3000

/-! ## Words -/

/-- `split_whitespace` behind the characters of a word already begun. -/
def wordsFrom : List Char → List Char → List (List Char)
  | [], [] => []
  | acc, [] => [acc]
  | acc, c :: s =>
    if isSpace c then
      if acc = [] then wordsFrom [] s else acc :: wordsFrom [] s
    else wordsFrom (acc ++ [c]) s

/-- `split_whitespace` -/
def words (s : List Char) : List (List Char) := wordsFrom [] s

/-- What comes out of `words`. -/
def IsWord (w : List Char) : Prop := w ≠ [] ∧ ∀ c ∈ w, isSpace c = false

-- A check of every character of a text goes through the text, not through all there are.
instance decidableForallMem {P : Char → Prop} [DecidablePred P] (w : List Char) :
    Decidable (∀ c ∈ w, P c) :=
  List.decidableBAll P w

instance (w : List Char) : Decidable (IsWord w) := inferInstanceAs (Decidable (_ ∧ _))

theorem wordsFrom_append (acc : List Char) (h : ∀ c ∈ w, isSpace c = false) (s : List Char) :
    wordsFrom acc (w ++ s) = wordsFrom (acc ++ w) s := by
  induction w generalizing acc with
  | nil => simp
  | cons c w ih =>
    have hc : isSpace c = false := h c List.mem_cons_self
    rw [List.cons_append, wordsFrom, hc, if_neg Bool.false_ne_true,
      ih _ fun c' hc' => h c' (List.mem_cons_of_mem _ hc'),
      List.append_assoc, List.singleton_append]

theorem words_word (h : IsWord w) : words w = [w] := by
  have hw := wordsFrom_append [] h.2 []
  rw [List.append_nil, List.nil_append] at hw
  rw [words, hw]
  obtain ⟨c, w, rfl⟩ := List.exists_cons_of_ne_nil h.1
  rfl

theorem words_word_space (h : IsWord w) (s : List Char) :
    words (w ++ ' ' :: s) = w :: words s := by
  rw [words, wordsFrom_append [] h.2, List.nil_append, wordsFrom, if_pos (by decide), if_neg h.1]
  rfl

/-- Words with one space between them. -/
def unwords : List (List Char) → List Char
  | [] => []
  | [w] => w
  | w :: ws => w ++ ' ' :: unwords ws

theorem words_unwords {ws : List (List Char)} (h : ∀ w ∈ ws, IsWord w) :
    words (unwords ws) = ws := by
  induction ws with
  | nil => rfl
  | cons w ws ih =>
    have hw := h w List.mem_cons_self
    cases ws with
    | nil => exact words_word hw
    | cons v ws =>
      rw [unwords, words_word_space hw, ih fun u hu => h u (List.mem_cons_of_mem _ hu)]
      exact fun h => List.cons_ne_nil _ _ h

theorem isWord_of_mem_wordsFrom (hacc : ∀ c ∈ acc, isSpace c = false) (h : w ∈ wordsFrom acc s) :
    IsWord w := by
  induction s generalizing acc with
  | nil =>
    cases acc with
    | nil => exact absurd h List.not_mem_nil
    | cons c acc =>
      rw [List.mem_singleton.mp h]
      exact ⟨List.cons_ne_nil _ _, hacc⟩
  | cons c s ih =>
    rw [wordsFrom] at h
    by_cases hc : isSpace c = true
    · rw [if_pos hc] at h
      by_cases hnil : acc = []
      · rw [if_pos hnil] at h
        exact ih (fun _ h => absurd h List.not_mem_nil) h
      · rw [if_neg hnil] at h
        rcases List.mem_cons.mp h with rfl | h
        · exact ⟨hnil, hacc⟩
        · exact ih (fun _ h => absurd h List.not_mem_nil) h
    · rw [if_neg hc] at h
      refine ih (fun c' hc' => ?_) h
      rcases List.mem_append.mp hc' with hc' | hc'
      · exact hacc c' hc'
      · rw [List.mem_singleton.mp hc']
        exact Bool.not_eq_true _ ▸ hc

/-- The characters of words are those of the text. -/
theorem mem_of_mem_wordsFrom (hw : w ∈ wordsFrom acc s) (hc : c ∈ w) :
    c ∈ acc ∨ c ∈ s := by
  induction s generalizing acc with
  | nil =>
    cases acc with
    | nil => exact absurd hw List.not_mem_nil
    | cons a acc =>
      rw [List.mem_singleton.mp hw] at hc
      exact .inl hc
  | cons a s ih =>
    rw [wordsFrom] at hw
    by_cases ha : isSpace a = true
    · rw [if_pos ha] at hw
      by_cases hnil : acc = []
      · rw [if_pos hnil] at hw
        exact (ih hw).elim (fun h => absurd h List.not_mem_nil) fun h =>
          .inr (List.mem_cons_of_mem _ h)
      · rw [if_neg hnil] at hw
        rcases List.mem_cons.mp hw with rfl | hw
        · exact .inl hc
        · exact (ih hw).elim (fun h => absurd h List.not_mem_nil) fun h =>
            .inr (List.mem_cons_of_mem _ h)
    · rw [if_neg ha] at hw
      rcases ih hw with h | h
      · rcases List.mem_append.mp h with h | h
        · exact .inl h
        · exact .inr (List.mem_singleton.mp h ▸ List.mem_cons_self)
      · exact .inr (List.mem_cons_of_mem _ h)

theorem mem_of_mem_words (hw : w ∈ words s) (hc : c ∈ w) : c ∈ s :=
  (mem_of_mem_wordsFrom hw hc).elim (fun h => absurd h List.not_mem_nil) id

theorem isWord_of_mem_words (h : w ∈ words s) : IsWord w :=
  isWord_of_mem_wordsFrom (fun _ h => absurd h List.not_mem_nil) h

/-! ## Characters -/

theorem isDigit_iff : c.isDigit = true ↔ 48 ≤ c.toNat ∧ c.toNat ≤ 57 := by
  simp only [Char.isDigit, Bool.and_eq_true, decide_eq_true_eq]
  exact and_congr UInt32.le_iff_toNat_le UInt32.le_iff_toNat_le

theorem isLower_iff : c.isLower = true ↔ 97 ≤ c.toNat ∧ c.toNat ≤ 122 := by
  delta Char.isLower
  simp only [Bool.and_eq_true, decide_eq_true_eq]
  exact and_congr UInt32.le_iff_toNat_le UInt32.le_iff_toNat_le

theorem isUpper_iff : c.isUpper = true ↔ 65 ≤ c.toNat ∧ c.toNat ≤ 90 := by
  delta Char.isUpper
  simp only [decide_eq_true_eq]
  exact and_congr UInt32.le_iff_toNat_le UInt32.le_iff_toNat_le

theorem isAlphanum_iff : c.isAlphanum = true ↔
    (48 ≤ c.toNat ∧ c.toNat ≤ 57) ∨ (65 ≤ c.toNat ∧ c.toNat ≤ 90) ∨
    (97 ≤ c.toNat ∧ c.toNat ≤ 122) := by
  delta Char.isAlphanum Char.isAlpha
  rw [Bool.or_eq_true, Bool.or_eq_true, isDigit_iff, isLower_iff, isUpper_iff]
  omega

theorem toNat_toLower (h : c.isUpper = true) : c.toLower.toNat = c.toNat + 32 := by
  have hrange := isUpper_iff.mp h
  unfold Char.toLower
  split
  · show (c.val + ('a'.val - 'A'.val)).toNat = c.val.toNat + 32
    have hle : c.val.toNat ≤ 90 := hrange.2
    rw [UInt32.toNat_add]
    show (c.val.toNat + 32) % 4294967296 = _
    omega
  · rename_i hn
    exact absurd ⟨UInt32.le_iff_toNat_le.mpr hrange.1, UInt32.le_iff_toNat_le.mpr hrange.2⟩ hn

theorem toLower_of_not_isUpper (h : ¬ c.isUpper = true) : c.toLower = c := by
  unfold Char.toLower
  split
  · rename_i hn
    exact absurd (isUpper_iff.mpr ⟨UInt32.le_iff_toNat_le.mp hn.1, UInt32.le_iff_toNat_le.mp hn.2⟩)
      h
  · rfl

theorem not_isUpper_toLower (c : Char) : ¬ c.toLower.isUpper = true := by
  by_cases h : c.isUpper = true
  · rw [isUpper_iff, toNat_toLower h]
    have hrange := isUpper_iff.mp h
    omega
  · rwa [toLower_of_not_isUpper h]

theorem toLower_toLower (c : Char) : c.toLower.toLower = c.toLower :=
  toLower_of_not_isUpper (not_isUpper_toLower c)

theorem isAlphanum_toLower (h : c.isAlphanum = true) : c.toLower.isAlphanum = true := by
  by_cases hu : c.isUpper = true
  · rw [isAlphanum_iff, toNat_toLower hu]
    have hrange := isUpper_iff.mp hu
    omega
  · rwa [toLower_of_not_isUpper hu]

/-- A character that is printed, and is none of `!`, `"` and `#`. -/
def IsPlain (c : Char) : Prop := 36 ≤ c.toNat ∧ c.toNat ≤ 126

instance (c : Char) : Decidable (IsPlain c) := inferInstanceAs (Decidable (_ ∧ _))

theorem isPlain_of_isAlphanum (h : c.isAlphanum = true) : IsPlain c := by
  have hrange := isAlphanum_iff.mp h
  unfold IsPlain
  omega

theorem isPlain_of_isDigit (h : c.isDigit = true) : IsPlain c := by
  have hrange := isDigit_iff.mp h
  unfold IsPlain
  omega

theorem isSpace_of_isPlain (h : IsPlain c) : isSpace c = false := by
  obtain ⟨hlow, hhigh⟩ := h
  simp only [isSpace, Bool.or_eq_false_iff, Bool.and_eq_false_iff, decide_eq_false_iff_not,
    beq_eq_false_iff_ne]
  omega

theorem isWord_of_isPlain (hne : w ≠ []) (h : ∀ c ∈ w, IsPlain c) : IsWord w :=
  ⟨hne, fun c hc => isSpace_of_isPlain (h c hc)⟩

/-! ## Lines -/

/-- A line without a carriage return at its end. -/
def dropCr (l : List Char) : List Char := if l.getLast? = some '\r' then l.dropLast else l

/-- `lines` behind the characters of a line already begun. -/
def linesFrom : List Char → List Char → List (List Char)
  | [], [] => []
  | acc, [] => [acc]
  | acc, c :: s => if c = '\n' then dropCr acc :: linesFrom [] s else linesFrom (acc ++ [c]) s

/-- `lines` -/
def lines (s : List Char) : List (List Char) := linesFrom [] s

/-- What comes through as a line. -/
def IsLine (l : List Char) : Prop := '\n' ∉ l ∧ l.getLast? ≠ some '\r'

theorem linesFrom_append {l : List Char} (h : '\n' ∉ l) (s : List Char) :
    linesFrom acc (l ++ s) = linesFrom (acc ++ l) s := by
  induction l generalizing acc with
  | nil => simp
  | cons c l ih =>
    have hc : c ≠ '\n' := fun hc => h (hc ▸ List.mem_cons_self)
    rw [List.cons_append, linesFrom, if_neg hc, ih fun hl => h (List.mem_cons_of_mem _ hl),
      List.append_assoc, List.singleton_append]

theorem lines_flatMap {ls : List (List Char)} (h : ∀ l ∈ ls, IsLine l) :
    lines (ls.flatMap fun l => l ++ ['\n']) = ls := by
  induction ls with
  | nil => rfl
  | cons l ls ih =>
    obtain ⟨hfeed, hcr⟩ := h l List.mem_cons_self
    rw [List.flatMap_cons, List.append_assoc, List.singleton_append, lines,
      linesFrom_append hfeed, List.nil_append, linesFrom, if_pos rfl, dropCr, if_neg hcr]
    exact congrArg _ (ih fun l' hl' => h l' (List.mem_cons_of_mem _ hl'))

theorem linesFrom_newline_append (acc s s' : List Char) :
    linesFrom acc (s ++ '\n' :: s') = linesFrom acc (s ++ ['\n']) ++ linesFrom [] s' := by
  induction s generalizing acc with
  | nil =>
    rw [List.nil_append, List.nil_append, linesFrom, linesFrom, if_pos rfl, if_pos rfl]
    rfl
  | cons c s ih =>
    rw [List.cons_append, List.cons_append, linesFrom, linesFrom]
    split_ifs
    · rw [ih, List.cons_append]
    · rw [ih]

/-- A text that ends with its last line can be read apart from what follows. -/
theorem lines_flatMap_append (ls : List (List Char)) (s : List Char) :
    lines (ls.flatMap (fun l => l ++ ['\n']) ++ s) = lines
      (ls.flatMap fun l => l ++ ['\n']) ++ lines s := by
  induction ls with
  | nil => rfl
  | cons l ls ih =>
    have hsplit : ∀ s', lines ((l :: ls).flatMap (fun l => l ++ ['\n']) ++ s') =
        lines (l ++ ['\n']) ++ lines (ls.flatMap (fun l => l ++ ['\n']) ++ s') := fun s' => by
      rw [List.flatMap_cons, List.append_assoc, List.append_assoc, List.singleton_append, lines,
        linesFrom_newline_append]
      rfl
    have hsplit₀ := hsplit []
    rw [List.append_nil, List.append_nil] at hsplit₀
    rw [hsplit, ih, hsplit₀, List.append_assoc]

theorem IsLine.append {l l' : List Char} (h : IsLine l) (h' : IsLine l') : IsLine (l ++ l') := by
  refine ⟨fun hmem => ?_, ?_⟩
  · rcases List.mem_append.mp hmem with hmem | hmem
    · exact h.1 hmem
    · exact h'.1 hmem
  · rw [List.getLast?_append]
    cases hlast : l'.getLast? with
    | none => exact h.2
    | some c =>
      rw [Option.some_or, ← hlast]
      exact h'.2

/-- Words joined by spaces are a line. -/
theorem isLine_unwords {ws : List (List Char)} (h : ∀ w ∈ ws, IsWord w) : IsLine (unwords ws) := by
  have hspace : ∀ c ∈ unwords ws, isSpace c = false ∨ c = ' ' := by
    induction ws with
    | nil => exact fun _ hc => absurd hc List.not_mem_nil
    | cons w ws ih =>
      intro c hc
      have hw := h w List.mem_cons_self
      cases ws with
      | nil => exact .inl (hw.2 c hc)
      | cons v ws =>
        rw [unwords] at hc
        · rcases List.mem_append.mp hc with hc | hc
          · exact .inl (hw.2 c hc)
          · rcases List.mem_cons.mp hc with rfl | hc
            · exact .inr rfl
            · exact ih (fun u hu => h u (List.mem_cons_of_mem _ hu)) c hc
        · exact fun h => List.cons_ne_nil _ _ h
  constructor
  · intro hmem
    rcases hspace _ hmem with hs | hs
    · exact absurd hs (by decide)
    · exact absurd hs (by decide)
  · intro hlast
    rcases hspace _ (List.mem_of_getLast? hlast) with hs | hs
    · exact absurd hs (by decide)
    · exact absurd hs (by decide)

/-! ## Fields -/

/-- `split` at every separator, behind the characters of a field already begun. -/
def splitFrom (sep : Char → Bool) : List Char → List Char → List (List Char)
  | acc, [] => [acc]
  | acc, c :: s => if sep c then acc :: splitFrom sep [] s else splitFrom sep (acc ++ [c]) s

/-- `split` at every separator. -/
def split (sep : Char → Bool) (s : List Char) : List (List Char) := splitFrom sep [] s

variable {sep : Char → Bool}

theorem splitFrom_append (acc : List Char) (h : ∀ c ∈ f, sep c = false) (s : List Char) :
    splitFrom sep acc (f ++ s) = splitFrom sep (acc ++ f) s := by
  induction f generalizing acc with
  | nil => simp
  | cons c f ih =>
    have hc : sep c = false := h c List.mem_cons_self
    rw [List.cons_append, splitFrom, hc, if_neg Bool.false_ne_true,
      ih _ fun c' hc' => h c' (List.mem_cons_of_mem _ hc'), List.append_assoc,
      List.singleton_append]

theorem split_field (h : ∀ c ∈ f, sep c = false) : split sep f = [f] := by
  have hf := splitFrom_append [] h []
  rwa [List.append_nil, List.nil_append] at hf

theorem split_field_sep (h : ∀ c ∈ f, sep c = false) (hc : sep c = true) (s : List Char) :
    split sep (f ++ c :: s) = f :: split sep s := by
  rw [split, splitFrom_append [] h, List.nil_append, splitFrom, if_pos hc]
  rfl

/-- Fields with one separator between them. -/
theorem split_intercalate (hc : sep c = true) {fs : List (List Char)} (hne : fs ≠ [])
    (h : ∀ f ∈ fs, ∀ c ∈ f, sep c = false) : split sep (List.intercalate [c] fs) = fs := by
  induction fs with
  | nil => exact absurd rfl hne
  | cons f fs ih =>
    have hf := h f List.mem_cons_self
    cases fs with
    | nil =>
      rw [List.intercalate_singleton]
      exact split_field hf
    | cons g fs =>
      rw [List.intercalate_cons_cons, List.append_assoc, List.singleton_append,
        split_field_sep hf hc,
        ih (List.cons_ne_nil _ _) fun f' hf' => h f' (List.mem_cons_of_mem _ hf')]

theorem mem_intercalate {d : Char} {fs : List (List Char)} (h : d ∈ List.intercalate [c] fs) :
    d = c ∨ ∃ f ∈ fs, d ∈ f := by
  induction fs with
  | nil => exact absurd h List.not_mem_nil
  | cons f fs ih =>
    cases fs with
    | nil =>
      rw [List.intercalate_singleton] at h
      exact .inr ⟨f, List.mem_cons_self, h⟩
    | cons g fs =>
      rw [List.intercalate_cons_cons, List.append_assoc, List.singleton_append] at h
      rcases List.mem_append.mp h with h | h
      · exact .inr ⟨f, List.mem_cons_self, h⟩
      · rcases List.mem_cons.mp h with rfl | h
        · exact .inl rfl
        · exact (ih h).imp_right fun ⟨f', hf', h⟩ => ⟨f', List.mem_cons_of_mem _ hf', h⟩

theorem mem_of_mem_splitFrom (hf : f ∈ splitFrom sep acc s) (hc : c ∈ f) : c ∈ acc ∨ c ∈ s := by
  induction s generalizing acc with
  | nil => exact .inl (List.mem_singleton.mp hf ▸ hc)
  | cons d s ih =>
    rw [splitFrom] at hf
    split at hf
    · rcases List.mem_cons.mp hf with rfl | hf
      · exact .inl hc
      · exact .inr (List.mem_cons_of_mem _ ((ih hf).resolve_left List.not_mem_nil))
    · rcases ih hf with h | h
      · rcases List.mem_append.mp h with h | h
        · exact .inl h
        · exact .inr (List.mem_singleton.mp h ▸ List.mem_cons_self)
      · exact .inr (List.mem_cons_of_mem _ h)

theorem mem_of_mem_split (hf : f ∈ split sep s) (hc : c ∈ f) : c ∈ s :=
  (mem_of_mem_splitFrom hf hc).resolve_left List.not_mem_nil

theorem splitFrom_ne_nil (acc s : List Char) : splitFrom sep acc s ≠ [] := by
  induction s generalizing acc with
  | nil => exact List.cons_ne_nil _ _
  | cons d s ih =>
    rw [splitFrom]
    split
    · exact List.cons_ne_nil _ _
    · exact ih _

/-- What was cut can be joined again. -/
theorem intercalate_split (c : Char) (s : List Char) :
    List.intercalate [c] (split (· = c) s) = s := by
  have hfrom : ∀ acc, List.intercalate [c] (splitFrom (· = c) acc s) = acc ++ s := by
    induction s with
    | nil =>
      intro acc
      rw [splitFrom, List.intercalate_singleton, List.append_nil]
    | cons d s ih =>
      intro acc
      rw [splitFrom]
      split
      · rename_i hd
        obtain rfl : d = c := of_decide_eq_true hd
        obtain ⟨f, fs, hfs⟩ := List.exists_cons_of_ne_nil (@splitFrom_ne_nil (· = d) [] s)
        rw [hfs, List.intercalate_cons_cons, ← hfs, ih]
        simp
      · rw [ih]
        simp
  exact hfrom []

/-! ## Numbers -/

/-- A number in decimal. -/
def decimal (n : ℕ) : List Char := Nat.toDigits 10 n

/-- The digits of a number, where there is at least one and nothing else. -/
def readDigits (s : List Char) : Option ℕ :=
  if s ≠ [] ∧ s.all (·.isDigit) then some (Nat.ofDigitChars 10 s 0) else none

theorem readDigits_decimal (n : ℕ) : readDigits (decimal n) = some n := by
  have hall : (decimal n).all (·.isDigit) = true :=
    List.all_eq_true.mpr fun c hc => Nat.isDigit_of_mem_toDigits (by decide) (by decide) hc
  rw [readDigits, if_pos ⟨Nat.toDigits_ne_nil, hall⟩]
  exact congrArg some Nat.ofDigitChars_ten_toDigits

/-- The parse of an unsigned integer type with that maximum: a sign `+` is allowed. -/
def readUnsigned (max : ℕ) (s : List Char) : Option ℕ :=
  (readDigits (if s.head? = some '+' then s.tail else s)).filter (· ≤ max)

theorem decimal_head (n : ℕ) (c : Char) (hc : c.isDigit = false) : (decimal n).head? ≠ some c := by
  intro h
  have hmem := List.mem_of_head? h
  have hdigit := Nat.isDigit_of_mem_toDigits (by decide) (by decide) hmem
  exact absurd hdigit (Bool.eq_false_iff.mp hc)

theorem readUnsigned_decimal {max n : ℕ} (h : n ≤ max) : readUnsigned max (decimal n) = some n := by
  rw [readUnsigned, if_neg (decimal_head n '+' rfl), readDigits_decimal]
  simp [h]

/-- An integer in decimal. -/
def signed : ℤ → List Char
  | .ofNat n => decimal n
  | .negSucc n => '-' :: decimal (n + 1)

/-- The parse of a signed integer. -/
def readSigned (s : List Char) : Option ℤ :=
  if s.head? = some '-' then (readDigits s.tail).map fun n : ℕ => -(n : ℤ)
  else (readDigits (if s.head? = some '+' then s.tail else s)).map Int.ofNat

theorem readSigned_signed (z : ℤ) : readSigned (signed z) = some z := by
  cases z with
  | ofNat n =>
    rw [signed, readSigned, if_neg (decimal_head n '-' rfl), if_neg (decimal_head n '+' rfl),
      readDigits_decimal]
    rfl
  | negSucc n =>
    rw [signed, readSigned, List.head?_cons, if_pos rfl, List.tail_cons, readDigits_decimal]
    rfl

theorem isPlain_decimal (n : ℕ) : ∀ c ∈ decimal n, IsPlain c := fun _ hc =>
  isPlain_of_isDigit (Nat.isDigit_of_mem_toDigits (by decide) (by decide) hc)

theorem isWord_decimal (n : ℕ) : IsWord (decimal n) :=
  isWord_of_isPlain Nat.toDigits_ne_nil (isPlain_decimal n)

theorem isWord_signed (z : ℤ) : IsWord (signed z) := by
  cases z with
  | ofNat n => exact isWord_decimal n
  | negSucc n =>
    refine ⟨List.cons_ne_nil _ _, fun c hc => ?_⟩
    rcases List.mem_cons.mp hc with rfl | hc
    · decide
    · exact (isWord_decimal (n + 1)).2 c hc

end EvansComputer.Text
