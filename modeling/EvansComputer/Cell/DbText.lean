import EvansComputer.Cell.DbValid
import Mathlib.Data.List.TakeWhile

/-!
# The file that is written is read

A database is written one line for each of its values, and a line is words with one space
between them.  Both the lines of the file and the fields of a line are read one after the
other, each into a state that holds what was read, so a file is read back line by line:
`Accepts` says that some lines take one state to another, whatever their numbers, and
`FieldsRead` the same of the fields of a subscriber.

What is left out of a line where it is the default is what the reader starts from.
-/

namespace EvansComputer.Cell

open Text

variable {st st' : Parse} {ws : List Str} {c v carrier : Str} {k : String} {i : ImsConf}

/-! ## Lines that are read -/

/-- The lines are read from `st` on, and lead to `st'`. -/
def Accepts (st : Parse) (ls : List Str) (st' : Parse) : Prop :=
  (∀ l ∈ ls, IsLine l) ∧ ∀ n, (ls.zipIdx n).foldlM (fun st l => parseLine st (l.2, l.1))
    st = .ok st'

theorem Accepts.nil (st : Parse) : Accepts st [] st :=
  ⟨fun _ h => absurd h List.not_mem_nil, fun _ => rfl⟩

theorem Accepts.append {st₁ : Parse} {ls ls' : List Str} (h : Accepts st ls st₁)
    (h' : Accepts st₁ ls' st') :
    Accepts st (ls ++ ls') st' := by
  refine ⟨fun l hl => ?_, fun n => ?_⟩
  · rcases List.mem_append.mp hl with hl | hl
    · exact h.1 l hl
    · exact h'.1 l hl
  · rw [List.zipIdx_append, List.foldlM_append, h.2]
    exact h'.2 _

theorem Accepts.single {l : Str} (hl : IsLine l) (h : ∀ n, parseLine st (n, l) = .ok st') :
    Accepts st [l] st' := by
  refine ⟨fun l' hl' => List.mem_singleton.mp hl' ▸ hl, fun n => ?_⟩
  rw [List.zipIdx_singleton, List.foldlM_cons, h]
  rfl

/-! ## Words of a line -/

/-- The name of a key is plain. -/
theorem isName_of_isPlain {w : Str} (hne : w ≠ []) (h : ∀ c ∈ w, IsPlain c) : IsName w := by
  refine ⟨isWord_of_isPlain hne h, fun hash => ?_⟩
  exact absurd (h _ hash) (by decide)

theorem unwords_cons (w : Str) (ws : List Str) :
    unwords (w :: ws) = w ++ ws.flatMap (' ' :: ·) := by
  induction ws generalizing w with
  | nil => exact (List.append_nil w).symm
  | cons v ws ih =>
    rw [unwords, ih, List.flatMap_cons, List.cons_append]
    exact fun h => List.cons_ne_nil _ _ h

/-- Words joined by spaces begin and end with what is no space. -/
theorem trim_unwords (h : ∀ w ∈ ws, IsWord w) : trim (unwords ws) = unwords ws := by
  cases ws with
  | nil => rfl
  | cons w ws =>
    have hhead : ∀ c, (unwords (w :: ws)).head? = some c → isSpace c = false := by
      intro c hc
      obtain ⟨hne, hw⟩ := h w List.mem_cons_self
      rw [unwords_cons, List.head?_append_of_ne_nil _ hne] at hc
      exact hw c (List.mem_of_head? hc)
    have hlast : ∀ c, (unwords (w :: ws)).getLast? = some c → isSpace c = false := by
      clear hhead
      induction ws generalizing w with
      | nil => exact fun c hc => (h w List.mem_cons_self).2 c (List.mem_of_getLast? hc)
      | cons v ws ih =>
        intro c hc
        refine ih v (fun w' hw' => h w' (List.mem_cons_of_mem _ hw')) c ?_
        have hne : unwords (v :: ws) ≠ [] := by
          rw [unwords_cons]
          exact List.append_ne_nil_of_left_ne_nil
            (h v (List.mem_cons_of_mem _ List.mem_cons_self)).1 _
        rw [unwords, List.getLast?_append_of_ne_nil _ (List.cons_ne_nil _ _)] at hc
        · rwa [List.getLast?_cons_of_ne_nil hne] at hc
        · exact fun h => List.cons_ne_nil _ _ h
    have hdrop : ∀ l : Str, (∀ c, l.head? = some c → isSpace c = false) →
      l.dropWhile isSpace = l := by
      intro l hl
      cases l with
      | nil => rfl
      | cons c l => rw [List.dropWhile_cons, hl c rfl, if_neg Bool.false_ne_true]
    rw [trim, hdrop _ hhead, hdrop, List.reverse_reverse]
    intro c hc
    rw [List.head?_reverse] at hc
    exact hlast c hc

theorem mem_unwords {c : Char} (h : c ∈ unwords ws) : c = ' ' ∨ ∃ w ∈ ws, c ∈ w := by
  cases ws with
  | nil => exact absurd h List.not_mem_nil
  | cons w ws =>
    rw [unwords_cons] at h
    rcases List.mem_append.mp h with h | h
    · exact .inr ⟨w, List.mem_cons_self, h⟩
    · obtain ⟨v, hv, h⟩ := List.mem_flatMap.mp h
      rcases List.mem_cons.mp h with rfl | h
      · exact .inl rfl
      · exact .inr ⟨v, List.mem_cons_of_mem _ hv, h⟩

/-- **A line of words is read as its words.** -/
theorem parseLine_unwords (hne : ws ≠ []) (hws : ∀ w ∈ ws, IsName w) (n : ℕ) :
    parseLine st (n, unwords ws) =
      match parseWords st (unwords ws) ws with
      | .ok st => .ok st
      | .error msg => .error ⟨n, msg⟩ := by
  have hwords : ∀ w ∈ ws, IsWord w := fun w hw => (hws w hw).1
  have htake : (unwords ws).takeWhile (· ≠ '#') = unwords ws := by
    rw [List.takeWhile_eq_self_iff]
    intro c hc
    refine decide_eq_true fun hash => ?_
    subst hash
    rcases mem_unwords hc with hc | ⟨w, hw, hc⟩
    · exact absurd hc (by decide)
    · exact (hws w hw).2 hc
  have hnil : unwords ws ≠ [] := by
    obtain ⟨w, ws, rfl⟩ := List.exists_cons_of_ne_nil hne
    rw [unwords_cons]
    exact List.append_ne_nil_of_left_ne_nil (hwords w List.mem_cons_self).1 _
  unfold parseLine
  dsimp only
  have hback := words_unwords hwords
  rw [htake, trim_unwords hwords, if_neg hnil]
  generalize words (unwords ws) = l at hback ⊢
  subst hback
  rfl

theorem accepts_unwords (hne : ws ≠ []) (hws : ∀ w ∈ ws, IsName w)
    (h : ∀ l, parseWords st l ws = .ok st') : Accepts st [unwords ws] st' := by
  refine .single (isLine_unwords fun w hw => (hws w hw).1) fun n => ?_
  rw [parseLine_unwords hne hws, h]

/-! ## Values as text -/

theorem unhexPairs_hex (b : List Byte) : unhexPairs (hex b) = some b := by
  induction b with
  | nil => rfl
  | cons x b ih =>
    have hx : x.toNat < 256 := x.toNat_lt
    rw [hex, List.flatMap_cons]
    change unhexPairs (Nat.digitChar (x.toNat / 16) :: Nat.digitChar (x.toNat % 16) :: hex b) = _
    rw [unhexPairs, hexDigit_digitChar (by omega), hexDigit_digitChar (by omega), ih]
    dsimp only
    rw [Nat.div_add_mod', UInt8.ofNat_toNat]

theorem isAlphanum_digitChar {n : ℕ} (h : n < 16) : (Nat.digitChar n).isAlphanum = true := by
  revert n
  decide

theorem isAlphanum_hex (b : List Byte) : ∀ c ∈ hex b, c.isAlphanum = true := by
  intro c hc
  obtain ⟨x, -, hc⟩ := List.mem_flatMap.mp hc
  have hx : x.toNat < 256 := x.toNat_lt
  simp only [hexByte, List.mem_cons, List.not_mem_nil, or_false] at hc
  rcases hc with rfl | rfl
  · exact isAlphanum_digitChar (by omega)
  · exact isAlphanum_digitChar (by omega)

theorem isPlain_hex (b : List Byte) : ∀ c ∈ hex b, IsPlain c :=
  fun c hc => isPlain_of_isAlphanum (isAlphanum_hex b c hc)

theorem length_hex (b : List Byte) : (hex b).length = b.length * 2 := by
  induction b with
  | nil => rfl
  | cons x b ih =>
    rw [hex, List.flatMap_cons, List.length_append, List.length_cons, ← hex, ih]
    show 2 + _ = _
    omega

theorem utf8_of_isPlain {c : Char} (h : IsPlain c) : (String.utf8EncodeChar c).length = 1 := by
  rw [String.length_utf8EncodeChar, Char.utf8Size_eq_one_iff]
  exact UInt32.le_iff_toNat_le.mpr (Nat.le_trans h.2 (by decide))

/-- **Keys come back.** -/
theorem unhex_hex {n : ℕ} {b : List Byte} (h : b.length = n) : unhex n (hex b) = some b := by
  have hlen : (toUtf8 (hex b)).length = n * 2 := by
    rw [length_toUtf8 fun c hc => utf8_of_isPlain (isPlain_hex b c hc), length_hex, h]
  rw [unhex, if_pos hlen, unhexPairs_hex]

theorem isPlain_display (ip : Ipv4Addr) : ∀ c ∈ ip.display, IsPlain c := by
  intro c hc
  simp only [Ipv4Addr.display, List.mem_append, List.mem_cons] at hc
  rcases hc with hc | rfl | hc | rfl | hc | rfl | hc
  all_goals first | exact isPlain_decimal _ _ hc | decide

theorem idxOf?_append {sep : Char} {k : Str} (h : sep ∉ k) :
    (k ++ sep :: v).idxOf? sep = some k.length := by
  induction k with
  | nil => rw [List.nil_append, List.idxOf?_cons, if_pos (beq_self_eq_true sep)]; rfl
  | cons c k ih =>
    have hc : c ≠ sep := fun hc => h (hc ▸ List.mem_cons_self)
    rw [List.cons_append, List.idxOf?_cons, if_neg (by simpa using hc),
      ih fun hk => h (List.mem_cons_of_mem _ hk)]
    rfl

theorem drop_sep {sep : Char} (k v : Str) : (k ++ sep :: v).drop (k.length + 1) = v := by
  rw [← List.drop_drop, List.drop_left]
  rfl

/-- **Networks come back.** -/
theorem parseCidr_display {ip : Ipv4Addr} {len : UInt8} (h : len.toNat ≤ 32) :
    parseCidr (ip.display ++ '/' :: decimal len.toNat) = some (ip, len) := by
  have hslash : '/' ∉ ip.display := by
    intro hmem
    simp only [Ipv4Addr.display, List.mem_append, List.mem_cons] at hmem
    have hdec : ∀ n, '/' ∉ decimal n := fun n hn =>
      absurd (Nat.isDigit_of_mem_toDigits (by decide) (by decide) hn) (by decide)
    rcases hmem with hmem | hmem | hmem | hmem | hmem | hmem | hmem
    all_goals first | exact hdec _ hmem | exact absurd hmem (by decide)
  have hlen : readUnsigned 255 (decimal len.toNat) = some len.toNat :=
    readUnsigned_decimal (by omega)
  rw [parseCidr, idxOf?_append hslash]
  dsimp only
  rw [List.take_left, drop_sep, hlen, Ipv4Addr.parse_display]
  dsimp only
  rw [if_neg (by omega), UInt8.ofNat_toNat]

/-! ## The fields of a subscriber -/

/-- The fields are read into `s`, whose key has been given, and make it `s'`. -/
def FieldsRead (s : Subscriber) (kvs : List Str) (s' : Subscriber) : Prop :=
  (∀ kv ∈ kvs, IsName kv) ∧ kvs.foldlM subKey (s, true) = .ok (s', true)

theorem FieldsRead.append {s s₁ s' : Subscriber} {kvs kvs' : List Str} (h : FieldsRead s kvs s₁)
    (h' : FieldsRead s₁ kvs' s') : FieldsRead s (kvs ++ kvs') s' := by
  refine ⟨fun kv hkv => ?_, ?_⟩
  · rcases List.mem_append.mp hkv with hkv | hkv
    · exact h.1 kv hkv
    · exact h'.1 kv hkv
  · rw [List.foldlM_append, h.2]
    exact h'.2

/-- `key=value`, where there is something to write. -/
def fieldWords (k : String) (v : Str) : List Str := if v = [] then [] else [k.toList ++ '=' :: v]

/-- `key=0` or `key=1`, where it is not the default. -/
def flagWords (k : String) (v dv : Bool) : List Str :=
  if v = dv then [] else [k.toList ++ ['=', if v then '1' else '0']]

theorem field_eq (k : String) (v : Str) : Db.field k v = (fieldWords k v).flatMap (' ' :: ·) := by
  unfold Db.field fieldWords
  split_ifs
  · rfl
  · rw [List.flatMap_cons, List.flatMap_nil, List.append_nil]
    rfl

theorem flagField_eq (k : String) (v dv : Bool) :
    Db.flagField k v dv = (flagWords k v dv).flatMap (' ' :: ·) := by
  unfold Db.flagField flagWords
  by_cases hsame : v = dv
  · rw [if_pos hsame, if_pos hsame]
    rfl
  · rw [if_neg hsame, if_neg hsame, List.flatMap_cons, List.flatMap_nil, List.append_nil]
    rfl

/-- One field. -/
theorem FieldsRead.one {s s' : Subscriber} (hk : ∀ c ∈ k.toList, IsPlain c)
    (hv : ∀ c ∈ v, IsPlain c) (h : subKey (s, true) (k.toList ++ '=' :: v) = .ok (s', true)) :
    FieldsRead s [k.toList ++ '=' :: v] s' := by
  refine ⟨fun kv hkv => ?_, ?_⟩
  · rw [List.mem_singleton.mp hkv]
    refine isName_of_isPlain (List.append_ne_nil_of_right_ne_nil _ (List.cons_ne_nil _ _))
      fun c hc => ?_
    rcases List.mem_append.mp hc with hc | hc
    · exact hk c hc
    · rcases List.mem_cons.mp hc with rfl | hc
      · decide
      · exact hv c hc
  · rw [List.foldlM_cons, h]
    rfl

/-- A field that is left out is as it was. -/
theorem FieldsRead.field {s s' : Subscriber} (hk : ∀ c ∈ k.toList, IsPlain c)
    (hv : ∀ c ∈ v, IsPlain c) (hnil : v = [] → s' = s)
    (h : v ≠ [] → subKey (s, true) (k.toList ++ '=' :: v) = .ok (s', true)) :
    FieldsRead s (fieldWords k v) s' := by
  unfold fieldWords
  by_cases hempty : v = []
  · rw [if_pos hempty, hnil hempty]
    exact ⟨fun _ h => absurd h List.not_mem_nil, rfl⟩
  · rw [if_neg hempty]
    exact .one hk hv (h hempty)

theorem isPlain_of_validE164 (h : validE164 v) : v ≠ [] ∧ ∀ c ∈ v, IsPlain c := by
  unfold validE164 at h
  split at h
  · rename_i d
    simp only [Bool.and_eq_true, List.all_eq_true] at h
    refine ⟨List.cons_ne_nil _ _, fun c hc => ?_⟩
    rcases List.mem_cons.mp hc with rfl | hc
    · decide
    · exact isPlain_of_isDigit (h.1.2 c hc)
  · cases h

theorem isPlain_of_validLabel (h : validLabel v) : ∀ c ∈ v, IsPlain c := by
  intro c hc
  simp only [validLabel, Bool.and_eq_true, List.all_eq_true, Bool.or_eq_true,
    decide_eq_true_eq] at h
  rcases h.2 c hc with ((halnum | rfl) | rfl) | rfl
  · exact isPlain_of_isAlphanum halnum
  all_goals decide

theorem isPlain_of_validPortCode (h : validPortCode v) : ∀ c ∈ v, IsPlain c := by
  intro c hc
  simp only [validPortCode, Bool.and_eq_true, List.all_eq_true, Bool.or_eq_true,
    decide_eq_true_eq] at h
  rcases h.2 c hc with halnum | rfl
  · exact isPlain_of_isAlphanum halnum
  · decide

/-- What may be empty is plain where it is not. -/
theorem isPlain_optional {p : Str → Bool} (hp : p v → ∀ c ∈ v, IsPlain c) (h : v = [] ∨ p v) :
    ∀ c ∈ v, IsPlain c := by
  rcases h with rfl | h
  · exact fun _ h => absurd h List.not_mem_nil
  · exact hp h

theorem isPlain_forward (h : v = [] ∨ validE164 v) : ∀ c ∈ v, IsPlain c :=
  isPlain_optional (fun h => (isPlain_of_validE164 h).2) h

theorem forward_eq {k : Str} (h : v = [] ∨ validE164 v) : forward k v = .ok v := by
  unfold forward
  rw [if_neg]
  rintro ⟨hne, hbad⟩
  exact hbad (h.resolve_left hne)

theorem flag_eq (k : Str) (v : Bool) : flag k [if v then '1' else '0'] = .ok v := by
  cases v <;> rfl

section Kinds

/-! The kinds of fields.  `set` is the subscriber with the field set, and `hread` says what the
reader does with one. -/

variable {s : Subscriber} {k : String}

section

variable (hk : ∀ c ∈ k.toList, IsPlain c)
include hk

/-- A number that may be empty. -/
theorem reads_forward (set : Str → Subscriber) (hs : set [] = s)
    (hread : ∀ v, subKey (s, true) (k.toList ++ '=' :: v) =
      (do return (set (← forward k.toList v), true)))
    (h : v = [] ∨ validE164 v) : FieldsRead s (fieldWords k v) (set v) := by
  refine .field hk (isPlain_forward h) (fun hnil => by rw [hnil, hs]) fun _ => ?_
  rw [hread, forward_eq h]
  rfl

/-- A text that may be empty and is checked if it is not. -/
theorem reads_checked (set : Str → Subscriber) (hs : set [] = s) {p : Str → Bool}
    (hp : ∀ v, p v → ∀ c ∈ v, IsPlain c) {e : Str → Str}
    (hread : ∀ v, subKey (s, true) (k.toList ++ '=' :: v) =
      if !p v then (do throw (e v); pure (set v, true)) else pure (set v, true))
        (h : v = [] ∨ p v) :
    FieldsRead s (fieldWords k v) (set v) := by
  refine .field hk (isPlain_optional (hp v) h) (fun hnil => by rw [hnil, hs]) fun hne => ?_
  rw [hread, h.resolve_left hne]
  rfl

/-- An address that may be missing. -/
theorem reads_address (set : Option Ipv4Addr → Subscriber) (hs : set none = s) {e : Str → Str}
    (hread : ∀ v, subKey (s, true) (k.toList ++ '=' :: v) =
      (do return (set (some (← need (Ipv4Addr.parse v) (e v))), true))) (o : Option Ipv4Addr) :
    FieldsRead s (fieldWords k (o.elim [] Ipv4Addr.display)) (set o) := by
  cases o with
  | none =>
    exact .field hk (fun _ h => absurd h List.not_mem_nil) (fun _ => hs) fun hne => absurd rfl hne
  | some ip =>
    refine .field hk (isPlain_display ip)
      (fun hnil => absurd hnil (Ipv4Addr.isWord_display ip).1) fun _ => ?_
    rw [Option.elim_some, hread, Ipv4Addr.parse_display]
    rfl

/-- A count of bytes. -/
theorem reads_count (set : UInt64 → Subscriber) {e : Str → Str}
    (hread : ∀ v, subKey (s, true) (k.toList ++ '=' :: v) =
      (do return (set (UInt64.ofNat (← need (readUnsigned 18446744073709551615 v) (e v))), true)))
    (n : UInt64) : FieldsRead s [k.toList ++ '=' :: decimal n.toNat] (set n) := by
  refine .one hk (isPlain_decimal _) ?_
  rw [hread, readUnsigned_decimal (Nat.le_of_lt_succ n.toNat_lt)]
  show Except.ok (set (UInt64.ofNat n.toNat), true) = _
  rw [UInt64.ofNat_toNat]

/-- A switch that is written. -/
theorem reads_flag (set : Bool → Subscriber)
    (hread : ∀ v, subKey (s, true) (k.toList ++ '=' :: v) =
      (do return (set (← flag k.toList v), true)))
    (v : Bool) : FieldsRead s [k.toList ++ ['=', if v then '1' else '0']] (set v) := by
  have hv : ∀ c ∈ [if v then '1' else '0'], IsPlain c := by
    cases v <;> decide
  refine .one hk hv ?_
  rw [hread, flag_eq]
  rfl

/-- A switch that is left out where it is the default. -/
theorem reads_switch (set : Bool → Subscriber) (dv : Bool) (hs : set dv = s)
    (hread : ∀ v, subKey (s, true) (k.toList ++ '=' :: v) =
      (do return (set (← flag k.toList v), true)))
    (v : Bool) : FieldsRead s (flagWords k v dv) (set v) := by
  unfold flagWords
  by_cases hsame : v = dv
  · rw [if_pos hsame, hsame, hs]
    exact ⟨fun _ h => absurd h List.not_mem_nil, rfl⟩
  · rw [if_neg hsame]
    exact reads_flag hk set hread v

omit hk in
theorem mapM_checked {α ε : Type} {p : α → Bool} {e : α → ε} {l : List α} (h : ∀ a ∈ l, p a) :
    l.mapM (fun a => if p a then (.ok a : Except ε α) else .error (e a)) = .ok l := by
  induction l with
  | nil => rfl
  | cons a l ih =>
    rw [List.mapM_cons, if_pos (h a List.mem_cons_self),
      ih fun b hb => h b (List.mem_cons_of_mem _ hb)]
    rfl

omit hk in
/-- The numbers of a block list. -/
theorem blockList_eq {l : List Str} (hne : l ≠ []) (h : ∀ n ∈ l, validE164 n) :
    blockList (List.intercalate [','] l) = .ok l := by
  have hcomma : ∀ n ∈ l, ∀ c ∈ n, (c == ',') = false := by
    intro n hn c hc
    refine beq_eq_false_iff_ne.mpr fun hcomma => ?_
    subst hcomma
    have hv := h n hn
    unfold validE164 at hv
    split at hv
    · rename_i d
      simp only [Bool.and_eq_true, List.all_eq_true] at hv
      rcases List.mem_cons.mp hc with hc | hc
      · exact absurd hc (by decide)
      · exact absurd (hv.1.2 _ hc) (by decide)
    · cases hv
  have hfilter : l.filter (fun n => n ≠ []) = l :=
    List.filter_eq_self.mpr fun n hn => decide_eq_true (isPlain_of_validE164 (h n hn)).1
  have hsplit : split (· == ',') (List.intercalate [','] l) = l := split_intercalate rfl hne hcomma
  rw [blockList, hsplit, hfilter]
  exact mapM_checked h

theorem reads_blocked (set : List Str → Subscriber) (hs : set [] = s)
    (hread : ∀ v, subKey (s, true) (k.toList ++ '=' :: v) = (do return (set (← blockList v), true)))
    {l : List Str} (h : ∀ n ∈ l, validE164 n) :
    FieldsRead s (fieldWords k (List.intercalate [','] l)) (set l) := by
  have hplain : ∀ c ∈ List.intercalate [','] l, IsPlain c := by
    intro c hc
    rcases mem_intercalate hc with rfl | ⟨n, hn, hc⟩
    · decide
    · exact (isPlain_of_validE164 (h n hn)).2 c hc
  have hnil : List.intercalate [','] l = [] → l = [] := by
    intro hempty
    cases l with
    | nil => rfl
    | cons n l =>
      refine absurd hempty ?_
      have hn := (isPlain_of_validE164 (h n List.mem_cons_self)).1
      cases l with
      | nil => rwa [List.intercalate_singleton]
      | cons m l =>
        rw [List.intercalate_cons_cons, List.append_assoc]
        exact List.append_ne_nil_of_left_ne_nil hn _
  refine .field hk hplain (fun hempty => by rw [hnil hempty, hs]) fun hne => ?_
  rw [hread, blockList_eq (fun hl => hne (by rw [hl]; rfl)) h]
  rfl

end

end Kinds

/-- The fields of a subscriber, as they are written. -/
def subWordsOf (u : Subscriber) : List Str :=
  ["key".toList ++ '=' :: hex u.key] ++ (["quota".toList ++ '=' :: decimal u.quota.toNat] ++
    (["used".toList ++ '=' :: decimal u.used.toNat] ++
      (["revoked".toList ++ ['=', if u.revoked then '1' else '0']] ++
    (fieldWords "ip" (u.ip.elim [] Ipv4Addr.display) ++ (fieldWords "label" u.label ++
    (fieldWords "msisdn" u.ims.msisdn ++
      (fieldWords "ims_ip" (u.ims.imsIp.elim [] Ipv4Addr.display) ++
    (fieldWords "cfu" u.ims.cfu ++ (fieldWords "cfb" u.ims.cfb ++ (fieldWords "cfnr" u.ims.cfnr ++
    (fieldWords "cfnrc" u.ims.cfnrc ++
      (flagWords "cw" u.ims.cw true ++ (flagWords "clir" u.ims.clir false ++
    (flagWords "dnd" u.ims.dnd false ++ (flagWords "vm" u.ims.vm true ++
    (fieldWords "block" (List.intercalate [','] u.ims.blocked) ++ (fieldWords "port" u.ims.port ++
    flagWords "ported" u.ims.ported false)))))))))))))))))

theorem subLine_eq (imsi : Str) (u : Subscriber) :
    Db.subLine imsi u = unwords ("sub".toList :: imsi :: subWordsOf u) := by
  rw [unwords_cons]
  unfold Db.subLine subWordsOf
  simp only [field_eq, flagField_eq, List.flatMap_cons, List.flatMap_append, List.append_assoc,
    List.cons_append, List.nil_append]
  rfl

/-- **The fields of a subscriber come back**, whatever a field before them was. -/
theorem fieldsRead_subWordsOf {u : Subscriber} (hu : u.Valid) :
    FieldsRead { key := u.key } (subWordsOf u).tail u := by
  have hquota (s : Subscriber) :=
    reads_count (k := "quota") (by decide) (fun n => { s with quota := n }) (fun _ => rfl) u.quota
  have hused (s : Subscriber) :=
    reads_count (k := "used") (by decide) (fun n => { s with used := n }) (fun _ => rfl) u.used
  have hrevoked (s : Subscriber) :=
    reads_flag (k := "revoked") (by decide) (fun b => { s with revoked := b })
      (fun _ => rfl) u.revoked
  have hip (s : Subscriber) (hs : _ = s) :=
    reads_address (k := "ip") (by decide) (fun o => { s with ip := o }) hs (fun _ => rfl) u.ip
  have hlabel (s : Subscriber) (hs : _ = s) :=
    reads_checked (k := "label") (by decide) (fun v => { s with label := v }) hs
      (fun _ => isPlain_of_validLabel) (fun _ => rfl) hu.label
  have hmsisdn (s : Subscriber) (hs : _ = s) :=
    reads_checked (k := "msisdn") (by decide)
      (fun v => { s with ims := { s.ims with msisdn := v } }) hs
      (fun _ h => (isPlain_of_validE164 h).2) (fun _ => rfl) hu.msisdn
  have himsIp (s : Subscriber) (hs : _ = s) :=
    reads_address (k := "ims_ip") (by decide)
      (fun o => { s with ims := { s.ims with imsIp := o } }) hs
      (fun _ => rfl) u.ims.imsIp
  have hcfu (s : Subscriber) (hs : _ = s) :=
    reads_forward (k := "cfu") (by decide) (fun v => { s with ims := { s.ims with cfu := v } }) hs
      (fun _ => rfl) hu.cfu
  have hcfb (s : Subscriber) (hs : _ = s) :=
    reads_forward (k := "cfb") (by decide) (fun v => { s with ims := { s.ims with cfb := v } }) hs
      (fun _ => rfl) hu.cfb
  have hcfnr (s : Subscriber) (hs : _ = s) :=
    reads_forward (k := "cfnr") (by decide) (fun v => { s with ims := { s.ims with cfnr := v } }) hs
      (fun _ => rfl) hu.cfnr
  have hcfnrc (s : Subscriber) (hs : _ = s) :=
    reads_forward (k := "cfnrc") (by decide)
      (fun v => { s with ims := { s.ims with cfnrc := v } }) hs
      (fun _ => rfl) hu.cfnrc
  have hcw (s : Subscriber) (hs : _ = s) :=
    reads_switch (k := "cw") (by decide) (fun b => { s with ims := { s.ims with cw := b } }) true hs
      (fun _ => rfl) u.ims.cw
  have hclir (s : Subscriber) (hs : _ = s) :=
    reads_switch (k := "clir") (by decide)
      (fun b => { s with ims := { s.ims with clir := b } }) false hs
      (fun _ => rfl) u.ims.clir
  have hdnd (s : Subscriber) (hs : _ = s) :=
    reads_switch (k := "dnd") (by decide)
      (fun b => { s with ims := { s.ims with dnd := b } }) false hs
      (fun _ => rfl) u.ims.dnd
  have hvm (s : Subscriber) (hs : _ = s) :=
    reads_switch (k := "vm") (by decide) (fun b => { s with ims := { s.ims with vm := b } }) true hs
      (fun _ => rfl) u.ims.vm
  have hblock (s : Subscriber) (hs : _ = s) :=
    reads_blocked (k := "block") (by decide)
      (fun l => { s with ims := { s.ims with blocked := s.ims.blocked ++ l } }) hs
        (fun _ => rfl) hu.blocked
  have hport (s : Subscriber) (hs : _ = s) :=
    reads_checked (k := "port") (by decide) (fun v => { s with ims := { s.ims with port := v } }) hs
      (fun _ => isPlain_of_validPortCode) (fun _ => rfl) hu.port
  have hported (s : Subscriber) (hs : _ = s) :=
    reads_switch (k := "ported") (by decide)
      (fun b => { s with ims := { s.ims with ported := b } }) false hs
      (fun _ => rfl) u.ims.ported
  exact (hquota _).append
    ((hused _).append ((hrevoked _).append ((hip _ rfl).append ((hlabel _ rfl).append
    ((hmsisdn _ rfl).append
      ((himsIp _ rfl).append ((hcfu _ rfl).append ((hcfb _ rfl).append ((hcfnr _ rfl).append
    ((hcfnrc _ rfl).append
      ((hcw _ rfl).append ((hclir _ rfl).append ((hdnd _ rfl).append ((hvm _ rfl).append
    ((hblock _ rfl).append ((hport _ rfl).append (hported _ rfl)))))))))))))))))

theorem isName_of_isDigit {w : Str} (hne : w ≠ []) (h : ∀ c ∈ w, c.isDigit = true) : IsName w :=
  isName_of_isPlain hne fun c hc => isPlain_of_isDigit (h c hc)

theorem isName_of_validImsi {imsi : Str} (h : validImsi imsi) : IsName imsi := by
  simp only [validImsi, Bool.and_eq_true, decide_eq_true_eq, List.all_eq_true] at h
  refine isName_of_isDigit (fun hnil => ?_) h.2
  rw [hnil] at h
  exact absurd h.1.1 (by decide)

/-- **A `sub` line comes back.** -/
theorem accepts_subLine {imsi : Str} {u : Subscriber} (himsi : validImsi imsi) (hu : u.Valid)
    (hnew : st.db.subs[imsi]? = none) :
    Accepts st [Db.subLine imsi u]
      { st with db := { st.db with subs := st.db.subs.insert imsi u } } := by
  obtain ⟨hnames, hfields⟩ := fieldsRead_subWordsOf hu
  have hkeyword : IsName ("key".toList ++ '=' :: hex u.key) := by
    refine isName_of_isPlain (List.cons_ne_nil _ _) fun c hc => ?_
    have hkey : ∀ c ∈ "key".toList, IsPlain c := by decide
    rcases List.mem_append.mp hc with hc | hc
    · exact hkey c hc
    · rcases List.mem_cons.mp hc with rfl | hc
      · decide
      · exact isPlain_hex _ c hc
  have hread : subKey ({ key := List.replicate 16 0 }, false) ("key".toList ++ '=' :: hex u.key) =
      (do return ({ key := ← need (unhex 16 (hex u.key)) "key must be 32 hex digits".toList }, true)) := rfl
  rw [subLine_eq]
  refine accepts_unwords (List.cons_ne_nil _ _) (fun w hw => ?_) fun l => ?_
  · rcases List.mem_cons.mp hw with rfl | hw
    · exact isName_of_isPlain (List.cons_ne_nil _ _) (by decide)
    · rcases List.mem_cons.mp hw with rfl | hw
      · exact isName_of_validImsi himsi
      · rcases List.mem_cons.mp hw with rfl | hw
        · exact hkeyword
        · exact hnames w hw
  · have hall :
      (subWordsOf u).foldlM subKey ({ key := List.replicate 16 0 }, false) = .ok (u, true) := by
      show (("key".toList ++ '=' :: hex u.key) :: (subWordsOf u).tail).foldlM subKey _ = _
      rw [List.foldlM_cons, hread, unhex_hex hu.key]
      exact hfields
    have hcontains : st.db.subs.contains imsi = false := by
      rw [Std.ExtTreeMap.contains_eq_isSome_getElem?, hnew]
      rfl
    have hsub : parseWords st l ("sub".toList :: imsi :: subWordsOf u) =
      parseWords.subWords st imsi (subWordsOf u) :=
      parseWords_sub _ _ _ _ _
    rw [hsub]
    unfold parseWords.subWords
    rw [himsi, hall]
    show (if st.db.subs.contains imsi then _ else _) = _
    rw [hcontains]
    rfl

/-! ## The other lines -/

/-- A line with a key and a value. -/
theorem accepts_value (hk : k.toList ≠ [] ∧ ∀ c ∈ k.toList, IsPlain c)
    (hv : v ≠ [] ∧ ∀ c ∈ v, IsPlain c) (h : ∀ l, parseWords st l [k.toList, v] = .ok st') :
    Accepts st [k.toList ++ ' ' :: v] st' := by
  refine accepts_unwords (List.cons_ne_nil _ _) (fun w hw => ?_) h
  rcases List.mem_cons.mp hw with rfl | hw
  · exact isName_of_isPlain hk.1 hk.2
  · rw [List.mem_singleton.mp hw]
    exact isName_of_isPlain hv.1 hv.2

theorem isPlain_cidr (ip : Ipv4Addr) (n : ℕ) : ∀ c ∈ ip.display ++ '/' :: decimal n, IsPlain c := by
  intro c hc
  rcases List.mem_append.mp hc with hc | hc
  · exact isPlain_display ip c hc
  · rcases List.mem_cons.mp hc with rfl | hc
    · decide
    · exact isPlain_decimal n c hc

theorem display_ne_nil (ip : Ipv4Addr) : ip.display ≠ [] := (Ipv4Addr.isWord_display ip).1

variable {st : Parse}

theorem accepts_version : Accepts st ["version 1".toList] { st with versionSeen := true } := by
  show Accepts st ["version".toList ++ ' ' :: ['1']] _
  exact accepts_value (by decide) (by decide) fun l => rfl

/-- The characters of a carrier id. -/
theorem mem_validCarrier (h : validCarrier c) {d : Char} (hd : d ∈ c) :
    (97 ≤ d.toNat ∧ d.toNat ≤ 122) ∨ d.isDigit = true ∨ d = '_' ∨ d = '-' := by
  simp only [validCarrier, Bool.and_eq_true, List.all_eq_true, Bool.or_eq_true,
    decide_eq_true_eq] at h
  rcases h.2 d hd with ((hlower | hdigit) | hunder) | hdash
  · exact .inl (isLower_iff.mp hlower)
  · exact .inr (.inl hdigit)
  · exact .inr (.inr (.inl hunder))
  · exact .inr (.inr (.inr hdash))

theorem isPlain_of_validCarrier (h : validCarrier c) : c ≠ [] ∧ ∀ d ∈ c, IsPlain d := by
  refine ⟨fun hnil => absurd h (by rw [hnil]; decide), fun d hd => ?_⟩
  rcases mem_validCarrier h hd with hlower | hdigit | rfl | rfl
  · exact ⟨by omega, by omega⟩
  · exact isPlain_of_isDigit hdigit
  all_goals decide

theorem accepts_carrier (h : validCarrier c) :
    Accepts st ["carrier ".toList ++ c] { st with carrier := some c } := by
  show Accepts st ["carrier".toList ++ ' ' :: c] _
  have hread : ∀ l, parseWords st l ["carrier".toList, c] =
    if validCarrier c then .ok { st with carrier := some c } else .error (quoted "bad carrier" c) :=
      fun _ => rfl
  exact accepts_value (by decide) (isPlain_of_validCarrier h) fun l => by rw [hread, if_pos h]

theorem accepts_pool {ip : Ipv4Addr} {len : UInt8} (h : isPool (ip, len)) :
    Accepts st ["pool ".toList ++ ip.display ++ '/' :: decimal len.toNat]
      { st with pool := some (ip, len) } := by
  show Accepts st ["pool".toList ++ ' ' :: (ip.display ++ '/' :: decimal len.toNat)] _
  have hlen : len.toNat ≤ 32 := by
    simp only [isPool, Bool.and_eq_true, decide_eq_true_eq] at h
    exact Nat.le_trans (UInt8.le_iff_toNat_le.mp h.2) (by decide)
  have hread : ∀ l v, parseWords st l ["pool".toList, v] = (do
    let p ← need (parseCidr v) (quoted "bad pool" v)
    if !isPool p then throw "pool prefix must be /8../30".toList
    return { st with pool := some p }) := fun _ _ => rfl
  refine accepts_value (by decide)
    ⟨List.append_ne_nil_of_left_ne_nil (display_ne_nil ip) _, isPlain_cidr ip _⟩ fun l => ?_
  rw [hread, parseCidr_display hlen]
  show (if !isPool (ip, len) then _ else _) = _
  rw [h]
  rfl

theorem accepts_gateway (ip : Ipv4Addr) :
    Accepts st ["gateway ".toList ++ ip.display] { st with gateway := some ip } := by
  show Accepts st ["gateway".toList ++ ' ' :: ip.display] _
  have hread : ∀ l v, parseWords st l ["gateway".toList, v] = (do
    let a ← need (Ipv4Addr.parse v) (quoted "bad gateway" v)
    return { st with gateway := some a }) := fun _ _ => rfl
  refine accepts_value (by decide) ⟨display_ne_nil ip, isPlain_display ip⟩ fun l => ?_
  rw [hread, Ipv4Addr.parse_display]
  rfl

theorem accepts_dns (ip : Ipv4Addr) :
    Accepts st ["dns ".toList ++ ip.display] { st with db := { st.db with dns := ip } } := by
  show Accepts st ["dns".toList ++ ' ' :: ip.display] _
  have hread : ∀ l v, parseWords st l ["dns".toList, v] = (do
    let a ← need (Ipv4Addr.parse v) (quoted "bad dns" v)
    return { st with db := { st.db with dns := a } }) := fun _ _ => rfl
  refine accepts_value (by decide) ⟨display_ne_nil ip, isPlain_display ip⟩ fun l => ?_
  rw [hread, Ipv4Addr.parse_display]
  rfl

theorem accepts_mtu {n : UInt16} (h : 576 ≤ n.toNat ∧ n.toNat ≤ 1500) :
    Accepts st ["mtu ".toList ++ decimal n.toNat] { st with db := { st.db with mtu := n } } := by
  show Accepts st ["mtu".toList ++ ' ' :: decimal n.toNat] _
  have hread : ∀ l v, parseWords st l ["mtu".toList, v] = (do
    let n ← need ((readUnsigned 65535 v).filter fun n => 576 ≤ n && n ≤ 1500)
      "mtu must be 576..1500".toList
    return { st with db := { st.db with mtu := UInt16.ofNat n } }) := fun _ _ => rfl
  have hfilter : (some n.toNat).filter (fun n => 576 ≤ n && n ≤ 1500) = some n.toNat := by
    rw [Option.filter_some, if_pos]
    simpa using h
  refine accepts_value (by decide) ⟨Nat.toDigits_ne_nil, isPlain_decimal _⟩ fun l => ?_
  rw [hread, readUnsigned_decimal (by omega), hfilter]
  show Except.ok { st with db := { st.db with mtu := UInt16.ofNat n.toNat } } = _
  rw [UInt16.ofNat_toNat]

theorem accepts_cc (h : validCc c) :
    Accepts st ["cc ".toList ++ c] { st with db := { st.db with cc := c } } := by
  show Accepts st ["cc".toList ++ ' ' :: c] _
  have hread : ∀ l, parseWords st l ["cc".toList, c] =
    if validCc c then .ok { st with db := { st.db with cc := c } }
      else .error (quoted "bad country code" c) :=
    fun _ => rfl
  refine accepts_value (by decide) ?_ fun l => by rw [hread, if_pos h]
  simp only [validCc, Bool.and_eq_true, decide_eq_true_eq, List.all_eq_true] at h
  exact ⟨fun hnil => absurd h.1.1.1 (by rw [hnil]; decide),
    fun d hd => isPlain_of_isDigit (h.1.2 d hd)⟩

theorem eq_of_splitOnce {sep : Char} {s a b : Str} (h : splitOnce sep s = some (a, b)) :
    s = a ++ sep :: b := by
  unfold splitOnce at h
  obtain ⟨i, hi, h⟩ := Option.map_eq_some_iff.mp h
  cases h
  induction s generalizing i with
  | nil => cases hi
  | cons c s ih =>
    rw [List.idxOf?_cons] at hi
    by_cases hc : c = sep
    · rw [if_pos (by simpa using hc)] at hi
      cases hi
      rw [hc]
      rfl
    · rw [if_neg (by simpa using hc)] at hi
      obtain ⟨j, hj, rfl⟩ := Option.map_eq_some_iff.mp hi
      exact congrArg (c :: ·) (ih j hj (by rw [hj]; rfl))

theorem isPlain_of_validBlock {b : Str} (h : validBlock b) : b ≠ [] ∧ ∀ c ∈ b, IsPlain c := by
  unfold validBlock at h
  dsimp only at h
  split at h
  · rename_i x y hsplit
    simp only [Bool.and_eq_true, List.all_eq_true] at h
    rw [eq_of_splitOnce hsplit]
    refine ⟨List.append_ne_nil_of_right_ne_nil _ (List.cons_ne_nil _ _), fun c hc => ?_⟩
    rcases List.mem_append.mp hc with hc | hc
    · exact isPlain_of_isDigit (h.1.1.1.2 c hc)
    · rcases List.mem_cons.mp hc with rfl | hc
      · decide
      · exact isPlain_of_isDigit (h.2.1.1.2 c hc)
  · cases h

theorem accepts_block (st : Parse) {b : Str} (h : validBlock b) (hnew : b ∉ st.db.blocks) :
    Accepts st ["block ".toList ++ b]
      { st with db := { st.db with blocks := st.db.blocks ++ [b] } } := by
  show Accepts st ["block".toList ++ ' ' :: b] _
  have hread : ∀ l, parseWords st l ["block".toList, b] =
    if !validBlock b then .error (quoted "bad number block" b ++ " (NPA-NXX, e.g. 214-555)".toList)
    else if b ∈ st.db.blocks then .error ("block ".toList ++ b ++ " twice".toList)
    else .ok { st with db := { st.db with blocks := st.db.blocks ++ [b] } } := fun _ => rfl
  refine accepts_value (by decide) (isPlain_of_validBlock h) fun l => ?_
  rw [hread, h, if_neg (by decide), if_neg hnew]

theorem accepts_enum {k : List Byte} (h : k.length = 16) :
    Accepts st ["enum key=".toList ++ hex k]
      { st with db := { st.db with enumKey := some k } } := by
  show Accepts st ["enum".toList ++ ' ' :: ("key=".toList ++ hex k)] _
  have hread : ∀ l v, parseWords st l ["enum".toList, "key=".toList ++ v] = (do
    let key ← need (unhex 16 v) "the enum key must be 32 hex digits".toList
    return { st with db := { st.db with enumKey := some key } }) := fun _ _ => rfl
  have hkey : ∀ c ∈ "key=".toList, IsPlain c := by decide
  refine accepts_value (by decide) ⟨List.cons_ne_nil _ _, fun c hc => ?_⟩ fun l => ?_
  · rcases List.mem_append.mp hc with hc | hc
    · exact hkey c hc
    · exact isPlain_hex k c hc
  · rw [hread, unhex_hex h]
    rfl

theorem accepts_site {id : Str} {k : List Byte} (hid : IsName id) (hlen : (toUtf8 id).length ≤ 32)
    (h : k.length = 16) (hnew : st.db.sites[id]? = none) :
    Accepts st ["site ".toList ++ id ++ ' ' :: hex k]
      { st with db := { st.db with sites := st.db.sites.insert id k } } := by
  show Accepts st [unwords ["site".toList, id, hex k]] _
  have hread : ∀ l v, parseWords st l ["site".toList, id, v] = (do
    let secret ← need (unhex 16 v) "site secret must be 32 hex digits".toList
    if id = [] ∨ (toUtf8 id).length > 32 then throw "site id must be 1..32 characters".toList
    if st.db.sites.contains id then throw (quoted "site" id ++ " twice".toList)
    return { st with db := { st.db with sites := st.db.sites.insert id secret } }) := fun _ _ => rfl
  refine accepts_unwords (List.cons_ne_nil _ _) (fun w hw => ?_) fun l => ?_
  · rcases List.mem_cons.mp hw with rfl | hw
    · exact isName_of_isPlain (List.cons_ne_nil _ _) (by decide)
    · rcases List.mem_cons.mp hw with rfl | hw
      · exact hid
      · rw [List.mem_singleton.mp hw]
        refine isName_of_isPlain (fun hnil => ?_) (isPlain_hex k)
        have hlenk := length_hex k
        rw [hnil, h] at hlenk
        exact absurd hlenk (by decide)
  · have hcontains : st.db.sites.contains id = false := by
      rw [Std.ExtTreeMap.contains_eq_isSome_getElem?, hnew]
      rfl
    have hbad : ¬ (id = [] ∨ (toUtf8 id).length > 32) := by
      rintro (hnil | hlong)
      · exact hid.1.1 hnil
      · omega
    rw [hread, unhex_hex h]
    show (if id = [] ∨ (toUtf8 id).length > 32 then _ else _) = _
    rw [if_neg hbad]
    show (if st.db.sites.contains id then _ else _) = _
    rw [hcontains]
    rfl

/-! ## The `ims` line -/

/-- What a line says that leaves nothing to be filled in. -/
def lineOf (i : ImsConf) : ImsLine where
  pool := some (i.pool, i.prefixLen)
  pcscf := some i.pcscf
  domain := some i.domain
  net := some (i.net, i.netPrefix)
  mmsc := i.mmsc

def imsWordsOf (i : ImsConf) : List Str :=
  ("pool=".toList ++ (i.pool.display ++ '/' :: decimal i.prefixLen.toNat)) ::
    ("pcscf=".toList ++ i.pcscf.display) :: ("domain=".toList ++ i.domain) ::
    ("net=".toList ++ (i.net.display ++ '/' :: decimal i.netPrefix.toNat)) ::
    fieldWords "mmsc" (i.mmsc.elim [] Ipv4Addr.display)

theorem imsLine_eq (i : ImsConf) : Db.imsLine i = unwords ("ims".toList :: imsWordsOf i) := by
  rw [unwords_cons]
  unfold Db.imsLine imsWordsOf
  simp only [field_eq, List.flatMap_cons, List.append_assoc, List.cons_append]
  rfl

theorem isName_append {k : Str} (hk : k ≠ [] ∧ ∀ c ∈ k, IsPlain c) (hv : ∀ c ∈ v, IsPlain c) :
    IsName (k ++ v) := by
  refine isName_of_isPlain (List.append_ne_nil_of_left_ne_nil hk.1 _) fun c hc => ?_
  rcases List.mem_append.mp hc with hc | hc
  · exact hk.2 c hc
  · exact hv c hc

/-- An address that may be missing, as a word. -/
theorem isName_optional (hk : k.toList ≠ [] ∧ ∀ c ∈ k.toList, IsPlain c) (o : Option Ipv4Addr) :
    ∀ w ∈ fieldWords k (o.elim [] Ipv4Addr.display), IsName w := by
  intro w hw
  unfold fieldWords at hw
  split_ifs at hw with hnil
  · exact absurd hw List.not_mem_nil
  · rw [List.mem_singleton.mp hw]
    refine isName_append hk fun c hc => ?_
    rcases List.mem_cons.mp hc with rfl | hc
    · decide
    · cases o with
      | none => exact absurd hc List.not_mem_nil
      | some ip => exact isPlain_display ip c hc

theorem isName_imsWordsOf (hd : ∀ c ∈ i.domain, IsPlain c) :
    ∀ w ∈ "ims".toList :: imsWordsOf i, IsName w := by
  intro w hw
  rcases List.mem_cons.mp hw with rfl | hw
  · exact isName_of_isPlain (List.cons_ne_nil _ _) (by decide)
  rcases List.mem_cons.mp hw with rfl | hw
  · exact isName_append (by decide) (isPlain_cidr _ _)
  rcases List.mem_cons.mp hw with rfl | hw
  · exact isName_append (by decide) (isPlain_display _)
  rcases List.mem_cons.mp hw with rfl | hw
  · exact isName_append (by decide) hd
  rcases List.mem_cons.mp hw with rfl | hw
  · exact isName_append (by decide) (isPlain_cidr _ _)
  · exact isName_optional (by decide) _ w hw

/-- The words of a line up to its domain, which decides. -/
theorem foldlM_imsWordsOf (hi : i.Valid carrier) :
    (imsWordsOf i).foldlM imsKey {} =
      if validDomain i.domain then .ok { lineOf i with domain := some (i.domain.map Char.toLower) }
      else .error (quoted "bad domain" i.domain) := by
  have hpool : ∀ l v, imsKey l ("pool=".toList ++ v) =
    (do return { l with
        pool := some (← need ((parseCidr v).filter isPool) (quoted "bad ims pool" v)) }) :=
    fun _ _ => rfl
  have hpcscf : ∀ l v, imsKey l ("pcscf=".toList ++ v) =
    (do return { l with pcscf := some (← need (Ipv4Addr.parse v) (quoted "bad pcscf" v)) }) :=
      fun _ _ => rfl
  have hdomain : ∀ l v, imsKey l ("domain=".toList ++ v) =
    if !validDomain v then (do throw (quoted "bad domain" v); return { l with
        domain := some (v.map Char.toLower) })
    else return { l with domain := some (v.map Char.toLower) } := fun _ _ => rfl
  have hnet : ∀ l v, imsKey l ("net=".toList ++ v) =
    (do return { l with net := some (← need (parseCidr v) (quoted "bad ims net" v)) }) :=
      fun _ _ => rfl
  have hmmsc : ∀ l v, imsKey l ("mmsc=".toList ++ v) =
    (do return { l with mmsc := some (← need (Ipv4Addr.parse v) (quoted "bad mmsc" v)) }) :=
      fun _ _ => rfl
  have hlen : i.prefixLen.toNat ≤ 32 := by
    have hp := hi.pool
    simp only [isPool, Bool.and_eq_true, decide_eq_true_eq] at hp
    exact Nat.le_trans (UInt8.le_iff_toNat_le.mp hp.2) (by decide)
  unfold imsWordsOf
  rw [List.foldlM_cons, hpool, parseCidr_display hlen, Option.filter_some, if_pos hi.pool]
  show ([_, _, _] ++ _ : List Str).foldlM imsKey _ = _
  rw [List.cons_append, List.foldlM_cons, hpcscf, Ipv4Addr.parse_display]
  show ([_, _] ++ _ : List Str).foldlM imsKey _ = _
  rw [List.cons_append, List.foldlM_cons, hdomain]
  cases hd : validDomain i.domain with
  | false => rfl
  | true =>
    show ([_] ++ _ : List Str).foldlM imsKey _ = _
    rw [List.cons_append, List.foldlM_cons, hnet, parseCidr_display hi.net]
    unfold lineOf
    cases i.mmsc with
    | none => rfl
    | some ip =>
      show (fieldWords "mmsc" ip.display).foldlM imsKey _ = _
      have hword : fieldWords "mmsc" ip.display = ["mmsc=".toList ++ ip.display] :=
        if_neg (display_ne_nil ip)
      rw [hword, List.foldlM_cons, hmmsc, Ipv4Addr.parse_display]
      rfl

theorem isPlain_of_validDomain {d : Str} (h : validDomain d) : ∀ c ∈ d, IsPlain c := by
  intro c hc
  simp only [validDomain, Bool.and_eq_true, List.all_eq_true, Bool.or_eq_true,
    decide_eq_true_eq] at h
  rcases h.2 c hc with (halnum | rfl) | rfl
  · exact isPlain_of_isAlphanum halnum
  all_goals decide

/-- A line with the words of an IMS bearer. -/
theorem parseWords_imsWordsOf (hi : i.Valid carrier) (l : Str) :
    parseWords st l ("ims".toList :: imsWordsOf i) =
      if validDomain i.domain then
        .ok { st with
          ims := some ((i.pool, i.prefixLen),
            { lineOf i with domain := some (i.domain.map Char.toLower) }) }
      else .error (quoted "bad domain" i.domain) := by
  have hwords :
    parseWords st l ("ims".toList :: imsWordsOf i) = parseWords.imsWords st (imsWordsOf i) :=
    parseWords_ims _ _ _ _
  rw [hwords]
  unfold parseWords.imsWords
  rw [foldlM_imsWordsOf hi]
  cases validDomain i.domain <;> rfl

/-- **An `ims` line comes back** where its domain is one that a line may give. -/
theorem accepts_imsLine (hi : i.Valid carrier) (hd : IsDomain i.domain) :
    Accepts st [Db.imsLine i] { st with ims := some ((i.pool, i.prefixLen), lineOf i) } := by
  rw [imsLine_eq]
  refine accepts_unwords (List.cons_ne_nil _ _)
    (isName_imsWordsOf (isPlain_of_validDomain hd.1)) fun l => ?_
  rw [parseWords_imsWordsOf hi, if_pos hd.1, hd.2]
  rfl

/-- A line whose domain is none is not read. -/
theorem parseLine_imsLine_error (hi : i.Valid carrier) (hd : ∀ c ∈ i.domain, IsPlain c)
    (hbad : validDomain i.domain = false) (n : ℕ) :
    parseLine st (n, Db.imsLine i) ≠ .ok st' := by
  rw [imsLine_eq, parseLine_unwords (List.cons_ne_nil _ _) (isName_imsWordsOf hd),
    parseWords_imsWordsOf hi, hbad]
  exact fun h => by cases h

/-! ## The whole file -/

/-- What the lines of a database are read as, up to its sites. -/
def Db.readState (db : Db) (ims : Option ((Ipv4Addr × UInt8) × ImsLine)) : Parse where
  db := { carrier := [], pool := .zero, prefixLen := 0, gateway := .zero, dns := db.dns,
          mtu := db.mtu,
          cc := db.cc, blocks := db.blocks, enumKey := db.enumKey }
  versionSeen := true
  carrier := some db.carrier
  pool := some (db.pool, db.prefixLen)
  gateway := some db.gateway
  ims := ims

/-- What all its lines are read as. -/
def Db.readDone (db : Db) (ims : Option ((Ipv4Addr × UInt8) × ImsLine)) : Parse :=
  { db.readState ims with db := { (db.readState ims).db with sites := db.sites, subs := db.subs } }

theorem accepts_blocks (st : Parse) {l : List Str} (h : ∀ b ∈ l, validBlock b)
    (hnodup : (st.db.blocks ++ l).Nodup) :
    Accepts st (l.map ("block ".toList ++ ·))
      { st with db := { st.db with blocks := st.db.blocks ++ l } } := by
  induction l generalizing st with
  | nil =>
    rw [List.append_nil]
    exact .nil st
  | cons b l ih =>
    have hnew : b ∉ st.db.blocks := fun hmem =>
      (List.nodup_append.mp hnodup).2.2 b hmem b List.mem_cons_self rfl
    have hb := accepts_block st (h b List.mem_cons_self) hnew
    have hl := ih { st with db := { st.db with blocks := st.db.blocks ++ [b] } }
      (fun b' hb' => h b' (List.mem_cons_of_mem _ hb')) (by rwa [List.append_assoc])
    rw [List.append_assoc, List.singleton_append] at hl
    exact hb.append hl

theorem accepts_sites (st : Parse) {l : List (Str × List Byte)}
    (h : ∀ x ∈ l, IsName x.1 ∧ (toUtf8 x.1).length ≤ 32 ∧ x.2.length = 16)
    (hnodup : (l.map Prod.fst).Nodup) (hnew : ∀ x ∈ l, st.db.sites[x.1]? = none) :
    Accepts st (l.map fun x => "site ".toList ++ x.1 ++ ' ' :: hex x.2)
      { st with db :=
        { st.db with sites := l.foldl (fun t x => t.insert x.1 x.2) st.db.sites } } := by
  induction l generalizing st with
  | nil => exact .nil st
  | cons x l ih =>
    obtain ⟨hname, hlen, hkey⟩ := h x List.mem_cons_self
    rw [List.map_cons, List.nodup_cons] at hnodup
    have hx := accepts_site hname hlen hkey (hnew x List.mem_cons_self)
    refine hx.append (ih _ (fun y hy => h y (List.mem_cons_of_mem _ hy)) hnodup.2 fun y hy => ?_)
    show (st.db.sites.insert x.1 x.2)[y.1]? = none
    rw [OrderedMap.getElem?_insert', if_neg, hnew y (List.mem_cons_of_mem _ hy)]
    exact fun heq => hnodup.1 (heq ▸ List.mem_map_of_mem hy)

theorem accepts_subs (st : Parse) {l : List (Str × Subscriber)}
    (h : ∀ x ∈ l, validImsi x.1 ∧ x.2.Valid) (hnodup : (l.map Prod.fst).Nodup)
    (hnew : ∀ x ∈ l, st.db.subs[x.1]? = none) :
    Accepts st (l.map fun x => Db.subLine x.1 x.2)
      { st with db :=
        { st.db with subs := l.foldl (fun t x => t.insert x.1 x.2) st.db.subs } } := by
  induction l generalizing st with
  | nil => exact .nil st
  | cons x l ih =>
    obtain ⟨himsi, hu⟩ := h x List.mem_cons_self
    rw [List.map_cons, List.nodup_cons] at hnodup
    have hx := accepts_subLine himsi hu (hnew x List.mem_cons_self)
    refine hx.append (ih _ (fun y hy => h y (List.mem_cons_of_mem _ hy)) hnodup.2 fun y hy => ?_)
    show (st.db.subs.insert x.1 x.2)[y.1]? = none
    rw [OrderedMap.getElem?_insert', if_neg, hnew y (List.mem_cons_of_mem _ hy)]
    exact fun heq => hnodup.1 (heq ▸ List.mem_map_of_mem hy)

namespace Db

/-- The lines before the `ims` line. -/
def headLines (db : Db) : List Str :=
  ["# ecm-cell subscriber database (owned by cored; edit with the Carrier Console or cored's admin commands)".toList,
    "version 1".toList, "carrier ".toList ++ db.carrier,
    "pool ".toList ++ db.pool.display ++ '/' :: decimal db.prefixLen.toNat,
    "gateway ".toList ++ db.gateway.display] ++
  (if db.dns ≠ .zero then ["dns ".toList ++ db.dns.display] else []) ++
  ["mtu ".toList ++ decimal db.mtu.toNat] ++
  (if db.cc ≠ ['1'] then ["cc ".toList ++ db.cc] else []) ++
  db.blocks.map ("block ".toList ++ ·) ++
  (db.enumKey.elim [] fun k => ["enum key=".toList ++ hex k])

/-- The lines behind the `ims` line. -/
def tailLines (db : Db) : List Str :=
  (db.sites.toList.map fun s => "site ".toList ++ s.1 ++ ' ' :: hex s.2) ++
  db.subs.toList.map fun s => subLine s.1 s.2

theorem textLines_eq (db : Db) :
    db.textLines = db.headLines ++ (db.ims.elim [] (fun i => [imsLine i]) ++ db.tailLines) := by
  unfold textLines headLines tailLines
  simp only [List.append_assoc]

variable {db : Db}

theorem accepts_headLines (h : db.Valid) : Accepts {} db.headLines (db.readState none) := by
  have hcomment (st : Parse) : Accepts st
      ["# ecm-cell subscriber database (owned by cored; edit with the Carrier Console or cored's admin commands)".toList]
      st := by
    refine .single ⟨by decide, by decide⟩ fun n => rfl
  have hdns (st : Parse) (hst : { st with db := { st.db with dns := .zero } } = st) :
      Accepts st (if db.dns ≠ .zero then ["dns ".toList ++ db.dns.display] else [])
        { st with db := { st.db with dns := db.dns } } := by
    by_cases hzero : db.dns = .zero
    · rw [if_neg (not_not_intro hzero), hzero, hst]
      exact .nil st
    · rw [if_pos hzero]
      exact accepts_dns _
  have hcc (st : Parse) (hst : { st with db := { st.db with cc := ['1'] } } = st) :
      Accepts st (if db.cc ≠ ['1'] then ["cc ".toList ++ db.cc] else [])
        { st with db := { st.db with cc := db.cc } } := by
    by_cases hone : db.cc = ['1']
    · rw [if_neg (not_not_intro hone), hone, hst]
      exact .nil st
    · rw [if_pos hone]
      exact accepts_cc h.cc
  have henum (st : Parse) (hst : { st with db := { st.db with enumKey := none } } = st) :
      Accepts st (db.enumKey.elim [] fun k => ["enum key=".toList ++ hex k])
        { st with db := { st.db with enumKey := db.enumKey } } := by
    cases hk : db.enumKey with
    | none =>
      rw [hst]
      exact .nil st
    | some k => exact accepts_enum (h.enumKey k hk)
  have hblocks := accepts_blocks { db.readState none with
      db := { (db.readState none).db with blocks := [], enumKey := none } } h.blocks h.blocks_nodup
  exact ((((((hcomment {}).append (accepts_version.append ((accepts_carrier h.carrier).append
    ((accepts_pool h.pool).append (accepts_gateway db.gateway))))).append (hdns _ rfl)).append
    (accepts_mtu h.mtu)).append (hcc _ rfl)).append hblocks).append (henum _ rfl)

theorem accepts_tailLines (h : db.Valid) (ims : Option ((Ipv4Addr × UInt8) × ImsLine)) :
    Accepts (db.readState ims) db.tailLines (db.readDone ims) := by
  have hsite : ∀ x ∈ db.sites.toList, IsName x.1 ∧ (toUtf8 x.1).length ≤ 32 ∧
    x.2.length = 16 := fun x hx =>
    h.sites x.1 x.2 (Std.ExtTreeMap.mem_toList_iff_getElem?_eq_some.mp hx)
  have hsub : ∀ x ∈ db.subs.toList, validImsi x.1 ∧ x.2.Valid := fun x hx =>
    h.subs x.1 x.2 (Std.ExtTreeMap.mem_toList_iff_getElem?_eq_some.mp hx)
  have hsites := accepts_sites (db.readState ims) hsite OrderedMap.nodup_map_fst_toList
    fun x _ => Std.ExtTreeMap.getElem?_empty
  have hsubs := accepts_subs
    { db.readState ims with db := { (db.readState ims).db with sites := db.sites } } hsub
    OrderedMap.nodup_map_fst_toList fun x _ => Std.ExtTreeMap.getElem?_empty
  have hsitesAll :
    db.sites.toList.foldl (fun t x => t.insert x.1 x.2) (db.readState ims).db.sites = db.sites :=
    OrderedMap.foldl_insert_toList
  have hsubsAll :
    db.subs.toList.foldl (fun t x => t.insert x.1 x.2) (db.readState ims).db.subs = db.subs :=
    OrderedMap.foldl_insert_toList
  rw [hsitesAll] at hsites
  rw [show ({ db.readState ims with db := { (db.readState ims).db with sites := db.sites } } :
    Parse).db.subs =
    (db.readState ims).db.subs from rfl, hsubsAll] at hsubs
  exact hsites.append hsubs

end Db

namespace Db

variable {db : Db}

theorem accepts_imsLines (h : db.Valid) (hims : ∀ i, db.ims = some i → IsDomain i.domain) :
    Accepts (db.readState none) (db.ims.elim [] fun i => [imsLine i])
      (db.readState (db.ims.map fun i => ((i.pool, i.prefixLen), lineOf i))) := by
  cases hi : db.ims with
  | none => exact .nil _
  | some i => exact accepts_imsLine (h.ims i hi) (hims i hi)

/-- What the lines come to, with any `ims` line. -/
theorem made_readDone (ims : Option ((Ipv4Addr × UInt8) × ImsLine)) :
    (db.readDone ims).made db.carrier (db.pool, db.prefixLen) db.gateway =
      { db with ims := ims.map (imsOfLine db.carrier db.gateway) } := rfl

theorem finish_readDone (h : db.Valid) :
    (db.readDone (db.ims.map fun i => ((i.pool, i.prefixLen), lineOf i))).finish = .ok db := by
  have hsub {imsi : Str} {s : Subscriber} (hs : (imsi, s) ∈ db.subs.toList) :
    db.subs[imsi]? = some s :=
    Std.ExtTreeMap.mem_toList_iff_getElem?_eq_some.mp hs
  have hchecks : ∃ ns, db.subs.toList.foldlM (checkSub db) [] = .ok ns := by
    refine checkSubs_ok_iff.mpr ⟨fun x hx => ⟨fun ip i hip hi => ?_, fun ip hip => ?_⟩,
      nodup_numbersOf_iff.mpr h.numbers, fun _ _ => List.not_mem_nil⟩
    · exact h.imsIp x.1 x.2 ip i (hsub hx) hip hi
    · exact h.ip x.1 x.2 ip (hsub hx) hip
  have hims : (db.ims.map fun i => ((i.pool, i.prefixLen), lineOf i)).map
    (imsOfLine db.carrier db.gateway) =
      db.ims := by
    cases db.ims <;> rfl
  refine finish_ok_iff.mpr ⟨rfl, db.carrier,
    (db.pool, db.prefixLen), db.gateway, rfl, rfl, rfl, h.gateway, ?_, hchecks⟩
  rw [made_readDone, hims]

/-- **The file of a database is read back**, where the domain of its IMS bearer is one that
a line may give. -/
theorem parse_toText (h : db.Valid) (hims : ∀ i, db.ims = some i → IsDomain i.domain) :
    Db.parse db.toText = .ok db := by
  have haccepts :=
    (accepts_headLines h).append ((accepts_imsLines h hims).append (accepts_tailLines h _))
  rw [← textLines_eq] at haccepts
  unfold Db.parse toText
  dsimp only
  rw [lines_flatMap haccepts.1, haccepts.2]
  dsimp only
  rw [finish_readDone h]

/-- The domain made from a carrier id is one that a line may give if the id has no `_`. -/
theorem isDomain_defaultDomain (h : validCarrier carrier) (hunder : '_' ∉ carrier) :
    IsDomain (defaultDomain carrier) := by
  have hlen : carrier.length ≤ 24 := by
    simp only [validCarrier, Bool.and_eq_true, decide_eq_true_eq] at h
    exact h.1.2
  have hchar : ∀ c ∈ carrier, (c.isAlphanum = true ∨ c = '-') ∧ ¬ c.isUpper = true := by
    intro c hc
    rcases mem_validCarrier h hc with hlower | hdigit | rfl | rfl
    · refine ⟨.inl (isAlphanum_iff.mpr (.inr (.inr hlower))), fun hupper => ?_⟩
      have hrange := isUpper_iff.mp hupper
      omega
    · have hdig := isDigit_iff.mp hdigit
      refine ⟨.inl (isAlphanum_iff.mpr (.inl hdig)), fun hupper => ?_⟩
      have hrange := isUpper_iff.mp hupper
      omega
    · exact absurd hc hunder
    · exact ⟨.inr rfl, by decide⟩
  have hsuffix : ∀ c ∈ ".ecm".toList, ((c.isAlphanum || c = '-') || c = '.') = true ∧
    c.toLower = c := by decide
  constructor
  · simp only [validDomain, Bool.and_eq_true, decide_eq_true_eq, List.all_eq_true]
    refine ⟨⟨List.append_ne_nil_of_right_ne_nil _ (by decide), ?_⟩, fun c hc => ?_⟩
    · rw [defaultDomain, List.length_append]
      exact Nat.le_trans (Nat.add_le_add_right hlen _) (by decide)
    · rcases List.mem_append.mp hc with hc | hc
      · rcases (hchar c hc).1 with halnum | rfl
        · rw [halnum]; rfl
        · rfl
      · exact (hsuffix c hc).1
  · refine (List.map_congr_left fun c hc => ?_).trans (List.map_id _)
    rcases List.mem_append.mp hc with hc | hc
    · exact toLower_of_not_isUpper (hchar c hc).2
    · exact (hsuffix c hc).2

theorem validDomain_defaultDomain (hunder : '_' ∈ carrier) :
    validDomain (defaultDomain carrier) = false := by
  refine Bool.eq_false_iff.mpr fun h => ?_
  simp only [validDomain, Bool.and_eq_true, List.all_eq_true] at h
  exact absurd (h.2 '_' (List.mem_append_left _ hunder)) (by decide)

theorem isPlain_defaultDomain (h : validCarrier carrier) :
    ∀ c ∈ defaultDomain carrier, IsPlain c := by
  have hsuffix : ∀ c ∈ ".ecm".toList, IsPlain c := by decide
  intro c hc
  rcases List.mem_append.mp hc with hc | hc
  · exact (isPlain_of_validCarrier h).2 c hc
  · exact hsuffix c hc

/-- **A file that is not read back** has a domain that is none. -/
theorem not_parse_toText (h : db.Valid) (hi : db.ims = some i) (hd : ∀ c ∈ i.domain, IsPlain c)
    (hbad : validDomain i.domain = false) (db' : Db) : Db.parse db.toText ≠ .ok db' := by
  intro hparse
  obtain ⟨hheadLine, hhead⟩ := accepts_headLines h
  have htailLine := (accepts_tailLines h none).1
  have himsLine : IsLine (imsLine i) := by
    rw [imsLine_eq]
    exact isLine_unwords fun w hw => (isName_imsWordsOf hd w hw).1
  have htext : db.textLines = db.headLines ++ (imsLine i :: db.tailLines) := by
    rw [textLines_eq, hi]
    rfl
  have hlines : lines db.toText = db.textLines := by
    refine lines_flatMap fun l hl => ?_
    rw [htext] at hl
    rcases List.mem_append.mp hl with hl | hl
    · exact hheadLine l hl
    · rcases List.mem_cons.mp hl with rfl | hl
      · exact himsLine
      · exact htailLine l hl
  unfold Db.parse at hparse
  dsimp only at hparse
  rw [hlines, htext, List.zipIdx_append, List.foldlM_append, hhead] at hparse
  split at hparse
  · cases hparse
  · rename_i st hst
    obtain ⟨st₀, hst₀, hst⟩ := exists_of_bind_eq_ok hst
    cases hst₀
    rw [List.zipIdx_cons, List.foldlM_cons] at hst
    obtain ⟨st₁, hst₁, -⟩ := exists_of_bind_eq_ok hst
    exact parseLine_imsLine_error (h.ims i hi) hd hbad _ hst₁

/-- **When the file of a database is read back**: the domain of its IMS bearer is not made from
a carrier id with `_`. -/
def DomainReadable (db : Db) : Prop :=
  ∀ i, db.ims = some i → i.domain = defaultDomain db.carrier → '_' ∉ db.carrier

theorem parse_toText_iff (h : db.Valid) : Db.parse db.toText = .ok db ↔ db.DomainReadable := by
  constructor
  · intro hparse i hi hdefault hunder
    refine not_parse_toText h hi ?_ ?_ db hparse
    · rw [hdefault]
      exact isPlain_defaultDomain h.carrier
    · rw [hdefault]
      exact validDomain_defaultDomain hunder
  · intro hreadable
    refine parse_toText h fun i hi => ?_
    rcases (h.ims i hi).domain with hdefault | hdomain
    · rw [hdefault]
      exact isDomain_defaultDomain h.carrier (hreadable i hi hdefault)
    · exact hdomain

end EvansComputer.Cell.Db
