import EvansComputer.Net.Packet
import EvansComputer.Library.OnesComplement

/-!
# What the Internet checksum says

A checksum is a residue modulo `65535`.  `sumWords` and `foldLoop` keep the
residue of the weight of the data and keep apart a sum that is zero from one that
only has the residue zero, so a checksum of zero means that the weight is a
multiple of `65535` and not zero itself.

A packet is changed by writing words at even offsets.  `weight_setWord` says what
that does to the weight, and `wordAt` names the word that was there.
-/

namespace EvansComputer

variable {s i : ℕ} {l : List Byte}

/-- The sum of the big-endian words of the data, without any carry. -/
abbrev weight (hi : Bool) (l : List Byte) : ℕ := weightFrom UInt8.toNat 256 hi l

/-- The big-endian word at an offset. -/
def wordAt (l : List Byte) (i : ℕ) : UInt16 := u16FromBe (l.getD i 0) (l.getD (i + 1) 0)

theorem toNat_u16FromBe (a b : Byte) : (u16FromBe a b).toNat = a.toNat * 256 + b.toNat := by
  have ha := a.toNat_lt
  have hb := b.toNat_lt
  rw [u16FromBe, UInt16.toNat_ofNat', Nat.mod_eq_of_lt (by omega)]

theorem u16ToBe_u16FromBe (a b : Byte) : u16ToBe (u16FromBe a b) = [a, b] := by
  have ha := a.toNat_lt
  have hb := b.toNat_lt
  have h1 : (a.toNat * 256 + b.toNat) / 256 = a.toNat := by omega
  rw [u16ToBe, toNat_u16FromBe, h1, UInt8.ofNat_toNat]
  congr 2
  apply UInt8.toNat_inj.mp
  rw [UInt8.toNat_ofNat']
  omega

@[simp] theorem weight_u16ToBe (n : UInt16) : weight true (u16ToBe n) = n.toNat := by
  have hn := n.toNat_lt
  simp only [weight, u16ToBe, weightFrom, UInt8.toNat_ofNat']
  omega

/-- The words of an address. -/
theorem weight_bytes (ip : Ipv4Addr) :
    weight true ip.bytes = (u16FromBe ip.a ip.b).toNat + (u16FromBe ip.c ip.d).toNat := by
  simp only [weight, Ipv4Addr.bytes, weightFrom, toNat_u16FromBe]
  omega

/-! ## The sum of the words -/

theorem foldOnce_cast (s : ℕ) : ((foldOnce s : ℕ) : ZMod 65535) = s :=
  cast_carry (b := 65536) (by omega) s

/-- **What `sumWords` computes**: it stays a 32-bit word, keeps the residue, and
is zero only for a weight of zero. -/
theorem sumWords_spec (l : List Byte) (hs : s ≤ 0xffff0000) :
    sumWords s l < 2 ^ 32 ∧ ((sumWords s l : ℕ) : ZMod 65535) = (s + weight true l : ℕ) ∧
      (sumWords s l = 0 ↔ s + weight true l = 0) := by
  induction s, l using sumWords.induct with
  | case1 s a b rest sum ih =>
    have hword := (u16FromBe a b).toNat_lt
    have hsum : s + weight true (a :: b :: rest) = sum + weight true rest := by
      simp only [weight, weightFrom, sum, toNat_u16FromBe]
      omega
    have hcarry : (if 0xffff0000 < sum then foldOnce sum else sum) ≤ 0xffff0000 := by
      split_ifs
      · unfold foldOnce
        omega
      · omega
    obtain ⟨hlt, hcast, hzero⟩ := ih hcarry
    rw [sumWords, hsum]
    refine ⟨hlt, hcast.trans ?_, hzero.trans ?_⟩
    · rw [Nat.cast_add, Nat.cast_add]
      split_ifs
      · rw [foldOnce_cast]
      · rfl
    · split_ifs
      · rw [Nat.add_eq_zero_iff, Nat.add_eq_zero_iff]
        exact and_congr_left fun _ => carry_eq_zero_iff
      · exact Iff.rfl
  | case2 s b =>
    have hb := b.toNat_lt
    have hsum : weight true [b] = b.toNat * 256 := by simp [weight, weightFrom]
    rw [sumWords, hsum]
    exact ⟨by omega, rfl, Iff.rfl⟩
  | case3 s =>
    rw [sumWords]
    exact ⟨by omega, by simp, by simp⟩

theorem weight_bytes_le (ip : Ipv4Addr) : weight true ip.bytes ≤ 131070 := by
  have h1 := (u16FromBe ip.a ip.b).toNat_lt
  have h2 := (u16FromBe ip.c ip.d).toNat_lt
  rw [weight_bytes]
  omega

/-- An address is summed without a carry. -/
theorem sumWords_bytes (hs : s ≤ 262140) (ip : Ipv4Addr) :
    sumWords s ip.bytes = s + weight true ip.bytes := by
  have h1 := (u16FromBe ip.a ip.b).toNat_lt
  have h2 := (u16FromBe ip.c ip.d).toNat_lt
  rw [weight_bytes, Ipv4Addr.bytes, sumWords, sumWords, sumWords]
  rw [if_neg (by omega : ¬ 0xffff0000 < s + (u16FromBe ip.a ip.b).toNat), if_neg (by omega),
    Nat.add_assoc]

theorem foldLoop_spec (fuel s : ℕ) :
    ((foldLoop fuel s : ℕ) : ZMod 65535) = s ∧ (foldLoop fuel s = 0 ↔ s = 0) := by
  induction fuel generalizing s with
  | zero => exact ⟨rfl, Iff.rfl⟩
  | succ fuel ih =>
    rw [foldLoop]
    split_ifs
    · exact ⟨(ih _).1.trans (foldOnce_cast s), (ih _).2.trans carry_eq_zero_iff⟩
    · exact ⟨rfl, Iff.rfl⟩

/-- The complement of a word, as a number. -/
theorem toNat_complement (n : UInt16) : (~~~ n).toNat = 65535 - n.toNat := by
  rw [UInt16.toNat_not]
  rfl

/-- A complement is the negative of its word. -/
theorem cast_complement (n : UInt16) : ((~~~ n).toNat : ZMod 65535) = -(n.toNat : ZMod 65535) := by
  have hn := n.toNat_lt
  rw [toNat_complement, Nat.cast_sub (by omega), ZMod.natCast_self, zero_sub]

theorem toNat_ofNat_foldLoop (hs : s < 2 ^ 32) :
    (UInt16.ofNat (foldLoop 2 s)).toNat = foldLoop 2 s := by
  rw [UInt16.toNat_ofNat', Nat.mod_eq_of_lt (foldLoop_lt hs)]

theorem toNat_fold (hs : s < 2 ^ 32) : (fold s).toNat = 65535 - foldLoop 2 s := by
  rw [fold, toNat_complement, toNat_ofNat_foldLoop hs]

/-- **A checksum is the negative of its sum.** -/
theorem cast_fold (hs : s < 2 ^ 32) : ((fold s).toNat : ZMod 65535) = -(s : ZMod 65535) := by
  rw [fold, cast_complement, toNat_ofNat_foldLoop hs, (foldLoop_spec 2 s).1]

theorem fold_eq_zero_iff (hs : s < 2 ^ 32) :
    fold s = 0 ↔ (s : ZMod 65535) = 0 ∧ s ≠ 0 := by
  have hlt := foldLoop_lt hs
  obtain ⟨hcast, hzero⟩ := foldLoop_spec 2 s
  rw [← UInt16.toNat_inj, toNat_fold hs]
  constructor
  · intro h
    have hmax : foldLoop 2 s = 65535 := by
      simp only [UInt16.toNat_zero] at h
      omega
    rw [hmax] at hcast hzero
    exact ⟨by rw [← hcast]; rfl, fun h0 => absurd (hzero.mpr h0) (by omega)⟩
  · rintro ⟨hres, hne⟩
    have hpos : 0 < foldLoop 2 s := Nat.pos_of_ne_zero fun h0 => hne (hzero.mp h0)
    have hmax : foldLoop 2 s = 65535 := by
      refine eq_of_cast_eq_of_pos (m := 65535) hpos (by omega) (by omega) le_rfl ?_
      rw [hcast, hres, ZMod.natCast_self]
    rw [hmax]
    rfl

/-- A checksum is the largest word for a sum of zero alone. -/
theorem fold_eq_max_iff (hs : s < 2 ^ 32) : (fold s).toNat = 65535 ↔ s = 0 := by
  have hlt := foldLoop_lt hs
  rw [toNat_fold hs, ← (foldLoop_spec 2 s).2]
  omega

/-! ## Checksums of data -/

section Data

variable (src dst : Ipv4Addr) (protocol : Byte) (l : List Byte)

theorem cast_internetChecksum :
    ((internetChecksum l).toNat : ZMod 65535) = -(weight true l : ZMod 65535) := by
  obtain ⟨hlt, hcast, -⟩ := sumWords_spec l (s := 0) (by omega)
  rw [internetChecksum, cast_fold hlt, hcast, Nat.zero_add]

/-- **Data carries its checksum** when its weight has the residue zero and is not
zero. -/
theorem internetChecksum_eq_zero_iff :
    internetChecksum l = 0 ↔ (weight true l : ZMod 65535) = 0 ∧ weight true l ≠ 0 := by
  obtain ⟨hlt, hcast, hzero⟩ := sumWords_spec l (s := 0) (by omega)
  rw [internetChecksum, fold_eq_zero_iff hlt, hcast, Ne, hzero, Nat.zero_add]

theorem internetChecksum_eq_max_iff :
    (internetChecksum l).toNat = 65535 ↔ weight true l = 0 := by
  obtain ⟨hlt, -, hzero⟩ := sumWords_spec l (s := 0) (by omega)
  rw [internetChecksum, fold_eq_max_iff hlt, hzero, Nat.zero_add]

/-- The sum of the pseudo-header and the segment, without any carry. -/
def pseudoWeight : ℕ :=
  weight true src.bytes + weight true dst.bytes + protocol.toNat + l.length % 65536 + weight true l

/-- The sum of a pseudo-header is the same 32-bit word whatever the order. -/
theorem pseudoHeader_spec :
    ∃ s, pseudoHeaderChecksum src dst protocol l = fold s ∧ s < 2 ^ 32 ∧
      (s : ZMod 65535) = (pseudoWeight src dst protocol l : ℕ) ∧
      (s = 0 ↔ pseudoWeight src dst protocol l = 0) := by
  have hproto := protocol.toNat_lt
  have hs := weight_bytes_le src
  have hd := weight_bytes_le dst
  have hsum : sumWords (sumWords 0 src.bytes) dst.bytes =
      weight true src.bytes + weight true dst.bytes := by
    rw [sumWords_bytes (s := 0) (by omega) src, sumWords_bytes (by omega) dst, Nat.zero_add]
  obtain ⟨hlt, hcast, hzero⟩ := sumWords_spec l
    (s := weight true src.bytes + weight true dst.bytes + protocol.toNat + l.length % 65536)
    (by omega)
  refine ⟨_, ?_, hlt, hcast, hzero⟩
  rw [pseudoHeaderChecksum, hsum]

theorem cast_pseudoHeaderChecksum :
    ((pseudoHeaderChecksum src dst protocol l).toNat : ZMod 65535) =
      -((pseudoWeight src dst protocol l : ℕ) : ZMod 65535) := by
  obtain ⟨s, heq, hlt, hcast, -⟩ := pseudoHeader_spec src dst protocol l
  rw [heq, cast_fold hlt, hcast]

variable {protocol}

/-- **A segment carries its checksum** when the weight of pseudo-header and
segment has the residue zero. -/
theorem pseudoHeaderChecksum_eq_zero_iff (hp : protocol ≠ 0) :
    pseudoHeaderChecksum src dst protocol l = 0 ↔
      ((pseudoWeight src dst protocol l : ℕ) : ZMod 65535) = 0 := by
  obtain ⟨s, heq, hlt, hcast, hzero⟩ := pseudoHeader_spec src dst protocol l
  have hpos : pseudoWeight src dst protocol l ≠ 0 := by
    have hne : protocol.toNat ≠ 0 := fun h => hp (UInt8.toNat_inj.mp h)
    unfold pseudoWeight
    omega
  rw [heq, fold_eq_zero_iff hlt, hcast, Ne, hzero]
  exact and_iff_left hpos

theorem pseudoHeaderChecksum_ne_max (hp : protocol ≠ 0) :
    (pseudoHeaderChecksum src dst protocol l).toNat ≠ 65535 := by
  obtain ⟨s, heq, hlt, -, hzero⟩ := pseudoHeader_spec src dst protocol l
  have hne : protocol.toNat ≠ 0 := fun h => hp (UInt8.toNat_inj.mp h)
  rw [heq, Ne, fold_eq_max_iff hlt, hzero]
  unfold pseudoWeight
  omega

end Data

/-! ## Words in a buffer -/

/-- The bytes at an offset are the bytes of the word there. -/
theorem take_drop_eq_word (h : i + 2 ≤ l.length) :
    (l.drop i).take 2 = [l.getD i 0, l.getD (i + 1) 0] := by
  rw [List.drop_eq_getElem_cons (by omega), List.drop_eq_getElem_cons (by omega)]
  simp only [List.take_succ_cons, List.take_zero]
  rw [List.getD_eq_getElem?_getD, List.getD_eq_getElem?_getD, List.getElem?_eq_getElem (by omega),
    List.getElem?_eq_getElem (by omega), Option.getD_some, Option.getD_some]

/-- **Writing a word** replaces the one that was there in the weight. -/
theorem weight_setWord (hi : i % 2 = 0) (h : i + 2 ≤ l.length) (w : UInt16) :
    weight true (overwrite l i (u16ToBe w)) + (wordAt l i).toNat = weight true l + w.toNat := by
  have hw := weightFrom_overwrite UInt8.toNat 256 true (l := l) (d := u16ToBe w) (i := i) h
  have hold : weight true ((l.drop i).take 2) = (wordAt l i).toNat := by
    rw [take_drop_eq_word h, wordAt, toNat_u16FromBe]
    simp [weight, weightFrom]
  rw [halfAfter_even hi, length_u16ToBe] at hw
  rw [← hold, hw]
  exact congrArg _ (weight_u16ToBe w)

/-- A word of a buffer is part of its weight. -/
theorem wordAt_le_weight (hi : i % 2 = 0) (h : i + 2 ≤ l.length) :
    (wordAt l i).toNat ≤ weight true l := by
  have hw := weight_setWord hi h 0
  rw [UInt16.toNat_zero] at hw
  omega

/-- The word that a buffer has at an offset, from its two bytes. -/
theorem wordAt_eq {w : UInt16} (h : ∀ k < 2, l[i + k]? = (u16ToBe w)[k]?) : wordAt l i = w := by
  have h0 := h 0 (by omega)
  have h1 := h 1 (by omega)
  rw [wordAt, List.getD_eq_getElem?_getD, List.getD_eq_getElem?_getD]
  rw [Nat.add_zero] at h0
  rw [h0, h1]
  exact u16FromBe_u16ToBe w

/-- Two buffers with the same two bytes have the same word there. -/
theorem wordAt_congr {l' : List Byte} {j : ℕ} (h : ∀ k < 2, l[i + k]? = l'[j + k]?) :
    wordAt l i = wordAt l' j := by
  have h0 := h 0 (by omega)
  have h1 := h 1 (by omega)
  rw [Nat.add_zero, Nat.add_zero] at h0
  simp only [wordAt, List.getD_eq_getElem?_getD, h0, h1]

/-- **A checksum written where there was none verifies.** -/
theorem internetChecksum_written (hi : i % 2 = 0) (h : i + 2 ≤ l.length) (hblank : wordAt l i = 0) :
    internetChecksum (overwrite l i (u16ToBe (internetChecksum l))) = 0 := by
  have hw := weight_setWord hi h (internetChecksum l)
  have hmax := internetChecksum_eq_max_iff l
  rw [hblank, UInt16.toNat_zero, Nat.add_zero] at hw
  rw [internetChecksum_eq_zero_iff, hw]
  refine ⟨?_, by omega⟩
  rw [Nat.cast_add, cast_internetChecksum, add_neg_cancel]

/-- It is the largest word only where all the rest is zero. -/
theorem internetChecksum_ne_max {k : ℕ} (h : k < l.length) (hk : l.getD k 0 ≠ 0) :
    (internetChecksum l).toNat ≠ 65535 := by
  have hb : 0 < (l.getD k 0).toNat := Nat.pos_of_ne_zero fun h0 => hk (UInt8.toNat_inj.mp h0)
  rw [Ne, internetChecksum_eq_max_iff]
  have hcut := weightFrom_append UInt8.toNat 256 true (l.take k) (l.drop k)
  rw [List.take_append_drop, List.drop_eq_getElem_cons h] at hcut
  rw [List.getD_eq_getElem?_getD, List.getElem?_eq_getElem h, Option.getD_some] at hb
  rw [weight, hcut]
  cases halfAfter true (l.take k).length <;> rw [weightFrom] <;> omega

/-! ## Sums in one's complement -/

/-- Addition of words, the carry brought round. -/
def onesAdd (x y : UInt16) : UInt16 := UInt16.ofNat (foldOnce (x.toNat + y.toNat))

/-- The sum of words in one's complement. -/
def onesSum (ws : List UInt16) : UInt16 := ws.foldl onesAdd 0

/-- The big-endian words of the data, an odd byte at the end padded with zero. -/
def wordsOf : List Byte → List UInt16
  | a :: b :: rest => u16FromBe a b :: wordsOf rest
  | [b] => [u16FromBe b 0]
  | [] => []

/-- A word has the residue of a sum, and is zero for a sum of zero alone. -/
def StandsFor (w : UInt16) (s : ℕ) : Prop := (w.toNat : ZMod 65535) = s ∧ (w.toNat = 0 ↔ s = 0)

theorem StandsFor.unique {w w' : UInt16} (h : StandsFor w s) (h' : StandsFor w' s) : w = w' := by
  have hw := w.toNat_lt
  have hw' := w'.toNat_lt
  apply UInt16.toNat_inj.mp
  by_cases hs : s = 0
  · rw [h.2.mpr hs, h'.2.mpr hs]
  · exact eq_of_cast_eq_of_pos (m := 65535) (Nat.pos_of_ne_zero fun h0 => hs (h.2.mp h0)) (by omega)
      (Nat.pos_of_ne_zero fun h0 => hs (h'.2.mp h0)) (by omega) (h.1.trans h'.1.symm)

theorem standsFor_onesAdd {x y : UInt16} {t : ℕ} (hx : StandsFor x s) (hy : StandsFor y t) :
    StandsFor (onesAdd x y) (s + t) := by
  have hxlt := x.toNat_lt
  have hylt := y.toNat_lt
  have hnat : (onesAdd x y).toNat = foldOnce (x.toNat + y.toNat) := by
    rw [onesAdd, UInt16.toNat_ofNat', Nat.mod_eq_of_lt]
    unfold foldOnce
    omega
  constructor
  · rw [hnat, foldOnce_cast, Nat.cast_add, Nat.cast_add, hx.1, hy.1]
  · rw [hnat, foldOnce, carry_eq_zero_iff, Nat.add_eq_zero_iff, Nat.add_eq_zero_iff, hx.2, hy.2]

/-- **The sum of words** stands for the sum without any carry. -/
theorem standsFor_onesSum (ws : List UInt16) :
    StandsFor (onesSum ws) (ws.map UInt16.toNat).sum := by
  induction ws using List.reverseRecOn with
  | nil => exact ⟨rfl, Iff.rfl⟩
  | append_singleton ws w ih =>
    rw [onesSum, List.foldl_append, List.map_append, List.sum_append, List.map_singleton,
      List.sum_singleton]
    exact standsFor_onesAdd ih ⟨rfl, Iff.rfl⟩

theorem standsFor_foldLoop (hs : s < 2 ^ 32) : StandsFor (UInt16.ofNat (foldLoop 2 s)) s := by
  unfold StandsFor
  rw [toNat_ofNat_foldLoop hs]
  exact foldLoop_spec 2 s

theorem weight_eq_sum (l : List Byte) : weight true l = ((wordsOf l).map UInt16.toNat).sum := by
  induction l using wordsOf.induct with
  | case1 a b rest ih =>
    rw [wordsOf, List.map_cons, List.sum_cons, ← ih, toNat_u16FromBe]
    simp only [weight, weightFrom]
    omega
  | case2 b => simp [wordsOf, weight, weightFrom, toNat_u16FromBe]
  | case3 => rfl

/-! ### Without overflow -/

/-- An addition of `u32`; none where it overflows. -/
def addU32 (a b : ℕ) : Option ℕ := if a + b < 2 ^ 32 then some (a + b) else none

/-- `sum_words`, every addition checked. -/
def sumWordsChecked : ℕ → List Byte → Option ℕ
  | sum, a :: b :: rest =>
    (addU32 sum (u16FromBe a b).toNat).bind fun sum =>
      (if 0xffff0000 < sum then addU32 (sum % 65536) (sum / 65536) else some sum).bind fun sum =>
        sumWordsChecked sum rest
  | sum, [b] => addU32 sum (b.toNat * 256)
  | sum, [] => some sum

/-- `fold`, every addition checked; none also when the turns do not suffice. -/
def foldChecked : ℕ → ℕ → Option UInt16
  | 0, sum => if sum / 65536 ≠ 0 then none else some (~~~ UInt16.ofNat sum)
  | turns + 1, sum =>
    if sum / 65536 ≠ 0 then (addU32 (sum % 65536) (sum / 65536)).bind (foldChecked turns)
      else some (~~~ UInt16.ofNat sum)

def internetChecksumChecked (data : List Byte) : Option UInt16 :=
  (sumWordsChecked 0 data).bind (foldChecked 2)

def pseudoHeaderChecksumChecked (src dst : Ipv4Addr) (protocol : Byte) (segment : List Byte) :
    Option UInt16 :=
  (sumWordsChecked 0 src.bytes).bind fun sum =>
    (sumWordsChecked sum dst.bytes).bind fun sum =>
      (addU32 sum protocol.toNat).bind fun sum =>
        (addU32 sum (segment.length % 65536)).bind fun sum =>
          (sumWordsChecked sum segment).bind (foldChecked 2)

theorem sumWordsChecked_eq (l : List Byte) (hs : s ≤ 0xffff0000) :
    sumWordsChecked s l = some (sumWords s l) := by
  induction s, l using sumWords.induct with
  | case1 s a b rest sum ih =>
    have hword := (u16FromBe a b).toNat_lt
    have hadd : addU32 s (u16FromBe a b).toNat = some sum :=
      if_pos (show s + (u16FromBe a b).toNat < 2 ^ 32 by omega)
    have hsum : sum < 2 ^ 32 := show s + (u16FromBe a b).toNat < 2 ^ 32 by omega
    have hfold : (if 0xffff0000 < sum then addU32 (sum % 65536) (sum / 65536) else some sum) =
        some (if 0xffff0000 < sum then foldOnce sum else sum) := by
      split_ifs
      · exact if_pos (by omega)
      · rfl
    have hle : (if 0xffff0000 < sum then foldOnce sum else sum) ≤ 0xffff0000 := by
      split_ifs
      · unfold foldOnce
        omega
      · omega
    rw [sumWordsChecked, hadd, Option.bind_some, hfold, Option.bind_some]
    exact ih hle
  | case2 s b =>
    have hb := b.toNat_lt
    exact if_pos (by omega)
  | case3 s => rfl

theorem foldChecked_eq (hs : s < 2 ^ 32) : foldChecked 2 s = some (fold s) := by
  have hadd {s : ℕ} (hs : s < 2 ^ 32) : addU32 (s % 65536) (s / 65536) = some (foldOnce s) :=
    if_pos (by omega)
  have hlt := foldLoop_lt hs
  have hone : foldOnce s < 2 ^ 32 := by
    unfold foldOnce
    omega
  rw [fold]
  unfold foldLoop foldLoop foldLoop at hlt ⊢
  unfold foldChecked foldChecked foldChecked
  rw [hadd hs, Option.bind_some, hadd hone, Option.bind_some]
  split_ifs at hlt ⊢ with h1 h2 h3
  · omega
  · rfl
  · rfl
  · rfl

/-! ### What a checksum is -/

theorem fold_eq_onesSum (hs : s < 2 ^ 32) (ws : List UInt16)
    (hcast : (s : ZMod 65535) = ((ws.map UInt16.toNat).sum : ℕ))
    (hzero : s = 0 ↔ (ws.map UInt16.toNat).sum = 0) :
    fold s = ~~~ onesSum ws := by
  obtain ⟨hfold, hne⟩ := standsFor_foldLoop hs
  rw [fold, StandsFor.unique ⟨hfold.trans hcast, hne.trans hzero⟩ (standsFor_onesSum ws)]

/-- The words that the checksum of a segment is about. -/
def pseudoWords (src dst : Ipv4Addr) (protocol : Byte) (segment : List Byte) : List UInt16 :=
  wordsOf src.bytes ++ wordsOf dst.bytes ++ [protocol.toUInt16, UInt16.ofNat segment.length] ++
    wordsOf segment

theorem pseudoWeight_eq_sum (src dst : Ipv4Addr) (protocol : Byte) (l : List Byte) :
    pseudoWeight src dst protocol l = ((pseudoWords src dst protocol l).map UInt16.toNat).sum := by
  simp only [pseudoWords, pseudoWeight, weight_eq_sum, List.map_append, List.sum_append,
    List.map_cons, List.map_nil,
    List.sum_cons, List.sum_nil, UInt8.toNat_toUInt16, UInt16.toNat_ofNat']
  omega

theorem pseudoHeaderChecked_eq (src dst : Ipv4Addr) (protocol : Byte) (l : List Byte) :
    pseudoHeaderChecksumChecked src dst protocol l =
      some (pseudoHeaderChecksum src dst protocol l) := by
  have hproto := protocol.toNat_lt
  have hs := weight_bytes_le src
  have hd := weight_bytes_le dst
  have hadd {a b : ℕ} (h : a + b < 2 ^ 32) : addU32 a b = some (a + b) := if_pos h
  have hsrc := sumWords_bytes (s := 0) (by omega) src
  have hdst := sumWords_bytes (s := sumWords 0 src.bytes) (by omega) dst
  unfold pseudoHeaderChecksumChecked pseudoHeaderChecksum
  dsimp only
  rw [sumWordsChecked_eq _ (by omega), Option.bind_some, sumWordsChecked_eq _ (by omega),
    Option.bind_some]
  generalize sumWords (sumWords 0 src.bytes) dst.bytes = s at hdst ⊢
  have hlt := (sumWords_spec l (s := s + protocol.toNat + l.length % 65536) (by omega)).1
  rw [hadd (by omega), Option.bind_some, hadd (by omega), Option.bind_some,
    sumWordsChecked_eq _ (by omega), Option.bind_some,
    foldChecked_eq hlt]

/-- **A checksum with a pseudo-header, written where there was none**, verifies as well. -/
theorem pseudoHeaderChecksum_written (src dst : Ipv4Addr) (protocol : Byte) (hi : i % 2 = 0)
    (h : i + 2 ≤ l.length) (hblank : wordAt l i = 0) :
    pseudoHeaderChecksum src dst protocol
      (overwrite l i (u16ToBe (pseudoHeaderChecksum src dst protocol l))) = 0 := by
  obtain ⟨s, heq, hlt, hcast, hzero⟩ := pseudoHeader_spec src dst protocol l
  have hmax := fold_eq_max_iff hlt
  generalize hc : pseudoHeaderChecksum src dst protocol l = c at heq
  have hw := weight_setWord hi h c
  rw [hblank, UInt16.toNat_zero, Nat.add_zero] at hw
  have hsum : pseudoWeight src dst protocol (overwrite l i (u16ToBe c)) =
    pseudoWeight src dst protocol l + c.toNat := by
    unfold pseudoWeight
    rw [hw, length_overwrite (by rwa [length_u16ToBe])]
    omega
  obtain ⟨s', heq', hlt', hcast', hzero'⟩ :=
    pseudoHeader_spec src dst protocol (overwrite l i (u16ToBe c))
  rw [heq', fold_eq_zero_iff hlt', hcast', Ne, hzero', hsum, heq, Nat.cast_add, cast_fold hlt,
    hcast, add_neg_cancel]
  exact ⟨rfl, by omega⟩

/-- **Checksums.**  No sum overflows, a checksum is the complement of the sum of the words in one's
complement, and data that holds its checksum in a word that was zeroed has the checksum zero. -/
theorem checksum_is_ones_complement :
    (∀ data, internetChecksumChecked data = some (internetChecksum data) ∧
      internetChecksum data = ~~~ onesSum (wordsOf data)) ∧
      (∀ src dst protocol segment,
        pseudoHeaderChecksumChecked src dst protocol segment =
          some (pseudoHeaderChecksum src dst protocol segment) ∧
          pseudoHeaderChecksum src dst protocol segment = ~~~ onesSum
            (pseudoWords src dst protocol segment)) ∧
      ∀ (l : List Byte) (i : ℕ), i % 2 = 0 → i + 2 ≤ l.length →
        let zeroed := overwrite l i [0, 0]
        internetChecksum (overwrite zeroed i (u16ToBe (internetChecksum zeroed))) = 0 ∧
          ∀ src dst protocol,
          pseudoHeaderChecksum src dst protocol
            (overwrite zeroed i (u16ToBe (pseudoHeaderChecksum src dst protocol zeroed))) = 0 := by
  refine ⟨fun data => ?_, fun src dst protocol segment => ⟨pseudoHeaderChecked_eq _ _ _ _, ?_⟩,
    fun l i hi h => ?_⟩
  · obtain ⟨hlt, hcast, hzero⟩ := sumWords_spec data (s := 0) (by omega)
    rw [Nat.zero_add, weight_eq_sum] at hcast hzero
    refine ⟨?_, fold_eq_onesSum hlt _ hcast hzero⟩
    rw [internetChecksumChecked, sumWordsChecked_eq data (by omega), Option.bind_some,
      foldChecked_eq hlt, internetChecksum]
  · obtain ⟨s, heq, hlt, hcast, hzero⟩ := pseudoHeader_spec src dst protocol segment
    rw [pseudoWeight_eq_sum] at hcast hzero
    rw [heq, fold_eq_onesSum hlt _ hcast hzero]
  · have hlen : (overwrite l i [0, 0]).length = l.length := length_overwrite h
    have hblank : wordAt (overwrite l i [0, 0]) i = 0 := wordAt_eq fun k hk => by
      rw [getElem?_overwrite h, if_pos ⟨by omega, by simpa using hk⟩]
      simp [u16ToBe]
    exact ⟨internetChecksum_written hi (hlen ▸ h) hblank,
      fun src dst protocol => pseudoHeaderChecksum_written src dst protocol hi (hlen ▸ h) hblank⟩

/-- The data of an IPv4 header, its checksum at offset 10. -/
theorem header_verifies :
    let zeroed :=
  overwrite [0x45, 0, 0, 20, 0, 0, 0, 0, 64, 17, 1, 2, 10, 0, 0, 1, 10, 0, 0, 2] 10 [0, 0]
    internetChecksum (overwrite zeroed 10 (u16ToBe (internetChecksum zeroed))) = 0 :=
  (checksum_is_ones_complement.2.2 _ 10 rfl (by decide)).1

/-! ## Parsed packets -/

/-- **When a packet parses**, and as what. -/
theorem Ipv4Header.parse_eq_some_iff {p seg : List Byte} {h : Ipv4Header} :
    Ipv4Header.parse p = some (h, seg) ↔
      h = Ipv4Header.read p ∧ h.versionIhl >>> 4 = 4 ∧ 20 ≤ h.headerLen ∧
        h.headerLen ≤ h.totalLength.toNat ∧ h.totalLength.toNat ≤ p.length ∧
        internetChecksum (p.take h.headerLen) = 0 ∧
        seg = (p.take h.totalLength.toNat).drop h.headerLen := by
  unfold Ipv4Header.parse Ipv4Header.parseChecked
  constructor
  · intro hp
    simp only at hp
    split_ifs at hp with h1 h2 h3 h4 h5 h6
    all_goals simp only [Except.toOption, Option.some.injEq, Prod.mk.injEq, reduceCtorEq] at hp
    obtain ⟨rfl, rfl⟩ := hp
    exact ⟨rfl, not_not.mp h2, by omega, by omega, by omega, not_not.mp h6, rfl⟩
  · rintro ⟨rfl, hv, h20, hle, htot, hsum, rfl⟩
    simp only
    rw [if_neg (by omega), if_neg (not_not.mpr hv), if_neg (by omega), if_neg (by omega),
      if_neg (by omega), if_neg (not_not.mpr hsum)]
    rfl

end EvansComputer
