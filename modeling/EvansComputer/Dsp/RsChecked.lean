import EvansComputer.Dsp.RsSound
import EvansComputer.Library.Traversals

/-!
# Nothing in the decoder can fail

The decoder once more, with its loops in place and every index, division and subtraction of the
source checked: `none` is where the program would stop.  It never is, and what comes out is the
decoder's answer (`Checked.decode_eq`).

Most of it holds for any arguments, as the tables are full.  The search for the locator needs
what it keeps: the length is not beyond the syndromes read, the two polynomials have their full
length, and the last discrepancy divided by is not zero.
-/

namespace EvansComputer.Dsp.ReedSolomon.Checked

open GF256

/-! ## The checks -/

def sub (a b : ℕ) : Option ℕ := if b ≤ a then some (a - b) else none

def gexp (i : ℕ) : Option Byte := expTable[i % 255]?

def glog (x : Byte) : Option ℕ := logTable[x.toNat]?

def gfMul (a b : Byte) : Option Byte :=
  if a = 0 ∨ b = 0 then some 0
  else do
    let i ← glog a
    let j ← glog b
    expTable[i + j]?

/-- The assertion of the source is the first check. -/
def gfDiv (a b : Byte) : Option Byte :=
  if b = 0 then none
  else if a = 0 then some 0
  else do
    let i ← glog a
    let j ← glog b
    let k ← sub (i + 255) j
    expTable[k]?

def gfInv (a : Byte) : Option Byte := gfDiv 1 a

/-! ## The decoder -/

def horner (r : Byte) (block : List Byte) : Option Byte :=
  block.foldlM (fun acc c => (gfMul acc r).map (· ^^^ c)) 0

def syndromes (rs : ReedSolomon) (block : List Byte) : Option (List Byte) :=
  (List.range rs.nroots).mapM fun j => do
    let r ← gexp j
    horner r block

def discrepancy (s c : List Byte) (l i : ℕ) : Option Byte := do
  let d ← s[i]?
  (List.range l).foldlM (fun d k => do
    let x ← (c)[k + 1]?
    let j ← sub i (k + 1)
    let y ← s[j]?
    let p ← gfMul x y
    return d ^^^ p) d

/-- The loop that adds a multiple of one polynomial to another at an offset, as far as a
bound. -/
def addInto (dst : List Byte) (m bound : ℕ) (g : Byte) (src : List Byte) (len : ℕ) :
    Option (List Byte) :=
  (List.range len).foldlM (fun dst k =>
    if k + m < bound then do
      let x ← src[k]?
      let y ← dst[k + m]?
      let p ← gfMul g x
      return dst.set (k + m) (y ^^^ p)
    else some dst) dst

def bmStep (nroots : ℕ) (s : List Byte) (st : Bm) (i : ℕ) : Option Bm := do
  let d ← discrepancy s st.c st.l i
  if d = 0 then return { st with m := st.m + 1 }
  else
    let coef ← gfDiv d st.bb
    let c ← addInto st.c st.m (nroots + 1) coef st.b (nroots + 1)
    if 2 * st.l ≤ i then
      let l ← sub (i + 1) st.l
      return { c := c, b := st.c, l := l, m := 1, bb := d }
    else return { st with c := c, m := st.m + 1 }

def berlekampMassey (nroots : ℕ) (s : List Byte) : Option Bm :=
  (List.range nroots).foldlM (bmStep nroots s)
    { c := 1 :: List.replicate nroots 0
      b := 1 :: List.replicate nroots 0
      l := 0
      m := 1
      bb := 1 }

def evalAt (poly : List Byte) (x : Byte) : Option Byte := do
  let p ← poly.foldlM (fun (p : Byte × Byte) coef => do
    let v ← gfMul coef p.2
    let xp ← gfMul p.2 x
    return (p.1 ^^^ v, xp)) ((0 : Byte), (1 : Byte))
  return p.1

def chien (lambda : List Byte) (n : ℕ) : Option (List ℕ) :=
  (List.range n).foldlM (fun positions i => do
    let last ← sub n 1
    let p ← sub last i
    let e ← sub 255 (p % 255)
    let xinv ← gexp e
    let v ← evalAt lambda xinv
    return if v = 0 then positions ++ [i] else positions) []

def omega (nroots : ℕ) (s lambda : List Byte) : Option (List Byte) :=
  (List.range s.length).foldlM (fun om i => do
    let x ← s[i]?
    addInto om i nroots x lambda lambda.length) (List.replicate nroots 0)

def deriv (lambda : List Byte) : Option (List Byte) :=
  (List.range (lambda.length - 1)).mapM fun k => if (k + 1) % 2 = 1 then lambda[k + 1]? else some 0

def correct (n : ℕ) (om dl : List Byte) :
    List ℕ → List Byte → Option (Except RsError Unit × List Byte)
  | [], block => some (.ok (), block)
  | i :: rest, block => do
    let last ← sub n 1
    let p ← sub last i
    let x ← gexp p
    let xinv ← gfInv x
    let o ← evalAt om xinv
    let d ← evalAt dl xinv
    if d = 0 then return (.error .tooManyErrors, block)
    else
      let q ← gfDiv o d
      let e ← gfMul x q
      let y ← block[i]?
      correct n om dl rest (block.set i (y ^^^ e))

def decode (rs : ReedSolomon) (block : List Byte) : Option (Except RsError ℕ × List Byte) :=
  let n := block.length
  if n > 255 ∨ n ≤ rs.nroots then some (.error .badLength, block)
  else do
    let s ← syndromes rs block
    if s.all (· = 0) then return (.ok 0, block)
    else
      let bm ← berlekampMassey rs.nroots s
      if bm.l = 0 ∨ bm.l > rs.nroots / 2 then return (.error .tooManyErrors, block)
      else
        -- `&c[..=l]`
        let lambda ← if bm.l < bm.c.length then some (bm.c.take (bm.l + 1)) else none
        let positions ← chien lambda n
        if positions.length ≠ bm.l then return (.error .tooManyErrors, block)
        else
          let om ← omega rs.nroots s lambda
          let dl ← deriv lambda
          let (r, block) ← correct n om dl positions block
          match r with
          | .error e => return (.error e, block)
          | .ok () =>
            let s ← syndromes rs block
            if s.any (· ≠ 0) then return (.error .tooManyErrors, block)
            else return (.ok positions.length, block)

/-! ## The field -/

theorem sub_eq {a b : ℕ} (h : b ≤ a) : sub a b = some (a - b) := if_pos h

theorem length_expTable : expTable.length = 512 := by
  rw [expTable_eq, List.length_map, List.length_range]

theorem getElem?_eq_some_getD {l : List Byte} {i : ℕ} (h : i < l.length) :
    l[i]? = some (l.getD i 0) := by
  rw [List.getD_eq_getElem _ 0 h, List.getElem?_eq_getElem h]

theorem gexp_eq (i : ℕ) : gexp i = some (Dsp.gexp i) := by
  have hlt : i % 255 < expTable.length := by
    rw [length_expTable]
    omega
  exact getElem?_eq_some_getD hlt

theorem glog_eq (x : Byte) : glog x = some (Dsp.glog x) := by
  have hlt : x.toNat < logTable.length := by
    rw [logTable, List.length_map, List.length_range]
    exact x.toNat_lt
  rw [glog, Dsp.glog, List.getD_eq_getElem _ 0 hlt, List.getElem?_eq_getElem hlt]

theorem gfMul_eq (a b : Byte) : gfMul a b = some (Dsp.gfMul a b) := by
  have ha := glog_lt a
  have hb := glog_lt b
  unfold gfMul Dsp.gfMul
  split_ifs
  · rfl
  · rw [glog_eq, glog_eq]
    exact getElem?_eq_some_getD (by rw [length_expTable]; omega)

theorem gfDiv_eq (a : Byte) {b : Byte} (h : b ≠ 0) : gfDiv a b = some (Dsp.gfDiv a b) := by
  have ha := glog_lt a
  have hb := glog_lt b
  unfold gfDiv Dsp.gfDiv
  rw [if_neg h]
  split_ifs
  · rfl
  · rw [glog_eq, glog_eq]
    change (sub (Dsp.glog a + 255) (Dsp.glog b)).bind _ = _
    rw [sub_eq (by omega)]
    exact getElem?_eq_some_getD (by rw [length_expTable]; omega)

theorem gfInv_gexp_eq (i : ℕ) : gfInv (Dsp.gexp i) = some (Dsp.gfInv (Dsp.gexp i)) :=
  gfDiv_eq 1 fun h => gexp_ne_zero i (of_eq_zero.mpr h)

/-! ## The loops -/

variable {nroots n i : ℕ} {s lambda om dl block : List Byte} {st : Bm}

theorem horner_eq (r : Byte) (block : List Byte) :
    horner r block = some (ReedSolomon.horner r block) :=
  foldlM_some (fun c _ acc => by rw [gfMul_eq, Option.map_some]) 0

theorem syndromes_eq (rs : ReedSolomon) (block : List Byte) :
    syndromes rs block = some (rs.syndromes block) := by
  refine mapM_eq_some fun j _ => ?_
  rw [gexp_eq]
  exact horner_eq _ _

theorem discrepancy_eq {c : List Byte} {l : ℕ} (hi : i < s.length) (hl : l ≤ i)
    (hc : l < c.length) :
    discrepancy s c l i = some (ReedSolomon.discrepancy s c l i) := by
  unfold discrepancy
  rw [getElem?_eq_some_getD hi]
  refine foldlM_some (fun k hk d => ?_) _
  have hk' := List.mem_range.mp hk
  rw [getElem?_eq_some_getD (l := c) (by omega), sub_eq (by omega)]
  change (s[i - (k + 1)]?).bind _ = _
  rw [getElem?_eq_some_getD (by omega), Option.bind_some, gfMul_eq]
  rfl

theorem xorInto_append (dst : List Byte) (m : ℕ) (src : List Byte) (v : Byte) :
    xorInto dst m (src ++ [v]) =
    (xorInto dst m src).set (src.length + m)
    ((xorInto dst m src).getD (src.length + m) 0 ^^^ v) := by
  induction dst generalizing m src with
  | nil => rfl
  | cons d ds ih =>
    cases m with
    | zero =>
      cases src with
      | nil => cases ds <;> rfl
      | cons x src =>
        change (d ^^^ x) :: xorInto ds 0 (src ++ [v]) = _
        rw [ih]
        rfl
    | succ m =>
      change d :: xorInto ds m (src ++ [v]) = _
      rw [ih]
      rfl

theorem xorInto_nil (dst : List Byte) (m : ℕ) : xorInto dst m [] = dst := by
  induction dst generalizing m with
  | nil => rfl
  | cons d ds ih =>
    cases m with
    | zero => rfl
    | succ m => exact congrArg (d :: ·) (ih m)

/-- **The loop in place adds one polynomial into the other**, the part that fits. -/
theorem addInto_eq {dst src : List Byte} {bound len : ℕ} (hdst : dst.length = bound)
    (hsrc : src.length = len) (m : ℕ) (g : Byte) :
    addInto dst m bound g src len = some (xorInto dst m (src.map (Dsp.gfMul g))) := by
  have hprefix : ∀ k ≤ len, addInto dst m bound g src k =
      some (xorInto dst m ((src.take k).map (Dsp.gfMul g))) := by
    intro k hk
    induction k with
    | zero => exact congrArg some (xorInto_nil dst m).symm
    | succ k ih =>
      have hlt : k < src.length := by omega
      have hlen : (xorInto dst m ((src.take k).map (Dsp.gfMul g))).length = bound := by
        rw [length_xorInto, hdst]
      have htake : (src.take (k + 1)).map (Dsp.gfMul g) =
          (src.take k).map (Dsp.gfMul g) ++ [Dsp.gfMul g (src.getD k 0)] := by
        rw [List.take_succ_eq_append_getElem hlt, List.map_append, List.getD_eq_getElem _ 0 hlt]
        rfl
      have hcount : ((src.take k).map (Dsp.gfMul g)).length = k := by
        rw [List.length_map, List.length_take]
        omega
      have hbefore := ih (by omega)
      unfold addInto at hbefore ⊢
      rw [List.range_succ, List.foldlM_append, hbefore, htake, xorInto_append, hcount]
      change ((if k + m < bound then _ else _ : Option (List Byte))).bind some = _
      by_cases hfits : k + m < bound
      · rw [if_pos hfits, getElem?_eq_some_getD hlt,
          getElem?_eq_some_getD (by rw [hlen]; exact hfits)]
        change (((gfMul g (src.getD k 0)).bind _ : Option (List Byte))).bind some = _
        rw [gfMul_eq]
        rfl
      · rw [if_neg hfits, List.set_eq_of_length_le (by rw [hlen]; omega)]
        rfl
  have hall := hprefix len le_rfl
  rwa [← hsrc, List.take_length, hsrc] at hall

/-! ## The search for the locator -/

/-- What the search keeps, beside what it finds. -/
structure Sized (nroots : ℕ) (st : Bm) : Prop where
  length_c : st.c.length = nroots + 1
  length_b : st.b.length = nroots + 1

theorem sized_bmStep (h : Sized nroots st) (s : List Byte) (i : ℕ) :
    Sized nroots (ReedSolomon.bmStep s st i) := by
  unfold ReedSolomon.bmStep
  dsimp only
  split_ifs
  · exact ⟨h.length_c, h.length_b⟩
  · exact ⟨(length_xorInto _ _ _).trans h.length_c, h.length_c⟩
  · exact ⟨(length_xorInto _ _ _).trans h.length_c, h.length_b⟩

theorem bmStep_eq (hsized : Sized nroots st) (h : BmInv nroots s i st) (hi : i < nroots)
    (hs : s.length = nroots) :
    bmStep nroots s st i = some (ReedSolomon.bmStep s st i) := by
  have hl := h.search.length
  have hbb : st.bb ≠ 0 := h.search.spare_ne_zero
  unfold bmStep ReedSolomon.bmStep
  rw [discrepancy_eq (by omega) hl (by rw [hsized.length_c]; omega)]
  dsimp only
  generalize ReedSolomon.discrepancy s st.c st.l i = d
  change (if d = 0 then _ else _ : Option Bm) = _
  by_cases hzero : d = 0
  · rw [if_pos hzero, if_pos hzero]
    rfl
  · rw [if_neg hzero, if_neg hzero, gfDiv_eq d hbb]
    change (addInto st.c st.m (nroots + 1) (Dsp.gfDiv d st.bb) st.b (nroots + 1)).bind _ = _
    rw [addInto_eq hsized.length_c hsized.length_b, Option.bind_some]
    by_cases hshort : 2 * st.l ≤ i
    · rw [if_pos hshort, if_pos hshort, sub_eq (by omega)]
      rfl
    · rw [if_neg hshort, if_neg hshort]
      rfl

theorem foldlM_bmStep_eq (hsized : Sized nroots st) (h : BmInv nroots s 0 st)
    (hs : s.length = nroots) {k : ℕ} (hk : k ≤ nroots) : (List.range k).foldlM
    (bmStep nroots s) st = some ((List.range k).foldl (ReedSolomon.bmStep s) st) ∧
      Sized nroots ((List.range k).foldl (ReedSolomon.bmStep s) st) ∧
      BmInv nroots s k ((List.range k).foldl (ReedSolomon.bmStep s) st) := by
  induction k with
  | zero => exact ⟨rfl, hsized, h⟩
  | succ k ih =>
    obtain ⟨heq, hsized', hinv⟩ := ih (by omega)
    rw [List.range_succ, List.foldlM_append, heq, List.foldl_append]
    refine ⟨?_, sized_bmStep hsized' s k, hinv.step (by omega)⟩
    change (bmStep nroots s _ k).bind some = _
    rw [bmStep_eq hsized' hinv (by omega) hs]
    rfl

theorem berlekampMassey_eq (hs : s.length = nroots) :
    berlekampMassey nroots s = some (ReedSolomon.berlekampMassey nroots s) ∧
      Sized nroots (ReedSolomon.berlekampMassey nroots s) := by
  have hstart : (1 :: List.replicate nroots (0 : Byte)).length = nroots + 1 := by
    rw [List.length_cons, List.length_replicate]
  obtain ⟨heq, hsized, -⟩ := foldlM_bmStep_eq ⟨hstart, hstart⟩ (bmInv_start nroots s) hs le_rfl
  exact ⟨heq, hsized⟩

/-! ## Roots and corrections -/

theorem evalAt_eq (poly : List Byte) (x : Byte) :
    evalAt poly x = some (ReedSolomon.evalAt poly x) := by
  have hfold := foldlM_some (l := poly) (f := fun (p : Byte × Byte) coef => do
      let v ← gfMul coef p.2
      let xp ← gfMul p.2 x
      return (p.1 ^^^ v, xp)) (g := fun p coef => (p.1 ^^^ Dsp.gfMul coef p.2, Dsp.gfMul p.2 x))
    (fun coef _ p => by rw [gfMul_eq, gfMul_eq]; rfl) (0, 1)
  unfold evalAt
  rw [hfold]
  rfl

theorem chien_eq (lambda : List Byte) (n : ℕ) :
    chien lambda n = some (ReedSolomon.chien lambda n) := by
  have hfold := foldlM_some (l := List.range n) (f := fun (positions : List ℕ) i => do
      let last ← sub n 1
      let p ← sub last i
      let e ← sub 255 (p % 255)
      let xinv ← gexp e
      let v ← evalAt lambda xinv
      return if v = 0 then positions ++ [i] else positions)
    (g := fun positions i =>
      if ReedSolomon.evalAt lambda (Dsp.gexp (255 - (n - 1 - i) % 255)) = 0 then positions ++ [i]
        else positions)
    (fun i hi positions => by
      have hlt := List.mem_range.mp hi
      rw [sub_eq (by omega)]
      change (sub (n - 1) i).bind _ = _
      rw [sub_eq (by omega), Option.bind_some, sub_eq (by omega)]
      change (gexp _).bind _ = _
      rw [gexp_eq, Option.bind_some, evalAt_eq]
      rfl) []
  have hfilter (l kept : List ℕ) : l.foldl (fun positions i =>
      if ReedSolomon.evalAt lambda (Dsp.gexp (255 - (n - 1 - i) % 255)) = 0 then positions ++ [i]
        else positions) kept =
      kept ++ l.filter fun i => ReedSolomon.evalAt lambda
        (Dsp.gexp (255 - (n - 1 - i) % 255)) = 0 := by
    induction l generalizing kept with
    | nil => exact (List.append_nil _).symm
    | cons i l ih =>
      rw [List.foldl_cons, ih, List.filter_cons]
      by_cases hroot : ReedSolomon.evalAt lambda (Dsp.gexp (255 - (n - 1 - i) % 255)) = 0
      · rw [if_pos hroot, if_pos (decide_eq_true hroot), List.append_assoc]
        rfl
      · rw [if_neg hroot, if_neg (by rw [decide_eq_true_eq]; exact hroot)]
  unfold chien
  rw [hfold, hfilter]
  rfl

theorem omega_eq (nroots : ℕ) (s lambda : List Byte) :
    omega nroots s lambda = some (ReedSolomon.omega nroots s lambda) := by
  refine (foldlM_eq_some (P := fun om : List Byte => om.length = nroots) List.length_replicate
    fun i hi om hom => ?_).1
  rw [getElem?_eq_some_getD (List.mem_range.mp hi)]
  exact ⟨addInto_eq hom rfl i _, (length_xorInto _ _ _).trans hom⟩

theorem deriv_eq (lambda : List Byte) : deriv lambda = some (ReedSolomon.deriv lambda) := by
  refine mapM_eq_some fun k hk => ?_
  have hlt := List.mem_range.mp hk
  split_ifs
  · exact getElem?_eq_some_getD (by omega)
  · rfl

theorem set_eq_xorInto {block : List Byte} (i : ℕ) (e : Byte) :
    block.set i (block.getD i 0 ^^^ e) = xorInto block i [e] := by
  have h := xorInto_append block i [] e
  rw [List.nil_append, xorInto_nil, List.length_nil, Nat.zero_add] at h
  exact h.symm

theorem correct_eq {places : List ℕ} (hplaces : ∀ i ∈ places, i < n) (hn : block.length = n) :
    correct n om dl places block = some (ReedSolomon.correct n om dl places block) := by
  induction places generalizing block with
  | nil => rfl
  | cons i rest ih =>
    have hi := hplaces i List.mem_cons_self
    unfold correct ReedSolomon.correct
    rw [sub_eq (by omega)]
    change (sub (n - 1) i).bind _ = _
    rw [sub_eq (by omega), Option.bind_some, gexp_eq]
    change (gfInv (Dsp.gexp (n - 1 - i))).bind _ = _
    rw [gfInv_gexp_eq, Option.bind_some, evalAt_eq]
    change (evalAt dl (Dsp.gfInv (Dsp.gexp (n - 1 - i)))).bind _ = _
    rw [evalAt_eq, Option.bind_some]
    dsimp only
    by_cases hzero : ReedSolomon.evalAt dl (Dsp.gfInv (Dsp.gexp (n - 1 - i))) = 0
    · rw [if_pos hzero, if_pos hzero]
      rfl
    · rw [if_neg hzero, if_neg hzero, gfDiv_eq _ hzero]
      change (gfMul _ _).bind _ = _
      rw [gfMul_eq, Option.bind_some, getElem?_eq_some_getD (by omega)]
      change correct n om dl rest (block.set i _) = _
      rw [set_eq_xorInto]
      exact ih (fun k hk => hplaces k (List.mem_cons_of_mem _ hk)) ((length_xorInto _ _ _).trans hn)

/-! ## The whole decoder -/

/-- **The decoder does not fail**, on any block. -/
theorem decode_eq (nroots : ℕ) (block : List Byte) :
    decode (new nroots) block = some ((new nroots).decode block) := by
  have hroots : (new nroots).nroots = nroots := rfl
  unfold decode ReedSolomon.decode
  dsimp only
  by_cases hn : block.length > 255 ∨ block.length ≤ (new nroots).nroots
  · rw [if_pos hn, if_pos hn]
  rw [if_neg hn, if_neg hn, syndromes_eq]
  change (if ((new nroots).syndromes block).all (· = 0) = true then _ else _ : Option _) = _
  by_cases hclean : ((new nroots).syndromes block).all (· = 0) = true
  · rw [if_pos hclean, if_pos hclean]
    rfl
  rw [if_neg hclean, if_neg hclean]
  have hsyndromes : ((new nroots).syndromes block).length = nroots := length_syndromes block
  obtain ⟨hbm, hsized⟩ := berlekampMassey_eq hsyndromes
  rw [hroots, hbm]
  generalize ReedSolomon.berlekampMassey nroots ((new nroots).syndromes block) = bm at hsized ⊢
  change (if bm.l = 0 ∨ bm.l > nroots / 2 then _ else _ : Option _) = _
  by_cases hl : bm.l = 0 ∨ bm.l > nroots / 2
  · rw [if_pos hl, if_pos hl]
    rfl
  have hfits : bm.l < bm.c.length := by
    rw [hsized.length_c]
    omega
  rw [if_neg hl, if_neg hl, if_pos hfits]
  change (chien (bm.c.take (bm.l + 1)) block.length).bind _ = _
  rw [chien_eq, Option.bind_some]
  by_cases hcount : (ReedSolomon.chien (bm.c.take (bm.l + 1)) block.length).length ≠ bm.l
  · rw [if_pos hcount, if_pos hcount]
    rfl
  rw [if_neg hcount, if_neg hcount, omega_eq]
  change (deriv (bm.c.take (bm.l + 1))).bind _ = _
  have hplaces : ∀ i ∈ ReedSolomon.chien (bm.c.take (bm.l + 1)) block.length, i < block.length :=
    fun i hi => (mem_chien.mp hi).1
  rw [deriv_eq, Option.bind_some, correct_eq hplaces rfl]
  generalize ReedSolomon.correct block.length _ _ _ block = r
  obtain ⟨e | u, fixed⟩ := r
  · rfl
  · change (syndromes (new nroots) fixed).bind _ = _
    rw [syndromes_eq, Option.bind_some]
    dsimp only
    split_ifs <;> rfl

end Checked

/-! ## The theorem -/

variable {nroots : ℕ} {block : List Byte}

theorem changed_self (block : List Byte) : changed block block = [] :=
  List.filter_eq_nil_iff.mpr fun _ _ h => of_decide_eq_true h rfl

/-- As far as the search over the places, the block is as it was; what passes it is decoded. -/
theorem decode_cases (nroots : ℕ) (block : List Byte) :
    ((new nroots).decode block = (.ok 0, block) ∧ (new nroots).IsCodeword block) ∨
      (∃ block', Damaged nroots block block' ∧
        (new nroots).decode block = (.ok (changed block block').length, block')) ∨
      ∃ e, (new nroots).decode block = (.error e, block) := by
  have hroots : (new nroots).nroots = nroots := rfl
  by_cases hn : block.length > 255 ∨ block.length ≤ nroots
  · exact .inr (.inr ⟨.badLength, if_pos hn⟩)
  by_cases hclean : ((new nroots).syndromes block).all (· = 0) = true
  · refine .inl ⟨?_, hclean⟩
    simp only [decode, hroots]
    rw [if_neg hn]
    exact if_pos hclean
  by_cases hl : (berlekampMassey nroots ((new nroots).syndromes block)).l = 0 ∨
      (berlekampMassey nroots ((new nroots).syndromes block)).l > nroots / 2
  · refine .inr (.inr ⟨.tooManyErrors, ?_⟩)
    simp only [decode, hroots]
    rw [if_neg hn, if_neg hclean, if_pos hl]
  by_cases hcount : (chien ((berlekampMassey nroots ((new nroots).syndromes block)).c.take
      ((berlekampMassey nroots ((new nroots).syndromes block)).l + 1)) block.length).length =
        (berlekampMassey nroots ((new nroots).syndromes block)).l
  · obtain ⟨block', hdamaged⟩ := exists_damaged (by omega) (by omega) (by omega) (by omega) hcount
    exact .inr (.inl ⟨block', hdamaged, hdamaged.decode_eq⟩)
  · refine .inr (.inr ⟨.tooManyErrors, ?_⟩)
    simp only [decode, hroots]
    rw [if_neg hn, if_neg hclean, if_neg hl, if_pos hcount]

/-- **The decoder is sound and atomic.**  What it returns as decoded is a codeword and differs in
as many places as it says, at most half the parity; what it refuses it leaves as it was.  Where
the search over the places finds as many roots as the recurrence is long, the block is decoded,
so that the checks behind the corrections never refuse it.  No index, division or subtraction
fails. -/
theorem decode_sound (nroots : ℕ) (block : List Byte) :
    (match (new nroots).decode block with
      | (.ok k, block') => (new nroots).IsCodeword block' ∧ block'.length = block.length ∧
          (changed block block').length = k ∧ k ≤ nroots / 2
      | (.error _, block') => block' = block) ∧
    (let bm := berlekampMassey nroots ((new nroots).syndromes block);
      nroots < block.length → block.length ≤ 255 → 0 < bm.l → bm.l ≤ nroots / 2 →
        (chien (bm.c.take (bm.l + 1)) block.length).length = bm.l →
          ∃ k block', (new nroots).decode block = (.ok k, block')) ∧
    Checked.decode (new nroots) block = some ((new nroots).decode block) := by
  refine ⟨?_, ?_, Checked.decode_eq nroots block⟩
  · rcases decode_cases nroots block with ⟨heq, hcode⟩ | ⟨block', hdamaged, heq⟩ | ⟨e, heq⟩
    · rw [heq]
      exact ⟨hcode, rfl, by rw [changed_self]; rfl, Nat.zero_le _⟩
    · rw [heq]
      have hfew := hdamaged.few_changed
      exact ⟨isCodeword_iff.mpr hdamaged.code, hdamaged.length_eq.symm, rfl, by omega⟩
    · rw [heq]
  · intro bm hn hle hpos hfew hroots
    obtain ⟨block', hdamaged⟩ := exists_damaged hn hle hpos.ne' hfew hroots
    exact ⟨_, block', hdamaged.decode_eq⟩

end EvansComputer.Dsp.ReedSolomon
