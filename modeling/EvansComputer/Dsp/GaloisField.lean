import EvansComputer.Net.Types
import Mathlib.Algebra.Field.Basic
import Mathlib.Algebra.CharP.Defs
import Mathlib.Data.List.Nodup
import Mathlib.Dynamics.PeriodicPts.Lemmas
import Mathlib.NumberTheory.Divisors
import Mathlib.Tactic.Common

/-!
# The field of 256 elements

Bytes with exclusive or for a sum, and a product by tables of powers and logarithms of
the generator `2` (field polynomial `0x11D`).

The tables are checked entry by entry where the check is finite, and everything else
follows from three facts: a power is known by its exponent modulo 255, every byte but
zero is the power of its logarithm, and multiplication by the generator is a shift,
which respects exclusive or.  Distributivity is the last one, iterated.
-/

namespace EvansComputer.Dsp

/-! ## Tables -/

/-- The next power of the generator. -/
def gfStep (x : UInt16) : UInt16 :=
  let x := x <<< 1
  if x &&& 0x100 ≠ 0 then x ^^^ 0x11D else x

/-- The powers from `x` on, `n` of them. -/
def gfPowers : ℕ → UInt16 → List Byte
  | 0, _ => []
  | n + 1, x => x.toUInt8 :: gfPowers n (gfStep x)

/-- `TABLES.0`: 255 powers, then the same again. -/
def expTable : List Byte :=
  let powers := gfPowers 255 1
  powers ++ powers ++ powers.take 2

/-- `TABLES.1`: the place of each byte among the powers, zero where it has none. -/
def logTable : List ℕ :=
  (List.range 256).map fun x =>
    let i := (gfPowers 255 1).idxOf (UInt8.ofNat x)
    if i < 255 then i else 0

def gexp (i : ℕ) : Byte := expTable.getD (i % 255) 0

def glog (x : Byte) : ℕ := logTable.getD x.toNat 0

/-- Multiply. -/
def gfMul (a b : Byte) : Byte :=
  if a = 0 ∨ b = 0 then 0 else expTable.getD (glog a + glog b) 0

/-- Divide; the source refuses `b = 0`. -/
def gfDiv (a b : Byte) : Byte :=
  if a = 0 then 0 else expTable.getD (glog a + 255 - glog b) 0

def gfInv (a : Byte) : Byte := gfDiv 1 a

/-! ## What the tables hold -/

theorem gfStep_spec : ∀ n < 256, (gfStep (UInt16.ofNat n)).toNat < 256 ∧
    (n ≠ 0 → gfStep (UInt16.ofNat n) ≠ 0) := by
  decide +kernel

theorem toNat_iterate_lt (i : ℕ) : (gfStep^[i] 1).toNat < 256 := by
  induction i with
  | zero => decide
  | succ i ih =>
    rw [Function.iterate_succ_apply']
    have hspec := (gfStep_spec _ ih).1
    rwa [UInt16.ofNat_toNat] at hspec

theorem iterate_ne_zero (i : ℕ) : gfStep^[i] 1 ≠ 0 := by
  induction i with
  | zero => decide
  | succ i ih =>
    rw [Function.iterate_succ_apply']
    have hne : (gfStep^[i] 1).toNat ≠ 0 := fun h => ih (UInt16.toNat_inj.mp h)
    have hspec := (gfStep_spec _ (toNat_iterate_lt i)).2 hne
    rwa [UInt16.ofNat_toNat] at hspec

theorem toUInt16_iterate (i : ℕ) : (gfStep^[i] 1).toUInt8.toUInt16 = gfStep^[i] 1 := by
  apply UInt16.toNat_inj.mp
  rw [UInt8.toNat_toUInt16, UInt16.toNat_toUInt8]
  exact Nat.mod_eq_of_lt (toNat_iterate_lt i)

/-- **The generator has order 255.** -/
theorem minimalPeriod_gfStep : Function.minimalPeriod gfStep 1 = 255 := by
  have hperiodic : Function.IsPeriodicPt gfStep 255 1 := by decide +kernel
  have hdvd := hperiodic.minimalPeriod_dvd
  have hmem : Function.minimalPeriod gfStep 1 ∈ Nat.divisors 255 :=
    Nat.mem_divisors.mpr ⟨hdvd, by decide⟩
  have hdivisors : Nat.divisors 255 = {1, 3, 5, 15, 17, 51, 85, 255} := by decide +kernel
  have hno : ∀ d ∈ ({1, 3, 5, 15, 17, 51, 85} : Finset ℕ), gfStep^[d] 1 ≠ 1 := by decide +kernel
  rw [hdivisors] at hmem
  by_contra hne
  refine hno _ ?_ (Function.isPeriodicPt_minimalPeriod gfStep 1)
  simp only [Finset.mem_insert, Finset.mem_singleton] at hmem ⊢
  omega

theorem iterate_mod (i : ℕ) : gfStep^[i % 255] 1 = gfStep^[i] 1 := by
  rw [← minimalPeriod_gfStep, Function.iterate_mod_minimalPeriod_eq]

theorem iterate_inj {i j : ℕ} (hi : i < 255) (hj : j < 255) (h : gfStep^[i] 1 = gfStep^[j] 1) :
    i = j := by
  refine Function.iterate_injOn_Iio_minimalPeriod ?_ ?_ h
  · rw [minimalPeriod_gfStep]
    exact hi
  · rw [minimalPeriod_gfStep]
    exact hj

/-! ## Powers and logarithms -/

/-- A power of the generator. -/
def power (i : ℕ) : Byte := (gfStep^[i] 1).toUInt8

theorem power_ne_zero (i : ℕ) : power i ≠ 0 := by
  intro h
  refine iterate_ne_zero i ?_
  rw [← toUInt16_iterate, show (gfStep^[i] 1).toUInt8 = 0 from h]
  rfl

theorem power_mod (i : ℕ) : power (i % 255) = power i := by
  rw [power, iterate_mod, power]

theorem power_inj {i j : ℕ} (hi : i < 255) (hj : j < 255) (h : power i = power j) : i = j := by
  refine iterate_inj hi hj ?_
  rw [← toUInt16_iterate i, ← toUInt16_iterate j]
  exact congrArg UInt8.toUInt16 h

theorem gfPowers_eq (n : ℕ) (x : UInt16) :
    gfPowers n x = (List.range n).map fun i => (gfStep^[i] x).toUInt8 := by
  induction n generalizing x with
  | zero => rfl
  | succ n ih =>
    rw [gfPowers, ih, List.range_succ_eq_map, List.map_cons, List.map_map]
    rfl

theorem expTable_eq : expTable = (List.range 512).map power := by
  have hpowers : gfPowers 255 1 = (List.range 255).map power := gfPowers_eq 255 1
  have hshift : ∀ n, ((List.range n).map (· + 255)).map power = (List.range n).map power := by
    intro n
    rw [List.map_map]
    refine List.map_congr_left fun i _ => ?_
    rw [Function.comp_apply, ← power_mod, Nat.add_mod_right, power_mod]
  have hshift' : ∀ n, ((List.range n).map (· + 510)).map power = (List.range n).map power := by
    intro n
    rw [List.map_map]
    refine List.map_congr_left fun i _ => ?_
    rw [Function.comp_apply, ← power_mod, show (i + 510) % 255 = i % 255 by omega, power_mod]
  have hrange : List.range 512
      = List.range 255 ++ (List.range 255).map (· + 255) ++ (List.range 2).map (· + 510) := by
    decide +kernel
  rw [expTable, hpowers, hrange, List.map_append, List.map_append, hshift, hshift', ← List.map_take]
  rfl

theorem expTable_getD {i : ℕ} (h : i < 512) : expTable.getD i 0 = power i := by
  rw [expTable_eq, List.getD_eq_getElem?_getD, List.getElem?_map, List.getElem?_range h]
  rfl

theorem gexp_eq (i : ℕ) : gexp i = power i := by
  rw [gexp, expTable_getD (by omega), power_mod]

theorem glog_eq (x : Byte) :
    glog x = if (gfPowers 255 1).idxOf x < 255 then (gfPowers 255 1).idxOf x else 0 := by
  rw [glog, logTable, List.getD_eq_getElem?_getD, List.getElem?_map, List.getElem?_range x.toNat_lt]
  dsimp only [Option.map_some, Option.getD_some]
  rw [UInt8.ofNat_toNat]

theorem glog_lt (x : Byte) : glog x < 255 := by
  rw [glog_eq]
  split_ifs with h
  · exact h
  · decide

theorem glog_power {i : ℕ} (h : i < 255) : glog (power i) = i := by
  have hpowers : gfPowers 255 1 = (List.range 255).map power := gfPowers_eq 255 1
  have hnodup : ((List.range 255).map power).Nodup :=
    List.nodup_range.map_on fun i hi j hj hij =>
      power_inj (List.mem_range.mp hi) (List.mem_range.mp hj) hij
  have hidx : ((List.range 255).map power).idxOf (power i) = i := by
    have hlen : i < ((List.range 255).map power).length := by
      rw [List.length_map, List.length_range]
      exact h
    have hget : ((List.range 255).map power)[i] = power i := by
      rw [List.getElem_map, List.getElem_range]
    rw [← hget]
    exact hnodup.idxOf_getElem i hlen
  rw [glog_eq, hpowers, hidx, if_pos h]

/-- Every byte but zero is a power. -/
theorem exists_power {x : Byte} (hx : x ≠ 0) : ∃ i < 255, power i = x := by
  by_contra hno
  have hinj : Set.InjOn (fun i : ℕ => (power i).toNat) (Finset.range 255) := by
    intro i hi j hj hij
    exact power_inj (Finset.mem_range.mp hi) (Finset.mem_range.mp hj) (UInt8.toNat_inj.mp hij)
  have hsub : (Finset.range 255).image (fun i => (power i).toNat)
      ⊆ ((Finset.range 256).erase 0).erase x.toNat := by
    intro n hn
    obtain ⟨i, hi, rfl⟩ := Finset.mem_image.mp hn
    refine Finset.mem_erase.mpr ⟨fun h => hno ⟨i, Finset.mem_range.mp hi, UInt8.toNat_inj.mp h⟩,
      Finset.mem_erase.mpr ⟨fun h => power_ne_zero i (UInt8.toNat_inj.mp h), ?_⟩⟩
    exact Finset.mem_range.mpr (power i).toNat_lt
  have hcard := Finset.card_le_card hsub
  have hmem : x.toNat ∈ (Finset.range 256).erase 0 :=
    Finset.mem_erase.mpr ⟨fun h => hx (UInt8.toNat_inj.mp h), Finset.mem_range.mpr x.toNat_lt⟩
  rw [Finset.card_image_of_injOn hinj, Finset.card_erase_of_mem hmem,
    Finset.card_erase_of_mem (by decide), Finset.card_range, Finset.card_range] at hcard
  omega

theorem power_glog {x : Byte} (hx : x ≠ 0) : power (glog x) = x := by
  obtain ⟨i, hi, rfl⟩ := exists_power hx
  rw [glog_power hi]

theorem glog_power_mod (i : ℕ) : glog (power i) = i % 255 := by
  rw [← power_mod, glog_power (Nat.mod_lt _ (by decide))]

/-! ## The product -/

theorem gfMul_zero (a : Byte) : gfMul a 0 = 0 := if_pos (.inr rfl)

theorem zero_gfMul (a : Byte) : gfMul 0 a = 0 := if_pos (.inl rfl)

theorem gfMul_of_ne_zero {a b : Byte} (ha : a ≠ 0) (hb : b ≠ 0) :
    gfMul a b = power (glog a + glog b) := by
  have hla := glog_lt a
  have hlb := glog_lt b
  rw [gfMul, if_neg (not_or.mpr ⟨ha, hb⟩), expTable_getD (by omega)]

theorem gfMul_power (i j : ℕ) : gfMul (power i) (power j) = power (i + j) := by
  rw [gfMul_of_ne_zero (power_ne_zero i) (power_ne_zero j), glog_power_mod, glog_power_mod,
    ← power_mod, ← Nat.add_mod, power_mod]

theorem gfMul_comm (a b : Byte) : gfMul a b = gfMul b a := by
  unfold gfMul
  exact if_congr or_comm rfl (by rw [Nat.add_comm])

/-- A product is zero or a power. -/
theorem zero_or_power (a : Byte) : a = 0 ∨ ∃ i, a = power i := by
  by_cases ha : a = 0
  · exact .inl ha
  · exact .inr ⟨glog a, (power_glog ha).symm⟩

theorem gfMul_assoc (a b c : Byte) : gfMul (gfMul a b) c = gfMul a (gfMul b c) := by
  rcases zero_or_power a with rfl | ⟨i, rfl⟩
  · rw [zero_gfMul, zero_gfMul, zero_gfMul]
  rcases zero_or_power b with rfl | ⟨j, rfl⟩
  · rw [gfMul_zero, zero_gfMul, gfMul_zero]
  rcases zero_or_power c with rfl | ⟨k, rfl⟩
  · rw [gfMul_zero, gfMul_zero, gfMul_zero]
  rw [gfMul_power, gfMul_power, gfMul_power, gfMul_power, Nat.add_assoc]

theorem one_gfMul (a : Byte) : gfMul 1 a = a := by
  rcases zero_or_power a with rfl | ⟨i, rfl⟩
  · exact gfMul_zero 1
  · have hone : (1 : Byte) = power 0 := rfl
    rw [hone, gfMul_power, Nat.zero_add]

theorem gfInv_power (i : ℕ) : gfMul (power i) (gfInv (power i)) = 1 := by
  have hone : (1 : Byte) = power 0 := rfl
  have hlog : glog (1 : Byte) = 0 := by
    rw [hone, glog_power (by decide)]
  have hlt := glog_lt (power i)
  rw [gfInv, gfDiv, if_neg (by decide), hlog, expTable_getD (by omega), gfMul_power,
    ← power_mod, glog_power_mod, show (i + (0 + 255 - i % 255)) % 255 = 0 by omega]
  exact hone.symm

theorem gfDiv_eq (a b : Byte) : gfDiv a b = gfMul a (gfInv b) := by
  have hla := glog_lt a
  have hlb := glog_lt b
  have hlog : glog (1 : Byte) = 0 := by
    rw [show (1 : Byte) = power 0 from rfl, glog_power (by decide)]
  by_cases ha : a = 0
  · rw [ha, zero_gfMul, gfDiv, if_pos rfl]
  · rw [gfInv, gfDiv, gfDiv, if_neg ha, if_neg (by decide), hlog, expTable_getD (by omega),
      expTable_getD (by omega)]
    conv_rhs => rw [← power_glog ha]
    rw [gfMul_power, ← power_mod, show (glog a + 255 - glog b) % 255
      = (glog a + (0 + 255 - glog b)) % 255 by congr 1; omega, power_mod]

/-! ## Distributivity -/

/-- Multiplication by the generator. -/
def double (x : Byte) : Byte := (gfStep x.toUInt16).toUInt8

theorem double_power (i : ℕ) : double (power i) = power (i + 1) := by
  rw [double, power, toUInt16_iterate, power, Function.iterate_succ_apply']

theorem gfMul_power_eq_iterate (i : ℕ) (b : Byte) : gfMul (power i) b = double^[i] b := by
  rcases zero_or_power b with rfl | ⟨j, rfl⟩
  · rw [gfMul_zero, Function.iterate_fixed (show double 0 = 0 from rfl)]
  · rw [gfMul_power]
    induction i with
    | zero => rw [Nat.zero_add, Function.iterate_zero_apply]
    | succ i ih =>
      rw [Function.iterate_succ_apply', ← ih, double_power, Nat.add_right_comm]

theorem double_eq : ∀ n < 256, double (UInt8.ofNat n)
    = UInt8.ofNat n <<< 1 ^^^ if n.testBit 7 then 0x1D else 0 := by
  decide +kernel

/-- A shift respects exclusive or. -/
theorem double_xor (a b : Byte) : double (a ^^^ b) = double a ^^^ double b := by
  have hdouble : ∀ x : Byte, double x = x <<< 1 ^^^ if x.toNat.testBit 7 then 0x1D else 0 := by
    intro x
    have hx := double_eq x.toNat x.toNat_lt
    rwa [UInt8.ofNat_toNat] at hx
  rw [hdouble, hdouble, hdouble, UInt8.shiftLeft_xor, UInt8.toNat_xor, Nat.testBit_xor]
  generalize a <<< 1 = x
  generalize b <<< 1 = y
  cases a.toNat.testBit 7 <;> cases b.toNat.testBit 7
  · simp
  · simp [UInt8.xor_assoc]
  · simp only [Bool.true_xor, Bool.not_false, if_true, Bool.false_eq_true, if_false, UInt8.xor_zero]
    rw [UInt8.xor_assoc, UInt8.xor_comm y, ← UInt8.xor_assoc]
  · simp only [Bool.true_xor, Bool.not_true, Bool.false_eq_true, if_false, if_true, UInt8.xor_zero]
    rw [UInt8.xor_assoc x, ← UInt8.xor_assoc 0x1D, UInt8.xor_comm 0x1D y, UInt8.xor_assoc y,
      UInt8.xor_self, UInt8.xor_zero]

theorem gfMul_xor (a b c : Byte) : gfMul a (b ^^^ c) = gfMul a b ^^^ gfMul a c := by
  rcases zero_or_power a with rfl | ⟨i, rfl⟩
  · rw [zero_gfMul, zero_gfMul, zero_gfMul, UInt8.xor_self]
  · rw [gfMul_power_eq_iterate, gfMul_power_eq_iterate, gfMul_power_eq_iterate]
    induction i with
    | zero => rfl
    | succ i ih =>
      rw [Function.iterate_succ_apply', Function.iterate_succ_apply',
        Function.iterate_succ_apply', ih, double_xor]

/-! ## The field -/

/-- The bytes as a field. -/
def GF256 : Type := Byte

namespace GF256

instance : DecidableEq GF256 := inferInstanceAs (DecidableEq Byte)

/-- A byte as an element of the field. -/
def of (b : Byte) : GF256 := b

instance : Zero GF256 := ⟨of 0⟩
instance : One GF256 := ⟨of 1⟩
instance : Add GF256 := ⟨fun a b => of (UInt8.xor a b)⟩
instance : Mul GF256 := ⟨fun a b => of (gfMul a b)⟩
instance : Neg GF256 := ⟨id⟩
instance : Inv GF256 := ⟨fun a => if a = of 0 then of 0 else of (gfInv a)⟩

@[simp] theorem of_zero : of 0 = 0 := rfl

@[simp] theorem of_one : of 1 = 1 := rfl

@[simp] theorem of_xor (a b : Byte) : of (a ^^^ b) = of a + of b := rfl

@[simp] theorem of_gfMul (a b : Byte) : of (gfMul a b) = of a * of b := rfl

theorem of_inj {a b : Byte} : of a = of b ↔ a = b := Iff.rfl

theorem of_eq_zero {a : Byte} : of a = 0 ↔ a = 0 := Iff.rfl

theorem of_mul_inv {b : Byte} (hb : b ≠ 0) : of b * (of b)⁻¹ = 1 := by
  have hinv : (of b)⁻¹ = of (gfInv b) := if_neg hb
  obtain ⟨i, -, rfl⟩ := exists_power hb
  rw [hinv, ← of_gfMul, gfInv_power, of_one]

instance : CommRing GF256 where
  add_assoc a b c := UInt8.xor_assoc a b c
  zero_add a := UInt8.zero_xor
  add_zero a := UInt8.xor_zero
  add_comm a b := UInt8.xor_comm a b
  neg_add_cancel a := UInt8.xor_self
  mul_assoc a b c := gfMul_assoc a b c
  one_mul a := one_gfMul a
  mul_one a := (gfMul_comm a 1).trans (one_gfMul a)
  zero_mul a := zero_gfMul a
  mul_zero a := gfMul_zero a
  mul_comm a b := gfMul_comm a b
  left_distrib a b c := gfMul_xor a b c
  right_distrib a b c := (gfMul_comm _ c).trans
    ((gfMul_xor c a b).trans (congrArg₂ UInt8.xor (gfMul_comm c a) (gfMul_comm c b)))
  nsmul := nsmulRec
  zsmul := zsmulRec

instance : Field GF256 where
  inv := Inv.inv
  exists_pair_ne := ⟨0, 1, by decide⟩
  mul_inv_cancel a ha := of_mul_inv (b := a) ha
  inv_zero := rfl
  nnqsmul := _
  qsmul := _

@[simp] theorem add_self (a : GF256) : a + a = 0 := UInt8.xor_self

theorem neg_eq (a : GF256) : -a = a := rfl

/-- Division in the code is division in the field. -/
theorem of_gfDiv (a : Byte) {b : Byte} (hb : b ≠ 0) : of (gfDiv a b) = of a / of b := by
  have hinv : (of b)⁻¹ = of (gfInv b) := if_neg hb
  rw [gfDiv_eq, div_eq_mul_inv, hinv, of_gfMul]

theorem of_gfInv {b : Byte} (hb : b ≠ 0) : of (gfInv b) = (of b)⁻¹ := (if_neg hb).symm

theorem of_gexp (i : ℕ) : of (gexp i) = of 2 ^ i := by
  rw [gexp_eq]
  induction i with
  | zero => rfl
  | succ i ih =>
    rw [pow_succ, ← ih, ← gfMul_power i 1, of_gfMul]
    exact congrArg (of (power i) * ·) (congrArg of (show power 1 = 2 from rfl))

theorem gexp_ne_zero (i : ℕ) : of (gexp i) ≠ 0 := by
  rw [gexp_eq]
  exact power_ne_zero i

/-- Powers below the order of the generator are distinct. -/
theorem gexp_inj {i j : ℕ} (hi : i < 255) (hj : j < 255) (h : gexp i = gexp j) : i = j := by
  rw [gexp_eq, gexp_eq] at h
  exact power_inj hi hj h

/-- The inverse of a power, as the search for errors computes it. -/
theorem of_gexp_inv (p : ℕ) : of (gexp (255 - p % 255)) = (of (gexp p))⁻¹ := by
  refine eq_inv_of_mul_eq_one_left ?_
  rw [← of_gfMul, gexp_eq, gexp_eq, gfMul_power, ← power_mod,
    show (255 - p % 255 + p) % 255 = 0 by omega]
  rfl

end GF256

/-- **The tables make a field of the bytes**: its sum is the exclusive or, and times two is a step
of the register. -/
theorem gf_field : (∀ a b c, gfMul (gfMul a b) c = gfMul a (gfMul b c)) ∧
    (∀ a b, gfMul a b = gfMul b a) ∧ (∀ a, gfMul 1 a = a) ∧
    (∀ a b c, gfMul a (b ^^^ c) = gfMul a b ^^^ gfMul a c) ∧
    (∀ i b, gfMul (gexp i) b = double^[i] b) ∧ ∀ a b,
    gfMul (gfDiv a b) b = if b = 0 then 0 else a := by
  refine ⟨gfMul_assoc, gfMul_comm, one_gfMul, gfMul_xor,
    fun i b => gexp_eq i ▸ gfMul_power_eq_iterate i b, fun a b => ?_⟩
  split_ifs with h
  · rw [h, gfMul_zero]
  · obtain ⟨i, rfl⟩ := (zero_or_power b).resolve_left h
    rw [gfDiv_eq, gfMul_assoc, gfMul_comm _ (power i), gfInv_power, gfMul_comm, one_gfMul]

end EvansComputer.Dsp
