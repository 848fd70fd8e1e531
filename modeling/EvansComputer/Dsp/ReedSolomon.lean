import EvansComputer.Dsp.GaloisField

/-!
# The Reed–Solomon codec

Encoding by division with feedback, decoding by Berlekamp and Massey, a search for the
roots over the positions of the block, and Forney's formula.

Polynomials are lists of bytes.  Every inner loop of the source that adds a multiple of
one polynomial to another at an offset is `xorInto`; what would fall beyond the end of
the destination is guarded away there and is dropped here.
-/

namespace EvansComputer.Dsp

/-- Why a block could not be decoded. -/
inductive RsError where
  /-- More errors than the code can correct (detected). -/
  | tooManyErrors
  /-- Block longer than 255 or shorter than the parity. -/
  | badLength
  deriving DecidableEq

/-- Add a list into another from an index on. -/
def xorInto : List Byte → ℕ → List Byte → List Byte
  | [], _, _ => []
  | d :: ds, 0, [] => d :: ds
  | d :: ds, 0, s :: ss => (d ^^^ s) :: xorInto ds 0 ss
  | d :: ds, n + 1, ss => d :: xorInto ds n ss

/-- A codec with `nroots` parity bytes. -/
structure ReedSolomon where
  nroots : ℕ
  /-- Monic, highest degree first. -/
  gen : List Byte

namespace ReedSolomon

/-- The source refuses `nroots` outside `1..=254`. -/
def new (nroots : ℕ) : ReedSolomon where
  nroots := nroots
  gen := (List.range nroots).foldl
    (fun gen i => xorInto (gen ++ [0]) 1 (gen.map (gfMul · (gexp i)))) [1]

/-- One byte of data through the feedback register. -/
def parityStep (rs : ReedSolomon) (par : List Byte) (d : Byte) : List Byte :=
  let fb := d ^^^ par.headD 0
  let rotated := par.tail ++ [0]
  if fb ≠ 0 then xorInto rotated 0 (rs.gen.tail.map (gfMul fb)) else rotated

/-- The parity bytes of `data`. -/
def parity (rs : ReedSolomon) (data : List Byte) : List Byte :=
  data.foldl rs.parityStep (List.replicate rs.nroots 0)

/-- `data || parity` -/
def encode (rs : ReedSolomon) (data : List Byte) : List Byte := data ++ rs.parity data

/-- The value of a block at `r`, its first byte being the highest coefficient. -/
def horner (r : Byte) (block : List Byte) : Byte :=
  block.foldl (fun acc c => gfMul acc r ^^^ c) 0

def syndromes (rs : ReedSolomon) (block : List Byte) : List Byte :=
  (List.range rs.nroots).map fun j => horner (gexp j) block

/-! ## Decoding -/

/-- The state of the search for the error locator: two polynomials, lowest degree
first. -/
structure Bm where
  c : List Byte
  b : List Byte
  l : ℕ
  m : ℕ
  bb : Byte

/-- What the recurrence so far misses the `i`-th syndrome by. -/
def discrepancy (s c : List Byte) (l i : ℕ) : Byte :=
  (List.range l).foldl (fun d k => d ^^^ gfMul (c.getD (k + 1) 0) (s.getD (i - (k + 1)) 0))
    (s.getD i 0)

def bmStep (s : List Byte) (st : Bm) (i : ℕ) : Bm :=
  let d := discrepancy s st.c st.l i
  if d = 0 then { st with m := st.m + 1 }
  else
    let coef := gfDiv d st.bb
    let c := xorInto st.c st.m (st.b.map (gfMul coef))
    if 2 * st.l ≤ i then { c := c, b := st.c, l := i + 1 - st.l, m := 1, bb := d }
    else { st with c := c, m := st.m + 1 }

/-- Berlekamp–Massey: lambda lowest degree first. -/
def berlekampMassey (nroots : ℕ) (s : List Byte) : Bm :=
  (List.range nroots).foldl (bmStep s)
    { c := 1 :: List.replicate nroots 0
      b := 1 :: List.replicate nroots 0
      l := 0
      m := 1
      bb := 1 }

/-- The value at `x` of a polynomial, lowest degree first. -/
def evalAt (poly : List Byte) (x : Byte) : Byte :=
  (poly.foldl (fun p coef => (p.1 ^^^ gfMul coef p.2, gfMul p.2 x)) ((0 : Byte), (1 : Byte))).1

/-- Chien search over actual positions.  Position `i` has power `n - 1 - i`. -/
def chien (lambda : List Byte) (n : ℕ) : List ℕ :=
  (List.range n).filter fun i => evalAt lambda (gexp (255 - (n - 1 - i) % 255)) = 0

/-- `S(x) * Lambda(x) mod x^nroots` -/
def omega (nroots : ℕ) (s lambda : List Byte) : List Byte :=
  (List.range s.length).foldl
    (fun om i => xorInto om i (lambda.map (gfMul (s.getD i 0)))) (List.replicate nroots 0)

/-- The formal derivative: odd-power terms only. -/
def deriv (lambda : List Byte) : List Byte :=
  (List.range (lambda.length - 1)).map fun k =>
    if (k + 1) % 2 = 1 then lambda.getD (k + 1) 0 else 0

/-- Forney's correction at each position. -/
def correct (n : ℕ) (om dl : List Byte) : List ℕ → List Byte → Except RsError Unit × List Byte
  | [], block => (.ok (), block)
  | i :: rest, block =>
    let x := gexp (n - 1 - i)
    let xinv := gfInv x
    let o := evalAt om xinv
    let d := evalAt dl xinv
    if d = 0 then (.error .tooManyErrors, block)
    else correct n om dl rest (xorInto block i [gfMul x (gfDiv o d)])

/-- Correct `block` (data followed by parity); the number of corrected bytes, and the
block. -/
def decode (rs : ReedSolomon) (block : List Byte) : Except RsError ℕ × List Byte :=
  let n := block.length
  if n > 255 ∨ n ≤ rs.nroots then (.error .badLength, block)
  else
    let s := rs.syndromes block
    if s.all (· = 0) then (.ok 0, block)
    else
      let bm := berlekampMassey rs.nroots s
      if bm.l = 0 ∨ bm.l > rs.nroots / 2 then (.error .tooManyErrors, block)
      else
        let lambda := bm.c.take (bm.l + 1)
        let positions := chien lambda n
        if positions.length ≠ bm.l then (.error .tooManyErrors, block)
        else
          match correct n (omega rs.nroots s lambda) (deriv lambda) positions block with
          | (.error e, block) => (.error e, block)
          | (.ok (), block) =>
            if (rs.syndromes block).any (· ≠ 0) then (.error .tooManyErrors, block)
            else (.ok positions.length, block)

end EvansComputer.Dsp.ReedSolomon
