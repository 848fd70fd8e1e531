import Mathlib.Data.List.Basic
import Mathlib.Tactic.SplitIfs

/-!
# Packet radio: KISS and AX.25

KISS puts frames into a stream of bytes.  A frame stands between two delimiters and has none
inside, as bytes that would be taken for one are escaped; so a delimiter brings a decoder
to the beginning of a frame, from whatever state it is in.

An AX.25 frame begins with addresses, in bytes that are shifted by one; the bit that is left
over says which of them is the last.
-/

namespace EvansComputer.Dsp

/-! ## KISS -/

namespace Kiss

def fend : UInt8 := 0xC0

def fesc : UInt8 := 0xDB

def tfend : UInt8 := 0xDC

def tfesc : UInt8 := 0xDD

end Kiss

open Kiss

/-- One KISS frame. -/
structure KissFrame where
  port : UInt8
  command : UInt8
  data : List UInt8
  deriving DecidableEq

/-- What `push_escaped` pushes. -/
def escaped (b : UInt8) : List UInt8 :=
  if b = fend then [fesc, tfend]
  else if b = fesc then [fesc, tfesc]
  else [b]

namespace KissFrame

/-- The byte of the port and the command. -/
def type (f : KissFrame) : UInt8 := ((f.port &&& 0x0F) <<< 4) ||| (f.command &&& 0x0F)

/-- Serialise as `FEND type escaped-data FEND`. -/
def encode (f : KissFrame) : List UInt8 :=
  fend :: (escaped f.type ++ f.data.flatMap escaped ++ [fend])

end KissFrame

/-- Streaming KISS decoder. -/
structure KissDecoder where
  buf : List UInt8 := []
  esc : Bool := false
  inFrame : Bool := false
  deriving DecidableEq

namespace KissDecoder

/-- The frame that is in a buffer. -/
def frame : List UInt8 → Option KissFrame
  | [] => none
  | t :: data => some { port := t >>> 4, command := t &&& 0x0F, data }

def push (d : KissDecoder) (b : UInt8) : KissDecoder × Option KissFrame :=
  if b = fend then
    ({ buf := [], esc := false, inFrame := true }, if d.inFrame then frame d.buf else none)
  else if !d.inFrame then (d, none)
  else if d.esc then
    if b = tfend then ({ d with esc := false, buf := d.buf ++ [fend] }, none)
    else if b = tfesc then ({ d with esc := false, buf := d.buf ++ [fesc] }, none)
    -- protocol violation: pass through
    else ({ d with esc := false, buf := d.buf ++ [b] }, none)
  else if b = fesc then ({ d with esc := true }, none)
  else ({ d with buf := d.buf ++ [b] }, none)

def pushBytes (d : KissDecoder) : List UInt8 → KissDecoder × List KissFrame
  | [] => (d, [])
  | b :: data =>
    let (d, f) := d.push b
    let (d, frames) := d.pushBytes data
    (d, f.toList ++ frames)

/-- The bytes come in any number of calls. -/
def calls (d : KissDecoder) : List (List UInt8) → KissDecoder × List KissFrame
  | [] => (d, [])
  | data :: rest =>
    let (d, frames) := d.pushBytes data
    let (d, frames') := d.calls rest
    (d, frames ++ frames')

variable {d : KissDecoder}

theorem pushBytes_append (d : KissDecoder) (data data' : List UInt8) :
    d.pushBytes (data ++ data') = (((d.pushBytes data).1.pushBytes data').1,
      (d.pushBytes data).2 ++ ((d.pushBytes data).1.pushBytes data').2) := by
  induction data generalizing d with
  | nil => rfl
  | cons b data ih =>
    rw [List.cons_append, pushBytes, pushBytes]
    dsimp only
    rw [ih, List.append_assoc]

/-- **How the bytes are split between calls makes no difference.** -/
theorem calls_eq (d : KissDecoder) (pieces : List (List UInt8)) :
    d.calls pieces = d.pushBytes pieces.flatten := by
  induction pieces generalizing d with
  | nil => rfl
  | cons data pieces ih =>
    rw [List.flatten_cons, pushBytes_append, calls]
    dsimp only
    rw [ih]

/-- An escaped byte goes into the buffer. -/
theorem pushBytes_escaped (buf : List UInt8) (b : UInt8) :
    pushBytes { buf, esc := false, inFrame := true } (escaped b) =
      ({ buf := buf ++ [b], esc := false, inFrame := true }, []) := by
  unfold escaped
  split_ifs with hend hesc
  · rw [hend]
    rfl
  · rw [hesc]
    rfl
  · rw [pushBytes, push, if_neg hend]
    have hdata :
      (if (!true) = true then (({ buf, esc := false, inFrame := true } : KissDecoder),
      (none : Option KissFrame))
        else if b = fesc then ({ buf, esc := true, inFrame := true }, none)
        else ({ buf := buf ++ [b], esc := false, inFrame := true }, none)) =
          ({ buf := buf ++ [b], esc := false, inFrame := true }, none) := if_neg hesc
    exact congrArg (fun x : KissDecoder × Option KissFrame =>
      ((x.1.pushBytes []).1, x.2.toList ++ (x.1.pushBytes []).2))
      hdata

theorem pushBytes_data (buf data : List UInt8) :
    pushBytes { buf, esc := false, inFrame := true } (data.flatMap escaped) =
      ({ buf := buf ++ data, esc := false, inFrame := true }, []) := by
  induction data generalizing buf with
  | nil => rw [List.append_nil]; rfl
  | cons b data ih =>
    rw [List.flatMap_cons, pushBytes_append, pushBytes_escaped]
    dsimp only
    rw [ih, List.append_assoc]
    rfl

/-- A delimiter brings a decoder to the beginning of a frame. -/
theorem push_fend (d : KissDecoder) : d.push fend = ({ buf := [], esc := false, inFrame := true },
    if d.inFrame then frame d.buf else none) := if_pos rfl

/-- The port and the command are what is in the byte of them. -/
theorem frame_type {f : KissFrame} (hport : f.port ≤ 15) (hcommand : f.command ≤ 15) :
    frame (f.type :: f.data) = some f := by
  have hall : ∀ p c : Fin 16, let t := ((UInt8.ofFin (p.castLE (by decide)) &&& 0x0F) <<< 4) |||
      (UInt8.ofFin (c.castLE (by decide)) &&& 0x0F)
      t >>> 4 = UInt8.ofFin (p.castLE (by decide)) ∧
        t &&& 0x0F = UInt8.ofFin (c.castLE (by decide)) := by
    decide
  have hp : f.port.toNat < 16 := Nat.lt_succ_of_le (UInt8.le_iff_toNat_le.mp hport)
  have hc : f.command.toNat < 16 := Nat.lt_succ_of_le (UInt8.le_iff_toNat_le.mp hcommand)
  obtain ⟨hshift, hmask⟩ := hall ⟨f.port.toNat, hp⟩ ⟨f.command.toNat, hc⟩
  exact congrArg some (by
    obtain ⟨port, command, data⟩ := f
    exact KissFrame.mk.injEq .. |>.mpr ⟨hshift, hmask, rfl⟩)

/-- **A frame comes out as it was encoded**, behind what the delimiter in front of it ends. -/
theorem pushBytes_encode (d : KissDecoder) {f : KissFrame} (hport : f.port ≤ 15)
    (hcommand : f.command ≤ 15) :
    d.pushBytes f.encode = ({ buf := [], esc := false, inFrame := true },
      (if d.inFrame then frame d.buf else none).toList ++ [f]) := by
  rw [KissFrame.encode, pushBytes, push_fend]
  dsimp only
  rw [pushBytes_append, pushBytes_append, pushBytes_escaped]
  dsimp only
  rw [pushBytes_data]
  dsimp only [List.nil_append, List.append_nil]
  rw [pushBytes, push_fend, if_pos rfl, List.singleton_append, frame_type hport hcommand]
  rfl

theorem pushBytes_encodes {frames : List KissFrame}
    (h : ∀ f ∈ frames, f.port ≤ 15 ∧ f.command ≤ 15) :
    pushBytes { buf := [], esc := false, inFrame := true } (frames.flatMap KissFrame.encode) =
      ({ buf := [], esc := false, inFrame := true }, frames) := by
  induction frames with
  | nil => rfl
  | cons f frames ih =>
    obtain ⟨hport, hcommand⟩ := h f List.mem_cons_self
    rw [List.flatMap_cons, pushBytes_append, pushBytes_encode _ hport hcommand]
    dsimp only
    rw [ih fun f' hf' => h f' (List.mem_cons_of_mem _ hf')]
    rfl

end KissDecoder

/-- **KISS framing is lossless.**  Whatever a decoder has been given before, and however the
bytes are split, the encodings of some frames yield these frames in order, after one more at
most; and none from the start, or just behind a delimiter. -/
theorem kiss_lossless (d : KissDecoder) {frames : List KissFrame} {pieces : List (List UInt8)}
    (hframes : ∀ f ∈ frames, f.port ≤ 15 ∧ f.command ≤ 15)
    (hpieces : pieces.flatten = frames.flatMap KissFrame.encode) :
    ∃ extra : Option KissFrame, (d.calls pieces).2 = extra.toList ++ frames ∧
      ((d = {} ∨ ∃ d' : KissDecoder, d = (d'.push fend).1) → extra = none) := by
  rw [KissDecoder.calls_eq, hpieces]
  cases frames with
  | nil => exact ⟨none, rfl, fun _ => rfl⟩
  | cons f frames =>
    obtain ⟨hport, hcommand⟩ := hframes f List.mem_cons_self
    refine ⟨if d.inFrame then KissDecoder.frame d.buf else none, ?_, ?_⟩
    · rw [List.flatMap_cons, KissDecoder.pushBytes_append,
        KissDecoder.pushBytes_encode d hport hcommand]
      dsimp only
      rw [KissDecoder.pushBytes_encodes fun f' hf' => hframes f' (List.mem_cons_of_mem _ hf'),
        List.append_assoc]
      rfl
    · rintro (rfl | ⟨d', rfl⟩)
      · rfl
      · rw [KissDecoder.push_fend]
        rfl

/-- Two frames in three pieces, cut within an escape, behind the garbage of an unfinished frame. -/
theorem kiss_lossless_garbage :
    ∃ extra : Option KissFrame,
      ((KissDecoder.calls { buf := [0x33], esc := true, inFrame := true }
        [[0xC0, 0x30, 0xDB], [0xDC, 0x11, 0xC0, 0xC0], [0x01, 0x32, 0xC0]]).2 =
          extra.toList ++ [⟨3, 0, [0xC0, 0x11]⟩, ⟨0, 1, [0x32]⟩]) ∧
      ((({ buf := [0x33], esc := true, inFrame := true } : KissDecoder) = {} ∨
        ∃ d' : KissDecoder, ({ buf := [0x33], esc := true, inFrame := true } : KissDecoder) =
          (d'.push fend).1) →
          extra = none) :=
  kiss_lossless _ (by decide) (by decide)

/-! ## AX.25 -/

inductive Ax25Error where
  | badCallsign
  | tooShort
  | notUi
  | tooManyDigipeaters
  /-- An index is out of range: the program panics. -/
  | panic
  deriving DecidableEq

/-- A callsign, as the bytes of its text, and a number. -/
structure Address where
  call : List UInt8
  ssid : UInt8
  /-- The address has repeated the frame, or the bit of a command. -/
  flag : Bool
  deriving DecidableEq

/-- `is_ascii_alphanumeric` -/
def isAlnum (b : UInt8) : Bool :=
  (0x30 ≤ b && b ≤ 0x39) || (0x41 ≤ b && b ≤ 0x5A) || (0x61 ≤ b && b ≤ 0x7A)

/-- `&b[i..j]` -/
def slice (b : List UInt8) (i j : ℕ) : Except Ax25Error (List UInt8) :=
  if i ≤ j ∧ j ≤ b.length then .ok ((b.take j).drop i) else .error .panic

namespace Address

/-- The last byte of an address. -/
def tail (a : Address) (last : Bool) : UInt8 :=
  (0x60 : UInt8) ||| (a.ssid <<< (1 : UInt8)) ||| (if last then 1 else 0) |||
    (if a.flag then 0x80 else 0)

/-- Seven bytes, in which a callsign has to fit. -/
def encode (a : Address) (last : Bool) : Except Ax25Error (List UInt8) :=
  if 7 < a.call.length then .error .panic
  else .ok
    ((a.call.map (fun b : UInt8 => b <<< (1 : UInt8)) ++ List.replicate (7 - a.call.length)
    0x40).set 6 (a.tail last))

/-- The letters of a callsign, without the spaces that it is filled up with. -/
def decodeCall : List UInt8 → Except Ax25Error (List UInt8)
  | [] => .ok []
  | c :: l =>
    if c &&& (1 : UInt8) ≠ 0 then .error .badCallsign
    else (decodeCall l).map fun call => if c >>> (1 : UInt8) = 0x20 then call
      else c >>> (1 : UInt8) :: call

/-- An address, and whether it is the last. -/
def decode (b : List UInt8) : Except Ax25Error (Address × Bool) := do
  let bytes ← slice b 0 6
  let call ← decodeCall bytes
  if call = [] ∨ ¬ call.all isAlnum = true then .error .badCallsign
  else
    match (b)[6]? with
    | none => .error .panic
    | some t => .ok ({ call, ssid := (t >>> (1 : UInt8)) &&& 0x0F,
                       flag := decide (t &&& (0x80 : UInt8) ≠ 0) },
        decide (t &&& (1 : UInt8) ≠ 0))

/-- A callsign of one to six letters and digits, and a number up to 15. -/
structure Valid (a : Address) : Prop where
  nonempty : a.call ≠ []
  short : a.call.length ≤ 6
  alnum : ∀ b ∈ a.call, isAlnum b = true
  ssid : a.ssid ≤ 15

end Address

/-- An unnumbered-information frame. -/
structure UiFrame where
  dest : Address
  src : Address
  digis : List Address
  pid : UInt8
  info : List UInt8
  deriving DecidableEq

def controlUi : UInt8 := 0x03

namespace UiFrame

/-- The digipeaters, the last of them marked. -/
def encodeDigis : List Address → Except Ax25Error (List UInt8)
  | [] => .ok []
  | a :: digis => do
    let v ← a.encode digis.isEmpty
    return v ++ (← encodeDigis digis)

/-- Encode (without FCS).  The destination carries C=1, the source C=0 (command frame). -/
def encode (f : UiFrame) : Except Ax25Error (List UInt8) :=
  if 8 < f.digis.length then .error .tooManyDigipeaters
  else do
    let dest ← { f.dest with flag := true }.encode false
    let src ← { f.src with flag := false }.encode f.digis.isEmpty
    let digis ← encodeDigis f.digis
    return dest ++ src ++ digis ++ controlUi :: f.pid :: f.info

/-- The digipeaters from `pos` on, up to the last, and where they end.  There is room for
eight. -/
def parseDigis (b : List UInt8) : ℕ → ℕ → Bool → Except Ax25Error (List Address × ℕ)
  | _, pos, true => .ok ([], pos)
  | 0, _, false => .error .tooManyDigipeaters
  | room + 1, pos, false =>
    if b.length < pos + 7 + 2 then .error .tooShort
    else do
      let bytes ← slice b pos (pos + 7)
      let (a, last) ← Address.decode bytes
      let (digis, pos) ← parseDigis b room (pos + 7) last
      return (a :: digis, pos)

/-- What is behind the addresses. -/
def parseRest (b : List UInt8) (dest src : Address) (digis : List Address) (pos : ℕ) :
    Except Ax25Error UiFrame :=
  match (b)[pos]? with
  | none => .error .panic
  | some control =>
    if control &&& ~~~(0x10 : UInt8) ≠ controlUi then .error .notUi
    else
      match (b)[pos + 1]? with
      | none => .error .panic
      | some pid => (slice b (pos + 2) b.length).map fun info => { dest, src, digis, pid, info }

/-- Parse a frame body (FCS already removed). -/
def parse (b : List UInt8) : Except Ax25Error UiFrame :=
  if b.length < 16 then .error .tooShort
  else do
    let bytes ← slice b 0 7
    let (dest, last) ← Address.decode bytes
    if last then .error .badCallsign
    else do
      let bytes ← slice b 7 14
      let (src, last) ← Address.decode bytes
      let (digis, pos) ← parseDigis b 8 14 last
      if b.length < pos + 2 then .error .tooShort
      else parseRest b dest src digis pos

/-- What a frame has to be. -/
structure Valid (f : UiFrame) : Prop where
  dest : f.dest.Valid
  src : f.src.Valid
  digis : ∀ a ∈ f.digis, a.Valid
  few : f.digis.length ≤ 8

/-- A frame with the flags of a command. -/
def asCommand (f : UiFrame) : UiFrame :=
  { f with dest := { f.dest with flag := true }, src := { f.src with flag := false } }

end UiFrame

/-! ### What was encoded is parsed -/

theorem forall_byte {p : UInt8 → Prop} (h : ∀ i : Fin 256, p (UInt8.ofFin i)) (b : UInt8) :
    p b := h b.toFin

theorem slice_append {x y z : List UInt8} {i j : ℕ} (hi : i = x.length) (hj : j = i + y.length) :
    slice (x ++ (y ++ z)) i j = .ok y := by
  subst hi hj
  have hle : x.length ≤ x.length + y.length ∧ x.length + y.length ≤ (x ++ (y ++ z)).length := by
    simp only [List.length_append]
    omega
  rw [slice, if_pos hle, ← List.append_assoc, List.take_left' (List.length_append ..),
    List.drop_left]

namespace Address

variable {a : Address}

/-- A letter or a digit, shifted by one and back. -/
theorem shifted_of_alnum : ∀ b : UInt8, isAlnum b = true →
    (b <<< (1 : UInt8)) &&& 1 = 0 ∧ (b <<< (1 : UInt8)) >>> (1 : UInt8) = b ∧ b ≠ 0x20 :=
  forall_byte (by decide +kernel)

theorem decodeCall_pad (k : ℕ) : decodeCall (List.replicate k 0x40) = .ok [] := by
  induction k with
  | zero => rfl
  | succ k ih =>
    rw [List.replicate_succ, decodeCall, ih]
    rfl

/-- A callsign is read without the spaces behind it. -/
theorem decodeCall_encoded {call : List UInt8} (h : ∀ b ∈ call, isAlnum b = true) (k : ℕ) :
    decodeCall (call.map (fun b : UInt8 => b <<< (1 : UInt8)) ++ List.replicate k 0x40) =
      .ok call := by
  induction call with
  | nil => exact decodeCall_pad k
  | cons b call ih =>
    obtain ⟨hclear, hback, hspace⟩ := shifted_of_alnum b (h b List.mem_cons_self)
    rw [List.map_cons, List.cons_append, decodeCall, if_neg (not_not.mpr hclear), hback,
      ih fun b' hb' => h b' (List.mem_cons_of_mem _ hb')]
    exact congrArg Except.ok (if_neg hspace)

/-- What is in the last byte. -/
theorem tail_spec (h : a.ssid ≤ 15) (last : Bool) :
    (a.tail last >>> (1 : UInt8)) &&& 0x0F = a.ssid ∧ decide
    (a.tail last &&& (0x80 : UInt8) ≠ 0) = a.flag ∧
      decide (a.tail last &&& (1 : UInt8) ≠ 0) = last := by
  have hall : ∀ ssid : UInt8, ssid ≤ 15 → ∀ last flag : Bool, ∀ t : UInt8,
      t = (0x60 : UInt8) ||| (ssid <<< (1 : UInt8)) ||| (if last then 1 else 0) |||
        (if flag then 0x80 else 0) →
      (t >>> (1 : UInt8)) &&& 0x0F = ssid ∧ decide (t &&& (0x80 : UInt8) ≠ 0) = flag ∧
        decide (t &&& (1 : UInt8) ≠ 0) = last := by
    intro ssid hssid last flag t ht
    subst ht
    revert ssid
    refine forall_byte ?_
    revert last flag
    decide +kernel
  exact hall a.ssid h last a.flag _ rfl

/-- **An address is decoded as it was encoded.** -/
theorem decode_encode (h : a.Valid) (last : Bool) :
    ∃ v, a.encode last = .ok v ∧ v.length = 7 ∧ decode v = .ok (a, last) := by
  have hshort := h.short
  generalize hcall : a.call.map (fun b : UInt8 => b <<< (1 : UInt8)) ++
    List.replicate (6 - a.call.length) 0x40 = call
  have hlength : call.length = 6 := by
    rw [← hcall, List.length_append, List.length_map, List.length_replicate]
    omega
  have hencode : a.encode last = .ok (call ++ [a.tail last]) := by
    have hpad : List.replicate (7 - a.call.length) (0x40 : UInt8) =
        List.replicate (6 - a.call.length) 0x40 ++ [0x40] := by
      rw [← List.replicate_succ']
      congr 1
      omega
    rw [encode, if_neg (by omega), hpad, ← List.append_assoc, hcall,
      List.set_append_right _ _ (Nat.le_of_eq hlength), hlength]
    rfl
  have hslice : slice (call ++ [a.tail last]) 0 6 = .ok call :=
    slice_append (x := []) rfl (by rw [hlength])
  have hread : decodeCall call = .ok a.call := hcall ▸ decodeCall_encoded h.alnum _
  have hfine : ¬ (a.call = [] ∨ ¬ a.call.all isAlnum = true) := by
    rw [not_or, not_not]
    exact ⟨h.nonempty, List.all_eq_true.mpr h.alnum⟩
  have hlast : (call ++ [a.tail last])[6]? = some (a.tail last) := by
    rw [List.getElem?_append_right (Nat.le_of_eq hlength), hlength]
    rfl
  obtain ⟨hssid, hflag, hend⟩ := tail_spec h.ssid last
  refine ⟨_, hencode, by rw [List.length_append, hlength]; rfl, ?_⟩
  unfold decode
  rw [hslice]
  change (decodeCall call >>= _) = _
  rw [hread]
  change (if a.call = [] ∨ ¬ a.call.all isAlnum = true then _ else _) = _
  rw [if_neg hfine, hlast]
  dsimp only
  rw [hssid, hflag, hend]

theorem Valid.withFlag (h : a.Valid) (flag : Bool) : Valid { a with flag } :=
  ⟨h.nonempty, h.short, h.alnum, h.ssid⟩

end Address

namespace UiFrame

/-- **The digipeaters**, in front of two bytes at least. -/
theorem parseDigis_encodeDigis {digis : List Address} (h : ∀ a ∈ digis, a.Valid) {room : ℕ}
    (hroom : digis.length ≤ room) (x y : List UInt8) (hy : 2 ≤ y.length) :
    ∃ v, encodeDigis digis = .ok v ∧
      parseDigis (x ++ (v ++ y)) room x.length digis.isEmpty = .ok
        (digis, x.length + v.length) := by
  induction digis generalizing room x with
  | nil => exact ⟨[], rfl, by cases room <;> rfl⟩
  | cons a digis ih =>
    obtain ⟨room, rfl⟩ : ∃ k, room = k + 1 :=
      Nat.exists_eq_add_one_of_ne_zero (Nat.ne_of_gt (Nat.lt_of_lt_of_le
      (Nat.succ_pos _) hroom))
    obtain ⟨v, hencode, hlength, hdecode⟩ :=
      Address.decode_encode (h a List.mem_cons_self) digis.isEmpty
    obtain ⟨w, hencode', hparse⟩ := ih (fun a' ha' => h a' (List.mem_cons_of_mem _ ha'))
      (Nat.le_of_succ_le_succ hroom) (x ++ v)
    refine ⟨v ++ w, ?_, ?_⟩
    · rw [encodeDigis, hencode]
      change (encodeDigis digis >>= _) = _
      rw [hencode']
      rfl
    · rw [List.append_assoc v] at *
      have hslice : slice (x ++ (v ++ (w ++ y))) x.length (x.length + 7) = .ok v :=
        slice_append rfl (by rw [hlength])
      rw [List.append_assoc, List.length_append, hlength] at hparse
      rw [List.isEmpty_cons, parseDigis, if_neg, hslice]
      · change (Address.decode v >>= _) = _
        rw [hdecode]
        change (parseDigis (x ++ (v ++ (w ++ y))) room (x.length + 7) digis.isEmpty >>= _) = _
        rw [hparse, List.length_append, hlength, ← Nat.add_assoc]
        rfl
      · simp only [List.length_append]
        omega

/-- The control byte, the protocol and the information behind the addresses. -/
theorem parseRest_append (x : List UInt8) (dest src : Address) (digis : List Address) (pid : UInt8)
    (info : List UInt8) :
    parseRest (x ++ controlUi :: pid :: info) dest src digis x.length = .ok
      { dest, src, digis, pid, info } := by
  have hcontrol : (x ++ controlUi :: pid :: info)[x.length]? = some controlUi := by
    rw [List.getElem?_append_right (Nat.le_refl _), Nat.sub_self]
    rfl
  have hpid : (x ++ controlUi :: pid :: info)[x.length + 1]? = some pid := by
    rw [List.getElem?_append_right (Nat.le_add_right _ 1), Nat.add_sub_cancel_left]
    rfl
  have hinfo : slice (x ++ controlUi :: pid :: info) (x.length + 2)
    (x ++ controlUi :: pid :: info).length = .ok info := by
    have hsplit : x ++ controlUi :: pid :: info = (x ++ [controlUi, pid]) ++ (info ++ []) := by simp
    rw [hsplit]
    exact slice_append (by simp) (by simp; omega)
  unfold parseRest
  rw [hcontrol]
  dsimp only
  rw [if_neg (by decide), hpid]
  dsimp only
  rw [hinfo]
  rfl

/-- **A frame is parsed as it was encoded**, with the flags of a command. -/
theorem parse_encode {f : UiFrame} (h : f.Valid) :
    ∃ b, f.encode = .ok b ∧ parse b = .ok f.asCommand := by
  obtain ⟨dest, hdest, hdestLength, hdestDecode⟩ :=
    Address.decode_encode (h.dest.withFlag true) false
  obtain ⟨src, hsrc, hsrcLength, hsrcDecode⟩ :=
    Address.decode_encode (h.src.withFlag false) f.digis.isEmpty
  obtain ⟨digis, hdigis, hparse⟩ :=
    parseDigis_encodeDigis h.digis h.few (dest ++ src) (controlUi :: f.pid :: f.info)
    (by simp only [List.length_cons]; omega)
  refine ⟨dest ++ src ++ digis ++ controlUi :: f.pid :: f.info, ?_, ?_⟩
  · rw [encode, if_neg (Nat.not_lt.mpr h.few), hdest]
    change (Address.encode _ _ >>= _) = _
    rw [hsrc]
    change (encodeDigis f.digis >>= _) = _
    rw [hdigis]
    rfl
  · have hrest := parseRest_append (dest ++ src ++ digis) { f.dest with flag := true }
      { f.src with flag := false }
      f.digis f.pid f.info
    have hlength : (dest ++ src ++ digis).length = 14 + digis.length := by
      simp only [List.length_append]
      omega
    rw [hlength] at hrest
    rw [← List.append_assoc, List.length_append, hdestLength, hsrcLength] at hparse
    have hslice : slice (dest ++ src ++ digis ++ controlUi :: f.pid :: f.info) 0 7 = .ok dest := by
      rw [List.append_assoc, List.append_assoc]
      exact slice_append (x := []) rfl (by rw [hdestLength])
    have hslice' : slice (dest ++ src ++ digis ++ controlUi :: f.pid :: f.info) 7 14 = .ok src := by
      rw [List.append_assoc, List.append_assoc]
      exact slice_append hdestLength.symm (by rw [hsrcLength])
    have hlong : (dest ++ src ++ digis ++ controlUi :: f.pid :: f.info).length = 14 + digis.length +
      (f.info.length + 2) := by
      rw [List.length_append, hlength]
      rfl
    unfold parse
    rw [if_neg (by omega), hslice]
    change (Address.decode dest >>= _) = _
    rw [hdestDecode]
    change (slice _ 7 14 >>= _) = _
    rw [hslice']
    change (Address.decode src >>= _) = _
    rw [hsrcDecode]
    change (parseDigis _ 8 14 f.digis.isEmpty >>= _) = _
    rw [hparse]
    change (if _ then _ else _) = _
    rw [if_neg (by omega)]
    exact hrest

end UiFrame

/-! ### What is parsed is well formed -/

/-- A computation does not panic, and what it returns has a property. -/
def Gives {α : Type} (Q : α → Prop) (x : Except Ax25Error α) : Prop :=
  x ≠ .error .panic ∧ ∀ a, x = .ok a → Q a

namespace Gives

variable {α β : Type} {P : α → Prop} {Q : β → Prop} {x : Except Ax25Error α}

theorem ok {a : α} (h : P a) : Gives P (.ok a) := ⟨nofun, fun _ heq => Except.ok.inj heq ▸ h⟩

theorem error {e : Ax25Error} (h : e ≠ .panic) : Gives P (.error e) :=
  ⟨fun heq => h (Except.error.inj heq), nofun⟩

theorem bind (h : Gives P x) {f : α → Except Ax25Error β} (hf : ∀ a, P a → Gives Q (f a)) :
    Gives Q (x >>= f) := by
  cases x with
  | error e => exact error fun he => h.1 (he ▸ rfl)
  | ok a => exact hf a (h.2 a rfl)

theorem map (h : Gives P x) {f : α → β} (hf : ∀ a, P a → Q (f a)) : Gives Q (x.map f) := by
  cases x with
  | error e => exact error fun he => h.1 (he ▸ rfl)
  | ok a => exact ok (hf a (h.2 a rfl))

end Gives

theorem slice_gives {b : List UInt8} {i j : ℕ} (hi : i ≤ j) (hj : j ≤ b.length) :
    Gives (fun y => y.length = j - i) (slice b i j) := by
  rw [slice, if_pos ⟨hi, hj⟩]
  refine Gives.ok ?_
  rw [List.length_drop, List.length_take, Nat.min_eq_left hj]

namespace Address

theorem decodeCall_gives (l : List UInt8) :
    Gives (fun call => call.length ≤ l.length) (decodeCall l) := by
  induction l with
  | nil => exact Gives.ok (Nat.le_refl _)
  | cons c l ih =>
    rw [decodeCall]
    split
    · exact Gives.error nofun
    · refine ih.map fun call hcall => ?_
      split
      · exact Nat.le_succ_of_le hcall
      · exact Nat.succ_le_succ hcall

/-- Seven bytes are enough for an address, and the address that they give is valid. -/
theorem decode_gives {b : List UInt8} (h : 7 ≤ b.length) :
    Gives (fun x => x.1.Valid) (decode b) := by
  unfold decode
  refine (slice_gives (Nat.zero_le _) (by omega)).bind fun bytes hbytes => ?_
  refine (decodeCall_gives bytes).bind fun call hcall => ?_
  split
  · exact Gives.error nofun
  · rename_i hfine
    rw [not_or, not_not] at hfine
    obtain ⟨t, ht⟩ : ∃ t, (b)[6]? = some t :=
      ⟨_, List.getElem?_eq_getElem (show 6 < b.length by omega)⟩
    rw [ht]
    refine Gives.ok ⟨hfine.1, Nat.le_trans hcall (Nat.le_of_eq hbytes),
      List.all_eq_true.mp hfine.2, ?_⟩
    exact forall_byte (p := fun t => (t >>> (1 : UInt8)) &&& 0x0F ≤ 15) (by decide +kernel) t

end Address

namespace UiFrame

theorem parseDigis_gives (b : List UInt8) (room pos : ℕ) (last : Bool) :
    Gives (fun x => (∀ a ∈ x.1, a.Valid) ∧ x.1.length ≤ room) (parseDigis b room pos last) := by
  induction room generalizing pos last with
  | zero =>
    cases last with
    | true => exact Gives.ok ⟨nofun, Nat.le_refl _⟩
    | false => exact Gives.error nofun
  | succ room ih =>
    cases last with
    | true => exact Gives.ok ⟨nofun, Nat.zero_le _⟩
    | false =>
      rw [parseDigis]
      split
      · exact Gives.error nofun
      · refine (slice_gives (Nat.le_add_right _ _) (by omega)).bind fun bytes hbytes => ?_
        refine (Address.decode_gives (by omega)).bind fun x hx => ?_
        refine (ih _ _).bind fun y hy => Gives.ok ⟨?_, Nat.succ_le_succ hy.2⟩
        intro a ha
        rcases List.mem_cons.mp ha with rfl | ha
        · exact hx
        · exact hy.1 a ha

theorem parseRest_gives {b : List UInt8} {dest src : Address} {digis : List Address} {pos : ℕ}
    (hpos : pos + 2 ≤ b.length) (hdest : dest.Valid) (hsrc : src.Valid)
    (hdigis : (∀ a ∈ digis, a.Valid) ∧ digis.length ≤ 8) :
    Gives Valid (parseRest b dest src digis pos) := by
  obtain ⟨control, hcontrol⟩ : ∃ c, (b)[pos]? = some c :=
    ⟨_, List.getElem?_eq_getElem (show pos < b.length by omega)⟩
  obtain ⟨pid, hpid⟩ : ∃ c, (b)[pos + 1]? = some c :=
    ⟨_, List.getElem?_eq_getElem (show pos + 1 < b.length by omega)⟩
  unfold parseRest
  rw [hcontrol]
  dsimp only
  split
  · exact Gives.error nofun
  · rw [hpid]
    exact (slice_gives hpos (Nat.le_refl _)).map fun info _ => ⟨hdest, hsrc, hdigis.1, hdigis.2⟩

/-- **No bytes are beyond the parser**: it does not panic, and what it returns is valid. -/
theorem parse_gives (b : List UInt8) : Gives Valid (parse b) := by
  unfold parse
  split
  · exact Gives.error nofun
  · refine (slice_gives (Nat.zero_le _) (by omega)).bind fun bytes hbytes => ?_
    refine (Address.decode_gives (by omega)).bind fun ⟨dest, last⟩ hdest => ?_
    dsimp only
    split
    · exact Gives.error nofun
    · refine (slice_gives (by decide) (by omega)).bind fun bytes hbytes => ?_
      refine (Address.decode_gives (by omega)).bind fun ⟨src, last⟩ hsrc => ?_
      refine (parseDigis_gives b _ _ _).bind fun ⟨digis, pos⟩ hdigis => ?_
      dsimp only
      split
      · exact Gives.error nofun
      · exact parseRest_gives (by omega) hdest hsrc hdigis

end UiFrame

/-- **AX.25 frames round-trip.**  A valid frame is encoded, and parsed as it was but for the
flags of a command; and whatever bytes are parsed, the parser does not panic, and a frame that
it returns is valid and goes the same way. -/
theorem ax25_round_trip :
    (∀ f : UiFrame, f.Valid → ∃ b, f.encode = .ok b ∧ UiFrame.parse b = .ok f.asCommand) ∧
      ∀ b : List UInt8, UiFrame.parse b ≠ .error .panic ∧
        ∀ f, UiFrame.parse b = .ok f → f.Valid ∧ ∃ b', f.encode = .ok b' ∧
          UiFrame.parse b' = .ok f.asCommand := by
  refine ⟨fun f h => UiFrame.parse_encode h, fun b => ⟨(UiFrame.parse_gives b).1, fun f hf => ?_⟩⟩
  have hvalid := (UiFrame.parse_gives b).2 f hf
  exact ⟨hvalid, UiFrame.parse_encode hvalid⟩

/-- A call to all stations, by way of a repeater. -/
def callToAll : UiFrame where
  dest := { call := [67, 81], ssid := 0, flag := false }
  src := { call := [87, 49, 65, 87], ssid := 7, flag := false }
  digis := [{ call := [82, 69, 76, 65, 89], ssid := 1, flag := true }]
  pid := 0xF0
  info := [104, 105]

theorem ax25_round_trip_call :
    ∃ b, callToAll.encode = .ok b ∧ UiFrame.parse b = .ok callToAll.asCommand := by
  have haddress (a : Address) (ha : a ∈ [callToAll.dest, callToAll.src] ++ callToAll.digis) :
    a.Valid := by
    have hall : ([callToAll.dest, callToAll.src] ++ callToAll.digis).all (fun a =>
        a.call ≠ [] && a.call.length ≤ 6 && a.call.all isAlnum && a.ssid ≤ 15) = true := by decide
    have h := List.all_eq_true.mp hall a ha
    simp only [Bool.and_eq_true, decide_eq_true_eq] at h
    exact ⟨h.1.1.1, h.1.1.2, List.all_eq_true.mp h.1.2, h.2⟩
  exact ax25_round_trip.1 callToAll ⟨haddress _ (by simp), haddress _ (by simp),
    fun a ha => haddress a (List.mem_append_right _ ha), by decide⟩

end EvansComputer.Dsp
