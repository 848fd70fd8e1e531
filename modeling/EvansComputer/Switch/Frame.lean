import EvansComputer.Net.Types
import Mathlib.Tactic.Common

/-!
# Ethernet frames

The header of a frame with its optional 802.1Q tag, taking a tag off and putting one on,
and the hash that spreads flows over the members of an aggregate.  A frame is the list of its
bytes; what is missing in a short one reads as `none`.
-/

namespace EvansComputer.Switch

/-- A frame. -/
abbrev Frame := List Byte

def ethHdrLen : ℕ := 14
def tpid8021q : UInt16 := 0x8100
def ethertypeIpv4 : UInt16 := 0x0800
def ethertypeArp : UInt16 := 0x0806
def ethertypeSlow : UInt16 := 0x8809
def maxFrameLen : ℕ := 1518

/-- Destination of BPDUs. -/
def stpGroup : MacAddr := ⟨0x01, 0x80, 0xc2, 0x00, 0x00, 0x00⟩

/-- Slow-protocols multicast address. -/
def slowProtocolsGroup : MacAddr := ⟨0x01, 0x80, 0xc2, 0x00, 0x00, 0x02⟩

/-- A big-endian word at `off`. -/
def be16 (b : List Byte) (off : ℕ) : Option UInt16 :=
  match b.drop off with
  | x :: y :: _ => some (u16FromBe x y)
  | _ => none

def be32 (b : List Byte) (off : ℕ) : Option UInt32 :=
  match b.drop off with
  | x :: y :: z :: w :: _ => some (u32FromBe x y z w)
  | _ => none

def macAt (b : List Byte) (off : ℕ) : Option MacAddr :=
  match b.drop off with
  | x₀ :: x₁ :: x₂ :: x₃ :: x₄ :: x₅ :: _ => some ⟨x₀, x₁, x₂, x₃, x₄, x₅⟩
  | _ => none

/-- The `n` bytes at `off`. -/
def bytesAt (b : List Byte) (off n : ℕ) : Option (List Byte) :=
  if off + n ≤ b.length then some ((b.drop off).take n) else none

/-- Parsed view of a header. -/
structure EthInfo where
  dst : MacAddr
  src : MacAddr
  /-- The tag, when the frame carries one. -/
  tci : Option UInt16
  /-- After the optional tag. -/
  ethertype : UInt16
  payloadOff : ℕ
  deriving DecidableEq

namespace EthInfo

/-- VID of the tag, treating a priority tag (VID 0) as untagged. -/
def vid (e : EthInfo) : Option UInt16 :=
  match e.tci with
  | some t => if t &&& 0x0fff ≠ 0 then some (t &&& 0x0fff) else none
  | none => none

/-- PCP bits of the tag (0 when untagged). -/
def pcp (e : EthInfo) : Byte := (e.tci.map fun t : UInt16 => (t >>> 13).toUInt8).getD 0

end EthInfo

def parseEth (f : Frame) : Option EthInfo :=
  if f.length < ethHdrLen ∨ f.length > maxFrameLen + 4 then none
  else do
    let dst ← macAt f 0
    let src ← macAt f 6
    let et ← be16 f 12
    if et = tpid8021q then do
      let tci ← be16 f 14
      let et2 ← be16 f 16
      return { dst, src, tci := some tci, ethertype := et2, payloadOff := 18 }
    else return { dst, src, tci := none, ethertype := et, payloadOff := 14 }

def isMulticast (mac : MacAddr) : Bool := mac.a &&& 0x01 ≠ 0

/-- Reserved group addresses 01:80:c2:00:00:00..0f. -/
def isReservedGroup (mac : MacAddr) : Bool :=
  mac.a = 0x01 && mac.b = 0x80 && mac.c = 0xc2 && mac.d = 0x00 && mac.e = 0x00 && mac.f ≤ 0x0f

/-- The frame without its tag. -/
def untag (f : Frame) : Frame :=
  if be16 f 12 = some tpid8021q ∧ f.length ≥ 18 then f.take 12 ++ f.drop 16 else f

/-- The tag of a VLAN and a priority. -/
def tciOf (vid : UInt16) (pcp : Byte) : UInt16 :=
  ((pcp.toUInt16 &&& 0x7) <<< 13) ||| (vid &&& 0x0fff)

/-- The frame with exactly one tag. -/
def tag (f : Frame) (vid : UInt16) (pcp : Byte) : Option Frame :=
  let base := untag f
  if base.length < ethHdrLen ∨ base.length + 4 > maxFrameLen + 4 then none
  else some (base.take 12 ++ u16ToBe tpid8021q ++ u16ToBe (tciOf vid pcp) ++ base.drop 12)

/-! ## Flow hashing -/

inductive HashMode where
  | l2
  | l3
  | l4
  deriving DecidableEq

def fnv (h : UInt32) (bytes : List Byte) : UInt32 :=
  bytes.foldl (fun h b => (h ^^^ b.toUInt32) * 0x01000193) h

/-- Final avalanche. -/
def finish (h : UInt32) : UInt32 :=
  let h := h ^^^ (h >>> 16)
  let h := h * 0x85ebca6b
  let h := h ^^^ (h >>> 13)
  let h := h * 0xc2b2ae35
  h ^^^ (h >>> 16)

/-- IPv4 addresses (and, for `wantPorts`, the ports) of a frame. -/
def l3Fields (f : Frame) (e : EthInfo) (wantPorts : Bool) :
    Option (List Byte × Option (List Byte)) :=
  let off := e.payloadOff
  if e.ethertype = ethertypeIpv4 then do
    let vihl ← f[off]?
    let ihl := (vihl &&& 0x0f).toNat * 4
    let total ← be16 f (off + 2)
    if vihl >>> 4 ≠ 4 ∨ ihl < 20 ∨ total.toNat < ihl ∨ off + ihl > f.length then none
    else do
      let ips ← bytesAt f (off + 12) 8
      if !wantPorts then return (ips, none)
      else do
        let frag ← be16 f (off + 6)
        let proto ← f[off + 9]?
        -- unfragmented: MF clear, offset 0
        let ports :=
          if frag &&& 0x3fff = 0 ∧ (proto = 6 ∨ proto = 17) then bytesAt f (off + ihl) 4 else none
        return (ips, ports)
  else if e.ethertype = ethertypeArp then do
    let ptype ← be16 f (off + 2)
    let hlen ← f[off + 4]?
    let plen ← f[off + 5]?
    if ptype ≠ ethertypeIpv4 ∨ hlen ≠ 6 ∨ plen ≠ 4 then none
    else do
      let spa ← bytesAt f (off + 14) 4
      let tpa ← bytesAt f (off + 24) 4
      return (spa ++ tpa, none)
  else none

def MacAddr.octets (m : MacAddr) : List Byte := [m.a, m.b, m.c, m.d, m.e, m.f]

/-- Hash of a frame for the choice of a member.  Any input hashes. -/
def flowHash (f : Frame) (mode : HashMode) : UInt32 :=
  match parseEth f with
  | none => 0
  | some e =>
    let l2 (h : UInt32) : UInt32 := fnv (fnv h (MacAddr.octets e.dst)) (MacAddr.octets e.src)
    let h : UInt32 := 0x811c9dc5
    finish (match mode with
      | .l2 => l2 h
      | mode =>
        match l3Fields f e (mode = .l4) with
        | some (ips, ports) => fnv (fnv h ips) (ports.getD [])
        | none => l2 h)

/-! ## A tag taken off, and put on -/

variable {f : Frame}

theorem be16_eq_some {off : ℕ} {w : UInt16} (h : be16 f off = some w) : off + 2 ≤ f.length := by
  unfold be16 at h
  split at h
  · rename_i x y rest hdrop
    have hlen := congrArg List.length hdrop
    rw [List.length_drop, List.length_cons, List.length_cons] at hlen
    omega
  · cases h

/-- What the header of a frame that is parsed is. -/
theorem parseEth_eq_some {e : EthInfo} (h : parseEth f = some e) :
    ethHdrLen ≤ f.length ∧ f.length ≤ maxFrameLen + 4 ∧
      (if e.tci.isSome then be16 f 12 = some tpid8021q ∧ be16 f 14 = e.tci ∧ 18 ≤ f.length
        else be16 f 12 ≠ some tpid8021q) := by
  unfold parseEth at h
  split at h
  · cases h
  rename_i hlen
  obtain ⟨dst, -, h⟩ := Option.bind_eq_some_iff.mp h
  obtain ⟨src, -, h⟩ := Option.bind_eq_some_iff.mp h
  obtain ⟨et, het, h⟩ := Option.bind_eq_some_iff.mp h
  refine ⟨by omega, by omega, ?_⟩
  split at h
  · rename_i heq
    obtain ⟨tci, htci, h⟩ := Option.bind_eq_some_iff.mp h
    obtain ⟨et2, het2, h⟩ := Option.bind_eq_some_iff.mp h
    cases h
    exact ⟨heq ▸ het, htci, be16_eq_some het2⟩
  · rename_i hne
    cases h
    show be16 f 12 ≠ some tpid8021q
    rw [het]
    exact fun heq => hne (Option.some.inj heq)

/-- **A frame loses its outer tag**, if it has one, and nothing else. -/
theorem untag_eq {e : EthInfo} (h : parseEth f = some e) :
    untag f = if e.tci.isSome then f.take 12 ++ f.drop 16 else f := by
  obtain ⟨-, -, htag⟩ := parseEth_eq_some h
  unfold untag
  split_ifs at htag with hsome
  · rw [if_pos ⟨htag.1, htag.2.2⟩, if_pos hsome]
  · rw [if_neg fun hboth => htag hboth.1, if_neg hsome]

/-- The bytes of a tag, in front of what follows the addresses. -/
theorem tag_eq_some {vid : UInt16} {pcp : Byte} {out : Frame} (h : tag f vid pcp = some out) :
    ethHdrLen ≤ (untag f).length ∧ (untag f).length ≤ maxFrameLen ∧
      out = (untag f).take 12 ++
        (u16ToBe tpid8021q ++ u16ToBe (tciOf vid pcp) ++ (untag f).drop 12) := by
  unfold tag at h
  dsimp only at h
  split_ifs at h with hlen
  cases h
  refine ⟨by omega, by omega, ?_⟩
  simp only [List.append_assoc]

/-- What is long enough is read. -/
theorem exists_be16 {off : ℕ} (h : off + 2 ≤ f.length) : ∃ w, be16 f off = some w := by
  have hlen : (f.drop off).length = f.length - off := List.length_drop
  unfold be16
  generalize f.drop off = l at hlen
  match l, hlen with
  | x :: y :: rest, _ => exact ⟨_, rfl⟩
  | [x], hlen => exact absurd hlen (by simp; omega)
  | [], hlen => exact absurd hlen (by simp; omega)

theorem exists_macAt {off : ℕ} (h : off + 6 ≤ f.length) : ∃ m, macAt f off = some m := by
  have hlen : (f.drop off).length = f.length - off := List.length_drop
  have hsix : 6 ≤ (f.drop off).length := by omega
  unfold macAt
  generalize f.drop off = l at hsix
  match l, hsix with
  | x₀ :: x₁ :: x₂ :: x₃ :: x₄ :: x₅ :: rest, _ => exact ⟨_, rfl⟩

theorem be16_append {l : List Byte} {w : UInt16} {rest : List Byte} {off : ℕ}
    (hoff : l.length = off) :
    be16 (l ++ (u16ToBe w ++ rest)) off = some w := by
  unfold be16
  rw [← hoff, List.drop_left]
  show some (u16FromBe _ _) = _
  rw [u16FromBe_u16ToBe]

/-- A header with a tag is parsed where all of it is there. -/
theorem exists_parseEth_tagged {tci : UInt16} (htpid : be16 f 12 = some tpid8021q)
    (htci : be16 f 14 = some tci) (hmin : 18 ≤ f.length) (hmax : f.length ≤ maxFrameLen + 4) :
    ∃ e, parseEth f = some e ∧ e.tci = some tci := by
  obtain ⟨dst, hdst⟩ := exists_macAt (by omega : 0 + 6 ≤ f.length)
  obtain ⟨src, hsrc⟩ := exists_macAt (by omega : 6 + 6 ≤ f.length)
  obtain ⟨et2, het2⟩ := exists_be16 (by omega : 16 + 2 ≤ f.length)
  refine ⟨{ dst, src, tci := some tci, ethertype := et2, payloadOff := 18 }, ?_, rfl⟩
  unfold parseEth ethHdrLen
  rw [if_neg (by omega), hdst, hsrc, htpid]
  simp only [Option.bind_eq_bind, Option.bind_some]
  rw [if_pos trivial, htci, het2]
  rfl

/-- **A tag that is put on is read back**, and taken off again leaves the same frame. -/
theorem parseEth_tag {vid : UInt16} {pcp : Byte} {out : Frame} (h : tag f vid pcp = some out) :
    (∃ e, parseEth out = some e ∧ e.tci = some (tciOf vid pcp)) ∧ untag out = untag f := by
  obtain ⟨hmin, hmax, rfl⟩ := tag_eq_some h
  generalize untag f = base at hmin hmax
  unfold ethHdrLen at hmin
  unfold maxFrameLen at hmax
  have htake : (base.take 12).length = 12 := List.length_take_of_le (by omega)
  have hdrop : (base.drop 12).length = base.length - 12 := List.length_drop
  have htpid :
    be16 (base.take 12 ++ (u16ToBe tpid8021q ++ u16ToBe (tciOf vid pcp) ++ base.drop 12)) 12 =
      some tpid8021q := by
    rw [List.append_assoc (u16ToBe tpid8021q)]
    exact be16_append htake
  have hlen :
    (base.take 12 ++ (u16ToBe tpid8021q ++ u16ToBe (tciOf vid pcp) ++ base.drop 12)).length =
      base.length + 4 := by
    simp only [List.length_append, length_u16ToBe, htake, hdrop]
    omega
  constructor
  · generalize hout :
      base.take 12 ++ (u16ToBe tpid8021q ++ u16ToBe (tciOf vid pcp) ++ base.drop 12) = out
      at htpid hlen
    have htci : be16 out 14 = some (tciOf vid pcp) := by
      have hsplit :
        out = (base.take 12 ++ u16ToBe tpid8021q) ++ (u16ToBe (tciOf vid pcp) ++ base.drop 12) := by
        rw [← hout]
        simp only [List.append_assoc]
      rw [hsplit]
      exact be16_append (by rw [List.length_append, length_u16ToBe, htake])
    exact exists_parseEth_tagged htpid htci (by omega) (by unfold maxFrameLen; omega)
  · unfold untag
    rw [if_pos ⟨htpid, by omega⟩, List.take_left' htake]
    have hsplit : base.take 12 ++ (u16ToBe tpid8021q ++ u16ToBe (tciOf vid pcp) ++ base.drop 12) =
        (base.take 12 ++ (u16ToBe tpid8021q ++ u16ToBe (tciOf vid pcp))) ++ base.drop 12 := by
      simp only [List.append_assoc]
    rw [hsplit, List.drop_left' (by simp only [List.length_append, length_u16ToBe, htake]),
      List.take_append_drop]

theorem toNat_tciOf {vid : UInt16} {pcp : Byte} (hvid : vid.toNat < 4096) (hpcp : pcp.toNat < 8) :
    (tciOf vid pcp).toNat = pcp.toNat * 8192 + vid.toNat := by
  have hp : pcp.toNat &&& 7 = pcp.toNat := by
    rw [Nat.and_two_pow_sub_one_eq_mod pcp.toNat 3, Nat.mod_eq_of_lt hpcp]
  have hv : vid.toNat &&& 4095 = vid.toNat := by
    rw [Nat.and_two_pow_sub_one_eq_mod vid.toNat 12, Nat.mod_eq_of_lt hvid]
  unfold tciOf
  rw [UInt16.toNat_or, UInt16.toNat_shiftLeft, UInt16.toNat_and, UInt16.toNat_and,
    UInt8.toNat_toUInt16]
  show ((pcp.toNat &&& 7) <<< 13) % 2 ^ 16 ||| (vid.toNat &&& 4095) = _
  rw [hp, hv, Nat.mod_eq_of_lt (by rw [Nat.shiftLeft_eq]; omega),
    ← Nat.shiftLeft_add_eq_or_of_lt (by omega), Nat.shiftLeft_eq]

/-- The tag carries the VLAN and the priority. -/
theorem vid_pcp_tciOf {vid : UInt16} {pcp : Byte} (hvid : vid.toNat < 4096) (hpcp : pcp.toNat < 8) :
    tciOf vid pcp &&& 0x0fff = vid ∧ (tciOf vid pcp >>> 13).toUInt8 = pcp := by
  have hnat := toNat_tciOf hvid hpcp
  constructor
  · apply UInt16.toNat_inj.mp
    rw [UInt16.toNat_and, hnat]
    show _ &&& 4095 = _
    rw [Nat.and_two_pow_sub_one_eq_mod _ 12]
    omega
  · apply UInt8.toNat_inj.mp
    rw [UInt16.toNat_toUInt8, UInt16.toNat_shiftRight, hnat]
    show (_ >>> 13) % 256 = _
    rw [Nat.shiftRight_eq_div_pow]
    omega

theorem pcp_lt (e : EthInfo) : e.pcp.toNat < 8 := by
  unfold EthInfo.pcp
  cases e.tci with
  | none => decide
  | some t =>
    have ht : t.toNat < 65536 := t.toNat_lt
    show ((t >>> 13).toUInt8).toNat < 8
    rw [UInt16.toNat_toUInt8, UInt16.toNat_shiftRight]
    show (_ >>> 13) % 256 < 8
    rw [Nat.shiftRight_eq_div_pow]
    omega

end EvansComputer.Switch
