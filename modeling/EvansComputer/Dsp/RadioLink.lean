import EvansComputer.Dsp.HdlcLine
import EvansComputer.Dsp.PacketRadio

/-!
# From station to station

Bodies of AX.25 frames go to the modem in KISS, through HDLC and NRZI as one burst, and to the
other link in KISS again.
-/

namespace EvansComputer.Dsp

/-- `kiss_wrap` -/
def kissWrap (body : List Byte) : List Byte := KissFrame.encode ⟨0, 0, body⟩

/-- `KissStream::push`, call after call: only data frames have bodies. -/
def kissBodies (pieces : List (List Byte)) : List (List Byte) :=
  ((KissDecoder.calls {} pieces).2.filter (·.command = 0)).map KissFrame.data

/-- `take_burst`, of what is queued: the first frame is sent behind the TX delay. -/
def burst (txdelay : ℕ) : List (List Byte) → List Framing
  | [] => []
  | b :: bodies => ⟨b, txdelay, 4⟩ :: bodies.map (⟨·, 2, 4⟩)

variable {bodies pieces : List (List Byte)}

theorem kissBodies_eq (h : pieces.flatten = bodies.flatMap kissWrap) :
    kissBodies pieces = bodies := by
  have hframes : (KissDecoder.calls {} pieces).2 = bodies.map fun b => ⟨0, 0, b⟩ := by
    rw [KissDecoder.calls_eq, h]
    cases bodies with
    | nil => rfl
    | cons b bodies =>
      have hrest := @KissDecoder.pushBytes_encodes (bodies.map fun b => ⟨0, 0, b⟩) (by simp)
      rw [List.flatMap_map] at hrest
      have hzero : (0 : UInt8) ≤ 15 := by decide
      rw [List.flatMap_cons, kissWrap, KissDecoder.pushBytes_append,
        KissDecoder.pushBytes_encode _ hzero hzero]
      exact congrArg (fun r => ⟨0, 0, b⟩ :: r.2) hrest
  rw [kissBodies, hframes, List.filter_eq_self.mpr (by simp), List.map_map]
  exact List.map_id _

/-- **What one station sends, the other reads**, in order and as commands, however the bytes
between link and modem are cut. -/
theorem frames_cross (fs : List UiFrame) (bodies pieces : List (List Byte)) (txdelay : ℕ)
    (tx rx : Nrzi) (hvalid : ∀ f ∈ fs, f.Valid) (hbodies : fs.map UiFrame.encode = bodies.map .ok)
    (hlen : ∀ b ∈ bodies, 15 ≤ b.length ∧ b.length ≤ 330) (hdelay : 2 ≤ txdelay)
    (hpieces : pieces.flatten = bodies.flatMap kissWrap) :
    ∃ d received, (HdlcDecoder.new 15 330).pushBits
      (arrived (burst txdelay (kissBodies pieces)) tx rx) = some (d, received) ∧
      (kissBodies (received.map kissWrap)).map UiFrame.parse = fs.map (.ok ·.asCommand) := by
  have hreceived : ∃ d, (HdlcDecoder.new 15 330).pushBits (arrived (burst txdelay bodies) tx rx) =
    some (d, bodies) := by
    cases bodies with
    | nil => exact ⟨_, rfl⟩
    | cons b bodies =>
      have hpayload : (burst txdelay (b :: bodies)).map Framing.payload = b :: bodies := by
        simp [burst, Function.comp_def]
      have hall : ∀ g ∈ burst txdelay (b :: bodies), (HdlcDecoder.new 15 330).Accepts g :=
        fun g hg => hlen _ (hpayload ▸ List.mem_map_of_mem hg)
      exact ⟨_, (pushBits_arrived rfl hall (by unfold HdlcDecoder.Fits; decide) (fun _ => hdelay)
        fun _ => by decide).trans (congrArg (fun l => some (_, l)) hpayload)⟩
  obtain ⟨d, hd⟩ := hreceived
  refine ⟨d, bodies, kissBodies_eq hpieces ▸ hd, ?_⟩
  rw [kissBodies_eq (List.flatMap_def ..).symm]
  calc bodies.map UiFrame.parse
    _ = (fs.map UiFrame.encode).map (· >>= UiFrame.parse) := by
      rw [hbodies, List.map_map]
      rfl
    _ = fs.map (.ok ·.asCommand) := by
      rw [List.map_map]
      refine List.map_congr_left fun f hf => ?_
      obtain ⟨b, hb, hparse⟩ := UiFrame.parse_encode (hvalid f hf)
      rw [Function.comp_apply, hb]
      exact hparse

/-- A frame from `A` to `B`. -/
def smallFrame (info : List Byte) : UiFrame := ⟨⟨[65], 0, true⟩, ⟨[66], 0, false⟩, [], 0xF0, info⟩

def smallBody (info : List Byte) : List Byte :=
  [0x82, 64, 64, 64, 64, 64, 0xE0, 0x84, 64, 64, 64, 64, 64, 0x61, 3, 0xF0] ++ info

/-- Two frames, whose bytes are cut within the second. -/
theorem frames_cross_two :
    ∃ d received, (HdlcDecoder.new 15 330).pushBits (arrived (burst 24 (kissBodies
      [([smallBody [1], smallBody [0xC0, 2]].flatMap kissWrap).take 25,
        ([smallBody [1], smallBody [0xC0, 2]].flatMap kissWrap).drop 25])) .new .new) =
          some (d, received) ∧
      (kissBodies (received.map kissWrap)).map UiFrame.parse =
      [.ok (smallFrame [1]), .ok (smallFrame [0xC0, 2])] := by
  have hdest : (smallFrame []).dest.Valid :=
    ⟨by decide, by decide, by simp [isAlnum, smallFrame], by decide⟩
  have hsrc : (smallFrame []).src.Valid :=
    ⟨by decide, by decide, by simp [isAlnum, smallFrame], by decide⟩
  refine frames_cross [smallFrame [1], smallFrame [0xC0, 2]]
    [smallBody [1], smallBody [0xC0, 2]] _ 24 _ _ ?_ rfl
    (by decide) (by decide) ?_
  · intro f hf
    rcases List.mem_pair.mp hf with rfl | rfl <;>
      exact ⟨hdest, hsrc, List.forall_mem_nil _, Nat.zero_le _⟩
  · rw [List.flatten_cons, List.flatten_cons, List.flatten_nil, List.append_nil,
      List.take_append_drop]

end EvansComputer.Dsp
