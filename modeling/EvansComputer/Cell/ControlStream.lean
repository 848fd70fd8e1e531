import EvansComputer.Cell.WireReads
import EvansComputer.Cell.SealedChannels
import EvansComputer.Cell.Db

/-!
# The control stream between a site and the core

A stream is messages with their lengths before them, plain at first and sealed from the
registration on.  However it is cut into pieces, the framer gives back the bodies one by one;
plain ones decode to what was sent, and sealed ones open to it.

The framer takes no body longer than 64 KiB.  Every message is far below that but one: the
list of revoked subscribers with which the core answers a registration.
-/

namespace EvansComputer.Cell

open Text

/-! ## Lengths -/

namespace Ctl

/-- The list of revoked subscribers, with so many bytes around the message, is no longer than
the framer takes. -/
def Fits (room : ℕ) : Ctl → Prop
  | siteAccept _ refused => 5 + (refused.map fun imsi => 1 + (toUtf8 imsi).length).sum +
    room ≤ maxControl
  | _ => True

theorem length_putStr8 {s : Str} (h : ShortText s) :
    (putStr8 s).length = 1 + (toUtf8 s).length := by
  rw [putStr8_of_short h, List.length_cons, Nat.add_comm]

theorem length_refused {refused : List Str} (h : ∀ imsi ∈ refused, ShortText imsi) :
    (refused.flatMap putStr8).length = (refused.map fun imsi => 1 + (toUtf8 imsi).length).sum := by
  rw [List.length_flatMap]
  congr 1
  exact List.map_congr_left fun imsi hi => length_putStr8 (h imsi hi)

theorem length_flatMap_eq {α : Type} {f : α → List Byte} {n : ℕ} {l : List α}
    (h : ∀ a ∈ l, (f a).length = n) : (l.flatMap f).length = l.length * n := by
  induction l with
  | nil => exact (Nat.zero_mul n).symm
  | cons a l ih =>
    rw [List.flatMap_cons, List.length_append, List.length_cons, Nat.succ_mul,
      h a List.mem_cons_self,
      ih fun b hb => h b (List.mem_cons_of_mem _ hb), Nat.add_comm]

theorem sum_refused_le {refused : List Str} (h : ∀ imsi ∈ refused, ShortText imsi) :
    (refused.map fun imsi => 1 + (toUtf8 imsi).length).sum ≤ refused.length * 256 := by
  induction refused with
  | nil => exact Nat.zero_le _
  | cons imsi refused ih =>
    have hhead : (toUtf8 imsi).length ≤ 255 := h imsi List.mem_cons_self
    have htail := ih fun i hi => h i (List.mem_cons_of_mem _ hi)
    rw [List.map_cons, List.sum_cons, List.length_cons, Nat.succ_mul]
    omega

theorem length_body_le {m : Ctl} (h : m.WellFormed) (hm : ∀ hb refused, m ≠ siteAccept hb refused) :
    m.body.length ≤ 1024 := by
  have hstr : ∀ {s : Str}, ShortText s → (putStr8 s).length ≤ 256 := fun hs => by
    rw [length_putStr8 hs]
    exact Nat.add_le_add_left hs 1
  cases m with
  | coreHello version carrier nonce =>
    have := hstr h.1
    simp only [body, List.length_cons, List.length_append, h.2]
    omega
  | siteAuth version siteId cells tunnelPort nonce proof =>
    have := hstr h.1
    have hcells := length_flatMap_eq (f := cellBytes) (n := 12) (l := cells) fun _ _ => rfl
    have := h.2.1
    have hbody : (siteAuth version siteId cells tunnelPort nonce proof).body.length =
        2 + (putStr8 siteId).length + 1 + (cells.flatMap cellBytes).length + 2 + nonce.length +
          proof.length := by
      simp only [body, List.take_of_length_le h.2.1, List.length_cons, List.length_append,
        length_u16ToBe]
      change _ + _ + (cells.flatMap cellBytes).length + 1 + _ + _ + _ = _
      omega
    rw [hbody, hcells, h.2.2.1, h.2.2.2]
    omega
  | siteAccept hb refused => exact absurd rfl (hm hb refused)
  | ueAttach ue cellId imsi carrier =>
    have := hstr h.1
    have := hstr h.2
    simp only [body, List.length_cons, List.length_append, length_u32ToBe]
    omega
  | ueService ue cellId tmsi count mac =>
    have hmac : mac.length = 16 := h
    simp only [body, List.length_cons, List.length_append, length_u32ToBe, hmac]
    omega
  | ueChallenge ue rand =>
    have hrand : rand.length = 16 := h
    simp only [body, List.length_cons, List.length_append, length_u32ToBe, hrand]
    omega
  | ueAuthResponse ue res =>
    have hres : res.length = 16 := h
    simp only [body, List.length_cons, List.length_append, length_u32ToBe, hres]
    omega
  | ueAccept ue session ip tmsi ctx smcMac ims =>
    obtain ⟨-, hctx, hmac, hims⟩ := h
    have himsLen : (imsBytes ims).length ≤ 522 := by
      cases ims with
      | none => exact Nat.le_add_left 1 _
      | some i =>
        have := hstr (hims i rfl).domain
        have := hstr (hims i rfl).msisdn
        have hip : i.ip.bytes.length = 4 := rfl
        have hpcscf : i.pcscf.bytes.length = 4 := rfl
        simp only [imsBytes, ImsInfo.write, List.length_cons, List.length_append, List.length_nil,
          hip, hpcscf]
        omega
    have hip : ip.write.length = 15 := rfl
    have hbody : (ueAccept ue session ip tmsi ctx smcMac ims).body.length =
        1 + 4 + 4 + ip.write.length + 4 + (4 + ctx.kAs.length) + smcMac.length +
          (imsBytes ims).length := by
      cases ims <;> simp only [body, imsBytes, AsContext.write, List.length_cons,
        List.length_append,
        length_u32ToBe, List.length_nil]
    rw [hbody, hip, hctx, hmac]
    omega
  | hoRequest ho session ue targetCell ip tmsi ctx bearers =>
    obtain ⟨-, hctx, hbearers⟩ := h
    have hlist := length_flatMap_eq (f := Bearer.write) (n := 10) (l := bearers) fun _ _ => rfl
    have hip : ip.write.length = 15 := rfl
    simp only [body, List.take_of_length_le hbearers, AsContext.write, List.length_cons,
      List.length_append,
      length_u32ToBe, hip, hctx, hlist]
    omega
  | revoked imsi =>
    have := hstr h
    simp only [body, List.length_cons]
    omega
  | _ => exact of_decide_eq_true rfl

theorem length_body_siteAccept {hb : UInt16} {refused : List Str}
    (h : (siteAccept hb refused).WellFormed) : (siteAccept hb refused).body.length = 5 +
    (refused.map fun imsi => 1 + (toUtf8 imsi).length).sum := by
  rw [← length_refused h.2]
  simp only [body, List.take_of_length_le h.1, List.length_cons, List.length_append, length_u16ToBe]

theorem fits_iff {m : Ctl} (h : m.WellFormed) {room : ℕ} (hroom : room ≤ 25) :
    m.Fits room ↔ m.body.length + room ≤ maxControl := by
  by_cases hm : ∀ hb refused, m ≠ siteAccept hb refused
  · have hle := length_body_le h hm
    have hfits : m.Fits room := by
      cases m with
      | siteAccept hb refused => exact absurd rfl (hm hb refused)
      | _ => trivial
    refine ⟨fun _ => ?_, fun _ => hfits⟩
    rw [maxControl]
    omega
  · push Not at hm
    obtain ⟨hb, refused, rfl⟩ := hm
    rw [length_body_siteAccept h, Fits]

/-- The length that goes before a message is its length. -/
theorem length_body_lt {m : Ctl} (h : m.WellFormed) : m.body.length < 2 ^ 31 := by
  by_cases hm : ∀ hb refused, m ≠ siteAccept hb refused
  · have := length_body_le h hm
    omega
  · push Not at hm
    obtain ⟨hb, refused, rfl⟩ := hm
    have hsum := sum_refused_le h.2
    have := h.1
    rw [length_body_siteAccept h]
    omega

end Ctl
/-! ## The framer -/

/-- A body with its length before it. -/
def frame (b : List Byte) : List Byte := u32ToBe (UInt32.ofNat b.length) ++ b

namespace Framer

variable {β : Type} {g : List Byte → Option β} {enc : β → List Byte} {f f' : Framer}
    {future : List Byte}
  {b : List Byte} {bs : List (List Byte)} {xs : List β}

/-- Take messages off until there is none. -/
def drain (pop : Framer → Framer × Option β) : ℕ → Framer → Framer × List β
  | 0, f => (f, [])
  | fuel + 1, f =>
    match pop f with
    | (f, none) => (f, [])
    | (f, some x) =>
      let (f, xs) := drain pop fuel f
      (f, x :: xs)

/-- Pieces of a stream as they come, and the messages that come out. -/
def feed (pop : Framer → Framer × Option β) (f : Framer) (pieces : List (List Byte)) :
    Framer × List β :=
  pieces.foldl (fun s piece =>
    let f := s.1.push piece
    let (f, xs) := drain pop (f.buf.length + 1) f
    (f, s.2 ++ xs)) (f, [])

/-- The next body and what it stands for. -/
def popWith (g : List Byte → Option β) (f : Framer) : Framer × Option β :=
  match f.popBody with
  | (f, none) => (f, none)
  | (f, some b) =>
    match g b with
    | some x => (f, some x)
    | none => ({ f with broken := true }, none)

theorem popWith_some : popWith some = popBody := by
  funext f
  unfold popWith
  rcases f.popBody with ⟨f, _ | b⟩ <;> rfl

theorem popWith_decode : popWith (fun b => (Ctl.decode b).toOption) = pop := by
  funext f
  unfold popWith pop
  rcases f.popBody with ⟨f, _ | b⟩
  · rfl
  · dsimp only
    cases Ctl.decode b <;> rfl

/-- What is in the buffer and what is to come are these bodies. -/
def Holds (f : Framer) (future : List Byte) (bs : List (List Byte)) : Prop :=
  f.broken = false ∧ f.buf ++ future = bs.flatMap frame

/-- No body is complete. -/
def Waits (f : Framer) : Prop := f.popBody = (f, none)

theorem toNat_length (hb : b.length < 2 ^ 32) : (UInt32.ofNat b.length).toNat = b.length := by
  rw [UInt32.toNat_ofNat']
  exact Nat.mod_eq_of_lt hb

theorem waits_of_short (h : f.buf.length < 4) : f.Waits := by
  unfold Waits popBody
  split
  · rename_i hbuf
    rw [hbuf] at h
    simp only [List.length_cons] at h
    omega
  · rfl

/-- What the framer does once the length of the next body is there. -/
theorem popBody_of_length {rest : List Byte} (hf : f.broken = false) (hb : b.length < 2 ^ 32)
    (hbuf : f.buf = u32ToBe (UInt32.ofNat b.length) ++ rest) :
    f.popBody = if b.length = 0 ∨ b.length > maxControl then ({ f with broken := true }, none)
      else if rest.length < b.length then (f, none)
      else ({ f with buf := rest.drop b.length }, some (rest.take b.length)) := by
  have hn : (u32FromBe (UInt8.ofNat ((UInt32.ofNat b.length).toNat / 16777216))
      (UInt8.ofNat ((UInt32.ofNat b.length).toNat / 65536))
        (UInt8.ofNat ((UInt32.ofNat b.length).toNat / 256))
      (UInt8.ofNat (UInt32.ofNat b.length).toNat)).toNat = b.length := by
    rw [u32FromBe_u32ToBe, toNat_length hb]
  unfold popBody
  rw [hf, hbuf, u32ToBe]
  dsimp only [List.cons_append, List.nil_append]
  rw [hn]

theorem exists_rest {u v x y : List Byte} (h : x ++ y = u ++ v) (hlen : u.length ≤ x.length) :
    ∃ r, x = u ++ r ∧ r ++ y = v := by
  rcases List.append_eq_append_iff.mp h with ⟨r, hu, hy⟩ | ⟨r, hx, hv⟩
  · have hnil : r = [] := by
      rw [hu, List.length_append] at hlen
      exact List.length_eq_zero_iff.mp (by omega)
    rw [hnil, List.append_nil] at hu
    rw [hnil, List.nil_append] at hy
    exact ⟨[], by rw [hu, List.append_nil], hy⟩
  · exact ⟨r, hx, hv.symm⟩

theorem length_frame (b : List Byte) : (frame b).length = 4 + b.length := by
  rw [frame, List.length_append, length_u32ToBe]

theorem popBody_fits (h : f.Holds future (b :: bs)) (hpos : b ≠ [])
    (hfits : b.length ≤ maxControl) :
    f.Waits ∧ f.buf.length < (frame b).length ∨
      ∃ f', f.popBody = (f', some b) ∧ f'.Holds future bs ∧ f'.buf.length < f.buf.length := by
  obtain ⟨hf, hstream⟩ := h
  rw [List.flatMap_cons, frame, List.append_assoc] at hstream
  rw [length_frame]
  by_cases hshort : f.buf.length < 4
  · exact .inl ⟨waits_of_short hshort, by omega⟩
  obtain ⟨rest, hbuf, hrest⟩ := exists_rest hstream (not_lt.mp hshort)
  have hlen : b.length < 2 ^ 32 := by
    rw [maxControl] at hfits
    omega
  have hpop := popBody_of_length hf hlen hbuf
  rw [if_neg (by have := List.length_pos_iff.mpr hpos; omega)] at hpop
  by_cases hmore : rest.length < b.length
  · rw [if_pos hmore] at hpop
    refine .inl ⟨hpop, ?_⟩
    rw [hbuf, List.length_append, length_u32ToBe]
    omega
  · rw [if_neg hmore] at hpop
    obtain ⟨rest', hrest', hfuture⟩ := exists_rest hrest (not_lt.mp hmore)
    rw [hrest', List.take_left, List.drop_left] at hpop
    refine .inr ⟨_, hpop, ⟨hf, hfuture⟩, ?_⟩
    rw [hbuf, hrest', List.length_append, List.length_append, length_u32ToBe]
    dsimp only
    omega

/-- A body that is too long ends the stream, once its length is there. -/
theorem popBody_long (h : f.Holds future (b :: bs)) (hlong : maxControl < b.length)
    (hlen : b.length < 2 ^ 32) :
    f.Waits ∧ f.buf.length < (frame b).length ∨ f.popBody = ({ f with broken := true }, none) := by
  obtain ⟨hf, hstream⟩ := h
  rw [List.flatMap_cons, frame, List.append_assoc] at hstream
  rw [length_frame]
  by_cases hshort : f.buf.length < 4
  · exact .inl ⟨waits_of_short hshort, by omega⟩
  obtain ⟨rest, hbuf, -⟩ := exists_rest hstream (not_lt.mp hshort)
  have hpop := popBody_of_length hf hlen hbuf
  rw [if_pos (.inr hlong)] at hpop
  exact .inr hpop

/-- A framer that waits at the end of a stream has nothing left. -/
theorem eq_nil_of_waits (h : f.Holds [] bs) (hwaits : f.Waits)
    (hbs : ∀ b ∈ bs, b ≠ [] ∧ b.length < 2 ^ 32) :
    bs = [] := by
  cases bs with
  | nil => rfl
  | cons b bs =>
    have hall : (frame b).length ≤ f.buf.length := by
      have hlen := congrArg List.length h.2
      rw [List.append_nil, List.flatMap_cons, List.length_append] at hlen
      omega
    obtain ⟨hpos, hlen⟩ := hbs b List.mem_cons_self
    by_cases hfits : b.length ≤ maxControl
    · rcases popBody_fits h hpos hfits with ⟨-, hshort⟩ | ⟨f', hpop, -⟩
      · omega
      · cases hwaits.symm.trans hpop
    · rcases popBody_long h (not_le.mp hfits) hlen with ⟨-, hshort⟩ | hpop
      · omega
      · have hbroken := congrArg (fun r => r.1.broken) (hwaits.symm.trans hpop)
        exact absurd (h.1.symm.trans hbroken) Bool.false_ne_true

/-- A state of the framer while messages `xs` are to come. -/
def Ready (enc : β → List Byte) (f : Framer) (future : List Byte) (xs : List β) : Prop :=
  f.broken = true ∨ f.Holds future (xs.map enc) ∧ f.Waits

/-- What a framer takes off are the next messages, all of which fit; it breaks where one does
not. -/
structure Took (enc : β → List Byte) (future : List Byte) (xs : List β) (r : Framer × List β) :
    Prop where
  taken : ∃ k, r.2 = xs.take k ∧ Ready enc r.1 future (xs.drop k)
  fits : ∀ x ∈ r.2, (enc x).length ≤ maxControl
  whole : (∀ x ∈ xs, (enc x).length ≤ maxControl) → r.1.broken = false

theorem waits_of_broken (h : f.broken = true) : f.Waits := by
  unfold Waits popBody
  rw [h]

section

variable (henc : ∀ x ∈ xs, g (enc x) = some x ∧ enc x ≠ [] ∧ (enc x).length < 2 ^ 32)
include henc

theorem drain_took {fuel : ℕ} (hfuel : f.buf.length < fuel) (h : f.Holds future (xs.map enc)) :
    Took enc future xs (drain (popWith g) fuel f) := by
  induction fuel generalizing f xs with
  | zero => exact absurd hfuel (Nat.not_lt_zero _)
  | succ fuel ih =>
    have hstop : f.Waits → Took enc future xs (drain (popWith g) (fuel + 1) f) := by
      intro hwaits
      have hpop : popWith g f = (f, none) := by
        unfold popWith
        rw [hwaits]
      unfold drain
      rw [hpop]
      exact ⟨⟨0, rfl, .inr ⟨h, hwaits⟩⟩, fun x hx => absurd hx List.not_mem_nil, fun _ => h.1⟩
    cases xs with
    | nil =>
      refine hstop (waits_of_short ?_)
      rw [(List.append_eq_nil_iff.mp h.2).1]
      decide
    | cons x xs =>
      obtain ⟨hg, hpos, hlen⟩ := henc x List.mem_cons_self
      by_cases hfits : (enc x).length ≤ maxControl
      · rcases popBody_fits h hpos hfits with ⟨hwaits, -⟩ | ⟨f', hbody, hnext, hless⟩
        · exact hstop hwaits
        · have hpop : popWith g f = (f', some x) := by
            unfold popWith
            rw [hbody]
            dsimp only
            rw [hg]
          obtain ⟨⟨k, htaken, hready⟩, hall, hwhole⟩ :=
            ih (fun y hy => henc y (List.mem_cons_of_mem _ hy)) (by omega) hnext
          unfold drain
          rw [hpop]
          refine ⟨⟨k + 1, congrArg (x :: ·) htaken, hready⟩, fun y hy => ?_,
            fun hfit => hwhole fun y hy => hfit y (List.mem_cons_of_mem _ hy)⟩
          rcases List.mem_cons.mp hy with rfl | hy
          · exact hfits
          · exact hall y hy
      · rcases popBody_long h (not_le.mp hfits) hlen with ⟨hwaits, -⟩ | hbody
        · exact hstop hwaits
        · have hpop : popWith g f = ({ f with broken := true }, none) := by
            unfold popWith
            rw [hbody]
          unfold drain
          rw [hpop]
          exact ⟨⟨0, rfl, .inl rfl⟩, fun y hy => absurd hy List.not_mem_nil,
            fun hfit => absurd (hfit x List.mem_cons_self) hfits⟩

/-- A piece joins the stream, and what is complete comes off. -/
theorem piece_took {piece : List Byte} (h : Ready enc f (piece ++ future) xs) :
    (∃ k, (drain (popWith g) ((f.push piece).buf.length + 1) (f.push piece)).2 = xs.take k ∧
      Ready enc (drain (popWith g) ((f.push piece).buf.length + 1) (f.push piece)).1 future
        (xs.drop k)) ∧
    (∀ x ∈ (drain (popWith g) ((f.push piece).buf.length + 1) (f.push piece)).2,
      (enc x).length ≤ maxControl) ∧
    (f.broken = false → (∀ x ∈ xs, (enc x).length ≤ maxControl) →
      (drain (popWith g) ((f.push piece).buf.length + 1) (f.push piece)).1.broken = false) := by
  cases hf : f.broken with
  | true =>
    have hpush : f.push piece = f := if_pos hf
    have hpop : popWith g f = (f, none) := by
      unfold popWith
      rw [waits_of_broken hf]
    rw [hpush]
    unfold drain
    rw [hpop]
    exact ⟨⟨0, rfl, .inl hf⟩, fun x hx => absurd hx List.not_mem_nil, fun h => Bool.noConfusion h⟩
  | false =>
    have hpush : f.push piece = { f with buf := f.buf ++ piece } := if_neg (hf ▸ Bool.false_ne_true)
    have hholds : (f.push piece).Holds future (xs.map enc) := by
      rcases h with hb | ⟨⟨-, hstream⟩, -⟩
      · exact absurd (hf.symm.trans hb) Bool.false_ne_true
      · rw [hpush]
        exact ⟨hf, (List.append_assoc _ _ _).trans hstream⟩
    have htook := drain_took henc (Nat.lt_succ_self _) hholds
    exact ⟨htook.taken, htook.fits, fun _ => htook.whole⟩

theorem feed_took {pieces : List (List Byte)} (h : Ready enc f pieces.flatten xs) (out : List β) :
    ∃ k r, pieces.foldl (fun s piece =>
        let f := s.1.push piece
        let (f, xs) := drain (popWith g) (f.buf.length + 1) f
        (f, s.2 ++ xs)) (f, out) = (r, out ++ xs.take k) ∧ Ready enc r [] (xs.drop k) ∧
      (∀ x ∈ xs.take k, (enc x).length ≤ maxControl) ∧
      (f.broken = false → (∀ x ∈ xs, (enc x).length ≤ maxControl) → r.broken = false) := by
  induction pieces generalizing f xs out with
  | nil =>
    refine ⟨0, f, ?_, h, fun x hx => absurd hx List.not_mem_nil, fun hf _ => hf⟩
    rw [List.take_zero, List.append_nil]
    rfl
  | cons piece pieces ih =>
    rw [List.flatten_cons] at h
    obtain ⟨⟨k, htaken, hready⟩, hfits, hwhole⟩ := piece_took henc h
    have hlater : ∀ x ∈ xs.drop k, x ∈ xs := fun x hx => List.drop_subset k xs hx
    rw [List.foldl_cons]
    dsimp only
    generalize drain (popWith g) ((f.push piece).buf.length + 1) (f.push piece) = step
      at htaken hready hfits hwhole ⊢
    obtain ⟨f₁, out₁⟩ := step
    dsimp only at htaken hready hfits hwhole ⊢
    subst htaken
    obtain ⟨j, r, hfold, hready', hfits', hwhole'⟩ :=
      ih (fun x hx => henc x (hlater x hx)) hready (out ++ xs.take k)
    have htake : xs.take k ++ (xs.drop k).take j = xs.take (k + j) := by
      rw [List.take_add]
    refine ⟨k + j, r, ?_, ?_, ?_, fun hf hall => hwhole' (hwhole hf hall) fun x hx =>
      hall x (hlater x hx)⟩
    · rw [hfold, List.append_assoc, htake]
    · rwa [List.drop_drop] at hready'
    · rw [← htake]
      intro x hx
      rcases List.mem_append.mp hx with hx | hx
      · exact hfits x hx
      · exact hfits' x hx

/-- **The cut makes no difference**: of a stream in whatever pieces the framer gives back the
messages, and is not broken, exactly if each of them fits. -/
theorem feed_frames {pieces : List (List Byte)}
    (hpieces : pieces.flatten = (xs.map enc).flatMap frame) :
    (∃ k, (feed (popWith g) {} pieces).2 = xs.take k) ∧
    ((feed (popWith g) {} pieces).2 = xs ∧ (feed (popWith g) {} pieces).1.broken = false ↔
      ∀ x ∈ xs, (enc x).length ≤ maxControl) := by
  have hstart : Ready enc {} pieces.flatten xs := .inr ⟨⟨rfl, hpieces⟩, waits_of_short (by decide)⟩
  obtain ⟨k, r, hfold, hready, hfits, hwhole⟩ := feed_took henc hstart []
  rw [List.nil_append] at hfold
  unfold feed
  rw [hfold]
  refine ⟨⟨k, rfl⟩, fun h => ?_, fun hall => ?_⟩
  · rw [← h.1]
    exact hfits
  · have hbroken := hwhole rfl hall
    refine ⟨?_, hbroken⟩
    rcases hready with hb | ⟨hholds, hwaits⟩
    · exact absurd (hbroken.symm.trans hb) Bool.false_ne_true
    · have hnil := eq_nil_of_waits hholds hwaits fun b hb => by
        obtain ⟨x, hx, rfl⟩ := List.mem_map.mp hb
        exact (henc x (List.drop_subset k xs hx)).2
      have hdrop : xs.drop k = [] := List.map_eq_nil_iff.mp hnil
      have htake := List.take_append_drop k xs
      rwa [hdrop, List.append_nil] at htake

end

end Framer

/-! ## Sealed messages -/

namespace BhChannel

variable {tx rx : BhChannel} {ms : List Ctl}

/-- The encodings of messages that are sealed one after another. -/
def sealAll (ch : BhChannel) : List Ctl → List (List Byte)
  | [] => []
  | m :: ms => (ch.sealCtl m.body).2 :: sealAll (ch.sealCtl m.body).1 ms

/-- The sealed bodies in them. -/
def sealedBodies (ch : BhChannel) : List Ctl → List (List Byte)
  | [] => []
  | m :: ms => (ch.sealWith [sealedCtl] m.body).2 :: sealedBodies (ch.sealCtl m.body).1 ms

/-- What becomes of sealed bodies that are opened and decoded in order. -/
def openAll (ch : BhChannel) : List (List Byte) → List (Option Ctl)
  | [] => []
  | b :: bs =>
    ((ch.openCtl b).2.toOption.bind fun body => (Ctl.decode body).toOption) :: openAll
    (ch.openCtl b).1 bs

/-- The two ends of a control channel, the receiver of which is as far as the sender. -/
structure Paired (tx rx : BhChannel) : Prop where
  aead : rx.aead = tx.aead
  dir : rx.rxDir = tx.txDir
  strict : rx.strict = true
  next : rx.rxNext = tx.txCounter

theorem sealAll_flatten (tx : BhChannel) (ms : List Ctl) :
    (tx.sealAll ms).flatten = (tx.sealedBodies ms).flatMap frame := by
  induction ms generalizing tx with
  | nil => rfl
  | cons m ms ih =>
    rw [sealAll, List.flatten_cons, ih, sealedBodies, List.flatMap_cons]
    rfl

theorem length_sealedBodies (tx : BhChannel) (ms : List Ctl) :
    (tx.sealedBodies ms).length = ms.length := by
  induction ms generalizing tx with
  | nil => rfl
  | cons m ms ih => rw [sealedBodies, List.length_cons, ih, List.length_cons]

theorem length_openAll (rx : BhChannel) (bs : List (List Byte)) :
    (rx.openAll bs).length = bs.length := by
  induction bs generalizing rx with
  | nil => rfl
  | cons b bs ih => rw [openAll, List.length_cons, ih, List.length_cons]

theorem length_sealWith (hA : tx.aead.Lawful) (b : List Byte) :
    (tx.sealWith [sealedCtl] b).2.length = b.length + 25 := by
  rw [sealWith_snd, List.length_append, List.length_append, length_u64ToBe, hA.length_encrypt]
  change 1 + (8 + (b.length + 16)) = _
  omega

/-- A message that is next opens to what was sealed, and the ends stay together. -/
theorem Paired.openCtl (h : Paired tx rx) (hA : tx.aead.Lawful) (b : List Byte) :
    (rx.openCtl (tx.sealWith [sealedCtl] b).2).2 = .ok b ∧
      Paired (tx.sealCtl b).1 (rx.openCtl (tx.sealWith [sealedCtl] b).2).1 := by
  have hfresh : rx.fresh tx.txCounter = true := by
    rw [fresh, h.strict, if_pos rfl]
    exact decide_eq_true h.next.symm
  have hhead : (tx.sealWith [sealedCtl] b).2.head? = some sealedCtl := rfl
  have hopen :
    rx.openCtl (tx.sealWith [sealedCtl] b).2 = rx.openWith 1 (tx.sealWith [sealedCtl] b).2 := by
    rw [BhChannel.openCtl, if_neg (not_not.mpr hhead)]
  have hok : (rx.openWith 1 (tx.sealWith [sealedCtl] b).2).2 = .ok b :=
    openWith_sealWith [sealedCtl] hA h.aead h.dir hfresh
  have hcounter : counterOf 1 (tx.sealWith [sealedCtl] b).2 = tx.txCounter := by
    rw [sealWith_snd]
    exact counterOf_append [sealedCtl] _ _
  rw [hopen]
  refine ⟨hok, ?_⟩
  rcases rx.openWith_cases 1 (tx.sealWith [sealedCtl] b).2 with ⟨e, he⟩ | ⟨pt, -, -, heq⟩
  · rw [he] at hok
    cases hok
  · rw [heq, h.strict, if_pos rfl, hcounter]
    exact ⟨h.aead, h.dir, rfl, rfl⟩

theorem Paired.openAll (h : Paired tx rx) (hA : tx.aead.Lawful) (hms : ∀ m ∈ ms, m.WellFormed) :
    rx.openAll (tx.sealedBodies ms) = ms.map some := by
  induction ms generalizing tx rx with
  | nil => rfl
  | cons m ms ih =>
    obtain ⟨hok, hnext⟩ := h.openCtl hA m.body
    rw [sealedBodies, BhChannel.openAll, hok, ih hnext hA fun m' hm' =>
      hms m' (List.mem_cons_of_mem _ hm'),
      List.map_cons]
    change (Ctl.decode m.body).toOption :: _ = _
    rw [(Ctl.decode_body (hms m List.mem_cons_self)).1]
    rfl

theorem length_of_mem_sealedBodies (hA : tx.aead.Lawful) {b : List Byte}
    (hb : b ∈ tx.sealedBodies ms) :
    ∃ m ∈ ms, b.length = m.body.length + 25 := by
  induction ms generalizing tx with
  | nil => exact absurd hb List.not_mem_nil
  | cons m ms ih =>
    rcases List.mem_cons.mp hb with rfl | hb
    · exact ⟨m, List.mem_cons_self, length_sealWith hA m.body⟩
    · have hA' : (tx.sealCtl m.body).1.aead.Lawful := hA
      obtain ⟨m', hm', hlen⟩ := ih hA' hb
      exact ⟨m', List.mem_cons_of_mem _ hm', hlen⟩

theorem exists_sealed_of_mem (hA : tx.aead.Lawful) {m : Ctl} (hm : m ∈ ms) :
    ∃ b ∈ tx.sealedBodies ms, b.length = m.body.length + 25 := by
  induction ms generalizing tx with
  | nil => exact absurd hm List.not_mem_nil
  | cons m' ms ih =>
    rcases List.mem_cons.mp hm with rfl | hm
    · exact ⟨_, List.mem_cons_self, length_sealWith hA m.body⟩
    · have hA' : (tx.sealCtl m'.body).1.aead.Lawful := hA
      obtain ⟨b, hb, hlen⟩ := ih hA' hm
      exact ⟨b, List.mem_cons_of_mem _ hb, hlen⟩

end BhChannel

/-! ## What the stream carries -/

namespace Ctl

theorem body_ne_nil {m : Ctl} (h : m.WellFormed) : m.body ≠ [] := by
  obtain ⟨t, hhead, -⟩ := reads_fields h
  intro hnil
  rw [hnil] at hhead
  cases hhead

/-- The plain messages of a stream come back exactly if they fit. -/
theorem feed_pop {ms : List Ctl} (h : ∀ m ∈ ms, m.WellFormed) {pieces : List (List Byte)}
    (hpieces : pieces.flatten = ms.flatMap encode) :
    (Framer.feed Framer.pop {} pieces).2 = ms ∧
    (Framer.feed Framer.pop {} pieces).1.broken = false ↔
      ∀ m ∈ ms, m.Fits 0 := by
  have hframes : pieces.flatten = (ms.map body).flatMap frame := by
    rw [hpieces, List.flatMap_map]
    rfl
  rw [← Framer.popWith_decode,
    (Framer.feed_frames (fun m hm => ⟨by rw [(decode_body (h m hm)).1]; rfl,
    body_ne_nil (h m hm), lt_trans (length_body_lt (h m hm)) (by decide)⟩) hframes).2]
  exact forall₂_congr fun m hm => (fits_iff (h m hm) (Nat.zero_le _)).symm

theorem body_siteAuth (v : Byte) (siteId : Str) (cells : List CellInfo) (port : UInt16)
    (nonce proof : List Byte) : (siteAuth v siteId cells port nonce proof).body =
    (siteAuth v siteId cells port nonce []).body ++ proof := by
  simp only [body, List.append_nil]

theorem authTranscript_siteAuth (hello : Ctl) {v : Byte} {siteId : Str} {cells : List CellInfo}
    {port : UInt16} {nonce proof : List Byte} (hproof : proof.length = 32) :
    authTranscript hello (siteAuth v siteId cells port nonce proof) =
      hello.body ++ (siteAuth v siteId cells port nonce []).body := by
  rw [authTranscript, body_siteAuth, List.length_append, hproof, Nat.add_sub_cancel, List.take_left]

/-- **The transcript determines both messages**, the proof apart. -/
theorem authTranscript_inj {hello hello' : Ctl} {v v' : Byte} {siteId siteId' : Str}
    {cells cells' : List CellInfo} {port port' : UInt16} {nonce nonce' proof proof' : List Byte}
    (hhello : hello.WellFormed) (hhello' : hello'.WellFormed)
    (hauth : (siteAuth v siteId cells port nonce proof).WellFormed)
    (hauth' : (siteAuth v' siteId' cells' port' nonce' proof').WellFormed)
    (h : authTranscript hello (siteAuth v siteId cells port nonce proof) =
      authTranscript hello' (siteAuth v' siteId' cells' port' nonce' proof')) :
    hello = hello' ∧ v = v' ∧ siteId = siteId' ∧ cells = cells' ∧ port = port' ∧
      nonce = nonce' := by
  rw [authTranscript_siteAuth hello hauth.2.2.2, authTranscript_siteAuth hello' hauth'.2.2.2] at h
  obtain ⟨rfl, hrest⟩ := (reads_body hhello).unique (reads_body hhello') h
  have hbodies : (siteAuth v siteId cells port nonce proof).body =
    (siteAuth v' siteId' cells' port' nonce' proof).body := by
    rw [body_siteAuth, body_siteAuth v', hrest]
  have hauth'' : (siteAuth v' siteId' cells' port' nonce' proof).WellFormed :=
    ⟨hauth'.1, hauth'.2.1, hauth'.2.2.1, hauth.2.2.2⟩
  have hsame := (decode_body hauth).1
  rw [hbodies, (decode_body hauth'').1] at hsame
  obtain ⟨rfl, rfl, rfl, rfl, rfl, -⟩ := siteAuth.inj (Except.ok.inj hsame)
  exact ⟨rfl, rfl, rfl, rfl, rfl, rfl⟩

end Ctl

open BhChannel in
/-- A stream that begins plain and goes on sealed comes back exactly if every list of revoked
subscribers in it fits. -/
theorem feed_popBody {tx rx : BhChannel} {plain hidden : List Ctl} (hA : tx.aead.Lawful)
    (hpair : Paired tx rx) (hplain : ∀ m ∈ plain, m.WellFormed)
    (hhidden : ∀ m ∈ hidden, m.WellFormed) {pieces : List (List Byte)}
    (hpieces : pieces.flatten = plain.flatMap Ctl.encode ++ (tx.sealAll hidden).flatten) :
    (Framer.feed Framer.popBody {} pieces).1.broken = false ∧
      ((Framer.feed Framer.popBody {} pieces).2.take plain.length).map Ctl.decode = plain.map .ok ∧
      rx.openAll ((Framer.feed Framer.popBody {} pieces).2.drop plain.length) = hidden.map some ↔
    (∀ m ∈ plain, m.Fits 0) ∧ ∀ m ∈ hidden, m.Fits 25 := by
  set bodies := plain.map Ctl.body ++ tx.sealedBodies hidden with hbodies
  have hlength : (plain.map Ctl.body).length = plain.length := List.length_map _
  have hframes : pieces.flatten = (bodies.map id).flatMap frame := by
    rw [hpieces, sealAll_flatten, List.map_id, hbodies, List.flatMap_append, List.flatMap_map]
    rfl
  have hgood : ∀ b ∈ bodies, some b = some b ∧ id b ≠ [] ∧ (id b).length < 2 ^ 32 := by
    intro b hb
    rcases List.mem_append.mp hb with hb | hb
    · obtain ⟨m, hm, rfl⟩ := List.mem_map.mp hb
      exact ⟨rfl, Ctl.body_ne_nil (hplain m hm),
        lt_trans (Ctl.length_body_lt (hplain m hm)) (by decide)⟩
    · obtain ⟨m, hm, hlen⟩ := length_of_mem_sealedBodies hA hb
      have hlt := Ctl.length_body_lt (hhidden m hm)
      refine ⟨rfl, fun hnil => ?_, ?_⟩
      · rw [show b = [] from hnil, List.length_nil] at hlen
        omega
      · change b.length < _
        omega
  have hfits : (∀ b ∈ bodies, b.length ≤ maxControl) ↔ (∀ m ∈ plain, m.Fits 0) ∧ ∀ m ∈ hidden,
    m.Fits 25 := by
    rw [hbodies, List.forall_mem_append, List.forall_mem_map]
    refine and_congr (forall₂_congr fun m hm => (Ctl.fits_iff (hplain m hm) (Nat.zero_le _)).symm)
      ⟨?_, ?_⟩
    · intro h m hm
      obtain ⟨b, hb, hlen⟩ := exists_sealed_of_mem hA hm
      rw [Ctl.fits_iff (hhidden m hm) (Nat.le_refl _), ← hlen]
      exact h b hb
    · intro h b hb
      obtain ⟨m, hm, hlen⟩ := length_of_mem_sealedBodies hA hb
      have := (Ctl.fits_iff (hhidden m hm) (Nat.le_refl _)).mp (h m hm)
      rwa [← hlen] at this
  obtain ⟨⟨k, htake⟩, hiff⟩ := Framer.feed_frames hgood hframes
  rw [Framer.popWith_some] at htake hiff
  rw [← hfits, ← hiff]
  generalize Framer.feed Framer.popBody {} pieces = fed at htake ⊢
  obtain ⟨f, out⟩ := fed
  dsimp only at htake ⊢
  constructor
  · rintro ⟨hbroken, hdecoded, hopened⟩
    refine ⟨?_, hbroken⟩
    have hfirst := congrArg List.length hdecoded
    have hlast := congrArg List.length hopened
    rw [List.length_map, List.length_map, List.length_take] at hfirst
    rw [length_openAll, List.length_map, List.length_drop] at hlast
    have hall : out.length = bodies.length := by
      rw [hbodies, List.length_append, hlength, length_sealedBodies]
      omega
    rw [htake, List.length_take] at hall
    rw [htake]
    exact List.take_of_length_le (by omega)
  · rintro ⟨rfl, hbroken⟩
    refine ⟨hbroken, ?_, ?_⟩
    · rw [← hlength, hbodies, List.take_left, List.map_map]
      exact List.map_congr_left fun m hm => (Ctl.decode_body (hplain m hm)).1
    · rw [← hlength, hbodies, List.drop_left]
      exact hpair.openAll hA hhidden

/-- **Control messages get through** exactly if no list of revoked subscribers is too long: a
stream in whatever pieces gives back what was sent, plain or sealed.  No proper beginning of
a body decodes, and a registration's transcript determines what it covers. -/
theorem control_gets_through (ms : List Ctl) (h : ∀ m ∈ ms, m.WellFormed) :
    (∀ pieces : List (List Byte), pieces.flatten = ms.flatMap Ctl.encode →
      ((Framer.feed Framer.pop {} pieces).2 = ms ∧
        (Framer.feed Framer.pop {} pieces).1.broken = false ↔
        ∀ m ∈ ms, m.Fits 0)) ∧
    (∀ (tx rx : BhChannel) (hidden : List Ctl) (pieces : List (List Byte)), tx.aead.Lawful →
      BhChannel.Paired tx rx → (∀ m ∈ hidden, m.WellFormed) →
      pieces.flatten = ms.flatMap Ctl.encode ++ (tx.sealAll hidden).flatten →
      ((Framer.feed Framer.popBody {} pieces).1.broken = false ∧
        ((Framer.feed Framer.popBody {} pieces).2.take ms.length).map Ctl.decode = ms.map .ok ∧
        rx.openAll ((Framer.feed Framer.popBody {} pieces).2.drop ms.length) = hidden.map some ↔
      (∀ m ∈ ms, m.Fits 0) ∧ ∀ m ∈ hidden, m.Fits 25)) ∧
    (∀ m ∈ ms, (∀ p q, m.body = p ++ q → q ≠ [] → ∃ e, Ctl.decode p = .error e) ∧
      (m.Fits 0 ↔ m.body.length ≤ maxControl) ∧ (m.Fits 25 ↔ m.body.length + 25 ≤ maxControl)) ∧
    ∀ (hello hello' : Ctl) (v v' : Byte) (siteId siteId' : Str) (cells cells' : List CellInfo) (port port' : UInt16)
      (nonce nonce' proof proof' : List Byte), hello.WellFormed → hello'.WellFormed →
      (Ctl.siteAuth v siteId cells port nonce proof).WellFormed →
      (Ctl.siteAuth v' siteId' cells' port' nonce' proof').WellFormed →
      authTranscript hello (.siteAuth v siteId cells port nonce proof) =
        authTranscript hello' (.siteAuth v' siteId' cells' port' nonce' proof') →
      hello = hello' ∧ v = v' ∧ siteId = siteId' ∧ cells = cells' ∧ port = port' ∧
        nonce = nonce' := by
  refine ⟨fun pieces hpieces => Ctl.feed_pop h hpieces,
    fun tx rx hidden pieces hA hpair hhidden hpieces => feed_popBody hA hpair h hhidden hpieces,
      fun m hm => ?_, ?_⟩
  · exact ⟨(Ctl.decode_body (h m hm)).2, Ctl.fits_iff (h m hm) (Nat.zero_le _),
      Ctl.fits_iff (h m hm) (Nat.le_refl _)⟩
  · intro hello hello' v v' siteId siteId' cells cells' port port' nonce nonce' proof proof' hhello
      hhello' hauth hauth'
    exact Ctl.authTranscript_inj hhello hhello' hauth hauth'

/-- Two heartbeats and two that are sealed come a byte at a time. -/
theorem control_gets_through_heartbeats :
    let tx := BhChannel.new .plain true true
    let rx := BhChannel.new .plain false true
    let bodies :=
      (Framer.feed Framer.popBody {} (([.heartbeat 7, .heartbeat 8].flatMap Ctl.encode ++
      (tx.sealAll [.heartbeat 9, .heartbeat 10]).flatten).map fun b => [b])).2
    (bodies.take 2).map Ctl.decode = [.ok (.heartbeat 7), .ok (.heartbeat 8)] ∧
      rx.openAll (bodies.drop 2) = [some (.heartbeat 9), some (.heartbeat 10)] := by
  intro tx rx bodies
  have hwell (ns : List UInt32) : ∀ m ∈ ns.map Ctl.heartbeat, m.WellFormed := by
    intro m hm
    obtain ⟨n, -, rfl⟩ := List.mem_map.mp hm
    trivial
  have hfits (ns : List UInt32) (k : ℕ) : ∀ m ∈ ns.map Ctl.heartbeat, m.Fits k := by
    intro m hm
    obtain ⟨n, -, rfl⟩ := List.mem_map.mp hm
    trivial
  have hflat (l : List Byte) : (l.map fun b => [b]).flatten = l := by
    induction l with
    | nil => rfl
    | cons b l ih => rw [List.map_cons, List.flatten_cons, ih, List.singleton_append]
  exact (((control_gets_through [.heartbeat 7, .heartbeat 8] (hwell [7, 8])).2.1 tx rx
    [.heartbeat 9, .heartbeat 10] _
    Aead.plain_lawful ⟨rfl, rfl, rfl, rfl⟩ (hwell [9, 10]) (hflat _)).mpr
      ⟨hfits [7, 8] 0, hfits [9, 10] 25⟩).2

/-- A subscriber of fifteen digits. -/
def longImsi : Str := "310150000000001".toList

/-- The answer to a registration where 4096 such subscribers are revoked. -/
def longAccept : Ctl := .siteAccept 100 (List.replicate 4096 longImsi)

/-- It is well formed, and longer than the framer takes: the stream ends there. -/
theorem not_control_gets_through :
    validImsi longImsi = true ∧ longAccept.WellFormed ∧ maxControl < longAccept.body.length ∧
      ¬ ((Framer.feed Framer.pop {} [longAccept.encode]).2 = [longAccept] ∧
        (Framer.feed Framer.pop {} [longAccept.encode]).1.broken = false) := by
  have hlen : (toUtf8 longImsi).length = 15 := by decide
  have hwell : longAccept.WellFormed := by
    refine ⟨(List.length_replicate ..).le, fun imsi hi => ?_⟩
    rw [List.eq_of_mem_replicate hi, ShortText, hlen]
    decide
  have hsum :
    ((List.replicate 4096 longImsi).map fun imsi => 1 + (toUtf8 imsi).length).sum = 65536 := by
    rw [List.map_replicate, hlen, List.sum_replicate_nat]
  have hbody : longAccept.body.length = 65541 := by
    rw [longAccept, Ctl.length_body_siteAccept hwell, hsum]
  refine ⟨by decide, hwell, by rw [hbody]; decide, fun h => ?_⟩
  have hpieces : [longAccept.encode].flatten = [longAccept].flatMap Ctl.encode := by
    rw [List.flatten_singleton, List.flatMap_singleton]
  have hfits :=
    (Ctl.feed_pop (fun m hm => by rw [List.mem_singleton.mp hm]; exact hwell) hpieces).mp h
    longAccept
    List.mem_cons_self
  rw [Ctl.fits_iff hwell (Nat.zero_le _), hbody] at hfits
  exact absurd hfits (by decide)

end EvansComputer.Cell
