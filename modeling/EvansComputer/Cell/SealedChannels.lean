import EvansComputer.Cell.SealedLink
import Mathlib.Data.List.Range

/-!
# The three sealed channels

The tunnel and the control channel of a site, and the air cipher of a phone, as
ends of a link.  Each keeps `Endpoint.Laws`: the tunnel and the air cipher with a
window of 64 counters, the control channel with the next counter only.

The backhaul puts its whole counter on the wire.  The air cipher puts 32 bits of it
there and into the nonce, so its counter goes up to 2⁶⁴ while its nonces come round
again after 2³² frames.
-/

namespace EvansComputer.Cell

/-- A tunnel channel: datagrams. -/
def tunnel : Endpoint BhChannel Unit where
  sealing ch _ m := ch.sealing [sealedTunnel, 0, 0, 0] m
  «seal» ch _ m := ch.sealTunnel m
  counter b := BhChannel.counterOf 4 b
  query ch _ b := ⟨nonce ch.rxDir (BhChannel.counterOf 4 b), b.drop 12, ch.openAad 4 b⟩
  «open» ch _ b := ch.openTunnel b

/-- A control channel: sealed bodies, without the length in front of them. -/
def control : Endpoint BhChannel Unit where
  sealing ch _ m := ch.sealing [sealedCtl] m
  «seal» ch _ m := ((ch.sealCtl m).1, (ch.sealCtl m).2.drop 4)
  counter b := BhChannel.counterOf 1 b
  query ch _ b := ⟨nonce ch.rxDir (BhChannel.counterOf 1 b), b.drop 9, ch.openAad 1 b⟩
  «open» ch _ b := ch.openCtl b

/-- A radio channel: frames from one radio address to another. -/
def air : Endpoint AirCipher (UInt32 × UInt32) where
  sealing ch x m := ch.sealing x.1 x.2 m
  «seal» ch x m := ch.seal x.1 x.2 m
  counter b := ((AirCipher.parse b).map fun f => f.2.2.1.toUInt64).getD 0
  query ch x b :=
    match AirCipher.parse b with
    | none => ⟨[], [], []⟩
    | some (_, epoch, c, rest) =>
      ⟨nonce ch.rxDir c.toUInt64, rest, AirCipher.aad epoch c x.1 x.2 ch.rxDir⟩
  «open» ch x b := ch.open x.1 x.2 b

/-! ## Opening and sealing on the backhaul -/

namespace BhChannel

variable {ch tx rx : BhChannel} {n : ℕ} {b m : List Byte} {err : CryptoError}

/-- Whether a receiver takes a counter. -/
def fresh (ch : BhChannel) (c : UInt64) : Bool :=
  if ch.strict then c = ch.rxNext else ch.rx.check c

theorem rxDir_eq (ch : BhChannel) : ch.rxDir = ch.txDir.other := by
  unfold rxDir
  cases ch.txDir <;> rfl

theorem openWith_eq (ch : BhChannel) (n : ℕ) (b : List Byte) :
    ch.openWith n b =
      if b.length < n + 8 + 16 then ch.reject .malformed
      else if !ch.fresh (counterOf n b) then ch.reject .replay
      else match ch.aead.decrypt (nonce ch.rxDir (counterOf n b)) (b.drop (n + 8))
          (ch.openAad n b) with
        | none => ch.reject .tag
        | some pt =>
          if ch.strict then ({ ch with rxNext := counterOf n b + 1 }, .ok pt)
          else ({ ch with rx := ch.rx.accept (counterOf n b) }, .ok pt) := rfl

/-- What opening comes to: a rejection that changes nothing else, or a fresh counter
under which the cipher had an answer. -/
theorem openWith_cases (ch : BhChannel) (n : ℕ) (b : List Byte) :
    (∃ err, ch.openWith n b = ch.reject err) ∨
      ∃ pt, ch.fresh (counterOf n b) = true ∧
        ch.aead.decrypt (nonce ch.rxDir (counterOf n b)) (b.drop (n + 8))
          (ch.openAad n b) = some pt ∧
        ch.openWith n b = (if ch.strict then { ch with rxNext := counterOf n b + 1 }
          else { ch with rx := ch.rx.accept (counterOf n b) }, .ok pt) := by
  rw [openWith_eq]
  by_cases hlen : b.length < n + 8 + 16
  · exact .inl ⟨.malformed, if_pos hlen⟩
  · rw [if_neg hlen]
    cases hfresh : ch.fresh (counterOf n b) with
    | false => exact .inl ⟨.replay, rfl⟩
    | true =>
      cases hdec : ch.aead.decrypt (nonce ch.rxDir (counterOf n b)) (b.drop (n + 8))
          (ch.openAad n b) with
      | none => exact .inl ⟨.tag, rfl⟩
      | some pt =>
        refine .inr ⟨pt, rfl, rfl, ?_⟩
        cases ch.strict <;> rfl

/-- A rejection is all that a failed open leaves. -/
theorem openWith_error (h : (ch.openWith n b).2 = .error err) :
    (ch.openWith n b).1 = { ch with rejected := ch.rejected + 1 } := by
  rcases openWith_cases ch n b with ⟨e, he⟩ | ⟨pt, -, -, hok⟩
  · rw [he]
    rfl
  · rw [hok] at h
    cases h

theorem openTunnel_cases (ch : BhChannel) (b : List Byte) :
    (∃ err, ch.openTunnel b = ch.reject err) ∨ ch.openTunnel b = ch.openWith 4 b := by
  unfold openTunnel
  split_ifs
  · exact .inl ⟨_, rfl⟩
  · exact .inr rfl

theorem openCtl_cases (ch : BhChannel) (b : List Byte) :
    (∃ err, ch.openCtl b = ch.reject err) ∨ ch.openCtl b = ch.openWith 1 b := by
  unfold openCtl
  split_ifs
  · exact .inl ⟨_, rfl⟩
  · exact .inr rfl

/-! What the pieces of a sealed message are. -/

theorem sealWith_snd (ch : BhChannel) (head m : List Byte) :
    (ch.sealWith head m).2 = head ++
    (u64ToBe ch.txCounter ++ ch.aead.encrypt (ch.sealing head m)) :=
  List.append_assoc _ _ _

theorem counterOf_append (head rest : List Byte) (c : UInt64) :
    counterOf head.length (head ++ (u64ToBe c ++ rest)) = c := by
  unfold counterOf
  rw [List.drop_left, ← length_u64ToBe c, List.take_left, u64FromBe_u64ToBe]

/-- A fresh message opens to what was sealed. -/
theorem openWith_sealWith (head : List Byte) (hA : tx.aead.Lawful) (haead : rx.aead = tx.aead)
    (hdir : rx.rxDir = tx.txDir) (hfresh : rx.fresh tx.txCounter = true) :
    (rx.openWith head.length (tx.sealWith head m).2).2 = .ok m := by
  have hlen := hA.length_encrypt (tx.sealing head m)
  have hcounter : counterOf head.length (tx.sealWith head m).2 = tx.txCounter := by
    rw [sealWith_snd, counterOf_append]
  have hhead : (head ++ u64ToBe tx.txCounter).length = head.length + 8 := by
    rw [List.length_append, length_u64ToBe]
  have haad : rx.openAad head.length (tx.sealWith head m).2 = (tx.sealing head m).aad := by
    unfold openAad sealWith
    dsimp only
    rw [← hhead, List.take_left, hdir]
    rfl
  have hct : (tx.sealWith head m).2.drop (head.length + 8)
      = tx.aead.encrypt (tx.sealing head m) := by
    unfold sealWith
    dsimp only
    rw [← hhead, List.drop_left]
  have hdec : rx.aead.decrypt (nonce rx.rxDir tx.txCounter)
      (tx.aead.encrypt (tx.sealing head m)) (tx.sealing head m).aad = some m := by
    rw [haead, hdir]
    exact hA.decrypt_encrypt (tx.sealing head m)
  have hlong : ¬ (tx.sealWith head m).2.length < head.length + 8 + 16 := by
    rw [sealWith_snd, List.length_append, List.length_append, length_u64ToBe, hlen]
    omega
  rw [openWith_eq, if_neg hlong, hcounter, hct, haad, hfresh, hdec]
  cases rx.strict <;> rfl

/-- A channel that opens a message keeps its key, its direction and its count. -/
theorem openWith_frame (ch : BhChannel) (n : ℕ) (b : List Byte) :
    (ch.openWith n b).1.aead = ch.aead ∧ (ch.openWith n b).1.txDir = ch.txDir ∧
      (ch.openWith n b).1.txCounter = ch.txCounter ∧ (ch.openWith n b).1.strict = ch.strict := by
  rcases openWith_cases ch n b with ⟨e, he⟩ | ⟨pt, -, -, hok⟩
  · rw [he]
    exact ⟨rfl, rfl, rfl, rfl⟩
  · rw [hok]
    dsimp only
    split_ifs <;> exact ⟨rfl, rfl, rfl, rfl⟩

end BhChannel

/-- An end of the backhaul with that key, which sends in that direction. -/
def BhReady (aead : Aead) (strict : Bool) (d : Dir) (ch : BhChannel) : Prop :=
  ch.aead = aead ∧ ch.txDir = d ∧ ch.strict = strict

variable {aead : Aead} {strict : Bool} {d : Dir}

theorem BhReady.reject {ch : BhChannel} (h : BhReady aead strict d ch) (err : CryptoError) :
    BhReady aead strict d (ch.reject err).1 := h

theorem BhReady.openWith {ch : BhChannel} (h : BhReady aead strict d ch) (n : ℕ) (b : List Byte) :
    BhReady aead strict d (ch.openWith n b).1 := by
  obtain ⟨haead, hdir, -, hstrict⟩ := ch.openWith_frame n b
  exact ⟨haead.trans h.1, hdir.trans h.2.1, hstrict.trans h.2.2⟩

/-- What an opened message says about the bytes it came in. -/
theorem BhReady.open_ok {ch : BhChannel} {n : ℕ} {b m : List Byte}
    (h : BhReady aead strict d ch) (hok : (ch.openWith n b).2 = .ok m) :
    aead.decrypt (nonce ch.rxDir (BhChannel.counterOf n b)) (b.drop (n + 8)) (ch.openAad n b)
        = some m ∧
      nonce ch.rxDir (BhChannel.counterOf n b) = nonce d.other (BhChannel.counterOf n b) ∧
      ch.fresh (BhChannel.counterOf n b) = true ∧
      (ch.openWith n b).1 = if strict then { ch with rxNext := BhChannel.counterOf n b + 1 }
        else { ch with rx := ch.rx.accept (BhChannel.counterOf n b) } := by
  rcases ch.openWith_cases n b with ⟨e, he⟩ | ⟨pt, hfresh, hdec, heq⟩
  · rw [he] at hok
    cases hok
  · rw [heq] at hok
    cases hok
    rw [h.1] at hdec
    rw [heq, ch.rxDir_eq, h.2.1, ← h.2.2]
    rw [ch.rxDir_eq, h.2.1] at hdec
    exact ⟨hdec, rfl, hfresh, rfl⟩

/-- The tunnel channel: a window of 64 counters. -/
def tunnelLaws (hA : aead.Lawful) : tunnel.Laws aead where
  Ready := BhReady aead false
  count ch := ch.txCounter
  wire := id
  Seen ch seen := ch.rx.Tracks seen ∧ seen.Nodup
  Fresh seen n := n ∉ seen ∧ ∀ k ∈ seen, k < n + 64
  wire_le _ := Nat.le_refl _
  nonce_sealing x m h := by
    rw [show (tunnel.sealing _ x m).nonce = nonce _ _ from rfl, h.2.1]
    rfl
  msg_sealing _ _ _ := rfl
  ready_seal _ _ h := h
  count_seal _ _ _ := rfl
  seen_seal _ _ h := h
  ready_open {d ch} x b h := by
    rcases ch.openTunnel_cases b with ⟨e, he⟩ | heq
    · exact (congrArg (fun r => BhReady aead false d r.1) he).mpr (h.reject e)
    · exact (congrArg (fun r => BhReady aead false d r.1) heq).mpr (h.openWith 4 b)
  count_open ch x b := by
    rcases ch.openTunnel_cases b with ⟨e, he⟩ | heq
    · exact congrArg (fun r => r.1.txCounter) he
    · exact (congrArg (fun r => r.1.txCounter) heq).trans (ch.openWith_frame 4 b).2.2.1
  seen_error {ch seen x b err} h herr := by
    change (ch.openTunnel b).2 = _ at herr
    change (ch.openTunnel b).1.rx.Tracks seen ∧ _
    rcases ch.openTunnel_cases b with ⟨e, he⟩ | heq
    · rw [he]
      exact h
    · rw [heq] at herr ⊢
      rw [BhChannel.openWith_error herr]
      exact h
  open_ok {d ch seen x b m} h hseen hok := by
    change (ch.openTunnel b).2 = _ at hok
    rcases ch.openTunnel_cases b with ⟨e, he⟩ | heq
    · rw [he] at hok
      cases hok
    · rw [heq] at hok
      obtain ⟨hdec, hnonce, hfresh, hres⟩ := h.open_ok hok
      have hcheck : ch.rx.check (BhChannel.counterOf 4 b) = true := by
        rw [BhChannel.fresh, h.2.2] at hfresh
        exact hfresh
      refine ⟨hdec, hnonce, hseen.1.check_iff.mp hcheck, fun hroom => ?_⟩
      change (ch.openTunnel b).1.rx.Tracks _ ∧ _
      rw [heq, hres]
      exact ⟨hseen.1.accept hcheck hroom,
        List.nodup_cons.mpr ⟨(hseen.1.check_iff.mp hcheck).1, hseen.2⟩⟩
  open_seal {d tx rx seen} x m htx hrx hseen hfresh := by
    have htake : (tx.sealTunnel m).2.take 4 = [sealedTunnel, 0, 0, 0] := rfl
    have hcheck : rx.fresh tx.txCounter = true := by
      rw [BhChannel.fresh, hrx.2.2]
      exact hseen.1.check_iff.mpr hfresh
    change (rx.openTunnel (tx.sealTunnel m).2).2 = _
    rw [BhChannel.openTunnel, if_neg (not_not.mpr htake)]
    refine BhChannel.openWith_sealWith [sealedTunnel, 0, 0, 0] (htx.1 ▸ hA)
      (hrx.1.trans htx.1.symm) ?_ hcheck
    rw [rx.rxDir_eq, hrx.2.1, Dir.other_other, htx.2.1]
  nodup_seen h := h.2

/-- The control channel: the next counter only. -/
def controlLaws (hA : aead.Lawful) : control.Laws aead where
  Ready := BhReady aead true
  count ch := ch.txCounter
  wire := id
  Seen ch seen := seen = (List.range ch.rxNext.toNat).reverse
  Fresh seen n := n = seen.length
  wire_le _ := Nat.le_refl _
  nonce_sealing x m h := by
    rw [show (control.sealing _ x m).nonce = nonce _ _ from rfl, h.2.1]
    rfl
  msg_sealing _ _ _ := rfl
  ready_seal _ _ h := h
  count_seal _ _ _ := rfl
  seen_seal _ _ h := h
  ready_open {d ch} x b h := by
    rcases ch.openCtl_cases b with ⟨e, he⟩ | heq
    · exact (congrArg (fun r => BhReady aead true d r.1) he).mpr (h.reject e)
    · exact (congrArg (fun r => BhReady aead true d r.1) heq).mpr (h.openWith 1 b)
  count_open ch x b := by
    rcases ch.openCtl_cases b with ⟨e, he⟩ | heq
    · exact congrArg (fun r => r.1.txCounter) he
    · exact (congrArg (fun r => r.1.txCounter) heq).trans (ch.openWith_frame 1 b).2.2.1
  seen_error {ch seen x b err} h herr := by
    change (ch.openCtl b).2 = _ at herr
    change seen = (List.range (ch.openCtl b).1.rxNext.toNat).reverse
    rcases ch.openCtl_cases b with ⟨e, he⟩ | heq
    · rw [he]
      exact h
    · rw [heq] at herr ⊢
      rw [BhChannel.openWith_error herr]
      exact h
  open_ok {d ch seen x b m} h hseen hok := by
    change (ch.openCtl b).2 = _ at hok
    rcases ch.openCtl_cases b with ⟨e, he⟩ | heq
    · rw [he] at hok
      cases hok
    · rw [heq] at hok
      obtain ⟨hdec, hnonce, hfresh, hres⟩ := h.open_ok hok
      have hnext : BhChannel.counterOf 1 b = ch.rxNext := by
        rw [BhChannel.fresh, h.2.2] at hfresh
        exact of_decide_eq_true hfresh
      have hcounter : control.counter b = ch.rxNext := hnext
      refine ⟨hdec, hnonce, ?_, fun hroom => ?_⟩
      · rw [hcounter, hseen, List.length_reverse, List.length_range]
      · have hsucc : (ch.rxNext + 1).toNat = ch.rxNext.toNat + 1 := by
          rw [UInt64.toNat_add, UInt64.toNat_one]
          exact Nat.mod_eq_of_lt (hcounter ▸ hroom)
        have hrx : (ch.openCtl b).1.rxNext = ch.rxNext + 1 := by
          rw [heq, hres, ← hnext]
          rfl
        change _ = (List.range (ch.openCtl b).1.rxNext.toNat).reverse
        rw [hrx, hsucc, List.range_succ, List.reverse_append, hcounter, hseen]
        rfl
  open_seal {d tx rx seen} x m htx hrx hseen hfresh := by
    have hdrop : (tx.sealCtl m).2.drop 4 = (tx.sealWith [sealedCtl] m).2 := rfl
    have hhead : (tx.sealWith [sealedCtl] m).2.head? = some sealedCtl := rfl
    have hcheck : rx.fresh tx.txCounter = true := by
      rw [hseen, List.length_reverse, List.length_range] at hfresh
      rw [BhChannel.fresh, hrx.2.2]
      exact decide_eq_true (UInt64.toNat_inj.mp hfresh)
    change (rx.openCtl ((tx.sealCtl m).2.drop 4)).2 = _
    rw [hdrop, BhChannel.openCtl, if_neg (not_not.mpr hhead)]
    refine BhChannel.openWith_sealWith [sealedCtl] (htx.1 ▸ hA)
      (hrx.1.trans htx.1.symm) ?_ hcheck
    rw [rx.rxDir_eq, hrx.2.1, Dir.other_other, htx.2.1]
  nodup_seen {ch seen} h := by
    rw [h]
    exact List.nodup_reverse.mpr List.nodup_range

/-! ## Opening and sealing on the air -/

namespace AirCipher

theorem rxDir_eq (ch : AirCipher) : ch.rxDir = ch.txDir.other := by
  unfold rxDir
  cases ch.txDir <;> rfl

/-- What opening comes to: an error that changes nothing, or a fresh counter under
which the cipher had an answer. -/
theorem open_cases (ch : AirCipher) (x : UInt32 × UInt32) (b : List Byte) :
    (∃ err, ch.open x.1 x.2 b = (ch, .error err)) ∨
      ∃ pt, ch.rx.check (air.counter b) = true ∧
        ch.aead.decrypt (air.query ch x b).nonce (air.query ch x b).ct (air.query ch x b).aad
          = some pt ∧
        (air.query ch x b).nonce = nonce ch.rxDir (air.counter b) ∧
        ch.open x.1 x.2 b = ({ ch with rx := ch.rx.accept (air.counter b) }, .ok pt) := by
  unfold «open» air
  dsimp only
  rcases hparse : parse b with _ | ⟨t, epoch, c, rest⟩
  · exact .inl ⟨_, rfl⟩
  · dsimp only [Option.map_some, Option.getD_some]
    by_cases htype : t ≠ «protected» ∨ rest.length < 16
    · exact .inl ⟨.malformed, if_pos htype⟩
    · rw [if_neg htype]
      by_cases hepoch : epoch ≠ ch.epoch
      · exact .inl ⟨.epoch, if_pos hepoch⟩
      · rw [if_neg hepoch]
        by_cases hcheck : ch.rx.check c.toUInt64 = true
        · rw [if_neg (not_not.mpr hcheck)]
          cases hdec : ch.aead.decrypt (nonce ch.rxDir c.toUInt64) rest
              (aad epoch c x.1 x.2 ch.rxDir) with
          | none => exact .inl ⟨.tag, rfl⟩
          | some pt => exact .inr ⟨pt, hcheck, rfl, rfl, rfl⟩
        · exact .inl ⟨.replay, if_pos hcheck⟩

theorem parse_seal (ch : AirCipher) (src dst : UInt32) (m : List Byte) :
    parse (ch.seal src dst m).2
      = some («protected», ch.epoch, ch.wireCounter, ch.aead.encrypt (ch.sealing src dst m)) := by
  change some (_, u32FromBe _ _ _ _, u32FromBe _ _ _ _, _) = _
  rw [u32FromBe_u32ToBe, u32FromBe_u32ToBe]
  rfl

end AirCipher

/-- An end of an air context with that key and epoch, which sends in that direction. -/
def AirReady (aead : Aead) (epoch : UInt32) (d : Dir) (ch : AirCipher) : Prop :=
  ch.aead = aead ∧ ch.epoch = epoch ∧ ch.txDir = d

/-- The air cipher: a window of 64 counters, of which 32 bits are on the wire. -/
def airLaws (hA : aead.Lawful) (epoch : UInt32) : air.Laws aead where
  Ready := AirReady aead epoch
  count ch := ch.txCounter
  wire n := n.toUInt32.toUInt64
  Seen ch seen := ch.rx.Tracks seen ∧ seen.Nodup
  Fresh seen n := n ∉ seen ∧ ∀ k ∈ seen, k < n + 64
  wire_le n := by
    rw [UInt32.toNat_toUInt64, UInt64.toNat_toUInt32]
    exact Nat.mod_le _ _
  nonce_sealing {d ch} x m h := by
    rw [show (air.sealing ch x m).nonce = nonce ch.txDir ch.wireCounter.toUInt64 from rfl, h.2.2]
    rfl
  msg_sealing _ _ _ := rfl
  ready_seal _ _ h := h
  count_seal _ _ _ := rfl
  seen_seal _ _ h := h
  ready_open {d ch} x b h := by
    rcases ch.open_cases x b with ⟨e, he⟩ | ⟨pt, -, -, -, hok⟩
    · exact (congrArg (fun r => AirReady aead epoch d r.1) he).mpr h
    · exact (congrArg (fun r => AirReady aead epoch d r.1) hok).mpr h
  count_open ch x b := by
    rcases ch.open_cases x b with ⟨e, he⟩ | ⟨pt, -, -, -, hok⟩
    · exact congrArg (fun r => r.1.txCounter) he
    · exact congrArg (fun r => r.1.txCounter) hok
  seen_error {ch seen x b err} h herr := by
    change (ch.open x.1 x.2 b).2 = _ at herr
    change (ch.open x.1 x.2 b).1.rx.Tracks seen ∧ _
    rcases ch.open_cases x b with ⟨e, he⟩ | ⟨pt, -, -, -, hok⟩
    · rw [he]
      exact h
    · rw [hok] at herr
      cases herr
  open_ok {d ch seen x b m} h hseen hok := by
    change (ch.open x.1 x.2 b).2 = _ at hok
    rcases ch.open_cases x b with ⟨e, he⟩ | ⟨pt, hcheck, hdec, hnonce, heq⟩
    · rw [he] at hok
      cases hok
    · rw [heq] at hok
      cases hok
      rw [h.1] at hdec
      refine ⟨hdec, ?_, hseen.1.check_iff.mp hcheck, fun hroom => ?_⟩
      · rw [hnonce, ch.rxDir_eq, h.2.2]
      · change (ch.open x.1 x.2 b).1.rx.Tracks _ ∧ _
        rw [heq]
        exact ⟨hseen.1.accept hcheck hroom,
          List.nodup_cons.mpr ⟨(hseen.1.check_iff.mp hcheck).1, hseen.2⟩⟩
  open_seal {d tx rx seen} x m htx hrx hseen hfresh := by
    have hcheck : rx.rx.check tx.wireCounter.toUInt64 = true := hseen.1.check_iff.mpr hfresh
    have hlen : ¬ (tx.aead.encrypt (tx.sealing x.1 x.2 m)).length < 16 := by
      have hA' : tx.aead.Lawful := htx.1 ▸ hA
      rw [hA'.length_encrypt]
      omega
    have hdir : rx.rxDir = tx.txDir := by
      rw [rx.rxDir_eq, hrx.2.2, Dir.other_other, htx.2.2]
    have hdec : rx.aead.decrypt (nonce rx.rxDir tx.wireCounter.toUInt64)
        (tx.aead.encrypt (tx.sealing x.1 x.2 m))
        (AirCipher.aad tx.epoch tx.wireCounter x.1 x.2 rx.rxDir) = some m := by
      rw [hrx.1, hdir, htx.1]
      exact hA.decrypt_encrypt ⟨_, m, _⟩
    change (rx.open x.1 x.2 (tx.seal x.1 x.2 m).2).2 = _
    unfold AirCipher.open
    rw [AirCipher.parse_seal]
    dsimp only
    rw [if_neg (not_or.mpr ⟨not_not.mpr rfl, hlen⟩),
      if_neg (not_not.mpr (htx.2.1.trans hrx.2.1.symm)),
      if_neg (not_not.mpr hcheck), hdec]
  nodup_seen h := h.2

/-! ## What the channels promise -/

/-- Both ends of a fresh tunnel channel. -/
def tunnelEnds (aead : Aead) (d : Dir) : BhChannel := BhChannel.new aead (d = .up) false

/-- Both ends of a fresh control channel. -/
def controlEnds (aead : Aead) (d : Dir) : BhChannel := BhChannel.new aead (d = .up) true

/-- Both ends of a fresh air context. -/
def airEnds (aead : Aead) (epoch : UInt32) (d : Dir) : AirCipher :=
  AirCipher.new aead epoch (d = .up)

namespace Link

theorem sound_of_tunnel (hA : aead.Lawful) {l : Link BhChannel Unit}
    (h : Reachable tunnel aead (tunnelEnds aead) l) : Sound (tunnelLaws hA) l := by
  refine h.sound (fun d => ?_) (fun _ => rfl) fun _ => ⟨ReplayWindow.tracks_default, List.nodup_nil⟩
  cases d <;> exact ⟨rfl, rfl, rfl⟩

theorem sound_of_control (hA : aead.Lawful) {l : Link BhChannel Unit}
    (h : Reachable control aead (controlEnds aead) l) : Sound (controlLaws hA) l := by
  refine h.sound (fun d => ?_) (fun _ => rfl) fun d => ?_
  · cases d <;> exact ⟨rfl, rfl, rfl⟩
  · cases d <;> rfl

theorem sound_of_air (hA : aead.Lawful) {epoch : UInt32} {l : Link AirCipher (UInt32 × UInt32)}
    (h : Reachable air aead (airEnds aead epoch) l) : Sound (airLaws hA epoch) l := by
  refine h.sound (fun d => ?_) (fun _ => rfl) fun _ => ⟨ReplayWindow.tracks_default, List.nodup_nil⟩
  cases d <;> exact ⟨rfl, rfl, rfl⟩

/-- The lower 32 bits of a small counter are the counter. -/
theorem toUInt32_toUInt64 {n : UInt64} (h : n.toNat < 2 ^ 32) : n.toUInt32.toUInt64 = n := by
  apply UInt64.toNat_inj.mp
  rw [UInt32.toNat_toUInt64, UInt64.toNat_toUInt32]
  exact Nat.mod_eq_of_lt h

/-- The nonces of an air context repeat as soon as one side has sealed more than
2³² frames. -/
theorem air_nonces_nodup_iff (hA : aead.Lawful) {epoch : UInt32}
    {l : Link AirCipher (UInt32 × UInt32)} (h : Reachable air aead (airEnds aead epoch) l) :
    l.nonces.Nodup ↔ ∀ d, (l.sent d).length ≤ 2 ^ 32 := by
  have hsound := sound_of_air hA h
  constructor
  · intro hnodup d
    by_contra hlong
    have hagain : (airLaws hA epoch).wire 0 = (airLaws hA epoch).wire 4294967296 := rfl
    refine hsound.nonce_again (d := d) (by decide) ?_ hagain hnodup
    rw [show (4294967296 : UInt64).toNat = 2 ^ 32 from rfl]
    omega
  · intro hshort
    refine hsound.nonces_nodup (2 ^ 32) hshort fun {n n'} hn hn' heq => ?_
    change n.toUInt32.toUInt64 = n'.toUInt32.toUInt64 at heq
    rwa [toUInt32_toUInt64 hn, toUInt32_toUInt64 hn'] at heq

/-- **Sealed channels deliver at most once, in order where promised.**  The backhaul
does so for as many seals as its counter admits.  An air context keeps its nonces
apart, and its receiver takes what is recent, exactly as long as neither side has
sealed more than 2³² frames.  A failed open moves no receiver. -/
theorem sealed_channels (aead : Aead) (hA : aead.Lawful) :
    (∀ l, Reachable tunnel aead (tunnelEnds aead) l →
      l.nonces.Nodup ∧ l.DeliversOnce ∧ l.AcceptsRecent tunnel) ∧
    (∀ l, Reachable control aead (controlEnds aead) l → l.nonces.Nodup ∧ l.InOrder) ∧
    (∀ epoch l, Reachable air aead (airEnds aead epoch) l →
      (l.nonces.Nodup ∧ l.DeliversOnce ∧ l.AcceptsRecent air ↔
        ∀ d, (l.sent d).length ≤ 2 ^ 32)) ∧
    (∀ (ch : BhChannel) (b : List Byte) (err : CryptoError),
      ((ch.openTunnel b).2 = .error err →
        (ch.openTunnel b).1.rxNext = ch.rxNext ∧ (ch.openTunnel b).1.rx = ch.rx) ∧
      ((ch.openCtl b).2 = .error err →
        (ch.openCtl b).1.rxNext = ch.rxNext ∧ (ch.openCtl b).1.rx = ch.rx)) ∧
    (∀ (ch : AirCipher) (src dst : UInt32) (b : List Byte) (err : CryptoError),
      (ch.open src dst b).2 = .error err → (ch.open src dst b).1.rx = ch.rx) := by
  refine ⟨fun l h => ?_, fun l h => ?_, fun epoch l h => ?_, fun ch b err => ⟨?_, ?_⟩, ?_⟩
  · have hsound := sound_of_tunnel hA h
    refine ⟨hsound.nonces_nodup UInt64.size (fun d => ?_) fun _ _ h => h,
      hsound.deliversOnce fun _ _ _ => rfl,
      hsound.acceptsRecent (fun _ _ _ => rfl) fun hn hk => ⟨hn, hk⟩⟩
    rw [← hsound.count d]
    exact Nat.le_of_lt (UInt64.toNat_lt _)
  · have hsound := sound_of_control hA h
    refine ⟨hsound.nonces_nodup UInt64.size (fun d => ?_) fun _ _ h => h,
      hsound.inOrder (fun _ _ _ => rfl) fun h => ⟨_, h⟩⟩
    rw [← hsound.count d]
    exact Nat.le_of_lt (UInt64.toNat_lt _)
  · have hsound := sound_of_air hA h
    rw [← air_nonces_nodup_iff hA h]
    refine ⟨fun hall => hall.1, fun hnodup => ?_⟩
    have hshort := (air_nonces_nodup_iff hA h).mp hnodup
    have hwire : ∀ d (n : UInt64), n.toNat < (l.sent d).length → (airLaws hA epoch).wire n = n :=
      fun d n hn => toUInt32_toUInt64 (Nat.lt_of_lt_of_le hn (hshort d))
    exact ⟨hnodup, hsound.deliversOnce hwire, hsound.acceptsRecent hwire fun hn hk => ⟨hn, hk⟩⟩
  · intro herr
    rcases ch.openTunnel_cases b with ⟨e, he⟩ | heq
    · rw [he]
      exact ⟨rfl, rfl⟩
    · rw [heq] at herr ⊢
      rw [BhChannel.openWith_error herr]
      exact ⟨rfl, rfl⟩
  · intro herr
    rcases ch.openCtl_cases b with ⟨e, he⟩ | heq
    · rw [he]
      exact ⟨rfl, rfl⟩
    · rw [heq] at herr ⊢
      rw [BhChannel.openWith_error herr]
      exact ⟨rfl, rfl⟩
  · intro ch src dst b err herr
    rcases ch.open_cases (src, dst) b with ⟨e, he⟩ | ⟨pt, -, -, -, hok⟩
    · rw [he]
    · rw [hok] at herr
      cases herr

/-- The arrival of a site's first datagram. -/
def arrival : LinkEvent Unit :=
  .deliver .up () ((tunnelEnds .plain .up).sealTunnel [0xE1, 7]).2

/-- A datagram that comes twice. -/
def echoed : List (LinkEvent Unit) := [.seal .up () [0xE1, 7], arrival, arrival]

theorem echoed_reachable :
    Reachable tunnel .plain (tunnelEnds .plain)
      ((Link.new (tunnelEnds .plain)).run tunnel echoed) := by
  have hsealed : Reachable tunnel .plain (tunnelEnds .plain)
      ((Link.new (tunnelEnds .plain)).run tunnel (echoed.take 1)) := by
    refine .step (.seal .up () [0xE1, 7]) .new ?_
    exact (by decide : 0 + 1 < 2 ^ 64)
  have hopened : Reachable tunnel .plain (tunnelEnds .plain)
      ((Link.new (tunnelEnds .plain)).run tunnel (echoed.take 2)) := by
    refine .step arrival hsealed ?_
    intro m hm
    refine ⟨.up, _, List.mem_singleton_self _, ?_⟩
    rw [← Option.some.inj hm]
    rfl
  refine .step arrival hopened ?_
  intro m hm
  refine ⟨.up, _, List.mem_singleton_self _, ?_⟩
  rw [← Option.some.inj hm]
  rfl

/-- It is opened once. -/
theorem sealed_channels_echoed :
    (((Link.new (tunnelEnds .plain)).run tunnel echoed).opened .up).map (·.msg) = [[0xE1, 7]] ∧
      ((Link.new (tunnelEnds .plain)).run tunnel echoed).DeliversOnce :=
  ⟨rfl, ((sealed_channels .plain Aead.plain_lawful).1 _ echoed_reachable).2.1⟩

/-- A phone that seals one empty item list after the other. -/
def chatter (n : ℕ) : List (LinkEvent (UInt32 × UInt32)) := List.replicate n (.seal .up (1, 2) [])

theorem chatter_reachable {n : ℕ} (hn : n < UInt64.size) :
    Reachable air .plain (airEnds .plain 0) ((Link.new (airEnds .plain 0)).run air (chatter n)) ∧
      (((Link.new (airEnds .plain 0)).run air (chatter n)).sent .up).length = n := by
  induction n with
  | zero => exact ⟨.new, rfl⟩
  | succ n ih =>
    obtain ⟨hreach, hlen⟩ := ih (by omega)
    have hrun : (Link.new (airEnds .plain 0)).run air (chatter (n + 1))
        = ((Link.new (airEnds .plain 0)).run air (chatter n)).step air (.seal .up (1, 2) []) := by
      rw [chatter, List.replicate_succ', run, List.foldl_append]
      rfl
    rw [hrun]
    refine ⟨hreach.step _ ?_, ?_⟩
    · change _ + 1 < UInt64.size
      rw [hlen]
      exact hn
    · rw [sent_seal, List.length_append, hlen]
      rfl

/-- A phone that has sealed one frame more than 2³² has used a nonce twice. -/
theorem air_nonces_repeat :
    Reachable air .plain (airEnds .plain 0)
        ((Link.new (airEnds .plain 0)).run air (chatter (2 ^ 32 + 1))) ∧
      ¬ ((Link.new (airEnds .plain 0)).run air (chatter (2 ^ 32 + 1))).nonces.Nodup := by
  obtain ⟨hreach, hlen⟩ := chatter_reachable (n := 2 ^ 32 + 1) (by decide)
  refine ⟨hreach, fun hnodup => ?_⟩
  have hle := (air_nonces_nodup_iff Aead.plain_lawful hreach).mp hnodup .up
  rw [hlen] at hle
  exact absurd hle (by decide)

end EvansComputer.Cell.Link
