import EvansComputer.Cell.AirMessages
import EvansComputer.Cell.WireReads

/-!
# Air messages come back as they were sent

What is sound is what the types of the source and the checks of the readers ask for.  What
fits is what a writer writes whole: sixteen neighbours or measured cells, thirty-two paged
phones.  A message that is both comes back, and cut or lengthened it is refused.

The readers take a list of any length that its one-byte count can say, so what they find is
sound but need not fit.  A list of items comes back if it is not empty and the `u16` before
each item holds the length of its body; for data that is 65529 bytes, for six more stand
before them.
-/

namespace EvansComputer.Cell

open Text

variable {b : List Byte} {it : Item}

/-! ## Fields -/

theorem toUtf8_of_fromUtf8 {s : Str} (h : fromUtf8 b = some s) : toUtf8 s = b := by
  obtain ⟨a, ha, rfl⟩ := Option.map_eq_some_iff.mp h
  have hget : (ByteArray.mk b.toArray).utf8Decode?.get (by rw [ha]; rfl) = a := by
    simp only [ha, Option.get_some]
  have henc : a.toList.utf8Encode = ByteArray.mk b.toArray := by
    rw [← hget]
    exact ByteArray.utf8Encode_get_utf8Decode?
  have hdata := congrArg (fun x : ByteArray => x.data.toList) henc
  rwa [List.utf8Encode, List.data_toByteArray] at hdata

namespace Reader

theorem reads_i8 (x : Int8) : Reads i8 x (i8ToBe x) := by
  have h := (reads_u8 x.toUInt8).map (g := UInt8.toInt8)
  rwa [Int8.toInt8_toUInt8] at h

theorem reads_i16 (x : Int16) : Reads i16 x (i16ToBe x) := by
  have h := (reads_u16 x.toUInt16).map (g := UInt16.toInt16)
  rwa [Int16.toInt16_toUInt16] at h

theorem length_putStr8_le (s : Str) : (putStr8 s).length ≤ 256 := by
  unfold putStr8
  dsimp only
  rw [List.length_cons, List.length_take]
  omega

theorem take_eq_ok {n : ℕ} {s rest : List Byte} (h : take n b = .ok (s, rest)) :
    b = s ++ rest ∧ s.length = n := by
  unfold take at h
  cases hsplit : splitOff n b with
  | none =>
    rw [hsplit] at h
    cases h
  | some r =>
    rw [hsplit] at h
    obtain ⟨rfl, rfl⟩ := Prod.mk.inj (Except.ok.inj h)
    exact splitOff_eq_some hsplit

theorem finds_take (n : ℕ) : Finds (take n) fun s => s.length = n := fun _ _ _ h => (take_eq_ok h).2

theorem finds_str8 : Finds str8 ShortText := by
  refine (Finds.any u8).bind fun n _ => (finds_take n.toNat).bind fun s hs => ?_
  cases ht : fromUtf8 s with
  | none => exact Finds.fails fun b => ⟨_, rfl⟩
  | some t =>
    refine Finds.pure ?_
    have hn := n.toNat_lt
    rw [ShortText, toUtf8_of_fromUtf8 ht, hs]
    omega

theorem finds_count8 (minSize : ℕ) : Finds (count8 minSize) (· ≤ 255) := by
  refine (Finds.any u8).bind fun n _ => (Finds.any left).bind fun k _ => ?_
  refine Finds.check (fun b => ⟨_, rfl⟩) fun _ => Finds.pure ?_
  have hn := n.toNat_lt
  omega

theorem finds_many {α : Type} {item : Reader α} {P : α → Prop} (h : Finds item P) (n : ℕ) :
    Finds (many item n) fun l => l.length = n ∧ ∀ a ∈ l, P a := by
  induction n with
  | zero => exact Finds.pure ⟨rfl, fun _ ha => nomatch ha⟩
  | succ n ih =>
    refine h.bind fun a ha => ih.bind fun l hl => Finds.pure ⟨?_, ?_⟩
    · rw [List.length_cons, hl.1]
    · intro b hb
      rcases List.mem_cons.mp hb with rfl | hb
      · exact ha
      · exact hl.2 b hb

end Reader

open Cell.Reader

theorem RachCause.reads (cause : RachCause) : Reads RachCause.read cause [cause.code] := by
  refine ((reads_u8 cause.code).bind (y := cause) (c := []) ?_).cast rfl
  cases cause <;> exact Reads.pure _

theorem Neighbour.reads (n : Neighbour) : Reads Neighbour.read n n.write := by
  refine ((reads_u32 _).bind <| (reads_u8 _).bind <| (reads_u8 _).bind <| (reads_u8 _).bind <|
    Reads.pure n).cast ?_
  simp only [Neighbour.write, List.cons_append, List.nil_append, List.append_nil]

theorem Measurement.reads (m : Measurement) : Reads Measurement.read m m.write := by
  refine ((reads_u32 _).bind <| (reads_u8 _).bind <| (reads_u8 _).bind <| (reads_i16 _).bind <|
    (reads_i16 _).bind <| (reads_u8 _).bind <| Reads.pure m).cast ?_
  simp only [Measurement.write, List.append_assoc, List.cons_append, List.nil_append,
    List.append_nil]

theorem Measurement.length_write (m : Measurement) : m.write.length = 11 := rfl

theorem Grant.finds : Finds Grant.read Grant.WellFormed := by
  refine (Finds.any _).bind fun fromSlot _ => (Finds.any _).bind fun toSlot _ =>
    (Finds.any _).bind fun period _ =>
    (Finds.any _).bind fun offset _ => (Finds.any _).bind fun len _ =>
      (Finds.any _).bind fun subchannel _ =>
    (Finds.any _).bind fun cqi _ => Finds.check (fun b => ⟨_, rfl⟩) fun h => Finds.pure ?_
  simp only [not_or] at h
  exact ⟨h.1, h.2.1, UInt16.not_lt.mp h.2.2.1, UInt16.not_le.mp h.2.2.2.1,
    UInt8.not_lt.mp h.2.2.2.2.1,
    UInt64.not_lt.mp h.2.2.2.2.2⟩

theorem ImsInfo.finds : Finds ImsInfo.read ImsInfo.WellFormed := by
  refine (Finds.any _).bind fun ip _ => (Finds.any _).bind fun prefixLen _ =>
    (Finds.any _).bind fun pcscf _ =>
    finds_str8.bind fun domain hdomain => finds_str8.bind fun msisdn hmsisdn =>
    Finds.check (fun b => ⟨_, rfl⟩) fun h => Finds.pure ?_
  exact ⟨UInt8.not_lt.mp h, hdomain, hmsisdn⟩

/-- A whole byte string that is one value has been read as this value. -/
theorem exists_of_run_end {α : Type} {r : Reader α} {x : α}
    (h : Reader.run (do
      let a ← r
      Reader.end
      return a) b = .ok x) : ∃ rest, r b = .ok (x, rest) := by
  unfold Reader.run at h
  cases hall : (r >>= fun a => Reader.end >>= fun _ => pure a) b with
  | error e =>
    rw [hall] at h
    cases h
  | ok s =>
    rw [hall] at h
    obtain ⟨⟨a, rest⟩, ha, hend⟩ := exists_of_bind_eq_ok hall
    obtain ⟨⟨_, rest'⟩, -, hpure⟩ := exists_of_bind_eq_ok hend
    cases hpure
    cases h
    exact ⟨rest, ha⟩

theorem run_end_of_more {α : Type} {r : Reader α} {x : α} {c : List Byte} (h : Reads r x b)
    (hc : c ≠ []) :
    Reader.run (do
      let a ← r
      Reader.end
      return a) (b ++ c) = .error .trailing := by
  have hend : Reader.end c = .error .trailing := if_neg hc
  have hall : (r >>= fun a => Reader.end >>= fun _ => pure a) (b ++ c) = .error .trailing := by
    rw [run_bind, h.whole]
    change (Reader.end c).bind _ = _
    rw [hend]
    rfl
  unfold Reader.run
  rw [hall]

/-! ## Plain messages -/

namespace Plain

/-- What the types of the fields and the checks of the readers ask for. -/
def Sound : Plain → Prop
  | sysInfo s => s.version = airVersion ∧ ShortText s.carrier ∧ 1 ≤ s.rachSub ∧ s.rachSub ≤ 4
  | rachResponse _ _ grant => grant.WellFormed
  | attachRequest imsi carrier => ShortText imsi ∧ ShortText carrier
  | authChallenge rand => rand.length = 16
  | authResponse res => res.length = 16
  | securityModeCommand _ mac => mac.length = 16
  | serviceRequest _ _ mac => mac.length = 16
  | _ => True

/-- The lists of a message have at most so many neighbours and so many phones. -/
def ListsWithin (neighbours tmsis : ℕ) : Plain → Prop
  | sysInfo s => s.neighbours.length ≤ neighbours
  | paging l => l.length ≤ tmsis
  | _ => True

/-- A message that is sound and written whole. -/
def WellFormed (m : Plain) : Prop := m.Sound ∧ m.ListsWithin 16 32

theorem reads_sysInfo {s : SysInfo} (h : (sysInfo s).WellFormed) :
    Reads (fields 0x01) (sysInfo s)
      (s.version :: (putStr8 s.carrier ++ (u32ToBe s.cellId ++ (u16ToBe s.area ++
      (s.flags :: s.profile :: s.channel :: (i8ToBe s.txPowerDbm ++ (s.ulMask :: s.rachSub ::
        (UInt8.ofNat s.neighbours.length :: s.neighbours.flatMap Neighbour.write)))))))) := by
  obtain ⟨⟨hversion, hcarrier, hrach⟩, hfits⟩ := h
  have hfits' : s.neighbours.length ≤ 16 := hfits
  have hlen : s.neighbours.length * max 7 1 ≤ (s.neighbours.flatMap Neighbour.write).length :=
    Ctl.length_flatMap_le fun _ _ => Nat.le_refl _
  exact (reads_u8 s.version).bind <| Reads.check (not_not.mpr hversion) <|
    (reads_str8 hcarrier).bind <|
    (reads_u32 s.cellId).bind <| (reads_u16 s.area).bind <| (reads_u8 s.flags).bind <|
      (reads_u8 s.profile).bind <|
    (reads_u8 s.channel).bind <| (reads_i8 s.txPowerDbm).bind <| (reads_u8 s.ulMask).bind <|
    (reads_u8 s.rachSub).bind <| Reads.check (not_not.mpr hrach) <|
    reads_count8 (by omega) hlen (reads_many fun n _ => n.reads).map

theorem reads_paging {tmsis : List UInt32} (h : tmsis.length ≤ 32) :
    Reads (fields 0x09) (paging tmsis) (UInt8.ofNat tmsis.length :: tmsis.flatMap u32ToBe) := by
  have hlen : tmsis.length * max 4 1 ≤ (tmsis.flatMap u32ToBe).length :=
    Ctl.length_flatMap_le fun _ _ => Nat.le_refl _
  exact reads_count8 (by omega) hlen (reads_many fun t _ => reads_u32 t).map

/-- **A plain message that is well formed comes back from its fields.** -/
theorem reads_fields {m : Plain} (h : m.WellFormed) :
    ∃ t, m.encode.head? = some t ∧ Reads (fields t) m m.encode.tail := by
  cases m with
  | sysInfo s =>
    have hfits : s.neighbours.length ≤ 16 := h.2
    refine ⟨0x01, rfl, (reads_sysInfo h).cast ?_⟩
    simp only [encode, Nat.min_eq_left hfits, List.take_of_length_le hfits, List.append_assoc,
      List.cons_append,
      List.nil_append, List.tail_cons]
  | rachRequest nonce cause => exact ⟨0x02, rfl, (reads_u32 nonce).bind (RachCause.reads cause).map⟩
  | rachResponse nonce ueId grant =>
    refine ⟨0x03, rfl,
      ((reads_u32 nonce).bind <| (reads_u16 ueId).bind (Grant.reads h.1).map).cast ?_⟩
    simp only [encode, List.append_assoc, List.cons_append, List.tail_cons]
  | attachRequest imsi carrier => exact ⟨0x04, rfl, (reads_str8 h.1.1).bind (reads_str8 h.1.2).map⟩
  | authChallenge rand => exact ⟨0x05, rfl, (reads_take h.1).map⟩
  | authResponse res => exact ⟨0x06, rfl, (reads_take h.1).map⟩
  | attachReject cause => exact ⟨0x07, rfl, (Cause.reads cause).map⟩
  | securityModeCommand epoch mac => exact ⟨0x08, rfl, (reads_u32 epoch).bind (reads_take h.1).map⟩
  | paging tmsis =>
    have hfits : tmsis.length ≤ 32 := h.2
    refine ⟨0x09, rfl, (reads_paging hfits).cast ?_⟩
    simp only [encode, Nat.min_eq_left hfits, List.take_of_length_le hfits, List.tail_cons]
  | serviceRequest tmsi count mac =>
    refine ⟨0x0A, rfl,
      ((reads_u32 tmsi).bind <| (reads_u32 count).bind (reads_take h.1).map).cast ?_⟩
    simp only [encode, List.append_assoc, List.cons_append, List.tail_cons]

theorem reads_encode {m : Plain} (h : m.WellFormed) : Reads (u8 >>= fields) m m.encode := by
  obtain ⟨t, hhead, hfields⟩ := reads_fields h
  exact ((reads_u8 t).bind hfields).cast (List.cons_head?_tail hhead)

theorem decode_eq (b : List Byte) : decode b = Reader.run (do
    let m ← u8 >>= fields
    Reader.end
    return m) b := by
  rw [bind_assoc]
  rfl

theorem finds_fields (t : Byte) : Finds (fields t) fun m => m.Sound ∧ m.ListsWithin 255 255 := by
  unfold fields
  split
  · refine (Finds.any _).bind fun version _ => Finds.check (fun b => ⟨_, rfl⟩) fun hversion =>
      finds_str8.bind fun carrier hcarrier => (Finds.any _).bind fun cellId _ =>
        (Finds.any _).bind fun area _ =>
      (Finds.any _).bind fun flags _ => (Finds.any _).bind fun profile _ =>
        (Finds.any _).bind fun channel _ =>
      (Finds.any _).bind fun txPowerDbm _ => (Finds.any _).bind fun ulMask _ =>
        (Finds.any _).bind fun rachSub _ =>
      Finds.check (fun b => ⟨_, rfl⟩) fun hrach => (finds_count8 7).bind fun n hn =>
      (finds_many (Finds.any _) n).bind fun l hl => Finds.pure ?_
    exact ⟨⟨not_not.mp hversion, hcarrier, not_not.mp hrach⟩, hl.1.le.trans hn⟩
  · exact (Finds.any _).bind fun _ _ => (Finds.any _).bind fun _ _ => Finds.pure ⟨trivial, trivial⟩
  · exact (Finds.any _).bind fun _ _ => (Finds.any _).bind fun _ _ => Grant.finds.bind fun g hg =>
      Finds.pure ⟨hg, trivial⟩
  · exact finds_str8.bind fun _ himsi => finds_str8.bind fun _ hcarrier =>
      Finds.pure ⟨⟨himsi, hcarrier⟩, trivial⟩
  · exact (finds_take 16).bind fun _ h => Finds.pure ⟨h, trivial⟩
  · exact (finds_take 16).bind fun _ h => Finds.pure ⟨h, trivial⟩
  · exact (Finds.any _).bind fun _ _ => Finds.pure ⟨trivial, trivial⟩
  · exact (Finds.any _).bind fun _ _ => (finds_take 16).bind fun _ h => Finds.pure ⟨h, trivial⟩
  · exact (finds_count8 4).bind fun n hn => (finds_many (Finds.any _) n).bind fun l hl =>
      Finds.pure ⟨trivial, hl.1.le.trans hn⟩
  · exact (Finds.any _).bind fun _ _ => (Finds.any _).bind fun _ _ =>
      (finds_take 16).bind fun _ h =>
      Finds.pure ⟨h, trivial⟩
  · exact Finds.fails fun b => ⟨_, rfl⟩

end Plain

/-! ## Items -/

namespace Item

/-- What the types of the fields and the checks of the readers ask for. -/
def Sound : Item → Prop
  | attachAccept _ prefixLen _ _ _ _ _ => prefixLen ≤ 32
  | grant g => g.WellFormed
  | handoverCommand _ _ _ _ _ _ g => g.WellFormed
  | data _ idx count _ => idx < count
  | measGap fromSlot toSlot => fromSlot ≤ toSlot
  | ims i => i.WellFormed
  | _ => True

/-- A report has at most so many cells, a segment so many bytes. -/
def Within (cells bytes : ℕ) : Item → Prop
  | measurementReport l => l.length ≤ cells
  | data _ _ _ b => b.length ≤ bytes
  | _ => True

/-- An item that is sound, with what a report and a `u16` length can say. -/
def WellFormed (it : Item) : Prop := it.Sound ∧ it.Within 16 65535

theorem read_of_reads {t : Byte} (h : Reads (fields t) it b) : read t b = .ok it :=
  run_end_of_reads h

theorem reads_measurementReport {cells : List Measurement} (h : cells.length ≤ 16) :
    Reads (fields 0x25) (measurementReport cells)
      (UInt8.ofNat cells.length :: cells.flatMap Measurement.write) := by
  have hlen : cells.length * max 11 1 ≤ (cells.flatMap Measurement.write).length :=
    Ctl.length_flatMap_le fun _ _ => Nat.le_refl _
  exact reads_count8 (by omega) hlen (reads_many fun m _ => m.reads).map

theorem fields_data {seq : UInt32} {idx count : Byte} {bytes : List Byte} (h : idx < count) :
    fields 0x2B (u32ToBe seq ++ ([idx] ++ ([count] ++ bytes))) = .ok
      (data seq idx count bytes, []) := by
  have hcheck : ¬ (count = 0 ∨ idx ≥ count) := by
    rintro (hz | hz)
    · rw [hz] at h
      exact UInt8.not_lt_zero h
    · exact UInt8.not_le.mpr h hz
  change (u32 >>= _) _ = _
  rw [run_bind, (reads_u32 seq).whole]
  change (u8 >>= _) _ = _
  rw [run_bind, (reads_u8 idx).whole]
  change (u8 >>= _) _ = _
  rw [run_bind, (reads_u8 count).whole]
  change (if count = 0 ∨ idx ≥ count then _ else _ : Reader Item) _ = _
  rw [if_neg hcheck]
  rfl

theorem read_data {seq : UInt32} {idx count : Byte} {bytes : List Byte} (h : idx < count) :
    read 0x2B (u32ToBe seq ++ [idx, count] ++ bytes) = .ok (data seq idx count bytes) := by
  have hall : (fields 0x2B >>= fun it => Reader.end >>= fun _ => pure it)
    (u32ToBe seq ++ [idx, count] ++ bytes) =
      .ok (data seq idx count bytes, []) := by
    rw [run_bind, List.append_assoc]
    exact congrArg (Except.bind · _) (fields_data h)
  unfold read Reader.run
  rw [hall]

/-- **The body of an item is read back.** -/
theorem read_body {n : ℕ} (h : it.Sound) (hw : it.Within 16 n) :
    read it.body.1 it.body.2 = .ok it := by
  cases it with
  | securityModeComplete => exact read_of_reads (Reads.pure _)
  | attachAccept ip prefixLen gateway dns mtu tmsi session =>
    refine read_of_reads (((reads_ip ip).bind <| (reads_u8 prefixLen).bind <|
      Reads.check (UInt8.not_lt.mpr h) <| (reads_ip gateway).bind <| (reads_ip dns).bind <|
        (reads_u16 mtu).bind <|
      (reads_u32 tmsi).bind (reads_u32 session).map).cast ?_)
    simp only [body, List.append_assoc]
  | attachComplete => exact read_of_reads (Reads.pure _)
  | grant g => exact read_of_reads (Grant.reads h).map
  | bufferStatus bytes => exact read_of_reads (reads_u32 bytes).map
  | measurementReport cells =>
    have hfits : cells.length ≤ 16 := hw
    refine read_of_reads ((reads_measurementReport hfits).cast ?_)
    simp only [body, Nat.min_eq_left hfits, List.take_of_length_le hfits]
  | handoverCommand cellId addr profile channel epoch ueId g =>
    refine read_of_reads
      (((reads_u32 cellId).bind <| (reads_u32 addr).bind <| (reads_u8 profile).bind <|
      (reads_u8 channel).bind <| (reads_u32 epoch).bind <|
        (reads_u16 ueId).bind (Grant.reads h).map).cast ?_)
    simp only [body, List.append_assoc, List.cons_append, List.nil_append]
  | handoverConfirm => exact read_of_reads (Reads.pure _)
  | detach cause => exact read_of_reads (Cause.reads cause).map
  | detachAccept => exact read_of_reads (Reads.pure _)
  | release cause => exact read_of_reads (Cause.reads cause).map
  | data seq idx count bytes => exact read_data h
  | measGap fromSlot toSlot =>
    exact read_of_reads ((reads_u64 fromSlot).bind <| (reads_u64 toSlot).bind <|
      Reads.check (UInt64.not_lt.mpr h) (Reads.pure _))
  | keepalive => exact read_of_reads (Reads.pure _)
  | ims i => exact read_of_reads (ImsInfo.reads h).map
  | bearerSetup b => exact read_of_reads b.reads.map
  | bearerRelease id => exact read_of_reads (reads_u8 id).map
  | idleRequest => exact read_of_reads (Reads.pure _)

/-! ### What stands before an item -/

/-- The type of an item and its body. -/
def header : Reader (Byte × List Byte) := do return (← u8, ← blob16)

theorem nextItem_eq (out : List Item) (b : List Byte) :
    nextItem out b = (header b).bind fun s => (read s.1.1 s.1.2).bind fun it => .ok
      (out ++ [it], s.2) := rfl

theorem length_body_le (h : it.Sound) (hw : it.Within 16 65529) : it.body.2.length ≤ 65535 := by
  cases it with
  | measurementReport cells =>
    have htake := List.length_take_le 16 cells
    have hcells :
      ((cells.take 16).flatMap Measurement.write).length = (cells.take 16).length * 11 := by
      simp only [List.length_flatMap, Measurement.length_write, List.map_const',
        List.sum_replicate_nat]
    change ((cells.take 16).flatMap Measurement.write).length + 1 ≤ 65535
    omega
  | ims i =>
    have hdomain := length_putStr8_le i.domain
    have hmsisdn := length_putStr8_le i.msisdn
    change (i.ip.bytes ++ [i.prefixLen] ++ i.pcscf.bytes ++ putStr8 i.domain ++
      putStr8 i.msisdn).length ≤ 65535
    rw [List.length_append, List.length_append]
    change 9 + _ + _ ≤ 65535
    omega
  | data seq idx count bytes =>
    have hbytes : bytes.length ≤ 65529 := hw
    change (u32ToBe seq ++ [idx, count] ++ bytes).length ≤ 65535
    rw [List.length_append, List.length_append, length_u32ToBe]
    change 4 + 2 + bytes.length ≤ 65535
    omega
  | _ => exact Nat.le_of_ble_eq_true rfl

theorem reads_header (t : Byte) (h : b.length ≤ 65535) :
    Reads header (t, b) (t :: (u16ToBe (UInt16.ofNat b.length) ++ b)) := by
  have hn : (UInt16.ofNat b.length).toNat = b.length := by
    rw [UInt16.toNat_ofNat']
    omega
  exact (reads_u8 t).bind (((reads_u16 _).bind (reads_take hn.symm)).map (g := fun b => (t, b)))

/-- **One item of a list is read back**, whatever stands behind it. -/
theorem nextItem_write (h : it.Sound) (hw : it.Within 16 65529) (out : List Item)
    (rest : List Byte) :
    nextItem out (it.write ++ rest) = .ok (out ++ [it], rest) := by
  have hheader := (reads_header it.body.1 (length_body_le h hw)).whole rest
  rw [nextItem_eq, show header (it.write ++ rest) = .ok (it.body, rest) from hheader]
  change (read it.body.1 it.body.2).bind _ = _
  rw [read_body h hw]
  rfl

/-! ### What is found in a list of items -/

/-- A segment that is found leaves six bytes of its body to its other fields. -/
theorem length_of_fields_data {rest : List Byte} (h : fields 0x2B b = .ok (it, rest)) :
    ∃ seq idx count bytes, it = data seq idx count bytes ∧ idx < count ∧
      bytes.length + 6 = b.length := by
  obtain ⟨⟨seq, b₁⟩, hseq, h⟩ := exists_of_bind_eq_ok h
  obtain ⟨⟨idx, b₂⟩, hidx, h⟩ := exists_of_bind_eq_ok h
  obtain ⟨⟨count, b₃⟩, hcount, h⟩ := exists_of_bind_eq_ok h
  obtain ⟨⟨s₁, b₁'⟩, hs₁, h₁⟩ := exists_of_bind_eq_ok hseq
  obtain ⟨⟨s₂, b₂'⟩, hs₂, h₂⟩ := exists_of_bind_eq_ok hidx
  obtain ⟨⟨s₃, b₃'⟩, hs₃, h₃⟩ := exists_of_bind_eq_ok hcount
  cases h₁
  cases h₂
  cases h₃
  dsimp only at h
  split_ifs at h with hcheck
  · cases h
  · cases h
    obtain ⟨rfl, hlen₁⟩ := take_eq_ok hs₁
    obtain ⟨rfl, hlen₂⟩ := take_eq_ok hs₂
    obtain ⟨rfl, hlen₃⟩ := take_eq_ok hs₃
    refine ⟨_, _, _, _, rfl, UInt8.not_le.mp fun hle => hcheck (.inr hle), ?_⟩
    rw [List.length_append, List.length_append, List.length_append]
    omega

theorem finds_fields {t : Byte} (ht : t ≠ 0x2B) (k : ℕ) :
    Finds (fields t) fun it => it.Sound ∧ it.Within 255 k := by
  unfold fields
  split
  · exact Finds.pure ⟨trivial, trivial⟩
  · exact (Finds.any _).bind fun _ _ => (Finds.any _).bind fun _ _ =>
      Finds.check (fun b => ⟨_, rfl⟩) fun h =>
      (Finds.any _).bind fun _ _ => (Finds.any _).bind fun _ _ => (Finds.any _).bind fun _ _ =>
      (Finds.any _).bind fun _ _ => (Finds.any _).bind fun _ _ =>
        Finds.pure ⟨UInt8.not_lt.mp h, trivial⟩
  · exact Finds.pure ⟨trivial, trivial⟩
  · exact Grant.finds.bind fun g hg => Finds.pure ⟨hg, trivial⟩
  · exact (Finds.any _).bind fun _ _ => Finds.pure ⟨trivial, trivial⟩
  · exact (finds_count8 11).bind fun n hn => (finds_many (Finds.any _) n).bind fun l hl =>
      Finds.pure ⟨trivial, hl.1.le.trans hn⟩
  · exact (Finds.any _).bind fun _ _ => (Finds.any _).bind fun _ _ => (Finds.any _).bind fun _ _ =>
      (Finds.any _).bind fun _ _ => (Finds.any _).bind fun _ _ => (Finds.any _).bind fun _ _ =>
      Grant.finds.bind fun g hg => Finds.pure ⟨hg, trivial⟩
  · exact Finds.pure ⟨trivial, trivial⟩
  · exact (Finds.any _).bind fun _ _ => Finds.pure ⟨trivial, trivial⟩
  · exact Finds.pure ⟨trivial, trivial⟩
  · exact (Finds.any _).bind fun _ _ => Finds.pure ⟨trivial, trivial⟩
  · rename_i hdata
    exact absurd (UInt8.toNat_inj.mp hdata) ht
  · exact (Finds.any _).bind fun _ _ => (Finds.any _).bind fun _ _ =>
      Finds.check (fun b => ⟨_, rfl⟩) fun h =>
      Finds.pure ⟨UInt64.not_lt.mp h, trivial⟩
  · exact Finds.pure ⟨trivial, trivial⟩
  · exact ImsInfo.finds.bind fun i hi => Finds.pure ⟨hi, trivial⟩
  · exact (Finds.any _).bind fun _ _ => Finds.pure ⟨trivial, trivial⟩
  · exact (Finds.any _).bind fun _ _ => Finds.pure ⟨trivial, trivial⟩
  · exact Finds.pure ⟨trivial, trivial⟩
  · exact Finds.fails fun b => ⟨_, rfl⟩

/-- **What is read of a body is sound.** -/
theorem sound_of_read {t : Byte} (h : read t b = .ok it) :
    it.Sound ∧ it.Within 255 (b.length - 6) := by
  obtain ⟨rest, hrest⟩ := exists_of_run_end h
  by_cases ht : t = 0x2B
  · rw [ht] at hrest
    obtain ⟨seq, idx, count, bytes, rfl, hidx, hlen⟩ := length_of_fields_data hrest
    exact ⟨hidx, (Nat.le_sub_of_add_le hlen.le : bytes.length ≤ b.length - 6)⟩
  · exact finds_fields ht _ b it rest hrest

theorem Within.mono {cells n k : ℕ} (h : it.Within cells n) (hn : n ≤ k) : it.Within cells k := by
  cases it with
  | data seq idx count bytes => exact le_trans (b := n) h hn
  | _ => exact h

/-- A header takes three bytes at least, and the body behind it has a length that a `u16` can
say. -/
theorem length_of_header {rest : List Byte} {s : Byte × List Byte} (h : header b = .ok (s, rest)) :
    rest.length < b.length ∧ s.2.length ≤ 65535 := by
  obtain ⟨⟨t, b₁⟩, ht, h⟩ := exists_of_bind_eq_ok h
  obtain ⟨⟨body, b₂⟩, hblob, h⟩ := exists_of_bind_eq_ok h
  obtain ⟨⟨n, b₃⟩, hn, hbody⟩ := exists_of_bind_eq_ok hblob
  obtain ⟨⟨s₁, b₁'⟩, hs₁, h₁⟩ := exists_of_bind_eq_ok ht
  obtain ⟨⟨s₂, b₂'⟩, hs₂, h₂⟩ := exists_of_bind_eq_ok hn
  cases h
  cases h₁
  cases h₂
  obtain ⟨rfl, hlen₁⟩ := take_eq_ok hs₁
  obtain ⟨rfl, hlen₂⟩ := take_eq_ok hs₂
  obtain ⟨hcut, hlen⟩ := take_eq_ok hbody
  dsimp only at hcut hlen ⊢
  have hmost := (u16FromBe (s₂.getD 0 0) (s₂.getD 1 0)).toNat_lt
  rw [hcut, List.length_append, List.length_append, List.length_append]
  omega

end Item

/-! ## Lists of items -/

theorem consumes_nextItem : Consumes nextItem := by
  intro out b out' rest h
  rw [Item.nextItem_eq] at h
  obtain ⟨s, hs, h⟩ := exists_of_bind_eq_ok h
  obtain ⟨it, -, h⟩ := exists_of_bind_eq_ok h
  cases h
  exact (Item.length_of_header hs).1

theorem foldl_append_singleton {α : Type} (l out : List α) :
    l.foldl (fun out a => out ++ [a]) out = out ++ l := by
  induction l generalizing out with
  | nil => exact (List.append_nil out).symm
  | cons a l ih => rw [List.foldl_cons, ih, List.append_assoc, List.singleton_append]

theorem decodeItems_encodeItems {l : List Item} (hne : l ≠ [])
    (h : ∀ it ∈ l, it.Sound ∧ it.Within 16 65529) :
    decodeItems (encodeItems l) = .ok l := by
  have hall := readAll_flatMap consumes_nextItem Item.write (fun out it => out ++ [it]) l []
    (fun out it hit rest => Item.nextItem_write (h it hit).1 (h it hit).2 out rest) []
  rw [List.append_nil, foldl_append_singleton, readAll_nil, List.nil_append] at hall
  unfold decodeItems encodeItems
  rw [hall]
  change (if l = [] then _ else _ : Except DecodeError (List Item)) = _
  rw [if_neg hne]
  rfl

theorem sound_of_decodeItems {l : List Item} (h : decodeItems b = .ok l) :
    l ≠ [] ∧ ∀ it ∈ l, it.Sound ∧ it.Within 255 65529 := by
  obtain ⟨out, hout, h⟩ := exists_of_bind_eq_ok h
  dsimp only at h
  split_ifs at h with hnil
  · cases h
  · cases h
    refine ⟨hnil,
      readAll_invariant (P := fun l : List Item => ∀ it ∈ l, it.Sound ∧ it.Within 255 65529) ?_
      (List.forall_mem_nil _) hout⟩
    intro out b out' rest hsound hnext
    rw [Item.nextItem_eq] at hnext
    obtain ⟨s, hs, hnext⟩ := exists_of_bind_eq_ok hnext
    obtain ⟨it, hit, hnext⟩ := exists_of_bind_eq_ok hnext
    cases hnext
    intro it' hit'
    rcases List.mem_append.mp hit' with hold | hnew
    · exact hsound it' hold
    · have hread := Item.sound_of_read hit
      have hlen := (Item.length_of_header hs).2
      rw [List.mem_singleton.mp hnew]
      exact ⟨hread.1, hread.2.mono (by omega)⟩

/-! ## The codec -/

/-- Data of 65530 bytes makes a body of length 2^16, which is written as none. -/
theorem decodeItems_data_too_long {bytes : List Byte} (h : bytes.length = 65530) :
    decodeItems (encodeItems [.data 1 0 1 bytes]) = .error .short := by
  have hbody : (Item.data 1 0 1 bytes).body = (0x2B, u32ToBe 1 ++ [0, 1] ++ bytes) := rfl
  have hlen : (u32ToBe 1 ++ [0, 1] ++ bytes).length = 65536 := by
    rw [List.length_append, List.length_append, length_u32ToBe, h]
    rfl
  have hwrite :
    encodeItems [.data 1 0 1 bytes] = 0x2B :: 0 :: 0 :: (u32ToBe 1 ++ [0, 1] ++ bytes) := by
    rw [encodeItems, List.flatMap_singleton, Item.write, hbody]
    dsimp only
    rw [hlen]
    rfl
  have hnext : nextItem [] (0x2B :: 0 :: 0 :: (u32ToBe 1 ++ [0, 1] ++ bytes)) = .error .short := by
    have hheader (rest : List Byte) :
      Item.header (0x2B :: 0 :: 0 :: rest) = .ok ((0x2B, []), rest) :=
      (Item.reads_header 0x2B (b := []) (Nat.zero_le 65535)).whole rest
    rw [Item.nextItem_eq, hheader]
    rfl
  rw [hwrite, decodeItems, readAll, List.length_cons, readLoop, hnext]
  rfl

/-- Three places where a message that is within the limits does not come back, or one beyond
them is found: no items at all, a segment whose body is longer than a `u16` can say, and a
page of thirty-three phones. -/
theorem not_all_round_trip :
    decodeItems (encodeItems []) = .error (.value "empty item list") ∧
      (Item.WellFormed (.data 1 0 1 (List.replicate 65530 0)) ∧
        decodeItems (encodeItems [.data 1 0 1 (List.replicate 65530 0)]) = .error .short) ∧
      (Plain.decode (0x09 :: 33 :: List.replicate 132 0) = .ok (.paging (List.replicate 33 0)) ∧
        ¬ (Plain.paging (List.replicate 33 0)).WellFormed) := by
  have hlen : (List.replicate 65530 (0 : Byte)).length = 65530 := List.length_replicate
  refine ⟨rfl,
    ⟨⟨(by decide : (0 : Byte) < 1), (by omega : _ ≤ 65535)⟩, decodeItems_data_too_long hlen⟩,
    by decide +kernel, fun h => ?_⟩
  have hlist : (List.replicate 33 (0 : UInt32)).length ≤ 32 := h.2
  rw [List.length_replicate] at hlist
  exact absurd hlist (by decide)

/-- **The air codec is lossless and strict.**  A plain message that is well formed comes
back, and neither a beginning of it nor anything longer is a message; a list of sound items
that is not empty comes back, and has the length its items say.  Both decoders end on any
bytes, and what they find is sound, with lists of at most 255 entries. -/
theorem air_codec :
    (∀ m : Plain, m.WellFormed → Plain.decode m.encode = .ok m ∧
      (∀ p q, m.encode = p ++ q → q ≠ [] → ∃ e, Plain.decode p = .error e) ∧
      ∀ c, c ≠ [] → Plain.decode (m.encode ++ c) = .error .trailing) ∧
    (∀ l : List Item, l ≠ [] → (∀ it ∈ l, it.Sound ∧ it.Within 16 65529) →
      decodeItems (encodeItems l) = .ok l) ∧
    (∀ l : List Item, (encodeItems l).length = (l.map Item.encodedLen).sum) ∧
    (∀ b m, Plain.decode b = .ok m → m.Sound ∧ m.ListsWithin 255 255) ∧
    (∀ b l, decodeItems b = .ok l → l ≠ [] ∧ ∀ it ∈ l, it.Sound ∧ it.Within 255 65529) := by
  refine ⟨fun m hm => ⟨?_, fun p q hb hq => ?_, fun c hc => ?_⟩, fun l => decodeItems_encodeItems,
    fun l => List.length_flatMap, fun b m hm => ?_, fun b l => sound_of_decodeItems⟩
  · rw [Plain.decode_eq]
    exact run_end_of_reads (Plain.reads_encode hm)
  · rw [Plain.decode_eq]
    exact run_end_of_cut (Plain.reads_encode hm) hb hq
  · rw [Plain.decode_eq]
    exact run_end_of_more (Plain.reads_encode hm) hc
  · rw [Plain.decode_eq] at hm
    obtain ⟨rest, hrest⟩ := exists_of_run_end hm
    exact (Finds.any u8).bind (fun t _ => Plain.finds_fields t) b m rest hrest

theorem air_codec_paging :
    let m := Plain.paging [1, 2]
    let l := [Item.keepalive, .data 7 0 2 [1, 2, 3], .bearerRelease 5]
    Plain.decode m.encode = .ok m ∧ (∃ e, Plain.decode (m.encode.take 6) = .error e) ∧
      Plain.decode (m.encode ++ [0]) = .error .trailing ∧ decodeItems (encodeItems l) = .ok l := by
  intro m l
  obtain ⟨hplain, hitems, -, -, -⟩ := air_codec
  have hm : m.WellFormed := ⟨trivial, show 2 ≤ 32 by decide⟩
  obtain ⟨hback, hcut, hmore⟩ := hplain m hm
  refine ⟨hback, hcut _ (m.encode.drop 6) (List.take_append_drop 6 _).symm (by decide),
    hmore [0] (by decide), ?_⟩
  refine hitems l (by decide) fun it hit => ?_
  simp only [l, List.mem_cons, List.not_mem_nil, or_false] at hit
  rcases hit with rfl | rfl | rfl
  · exact ⟨trivial, trivial⟩
  · exact ⟨show (0 : UInt8) < 2 by decide, show 3 ≤ 65529 by decide⟩
  · exact ⟨trivial, trivial⟩

end EvansComputer.Cell
