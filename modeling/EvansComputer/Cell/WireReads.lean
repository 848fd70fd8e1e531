import EvansComputer.Cell.Backhaul
import EvansComputer.Library.Reads

/-!
# Control messages come back as they were sent

What is written of a field is what its reader reads, and a field that is cut off is refused;
so for every message that is well formed its fields come back, and no beginning of its body
is a message.

Well formed is what the types of the source and the checks of the readers ask for: keys,
nonces and proofs have their length, a text has 255 bytes at most, a prefix 32 bits, a grant
a period that its slots fit in, and the lists are no longer than what is written of them.
-/

namespace EvansComputer.Cell

open Text

/-! ## Texts -/

theorem fromUtf8_toUtf8 (s : Str) : fromUtf8 (toUtf8 s) = some s := by
  have h : ByteArray.mk (toUtf8 s).toArray = s.utf8Encode := by
    apply ByteArray.ext
    rw [List.utf8Encode, List.data_toByteArray]
    rfl
  rw [fromUtf8, h, List.utf8Decode?_utf8Encode, Option.map_some]

/-- A text that is written whole. -/
def ShortText (s : Str) : Prop := (toUtf8 s).length ≤ 255

theorem putStr8_of_short {s : Str} (h : ShortText s) :
    putStr8 s = UInt8.ofNat (toUtf8 s).length :: toUtf8 s := by
  unfold putStr8
  dsimp only
  rw [Nat.min_eq_left h, List.take_length]

/-! ## Fields -/

namespace Reader

theorem run_bind {α γ : Type} (r : Reader α) (f : α → Reader γ) (b : List Byte) :
    (r >>= f) b = (r b).bind fun s => f s.1 s.2 := rfl

theorem reads_take {b : List Byte} {n : ℕ} (h : b.length = n) : Reads (take n) b b where
  whole rest := by
    rw [take, ← h, splitOff_append]
  cut p q hb hq := by
    refine ⟨.short, ?_⟩
    have hlen := congrArg List.length hb
    rw [List.length_append] at hlen
    have := List.length_pos_iff.mpr hq
    rw [take, splitOff, if_neg (by omega)]

theorem reads_u8 (x : Byte) : Reads u8 x [x] := by
  have hlen : [x].length = 1 := rfl
  exact (reads_take hlen).map (g := fun s => s.getD 0 0)

theorem reads_u16 (x : UInt16) : Reads u16 x (u16ToBe x) := by
  have h := (reads_take (length_u16ToBe x)).map (g := fun s => u16FromBe (s.getD 0 0) (s.getD 1 0))
  rwa [show u16FromBe ((u16ToBe x).getD 0 0) ((u16ToBe x).getD 1 0) =
    x from u16FromBe_u16ToBe x] at h

theorem reads_u32 (x : UInt32) : Reads u32 x (u32ToBe x) := by
  have h := (reads_take (length_u32ToBe x)).map
    (g := fun s => u32FromBe (s.getD 0 0) (s.getD 1 0) (s.getD 2 0) (s.getD 3 0))
  rwa [show u32FromBe ((u32ToBe x).getD 0 0) ((u32ToBe x).getD 1 0) ((u32ToBe x).getD 2 0)
    ((u32ToBe x).getD 3 0) = x from u32FromBe_u32ToBe x] at h

theorem reads_u64 (x : UInt64) : Reads u64 x (u64ToBe x) := by
  have h := (reads_take (length_u64ToBe x)).map (g := u64FromBe)
  rwa [u64FromBe_u64ToBe] at h

theorem reads_ip (a : Ipv4Addr) : Reads ip a a.bytes := by
  have hlen : a.bytes.length = 4 := rfl
  exact (reads_take hlen).map (g := Ipv4Addr.fromBytes)

theorem reads_fromUtf8 (s : Str) : Reads (match fromUtf8 (toUtf8 s) with
    | some t => (return t : Reader Str)
    | none => throw (.value "utf-8")) s [] := by
  rw [fromUtf8_toUtf8]
  exact Reads.pure s

theorem reads_str8 {s : Str} (h : ShortText s) : Reads str8 s (putStr8 s) := by
  have hn : (UInt8.ofNat (toUtf8 s).length).toNat = (toUtf8 s).length := by
    rw [UInt8.toNat_ofNat']
    exact Nat.mod_eq_of_lt (Nat.lt_succ_of_le h)
  have hbytes : Reads (take (UInt8.ofNat (toUtf8 s).length).toNat) (toUtf8 s) (toUtf8 s) := by
    rw [hn]
    exact reads_take rfl
  refine ((reads_u8 _).bind (hbytes.bind (reads_fromUtf8 s))).cast ?_
  rw [putStr8_of_short h, List.append_nil]
  rfl

/-- A count that there is input for, and what is read by it. -/
theorem reads_counted {ν α : Type} {w : Reader ν} {size : ν → ℕ} {v : ν} {minSize : ℕ}
    {f : ℕ → Reader α} {y : α} {b c : List Byte} (hw : Reads w v b)
    (hc : size v * max minSize 1 ≤ c.length) (h : Reads (f (size v)) y c) :
    Reads ((do
      let n ← w
      if size n * max minSize 1 > (← left) then throw .short
      return size n) >>= f) y (b ++ c) := by
  rw [bind_assoc]
  refine hw.bind ⟨fun rest => ?_, fun p q hb hq => ?_⟩
  · change ((if size v * max minSize 1 > (c ++ rest).length then _ else _ : Reader ℕ)
      (c ++ rest)).bind _ = _
    rw [if_neg (by rw [List.length_append]; omega)]
    exact h.whole rest
  · change ∃ e, ((if size v * max minSize 1 > p.length then _ else _ : Reader ℕ) p).bind _ = _
    by_cases hshort : size v * max minSize 1 > p.length
    · rw [if_pos hshort]
      exact ⟨.short, rfl⟩
    · rw [if_neg hshort]
      exact h.cut p q hb hq

theorem reads_count8 {α : Type} {f : ℕ → Reader α} {minSize n : ℕ} {y : α} {c : List Byte}
    (hn : n < 256) (hc : n * max minSize 1 ≤ c.length) (h : Reads (f n) y c) :
    Reads (count8 minSize >>= f) y (UInt8.ofNat n :: c) := by
  have hn' : (UInt8.ofNat n).toNat = n := by
    rw [UInt8.toNat_ofNat']
    exact Nat.mod_eq_of_lt hn
  rw [← hn'] at hc h
  exact reads_counted (reads_u8 (UInt8.ofNat n)) hc h

theorem reads_count16 {α : Type} {f : ℕ → Reader α} {minSize n : ℕ} {y : α} {c : List Byte}
    (hn : n < 65536) (hc : n * max minSize 1 ≤ c.length) (h : Reads (f n) y c) :
    Reads (count16 minSize >>= f) y (u16ToBe (UInt16.ofNat n) ++ c) := by
  have hn' : (UInt16.ofNat n).toNat = n := by
    rw [UInt16.toNat_ofNat']
    exact Nat.mod_eq_of_lt hn
  rw [← hn'] at hc h
  exact reads_counted (reads_u16 (UInt16.ofNat n)) hc h

/-- Elements one after another. -/
theorem reads_many {α : Type} {item : Reader α} {write : α → List Byte} {l : List α}
    (h : ∀ a ∈ l, Reads item a (write a)) : Reads (many item l.length) l (l.flatMap write) := by
  induction l with
  | nil => exact Reads.pure []
  | cons a l ih =>
    rw [List.flatMap_cons]
    exact (h a List.mem_cons_self).bind
      (ih fun a' ha' => h a' (List.mem_cons_of_mem _ ha')).map

end Reader

/-- What a byte string holds when it is one value and nothing else. -/
theorem run_end_of_reads {α : Type} {r : Reader α} {x : α} {b : List Byte} (h : Reads r x b) :
    Reader.run (do
      let a ← r
      Reader.end
      return a) b = .ok x := by
  have hr := h.whole []
  rw [List.append_nil] at hr
  have hall : (r >>= fun a => Reader.end >>= fun _ => pure a) b = .ok (x, []) := by
    rw [Reader.run_bind, hr]
    rfl
  unfold Reader.run
  rw [hall]

theorem run_end_of_cut {α : Type} {r : Reader α} {x : α} {b p q : List Byte} (h : Reads r x b)
    (hb : b = p ++ q) (hq : q ≠ []) : ∃ e, Reader.run (do
      let a ← r
      Reader.end
      return a) p = .error e := by
  obtain ⟨e, he⟩ := h.cut p q hb hq
  have hall : (r >>= fun a => Reader.end >>= fun _ => pure a) p = .error e := by
    rw [Reader.run_bind, he]
    rfl
  refine ⟨e, ?_⟩
  unfold Reader.run
  rw [hall]

/-! ## What is well formed -/

theorem Cause.reads (cause : Cause) : Reads Cause.read cause [cause.code] := by
  refine ((Reader.reads_u8 cause.code).bind (y := cause) (c := []) ?_).cast rfl
  cases cause <;> exact Reads.pure _

/-- The slots of a grant fit in its period. -/
structure Grant.WellFormed (g : Grant) : Prop where
  period : g.period ≠ 0
  len : g.len ≠ 0
  fits : g.len ≤ g.period
  offset : g.offset < g.period
  subchannel : g.subchannel ≤ 4
  slots : g.fromSlot ≤ g.toSlot

theorem Grant.reads {g : Grant} (h : g.WellFormed) : Reads Grant.read g g.write := by
  have hcheck :
    ¬ (g.period = 0 ∨ g.len = 0 ∨ g.len > g.period ∨ g.offset ≥ g.period ∨ g.subchannel > 4 ∨
      g.toSlot < g.fromSlot) := by
    rintro (hz | hz | hz | hz | hz | hz)
    · exact h.period hz
    · exact h.len hz
    · exact UInt16.not_lt.mpr h.fits hz
    · exact UInt16.not_le.mpr h.offset hz
    · exact UInt8.not_lt.mpr h.subchannel hz
    · exact UInt64.not_lt.mpr h.slots hz
  refine ((Reader.reads_u64 _).bind <| (Reader.reads_u64 _).bind <| (Reader.reads_u16 _).bind <|
    (Reader.reads_u16 _).bind <| (Reader.reads_u16 _).bind <| (Reader.reads_u8 _).bind <|
    (Reader.reads_u8 _).bind <| Reads.check hcheck <| Reads.pure g).cast ?_
  simp only [Grant.write, List.append_assoc, List.cons_append, List.nil_append, List.append_nil]

structure ImsInfo.WellFormed (i : ImsInfo) : Prop where
  prefixLen : i.prefixLen ≤ 32
  domain : ShortText i.domain
  msisdn : ShortText i.msisdn

theorem ImsInfo.reads {i : ImsInfo} (h : i.WellFormed) : Reads ImsInfo.read i i.write := by
  refine ((Reader.reads_ip _).bind <| (Reader.reads_u8 _).bind <| (Reader.reads_ip _).bind <|
    (Reader.reads_str8 h.domain).bind <| (Reader.reads_str8 h.msisdn).bind <|
    Reads.check (UInt8.not_lt.mpr h.prefixLen) <| Reads.pure i).cast ?_
  simp only [ImsInfo.write, List.append_assoc, List.cons_append, List.nil_append, List.append_nil]

theorem Bearer.reads (b : Bearer) : Reads Bearer.read b b.write := by
  refine ((Reader.reads_u8 _).bind <| (Reader.reads_u8 _).bind <| (Reader.reads_u16 _).bind <|
    (Reader.reads_ip _).bind <| (Reader.reads_u16 _).bind <| Reads.pure b).cast ?_
  simp only [Bearer.write, List.append_assoc, List.cons_append, List.nil_append, List.append_nil]

theorem IpConfig.reads {c : IpConfig} (h : c.prefixLen ≤ 32) : Reads IpConfig.read c c.write := by
  refine ((Reader.reads_ip _).bind <| (Reader.reads_u8 _).bind <| (Reader.reads_ip _).bind <|
    (Reader.reads_ip _).bind <| (Reader.reads_u16 _).bind <| Reads.check (UInt8.not_lt.mpr h) <|
      Reads.pure c).cast ?_
  simp only [IpConfig.write, List.append_assoc, List.cons_append, List.nil_append, List.append_nil]

theorem AsContext.reads {ctx : AsContext} (h : ctx.kAs.length = 32) :
    Reads AsContext.read ctx ctx.write := by
  refine ((Reader.reads_u32 _).bind <| (Reader.reads_take h).bind <| Reads.pure ctx).cast ?_
  simp only [AsContext.write, List.append_nil]

/-! ## Messages -/

namespace Ctl

open Cell.Reader

def WellFormed : Ctl → Prop
  | coreHello _ carrier nonce => ShortText carrier ∧ nonce.length = 16
  | siteAuth _ siteId cells _ nonce proof =>
    ShortText siteId ∧ cells.length ≤ 16 ∧ nonce.length = 16 ∧ proof.length = 32
  | siteAccept _ refused => refused.length ≤ 4096 ∧ ∀ imsi ∈ refused, ShortText imsi
  | ueAttach _ _ imsi carrier => ShortText imsi ∧ ShortText carrier
  | ueService _ _ _ _ mac => mac.length = 16
  | ueChallenge _ rand => rand.length = 16
  | ueAuthResponse _ res => res.length = 16
  | ueAccept _ _ ip _ ctx smcMac ims =>
    ip.prefixLen ≤ 32 ∧ ctx.kAs.length = 32 ∧ smcMac.length = 16 ∧ ∀ i, ims = some i → i.WellFormed
  | hoRequest _ _ _ _ ip _ ctx bearers => ip.prefixLen ≤ 32 ∧ ctx.kAs.length = 32 ∧
    bearers.length ≤ 8
  | hoRequestAck _ _ grant => grant.WellFormed
  | hoCommand _ _ _ _ _ _ _ _ grant => grant.WellFormed
  | revoked imsi => ShortText imsi
  | _ => True

/-- How a cell of a site is written. -/
def cellBytes (c : CellInfo) : List Byte :=
  u32ToBe c.cellId ++ [c.profile, c.channel] ++ u16ToBe c.area ++ u32ToBe c.addr

theorem reads_cell (c : CellInfo) : Reads (do
    return { cellId := ← u32, profile := ← u8, channel := ← u8, area := ← u16,
             addr := ← u32 : CellInfo }) c
    (cellBytes c) := by
  refine ((reads_u32 _).bind <| (reads_u8 _).bind <| (reads_u8 _).bind <| (reads_u16 _).bind <|
    (reads_u32 _).bind <| Reads.pure c).cast ?_
  simp only [cellBytes, List.append_assoc, List.cons_append, List.nil_append, List.append_nil]

theorem length_flatMap_le {α : Type} {f : α → List Byte} {n : ℕ} {l : List α}
    (h : ∀ a ∈ l, n ≤ (f a).length) :
    l.length * n ≤ (l.flatMap f).length := by
  induction l with
  | nil => simp
  | cons a l ih =>
    have hl := ih fun b hb => h b (List.mem_cons_of_mem _ hb)
    have ha := h a List.mem_cons_self
    rw [List.flatMap_cons, List.length_append, List.length_cons, Nat.succ_mul]
    omega

theorem reads_siteAuth {version : Byte} {siteId : Str} {cells : List CellInfo} {tunnelPort : UInt16}
    {nonce proof : List Byte}
    (h : (siteAuth version siteId cells tunnelPort nonce proof).WellFormed) :
    Reads (fields 0x02) (siteAuth version siteId cells tunnelPort nonce proof)
      (version :: (putStr8 siteId ++ UInt8.ofNat cells.length ::
        (cells.flatMap cellBytes ++ (u16ToBe tunnelPort ++ (nonce ++ proof))))) := by
  obtain ⟨hsite, hcells, hnonce, hproof⟩ := h
  have hlen : cells.length * max 12 1 ≤
    (cells.flatMap cellBytes ++ (u16ToBe tunnelPort ++ (nonce ++ proof))).length := by
    have := length_flatMap_le (f := cellBytes) (n := 12) (l := cells) fun _ _ => Nat.le_refl _
    rw [List.length_append]
    change cells.length * 12 ≤ _
    omega
  exact (reads_u8 version).bind <| (reads_str8 hsite).bind <|
    reads_count8 (by omega) hlen <| (reads_many fun c _ => reads_cell c).bind <|
      (reads_u16 tunnelPort).bind <|
    (reads_take hnonce).bind (reads_take hproof).map

theorem reads_siteAccept {heartbeatMs : UInt16} {refused : List Str}
    (h : (siteAccept heartbeatMs refused).WellFormed) :
    Reads (fields 0x03) (siteAccept heartbeatMs refused)
      (u16ToBe heartbeatMs ++
        (u16ToBe (UInt16.ofNat refused.length) ++ refused.flatMap putStr8)) := by
  obtain ⟨hcount, hrefused⟩ := h
  have hlen : refused.length * max 1 1 ≤ (refused.flatMap putStr8).length :=
    length_flatMap_le fun imsi _ => by rw [putStr8, List.length_cons]; omega
  exact (reads_u16 heartbeatMs).bind <| reads_count16 (by omega) hlen
    (reads_many fun i hi => reads_str8 (hrefused i hi)).map

/-- The bytes of the IMS bearer, if there is one. -/
def imsBytes : Option ImsInfo → List Byte
  | some i => 1 :: i.write
  | none => [0]

theorem reads_ueAccept {ue session : UInt32} {ip : IpConfig} {tmsi : UInt32} {ctx : AsContext}
    {smcMac : List Byte} {ims : Option ImsInfo}
    (h : (ueAccept ue session ip tmsi ctx smcMac ims).WellFormed) :
    Reads (fields 0x14) (ueAccept ue session ip tmsi ctx smcMac ims)
      (u32ToBe ue ++ (u32ToBe session ++
        (ip.write ++ (u32ToBe tmsi ++ (ctx.write ++ (smcMac ++ imsBytes ims)))))) := by
  obtain ⟨hip, hctx, hmac, hims⟩ := h
  have hlast : Reads (do
      let flag ← u8
      let ims ← if flag = 0 then pure none else if flag = 1 then some <$> ImsInfo.read
        else throw (.value "ims flag")
      return ueAccept ue session ip tmsi ctx smcMac ims)
        (ueAccept ue session ip tmsi ctx smcMac ims) (imsBytes ims) := by
    cases ims with
    | none => exact (reads_u8 0).bind (Reads.pure _)
    | some i => exact (reads_u8 1).bind ((ImsInfo.reads (hims i rfl)).map (g := some)).map
  exact (reads_u32 ue).bind <| (reads_u32 session).bind <| (IpConfig.reads hip).bind <|
    (reads_u32 tmsi).bind <|
    (AsContext.reads hctx).bind <| (reads_take hmac).bind hlast

theorem reads_hoRequest {ho session ue targetCell : UInt32} {ip : IpConfig} {tmsi : UInt32}
    {ctx : AsContext} {bearers : List Bearer}
    (h : (hoRequest ho session ue targetCell ip tmsi ctx bearers).WellFormed) :
    Reads (fields 0x21) (hoRequest ho session ue targetCell ip tmsi ctx bearers)
      (u32ToBe ho ++
        (u32ToBe session ++ (u32ToBe ue ++ (u32ToBe targetCell ++ (ip.write ++ (u32ToBe tmsi ++
        (ctx.write ++ (UInt8.ofNat bearers.length :: bearers.flatMap Bearer.write)))))))) := by
  obtain ⟨hip, hctx, hbearers⟩ := h
  have hlen : bearers.length * max 10 1 ≤ (bearers.flatMap Bearer.write).length :=
    length_flatMap_le fun _ _ => Nat.le_refl _
  exact (reads_u32 ho).bind <| (reads_u32 session).bind <| (reads_u32 ue).bind <|
    (reads_u32 targetCell).bind <|
    (IpConfig.reads hip).bind <| (reads_u32 tmsi).bind <| (AsContext.reads hctx).bind <|
    reads_count8 (by omega) hlen (reads_many fun b _ => b.reads).map

theorem reads_bearerResult (session : UInt32) (id : Byte) (ok : Bool) :
    Reads (fields 0x42) (bearerResult session id ok)
      (u32ToBe session ++ ([id] ++ [if ok then 1 else 0])) := by
  have hlast : Reads (do
      let ok ← u8
      if ok > 1 then throw (.value "bearer result")
      return bearerResult session id (ok = 1)) (bearerResult session id ok)
        [if ok then 1 else 0] := by
    cases ok with
    | false => exact (reads_u8 0).bind (Reads.pure _)
    | true => exact (reads_u8 1).bind (Reads.pure _)
  exact (reads_u32 session).bind ((reads_u8 id).bind hlast)

/-- **A message that is well formed comes back from its fields.** -/
theorem reads_fields {m : Ctl} (h : m.WellFormed) :
    ∃ t, m.body.head? = some t ∧ Reads (fields t) m m.body.tail := by
  cases m with
  | coreHello version carrier nonce =>
    exact ⟨0x01, rfl,
      ((reads_u8 version).bind <| (reads_str8 h.1).bind (reads_take h.2).map).cast rfl⟩
  | siteAuth version siteId cells tunnelPort nonce proof =>
    refine ⟨0x02, rfl, (reads_siteAuth h).cast ?_⟩
    simp only [body, Nat.min_eq_left h.2.1, List.take_of_length_le h.2.1, List.append_assoc,
      List.cons_append,
      List.tail_cons]
    rfl
  | siteAccept heartbeatMs refused =>
    refine ⟨0x03, rfl, (reads_siteAccept h).cast ?_⟩
    simp only [body, Nat.min_eq_left h.1, List.take_of_length_le h.1, List.append_assoc,
      List.cons_append,
      List.tail_cons]
  | siteReject cause => exact ⟨0x04, rfl, (Cause.reads cause).map⟩
  | heartbeat seq => exact ⟨0x05, rfl, (reads_u32 seq).map⟩
  | ueAttach ue cellId imsi carrier =>
    refine ⟨0x10, rfl, ((reads_u32 ue).bind <| (reads_u32 cellId).bind <| (reads_str8 h.1).bind
      (reads_str8 h.2).map).cast ?_⟩
    simp only [body, List.append_assoc, List.cons_append, List.tail_cons]
  | ueService ue cellId tmsi count mac =>
    refine ⟨0x11, rfl, ((reads_u32 ue).bind <| (reads_u32 cellId).bind <| (reads_u32 tmsi).bind <|
      (reads_u32 count).bind (reads_take h).map).cast ?_⟩
    simp only [body, List.append_assoc, List.cons_append, List.tail_cons]
  | ueChallenge ue rand => exact ⟨0x12, rfl, (reads_u32 ue).bind (reads_take h).map⟩
  | ueAuthResponse ue res => exact ⟨0x13, rfl, (reads_u32 ue).bind (reads_take h).map⟩
  | ueAccept ue session ip tmsi ctx smcMac ims =>
    refine ⟨0x14, rfl, (reads_ueAccept h).cast ?_⟩
    cases ims <;> simp only [body, imsBytes, List.append_assoc, List.cons_append, List.tail_cons]
  | ueReject ue cause => exact ⟨0x15, rfl, (reads_u32 ue).bind (Cause.reads cause).map⟩
  | ueActive session => exact ⟨0x16, rfl, (reads_u32 session).map⟩
  | ueRelease session cause => exact ⟨0x17, rfl, (reads_u32 session).bind (Cause.reads cause).map⟩
  | ueIdle session => exact ⟨0x18, rfl, (reads_u32 session).map⟩
  | hoRequired session targetCell =>
    exact ⟨0x20, rfl, (reads_u32 session).bind (reads_u32 targetCell).map⟩
  | hoRequest ho session ue targetCell ip tmsi ctx bearers =>
    refine ⟨0x21, rfl, (reads_hoRequest h).cast ?_⟩
    simp only [body, Nat.min_eq_left h.2.2, List.take_of_length_le h.2.2, List.append_assoc,
      List.cons_append,
      List.tail_cons]
  | hoRequestAck ho ueId grant =>
    refine ⟨0x22, rfl, ((reads_u32 ho).bind <| (reads_u16 ueId).bind (Grant.reads h).map).cast ?_⟩
    simp only [body, List.append_assoc, List.cons_append, List.tail_cons]
  | hoFailure ho session cause =>
    refine ⟨0x23, rfl,
      ((reads_u32 ho).bind <| (reads_u32 session).bind (Cause.reads cause).map).cast ?_⟩
    simp only [body, List.append_assoc, List.cons_append, List.tail_cons]
  | hoCommand ho session cellId addr profile channel epoch ueId grant =>
    refine ⟨0x24, rfl,
      ((reads_u32 ho).bind <| (reads_u32 session).bind <| (reads_u32 cellId).bind <|
      (reads_u32 addr).bind <| (reads_u8 profile).bind <| (reads_u8 channel).bind <|
        (reads_u32 epoch).bind <|
      (reads_u16 ueId).bind (Grant.reads h).map).cast ?_⟩
    simp only [body, List.append_assoc, List.cons_append, List.nil_append, List.tail_cons]
  | pathSwitch ho session => exact ⟨0x25, rfl, (reads_u32 ho).bind (reads_u32 session).map⟩
  | pathSwitchAck session => exact ⟨0x26, rfl, (reads_u32 session).map⟩
  | page tmsi => exact ⟨0x30, rfl, (reads_u32 tmsi).map⟩
  | usage session used quota =>
    refine ⟨0x31, rfl,
      ((reads_u32 session).bind <| (reads_u64 used).bind (reads_u64 quota).map).cast ?_⟩
    simp only [body, List.append_assoc, List.cons_append, List.tail_cons]
  | revoked imsi => exact ⟨0x32, rfl, (reads_str8 h).map⟩
  | bearerSetup session bearer => exact ⟨0x40, rfl, (reads_u32 session).bind bearer.reads.map⟩
  | bearerRelease session id => exact ⟨0x41, rfl, (reads_u32 session).bind (reads_u8 id).map⟩
  | bearerResult session id ok => exact ⟨0x42, rfl, reads_bearerResult session id ok⟩

theorem reads_body {m : Ctl} (h : m.WellFormed) : Reads (u8 >>= fields) m m.body := by
  obtain ⟨t, hhead, hfields⟩ := reads_fields h
  exact ((reads_u8 t).bind hfields).cast (List.cons_head?_tail hhead)

theorem decode_eq (b : List Byte) : decode b = Reader.run (do
    let m ← u8 >>= fields
    Reader.end
    return m) b := by
  rw [bind_assoc]
  rfl

/-- **Decoding gives the message back**, and no proper beginning of its body decodes. -/
theorem decode_body {m : Ctl} (h : m.WellFormed) :
    decode m.body = .ok m ∧ ∀ p q, m.body = p ++ q → q ≠ [] → ∃ e, decode p = .error e := by
  refine ⟨?_, fun p q hb hq => ?_⟩
  · rw [decode_eq]
    exact run_end_of_reads (reads_body h)
  · rw [decode_eq]
    exact run_end_of_cut (reads_body h) hb hq

end EvansComputer.Cell.Ctl
