import EvansComputer.Library.Halting
import EvansComputer.Net.Frames

/-!
# What the DNS stub reads

Names and replies as the stub reads them off the wire.  A name is a run of labels that may go on
elsewhere in the message, at a compression pointer; the reader counts the pointers it follows and
the bytes of the labels, so it comes to an end whatever the pointers are.

Sums of positions are checked, as in a build that stops where a number does not fit: `bound` is
how many values an index has.
-/

namespace EvansComputer.Stub

open Text

variable (bound : ℕ)

variable {n pos : ℕ} {name : List Char} {labels : List (List Byte)} {rs : List Record}

/-- Max compression pointers followed while reading one name. -/
def maxPointerHops : ℕ := 16

def maxNameLen : ℕ := 255

/-- `c.to_ascii_lowercase() as char` -/
def lowerChar (c : Byte) : Char := (Char.ofNat c.toNat).toLower

/-- A label, behind the labels there are. -/
def pushLabel (name : List Char) (label : List Byte) : List Char :=
  (if name = [] then [] else name ++ ['.']) ++ label.map lowerChar

/-- A computation behind a sum that has to fit. -/
def within {α : Type} (n : ℕ) (x : Exec α) : Exec α := if n < bound then x else .error .overflow

/-- The loop of `read_name`.  Where several sums are made, the largest one has to fit. -/
def readNameFrom (data : List Byte) (pos : ℕ) (name : List Char) (stop : Option ℕ)
    (hops wireLen : ℕ) :
    Exec (Option (List Char × ℕ)) :=
  match data[pos]? with
  | none => .ok none
  | some b =>
    let len := b.toNat
    if len = 0 then within bound (pos + 1) (.ok (some (name, stop.getD (pos + 1))))
    else if len &&& 0xC0 = 0xC0 then
      within bound (pos + 2)
        (match data[pos + 1]? with
        | none => .ok none
        | some lo =>
          if _h : maxPointerHops < hops + 1 then .ok none
          else
            readNameFrom data (((len &&& 0x3F) <<< 8) ||| lo.toNat) name
              (some (stop.getD (pos + 2)))
              (hops + 1) wireLen)
    else if len &&& 0xC0 = 0 then
      within bound (pos + 1 + len)
        (if pos + 1 + len ≤ data.length then
          within bound (wireLen + (1 + len))
            (if _h : maxNameLen < wireLen + (1 + len) then .ok none
            else
              readNameFrom data (pos + (1 + len))
                (pushLabel name ((data.drop (pos + 1)).take len)) stop hops
                (wireLen + (1 + len)))
        else .ok none)
    else .ok none
termination_by (maxPointerHops - hops) + (maxNameLen - wireLen)
decreasing_by all_goals omega

/-- Reads a (possibly compressed) name at an offset: the lowercase dotted name and the offset just
past the name in the original position. -/
def readName (data : List Byte) (offset : ℕ) : Exec (Option (List Char × ℕ)) :=
  readNameFrom bound data offset [] none 0 0

/-- What a computation may find, or the packet is invalid. -/
def orInvalid {α β : Type} (x : Exec (Option α)) (f : α → Exec (Except NetError β)) :
    Exec (Except NetError β) :=
  match x with
  | .error e => .error e
  | .ok none => .ok (.error .invalidPacket)
  | .ok (some a) => f a

/-- `data.get(lo..lo + len)` -/
def slice (data : List Byte) (lo len : ℕ) : Exec (Option (List Byte)) :=
  within bound (lo + len)
    (.ok (if lo + len ≤ data.length then some ((data.drop lo).take len) else none))

/-- A record of the answer section, and where its data is. -/
structure Rec where
  name : List Char
  rtype : UInt16
  ttl : UInt32
  rdata : List Byte
  start : ℕ

/-- One record, and where the next one is. -/
def readRecord (data : List Byte) (off : ℕ) : Exec (Except NetError (Rec × ℕ)) :=
  orInvalid (readName bound data off) fun (name, o) =>
  orInvalid (slice bound data o 10) fun rr =>
  let rtype := u16FromBe (rr.getD 0 0) (rr.getD 1 0)
  let ttl := u32FromBe (rr.getD 4 0) (rr.getD 5 0) (rr.getD 6 0) (rr.getD 7 0)
  let rdlen := (u16FromBe (rr.getD 8 0) (rr.getD 9 0)).toNat
  orInvalid (slice bound data (o + 10) rdlen) fun rdata =>
  .ok (.ok ({ name, rtype, ttl, rdata, start := o + 10 }, o + 10 + rdlen))

def readRecords (data : List Byte) : ℕ → ℕ → List Rec → Exec (Except NetError (List Rec))
  | 0, _, recs => .ok (.ok recs)
  | n + 1, off, recs =>
    match readRecord bound data off with
    | .error e => .error e
    | .ok (.error e) => .ok (.error e)
    | .ok (.ok (r, off)) => readRecords data n off (recs ++ [r])

/-- The addresses of a name. -/
def addrsOf (recs : List Rec) (name : List Char) : List (Ipv4Addr × UInt32) :=
  (recs.filter fun r => r.name = name && r.rtype = 1 && r.rdata.length = 4).map fun r =>
    (Ipv4Addr.fromBytes r.rdata, r.ttl)

/-- The loop over the names of a CNAME chain, of which so many are looked at. -/
def follow (data : List Byte) (recs : List Rec) :
    ℕ → List Char → Option (List Char) → Exec
      (Except NetError (List (Ipv4Addr × UInt32) × Option (List Char)))
  | 0, _, cname => .ok (.ok ([], cname))
  | n + 1, name, cname =>
    if addrsOf recs name ≠ [] then .ok (.ok (addrsOf recs name, none))
    else
      match recs.find? fun r => r.name = name && r.rtype = 5 with
      | some c => orInvalid (readName bound data c.start) fun (target, _) =>
        follow data recs n target (some target)
      | none => .ok (.ok ([], cname))

/-- Without a dot at its end. -/
def stripDot (name : List Char) : List Char :=
  if name.getLast? = some '.' then name.dropLast else name

/-- A response to the query of that id for that name, with the CNAMEs inside the answer section
followed. -/
def parseReply (data : List Byte) (txId : UInt16) (qname : List Char) :
    Exec (Except NetError Reply) :=
  orInvalid (slice bound data 0 12) fun h =>
  let id := u16FromBe (h.getD 0 0) (h.getD 1 0)
  let flags := u16FromBe (h.getD 2 0) (h.getD 3 0)
  let qdcount := u16FromBe (h.getD 4 0) (h.getD 5 0)
  let ancount := (u16FromBe (h.getD 6 0) (h.getD 7 0)).toNat
  if id ≠ txId ∨ flags &&& 0x8000 = 0 ∨ qdcount ≠ 1 then .ok (.error .invalidPacket)
  else
    let want := (stripDot qname).map Char.toLower
    orInvalid (readName bound data 12) fun (got, off) =>
    orInvalid (slice bound data off 4) fun q =>
    if got ≠ want ∨ q ≠ [0, 1, 0, 1] then .ok (.error .invalidPacket)
    else
      match readRecords bound data (min ancount 64) (off + 4) [] with
      | .error e => .error e
      | .ok (.error e) => .ok (.error e)
      | .ok (.ok recs) =>
        match follow bound data recs 9 want none with
        | .error e => .error e
        | .ok (.error e) => .ok (.error e)
        | .ok (.ok (addrs, cname)) => .ok (.ok { rcode := (flags &&& 0xf).toUInt8, addrs, cname })

/-! ## Reading comes to an end -/

/-- What is known of every slice: it takes at most half of the address space, which has at least
32 bits. -/
def Fits (data : List Byte) : Prop := 2 * data.length < bound ∧ 4294967296 ≤ bound

variable {bound}

theorem within_eq {α : Type} {x : Exec α} (h : n < bound) : within bound n x = x := if_pos h

variable {data : List Byte}

theorem lt_of_getElem? {b : Byte} (h : data[pos]? = some b) : pos < data.length :=
  (List.getElem?_eq_some_iff.mp h).1

theorem lt_of_and (hn : n < 256) (h : n &&& 0xC0 = 0) : n < 64 := by
  have hall : ∀ m < 256, m &&& 0xC0 = 0 → m < 64 := by decide +kernel
  exact hall n hn h

theorem and_eq_zero (hn : n < 64) : n &&& 0xC0 = 0 := by
  have hall : ∀ m < 64, m &&& 0xC0 = 0 := by decide +kernel
  exact hall n hn

/-- **A name is read to an end** or refused, whatever the bytes are: no sum that is made on the way
is too large. -/
theorem readNameFrom_total (hfits : Fits bound data) {hops wireLen : ℕ} {stop : Option ℕ}
    (hwire : wireLen ≤ maxNameLen) :
    ∃ r, readNameFrom bound data pos name stop hops wireLen = .ok r := by
  obtain ⟨hhalf, hword⟩ := hfits
  have hmax : maxNameLen = 255 := rfl
  fun_induction readNameFrom bound data pos name stop hops wireLen with
  | case1 pos name stop hops wireLen hnone => exact ⟨_, rfl⟩
  | case2 pos name stop hops wireLen b hb len hzero =>
    have hpos := lt_of_getElem? hb
    exact ⟨_, within_eq (by omega)⟩
  | case3 pos name stop hops wireLen b hb len hne htag ih =>
    have hpos := lt_of_getElem? hb
    rw [within_eq (by omega)]
    split
    · exact ⟨_, rfl⟩
    · split
      · exact ⟨_, rfl⟩
      · rename_i lo hlo hhops
        exact ih lo hhops hwire
  | case4 pos name stop hops wireLen b hb len hne htag hlabel ih =>
    have hpos := lt_of_getElem? hb
    have hlen : len < 64 := lt_of_and b.toNat_lt hlabel
    rw [within_eq (by omega)]
    split
    · rw [within_eq (by omega)]
      split
      · exact ⟨_, rfl⟩
      · rename_i hle
        exact ih hle (by omega)
    · exact ⟨_, rfl⟩
  | case5 pos name stop hops wireLen b hb len hne htag hlabel => exact ⟨_, rfl⟩

theorem readName_total (hfits : Fits bound data) (offset : ℕ) :
    ∃ r, readName bound data offset = .ok r :=
  readNameFrom_total hfits (Nat.zero_le _)

/-! ## Names on the wire -/

/-- The labels that are spelled at a position, over so many pointers, and where what is written
there ends. -/
inductive Spells (data : List Byte) : ℕ → ℕ → List (List Byte) → ℕ → Prop
  | root {pos : ℕ} (h : data[pos]? = some 0) : Spells data 0 pos [] (pos + 1)
  | label {hops pos after : ℕ} {label : List Byte} {labels : List (List Byte)}
      (hb : data[pos]? = some (UInt8.ofNat label.length)) (hpos : 0 < label.length)
      (hlen : label.length ≤ 63)
      (htext : label <+: data.drop (pos + 1))
      (hrest : Spells data hops (pos + (1 + label.length)) labels after) :
      Spells data hops pos (label :: labels) after
  | pointer {hops pos after : ℕ} {hi lo : Byte} {labels : List (List Byte)}
    (hhi : data[pos]? = some hi)
      (htag : hi.toNat &&& 0xC0 = 0xC0) (hlo : data[pos + 1]? = some lo)
      (htarget : Spells data hops (((hi.toNat &&& 0x3F) <<< 8) ||| lo.toNat) labels after) :
      Spells data (hops + 1) pos labels (pos + 2)

/-- The bytes that labels take, without the root. -/
def wireLength (labels : List (List Byte)) : ℕ := (labels.map fun label => 1 + label.length).sum

/-- Labels as the reader writes them: in lower case, with dots. -/
def dotted (labels : List (List Byte)) : List Char := labels.foldl pushLabel []

/-- A name that a message may hold: at most so many bytes and pointers. -/
def NameAt (data : List Byte) (pos : ℕ) (labels : List (List Byte)) (after : ℕ) : Prop :=
  wireLength labels ≤ maxNameLen ∧ ∃ hops ≤ maxPointerHops, Spells data hops pos labels after

theorem readNameFrom_spells (hfits : Fits bound data) {hops after : ℕ}
    (h : Spells data hops pos labels after) (name : List Char) (stop : Option ℕ) {hops₀ wireLen : ℕ}
    (hhops : hops₀ + hops ≤ maxPointerHops) (hwire : wireLen + wireLength labels ≤ maxNameLen) :
    readNameFrom bound data pos name stop hops₀ wireLen =
      .ok (some (labels.foldl pushLabel name, stop.getD after)) := by
  have hbound := hfits
  obtain ⟨hhalf, hword⟩ := hbound
  induction h generalizing name stop hops₀ wireLen with
  | root h =>
    have hpos := lt_of_getElem? h
    rw [readNameFrom, h]
    dsimp only
    have hzero : (0 : Byte).toNat = 0 := rfl
    rw [if_pos hzero, within_eq (by omega)]
    rfl
  | @label hops pos after label labels hb hlpos hlen htext hrest ih =>
    have hpos := lt_of_getElem? hb
    have hbyte : (UInt8.ofNat label.length).toNat = label.length := by
      rw [UInt8.toNat_ofNat']
      omega
    have hfit : pos + 1 + label.length ≤ data.length := by
      have hle := htext.length_le
      rw [List.length_drop] at hle
      omega
    have hcons : wireLength (label :: labels) = 1 + label.length + wireLength labels := rfl
    have hmax : maxNameLen = 255 := rfl
    have htag : label.length &&& 0xC0 = 0 := and_eq_zero (by omega)
    have htake : (data.drop (pos + 1)).take label.length = label :=
      List.prefix_iff_eq_take.mp htext |>.symm
    rw [readNameFrom, hb]
    dsimp only
    rw [hbyte, if_neg (by omega), htag, if_neg (by decide), if_pos rfl, within_eq (by omega),
      if_pos hfit,
      within_eq (by omega), dif_neg (by omega), htake]
    exact ih (pushLabel name label) stop hhops (by omega)
  | @pointer hops pos after hi lo labels hhi htag hlo htarget ih =>
    have hpos := lt_of_getElem? hhi
    have hne : hi.toNat ≠ 0 := by
      intro hzero
      rw [hzero] at htag
      exact absurd htag (by decide)
    rw [readNameFrom, hhi]
    dsimp only
    rw [if_neg hne, if_pos htag, within_eq (by omega), hlo]
    dsimp only
    rw [dif_neg (by omega)]
    exact ih name (some (stop.getD (pos + 2))) (by omega) hwire

/-- A name over more pointers than the reader follows is refused. -/
theorem readNameFrom_deep (hfits : Fits bound data) {hops after : ℕ}
    (h : Spells data hops pos labels after) (name : List Char) (stop : Option ℕ) {hops₀ wireLen : ℕ}
    (hmax : hops₀ ≤ maxPointerHops) (hhops : maxPointerHops < hops₀ + hops)
    (hwire : wireLen ≤ maxNameLen) :
    readNameFrom bound data pos name stop hops₀ wireLen = .ok none := by
  have hbound := hfits
  obtain ⟨hhalf, hword⟩ := hbound
  induction h generalizing name stop hops₀ wireLen with
  | root => omega
  | @label hops pos after label labels hb hlpos hlen htext hrest ih =>
    have hpos := lt_of_getElem? hb
    have hbyte : (UInt8.ofNat label.length).toNat = label.length := by
      rw [UInt8.toNat_ofNat']
      omega
    have hmaxLen : maxNameLen = 255 := rfl
    have htag : label.length &&& 0xC0 = 0 := and_eq_zero (by omega)
    rw [readNameFrom, hb]
    dsimp only
    rw [hbyte, if_neg (by omega), htag, if_neg (by decide), if_pos rfl, within_eq (by omega)]
    split
    · rw [within_eq (by omega)]
      split
      · rfl
      · exact ih _ stop hmax hhops (by omega)
    · rfl
  | @pointer hops pos after hi lo labels hhi htag hlo htarget ih =>
    have hpos := lt_of_getElem? hhi
    have hne : hi.toNat ≠ 0 := by
      intro hzero
      rw [hzero] at htag
      exact absurd htag (by decide)
    rw [readNameFrom, hhi]
    dsimp only
    rw [if_neg hne, if_pos htag, within_eq (by omega), hlo]
    dsimp only
    split
    · rfl
    · exact ih name (some (stop.getD (pos + 2))) (by omega) (by omega) hwire

/-- **A name is read as it is spelled**, whatever pointers spell it. -/
theorem readName_eq (hfits : Fits bound data) {after : ℕ} (h : NameAt data pos labels after) :
    readName bound data pos = .ok (some (dotted labels, after)) := by
  obtain ⟨hwire, hops, hhops, hspells⟩ := h
  exact readNameFrom_spells hfits hspells [] none (by omega) (by omega)

/-! ## What the stub writes -/

/-- Labels as they are written, each after its length. -/
def wireLabels (labels : List (List Byte)) : List Byte :=
  labels.flatMap fun label => UInt8.ofNat label.length :: label

theorem wireLabels_cons (label : List Byte) (labels : List (List Byte)) :
    wireLabels (label :: labels) = UInt8.ofNat label.length :: (label ++ wireLabels labels) := rfl

/-- What is written spells the labels, wherever it stands. -/
theorem spells_wireLabels (h : ∀ label ∈ labels, 0 < label.length ∧ label.length ≤ 63)
    (before behind : List Byte) :
    Spells (before ++ wireLabels labels ++ 0 :: behind) 0 before.length labels
      (before.length + (wireLabels labels).length + 1) := by
  induction labels generalizing before with
  | nil =>
    refine Spells.root ?_
    rw [List.append_assoc, List.getElem?_append_right (Nat.le_refl _), Nat.sub_self]
    rfl
  | cons label labels ih =>
    obtain ⟨hpos, hlen⟩ := h label List.mem_cons_self
    have hrest :=
      ih (fun l hl => h l (List.mem_cons_of_mem _ hl)) (before ++ UInt8.ofNat label.length :: label)
    have hdata : before ++ UInt8.ofNat label.length :: label ++ wireLabels labels ++ 0 :: behind =
        before ++ wireLabels (label :: labels) ++ 0 :: behind := by
      rw [wireLabels_cons]
      simp only [List.append_assoc, List.cons_append]
    have hbefore : (before ++ UInt8.ofNat label.length :: label).length = before.length +
      (1 + label.length) := by
      rw [List.length_append, List.length_cons]
      omega
    have hafter : before.length + (1 + label.length) + (wireLabels labels).length + 1 =
        before.length + (wireLabels (label :: labels)).length + 1 := by
      rw [wireLabels_cons, List.length_cons, List.length_append]
      omega
    rw [hdata, hbefore, hafter] at hrest
    refine Spells.label ?_ hpos hlen ?_ hrest
    · rw [List.append_assoc, List.getElem?_append_right (Nat.le_refl _), Nat.sub_self]
      rfl
    · rw [List.append_assoc, List.drop_append, List.drop_eq_nil_of_le (by omega), List.nil_append,
        show before.length + 1 - before.length = 1 by omega, wireLabels_cons]
      refine ⟨wireLabels labels ++ 0 :: behind, ?_⟩
      simp only [List.append_assoc, List.cons_append, List.drop_succ_cons, List.drop_zero]

theorem length_wireLabels (labels : List (List Byte)) :
    (wireLabels labels).length = wireLength labels := by
  induction labels with
  | nil => rfl
  | cons label labels ih =>
    rw [wireLabels_cons, List.length_cons, List.length_append, ih]
    show _ = 1 + label.length + wireLength labels
    omega

theorem foldl_pushLabel (h : ∀ label ∈ labels, label ≠ []) (hname : name ≠ []) :
    labels.foldl pushLabel name = List.intercalate ['.']
      (name :: labels.map fun label => label.map lowerChar) := by
  induction labels generalizing name with
  | nil => rw [List.foldl_nil, List.map_nil, List.intercalate_singleton]
  | cons label labels ih =>
    have hpush : pushLabel name label = name ++ '.' :: label.map lowerChar := by
      rw [pushLabel, if_neg hname, List.append_assoc, List.singleton_append]
    rw [List.foldl_cons, hpush, ih (fun l hl => h l (List.mem_cons_of_mem _ hl)) (by simp)]
    rw [List.map_cons, List.intercalate_cons_cons]
    cases labels with
    | nil =>
      rw [List.map_nil, List.intercalate_singleton, List.intercalate_singleton, List.append_assoc]
      rfl
    | cons l ls =>
      rw [List.map_cons, List.intercalate_cons_cons, List.intercalate_cons_cons]
      simp

theorem dotted_eq (h : ∀ label ∈ labels, label ≠ []) :
    dotted labels = List.intercalate ['.'] (labels.map fun label => label.map lowerChar) := by
  cases labels with
  | nil => rfl
  | cons label labels =>
    have hfirst : pushLabel [] label = label.map lowerChar := by
      rw [pushLabel, if_pos rfl, List.nil_append]
    have hne : label.map lowerChar ≠ [] :=
      fun hnil => h label List.mem_cons_self (List.map_eq_nil_iff.mp hnil)
    rw [dotted, List.foldl_cons, hfirst,
      foldl_pushLabel (fun l hl => h l (List.mem_cons_of_mem _ hl)) hne,
      List.map_cons]

theorem mem_of_mem_stripDot {c : Char} (h : c ∈ stripDot name) : c ∈ name := by
  rw [stripDot] at h
  split at h
  · exact List.mem_of_mem_dropLast h
  · exact h

theorem utf8_of_ascii {c : Char} (h : c.toNat ≤ 0x7f) :
    String.utf8EncodeChar c = [UInt8.ofNat c.toNat] := by
  have hsize : c.utf8Size = 1 := by
    rw [Char.utf8Size_eq_one_iff]
    exact h
  rw [String.utf8EncodeChar_eq_singleton hsize]
  rfl

theorem lowerChar_ascii {c : Char} (h : c.toNat ≤ 0x7f) :
    lowerChar (UInt8.ofNat c.toNat) = c.toLower := by
  rw [lowerChar, UInt8.toNat_ofNat', Nat.mod_eq_of_lt (by omega), Char.ofNat_toNat]

theorem flatMap_utf8 {s : List Char} (h : ∀ c ∈ s, c.toNat ≤ 0x7f) :
    s.flatMap String.utf8EncodeChar = s.map fun c => UInt8.ofNat c.toNat := by
  induction s with
  | nil => rfl
  | cons c s ih =>
    rw [List.flatMap_cons, utf8_of_ascii (h c List.mem_cons_self),
      ih fun d hd => h d (List.mem_cons_of_mem _ hd)]
    rfl

theorem map_lowerChar {s : List Char} (h : ∀ c ∈ s, c.toNat ≤ 0x7f) :
    (s.flatMap String.utf8EncodeChar).map lowerChar = s.map Char.toLower := by
  rw [flatMap_utf8 h, List.map_map]
  exact List.map_congr_left fun c hc => lowerChar_ascii (h c hc)

theorem map_intercalate (f : Char → Char) (d : Char) (fs : List (List Char)) :
    (List.intercalate [d] fs).map f = List.intercalate [f d] (fs.map fun s => s.map f) := by
  induction fs with
  | nil => rfl
  | cons s fs ih =>
    cases fs with
    | nil => rw [List.map_singleton, List.intercalate_singleton, List.intercalate_singleton]
    | cons t fs =>
      rw [List.intercalate_cons_cons, List.map_append, List.map_append, ih]
      simp only [List.map_cons, List.map_nil, List.intercalate_cons_cons]

theorem encodeNameVec_eq (name : List Char) : encodeNameVec name =
    if stripDot name = [] then none
    else if (split (· = '.') (stripDot name)).any fun label =>
      label = [] || 63 < Dns.byteLength label then none
    else if 255 < ((split (· = '.') (stripDot name)).flatMap (fun label =>
        UInt8.ofNat (Dns.byteLength label) :: label.flatMap String.utf8EncodeChar) ++
          [0]).length then none
    else some ((split (· = '.') (stripDot name)).flatMap (fun label =>
        UInt8.ofNat (Dns.byteLength label) :: label.flatMap String.utf8EncodeChar) ++ [0]) := rfl

/-- **A name comes back in lower case**, without the dot at its end, from wherever it was
written. -/
theorem readName_encodeNameVec (hascii : ∀ c ∈ name, c.toNat ≤ 0x7f) {enc : List Byte}
    (h : encodeNameVec name = some enc) (before behind : List Byte)
    (hfits : Fits bound (before ++ enc ++ behind)) :
    readName bound (before ++ enc ++ behind) before.length =
      .ok (some ((stripDot name).map Char.toLower, before.length + enc.length)) := by
  rw [encodeNameVec_eq] at h
  obtain ⟨-, h⟩ := Option.ite_none_left_eq_some.mp h
  obtain ⟨hlabels, h⟩ := Option.ite_none_left_eq_some.mp h
  obtain ⟨hlen, h⟩ := Option.ite_none_left_eq_some.mp h
  obtain rfl := Option.some.inj h
  have hstripped : ∀ label ∈ split (· = '.') (stripDot name), ∀ c ∈ label, c.toNat ≤ 0x7f :=
    fun label hl c hc =>
    hascii c (mem_of_mem_stripDot (mem_of_mem_split hl hc))
  have hbytes : ∀ label ∈ split (· = '.') (stripDot name),
    (label.flatMap String.utf8EncodeChar).length =
      Dns.byteLength label := fun label hl => by
    rw [flatMap_utf8 (hstripped label hl), List.length_map,
      Dns.byteLength_of_ascii (hstripped label hl)]
  have henc : (split (· = '.') (stripDot name)).flatMap (fun label =>
      UInt8.ofNat (Dns.byteLength label) :: label.flatMap String.utf8EncodeChar) =
      wireLabels ((split (· = '.') (stripDot name)).map fun label =>
        label.flatMap String.utf8EncodeChar) := by
    rw [wireLabels, List.flatMap_map]
    exact List.flatMap_congr fun label hl => by rw [hbytes label hl]
  have hlabel : ∀ label ∈ (split (· = '.') (stripDot name)).map fun label =>
    label.flatMap String.utf8EncodeChar,
      0 < label.length ∧ label.length ≤ 63 := by
    intro l hl
    obtain ⟨label, hmem, rfl⟩ := List.mem_map.mp hl
    have hok := List.any_eq_false.mp (Bool.eq_false_iff.mpr hlabels) label hmem
    rw [hbytes label hmem]
    rw [Bool.or_eq_true_iff, not_or, decide_eq_true_eq, decide_eq_true_eq] at hok
    rw [Dns.byteLength_of_ascii (hstripped label hmem)] at hok ⊢
    exact ⟨List.length_pos_iff.mpr hok.1, Nat.le_of_not_lt hok.2⟩
  have htext :
    dotted ((split (· = '.') (stripDot name)).map fun label => label.flatMap
    String.utf8EncodeChar) =
      (stripDot name).map Char.toLower := by
    have hlower :
      ((split (· = '.') (stripDot name)).map fun label => label.flatMap String.utf8EncodeChar).map
        (fun label => label.map lowerChar) = (split (· = '.') (stripDot name)).map fun label =>
          label.map Char.toLower := by
      rw [List.map_map]
      exact List.map_congr_left fun label hl => map_lowerChar (hstripped label hl)
    have hdot : Char.toLower '.' = '.' := by decide
    rw [dotted_eq fun label hl => List.length_pos_iff.mp (hlabel label hl).1, hlower]
    have hmap := map_intercalate Char.toLower '.' (split (· = '.') (stripDot name))
    rw [hdot, intercalate_split] at hmap
    exact hmap.symm
  rw [henc] at hlen hfits ⊢
  have hspells := spells_wireLabels hlabel before behind
  have hdata : before ++ wireLabels ((split (· = '.') (stripDot name)).map fun label =>
      label.flatMap String.utf8EncodeChar) ++ 0 :: behind = before ++ (wireLabels ((split (· = '.')
        (stripDot name)).map fun label => label.flatMap String.utf8EncodeChar) ++ [0]) ++
          behind := by
    simp only [List.append_assoc, List.singleton_append]
  rw [hdata] at hspells
  have hwire : wireLength ((split (· = '.') (stripDot name)).map fun label =>
      label.flatMap String.utf8EncodeChar) ≤ maxNameLen := by
    rw [List.length_append, length_wireLabels] at hlen
    exact Nat.le_trans (Nat.le_add_right _ _) (Nat.le_of_not_lt hlen)
  rw [readName_eq hfits ⟨hwire, 0, Nat.zero_le _, hspells⟩, htext, List.length_append,
    List.length_singleton,
    Nat.add_assoc]

/-! ## Replies -/

/-- A record of a reply; the target is what the data of a CNAME spells. -/
structure Record where
  name : List (List Byte)
  rtype : UInt16
  rclass : UInt16
  ttl : UInt32
  rdata : List Byte
  target : List (List Byte)

/-- A record behind its name. -/
def Record.bytes (r : Record) : List Byte :=
  u16ToBe r.rtype ++ u16ToBe r.rclass ++ u32ToBe r.ttl ++
    u16ToBe (UInt16.ofNat r.rdata.length) ++ r.rdata

/-- A record up to its data. -/
def Record.head (r : Record) : List Byte :=
  u16ToBe r.rtype ++ u16ToBe r.rclass ++ u32ToBe r.ttl ++ u16ToBe (UInt16.ofNat r.rdata.length)

theorem Record.length_head (r : Record) : r.head.length = 10 := rfl

theorem Record.bytes_eq (r : Record) : r.bytes = r.head ++ r.rdata := rfl

/-- A record in a message, with its name spelled in any way. -/
structure RecordAt (data : List Byte) (off : ℕ) (r : Record) (o : ℕ) : Prop where
  name : NameAt data off r.name o
  short : r.rdata.length < 65536
  text : r.bytes <+: data.drop o
  address : r.rtype = 1 → r.rdata.length = 4
  target : r.rtype = 5 → NameAt data (o + 10) r.target (o + 10 + r.rdata.length)

/-- Records one behind the other. -/
inductive RecordsAt (data : List Byte) : ℕ → List Record → ℕ → Prop
  | nil {off : ℕ} : RecordsAt data off [] off
  | cons {off o stop : ℕ} {r : Record} {rs : List Record} (hr : RecordAt data off r o)
      (hrs : RecordsAt data (o + 10 + r.rdata.length) rs stop) : RecordsAt data off (r :: rs) stop

/-- The header of a reply to one question, up to the number of answers. -/
def replyHeader (txId flags : UInt16) (answers : ℕ) : List Byte :=
  u16ToBe txId ++ u16ToBe flags ++ u16ToBe 1 ++ u16ToBe (UInt16.ofNat answers)

/-- A well-formed response to the query of that id for that name. -/
structure Answers (data : List Byte) (txId : UInt16) (qname : List Char) (flags : UInt16)
    (rs : List Record) :
    Prop where
  header : ∃ counts : List Byte, counts.length = 4 ∧
    replyHeader txId flags rs.length ++ counts <+: data
  few : rs.length ≤ 64
  response : flags &&& 0x8000 ≠ 0
  question : ∃ labels o stop, NameAt data 12 labels o ∧
    dotted labels = (stripDot qname).map Char.toLower ∧
    [0, 1, 0, 1] <+: data.drop o ∧ RecordsAt data (o + 4) rs stop

/-- The A records of a name. -/
def addressesOf (rs : List Record) (n : List Char) : List (Ipv4Addr × UInt32) :=
  (rs.filter fun r => dotted r.name = n && r.rtype = 1).map fun r =>
    (Ipv4Addr.fromBytes r.rdata, r.ttl)

/-- What the name is an alias of. -/
def aliasOf (rs : List Record) (n : List Char) : Option (List Char) :=
  (rs.find? fun r => dotted r.name = n && r.rtype = 5).map fun r => dotted r.target

/-- The name behind so many CNAMEs. -/
def chain (rs : List Record) (n : List Char) : ℕ → Option (List Char)
  | 0 => some n
  | k + 1 => (chain rs n k).bind (aliasOf rs)

theorem chain_succ (rs : List Record) (n : List Char) (k : ℕ) :
    chain rs n (k + 1) = (aliasOf rs n).bind fun n' => chain rs n' k := by
  induction k with
  | zero =>
    rw [chain, chain, Option.bind_some]
    cases aliasOf rs n <;> rfl
  | succ k ih =>
    rw [chain, ih]
    cases aliasOf rs n <;> rfl

/-! ### What is read of a record -/

theorem orInvalid_some {α β : Type} {x : Exec (Option α)} {f : α → Exec (Except NetError β)} {a : α}
    (h : x = .ok (some a)) : orInvalid x f = f a := by
  rw [h]
  rfl

theorem slice_eq (hfits : Fits bound data) {lo len : ℕ} {text : List Byte}
    (hlen : text.length = len) (h : text <+: data.drop lo) (hlo : lo ≤ data.length) :
    slice bound data lo len = .ok (some text) := by
  obtain ⟨hhalf, hword⟩ := hfits
  have hle := h.length_le
  rw [List.length_drop] at hle
  rw [slice, within_eq (by omega), if_pos (by omega), ← hlen, ← List.prefix_iff_eq_take.mp h]

/-- What is kept of a record. -/
def Reads (data : List Byte) (r : Record) (c : Rec) : Prop :=
  c.name = dotted r.name ∧ c.rtype = r.rtype ∧ c.ttl = r.ttl ∧ c.rdata = r.rdata ∧
    (r.rtype = 1 → r.rdata.length = 4) ∧ (r.rtype = 5 → ∃ after, NameAt data c.start r.target after)

theorem readRecord_eq (hfits : Fits bound data) {off o : ℕ} {r : Record}
    (h : RecordAt data off r o) :
    ∃ c, readRecord bound data off = .ok (.ok (c, o + 10 + r.rdata.length)) ∧ Reads data r c := by
  obtain ⟨hname, hshort, htext, haddress, htarget⟩ := h
  obtain ⟨rest, hrest⟩ := htext
  have hdrop : data.drop o = r.head ++ (r.rdata ++ rest) := by
    rw [← hrest, Record.bytes_eq, List.append_assoc]
  have ho : o ≤ data.length ∧ o + 10 ≤ data.length := by
    have hlen := congrArg List.length hdrop
    rw [List.length_drop, List.length_append, Record.length_head] at hlen
    omega
  have hhead : r.head <+: data.drop o := ⟨r.rdata ++ rest, hdrop.symm⟩
  have hdata : r.rdata <+: data.drop (o + 10) := by
    refine ⟨rest, ?_⟩
    rw [← List.drop_drop, hdrop, List.drop_left' r.length_head]
  have hrdlen : (u16FromBe (r.head.getD 8 0) (r.head.getD 9 0)).toNat = r.rdata.length := by
    have hword : u16FromBe (r.head.getD 8 0) (r.head.getD 9 0) = UInt16.ofNat r.rdata.length :=
      u16FromBe_u16ToBe (UInt16.ofNat r.rdata.length)
    rw [hword, UInt16.toNat_ofNat', Nat.mod_eq_of_lt hshort]
  refine ⟨⟨dotted r.name, r.rtype, r.ttl, r.rdata, o + 10⟩, ?_, rfl, rfl, rfl, rfl, haddress,
    fun htype => ⟨_, htarget htype⟩⟩
  have htype : u16FromBe (r.head.getD 0 0) (r.head.getD 1 0) = r.rtype := u16FromBe_u16ToBe r.rtype
  have httl :
    u32FromBe (r.head.getD 4 0) (r.head.getD 5 0) (r.head.getD 6 0) (r.head.getD 7 0) = r.ttl :=
    u32FromBe_u32ToBe r.ttl
  rw [readRecord, orInvalid_some (readName_eq hfits hname)]
  dsimp only
  rw [orInvalid_some (slice_eq hfits r.length_head hhead ho.1)]
  rw [hrdlen, orInvalid_some (slice_eq hfits rfl hdata ho.2), htype, httl]

/-- **The answer section** is read record by record. -/
theorem readRecords_append (hfits : Fits bound data) {off stop : ℕ} (h : RecordsAt data off rs stop)
    (n : ℕ) (recs : List Rec) :
    ∃ cs, readRecords bound data (rs.length + n) off recs = readRecords bound data n stop
      (recs ++ cs) ∧
      List.Forall₂ (Reads data) rs cs := by
  induction h generalizing recs with
  | nil => exact ⟨[], by rw [List.append_nil, List.length_nil, Nat.zero_add], .nil⟩
  | @cons off o stop r rs hr hrs ih =>
    obtain ⟨c, hc, hreads⟩ := readRecord_eq hfits hr
    obtain ⟨cs, hcs, hall⟩ := ih (recs ++ [c])
    refine ⟨c :: cs, ?_, .cons hreads hall⟩
    rw [List.length_cons, Nat.add_right_comm, readRecords, hc]
    dsimp only
    rw [hcs, List.append_assoc]
    rfl

theorem readRecords_eq (hfits : Fits bound data) {off stop : ℕ} (h : RecordsAt data off rs stop) :
    ∃ cs, readRecords bound data rs.length off [] = .ok (.ok cs) ∧
      List.Forall₂ (Reads data) rs cs := by
  obtain ⟨cs, hcs, hall⟩ := readRecords_append hfits h 0 []
  exact ⟨cs, hcs, hall⟩

theorem addrsOf_eq {cs : List Rec} (h : List.Forall₂ (Reads data) rs cs) (n : List Char) :
    addrsOf cs n = addressesOf rs n := by
  induction h with
  | nil => rfl
  | @cons r c rs cs hr _ ih =>
    obtain ⟨hname, htype, httl, hdata, haddress, -⟩ := hr
    have htest :
      (c.name = n && c.rtype = 1 && c.rdata.length = 4) = (dotted r.name = n && r.rtype = 1) := by
      rw [hname, htype, hdata]
      by_cases h1 : r.rtype = 1
      · simp [haddress h1]
      · simp [h1]
    rw [addrsOf, addressesOf] at ih ⊢
    rw [List.filter_cons, List.filter_cons, htest]
    split
    · rw [List.map_cons, List.map_cons, ih, hdata, httl]
    · exact ih

theorem find?_eq {cs : List Rec} (h : List.Forall₂ (Reads data) rs cs) (n : List Char) :
    (aliasOf rs n = none ∧ (cs.find? fun c => c.name = n && c.rtype = 5) = none) ∨
      ∃ r c after, aliasOf rs n = some (dotted r) ∧
        (cs.find? fun c => c.name = n && c.rtype = 5) = some c ∧
        NameAt data c.start r after := by
  induction h with
  | nil => exact .inl ⟨rfl, rfl⟩
  | @cons r c rs cs hr _ ih =>
    obtain ⟨hname, htype, -, -, -, htarget⟩ := hr
    have htest : (c.name = n && c.rtype = 5) = (dotted r.name = n && r.rtype = 5) := by
      rw [hname, htype]
    rw [aliasOf] at ih ⊢
    rw [List.find?_cons, List.find?_cons, htest]
    split
    · rename_i hfound
      obtain ⟨after, hafter⟩ := htarget (of_decide_eq_true (Bool.and_eq_true_iff.mp hfound).2)
      exact .inr ⟨r.target, c, after, rfl, rfl, hafter⟩
    · exact ih

/-! ### Following the chain -/

/-- What the loop over the chain gives. -/
def followed (rs : List Record) :
    ℕ → List Char → Option (List Char) → List (Ipv4Addr × UInt32) × Option (List Char)
  | 0, _, cname => ([], cname)
  | n + 1, name, cname =>
    if addressesOf rs name ≠ [] then (addressesOf rs name, none)
    else
      match aliasOf rs name with
      | some target => followed rs n target (some target)
      | none => ([], cname)

theorem follow_eq (hfits : Fits bound data) {cs : List Rec} (h : List.Forall₂ (Reads data) rs cs)
    (n : ℕ) (name : List Char) (cname : Option (List Char)) :
    follow bound data cs n name cname = .ok (.ok (followed rs n name cname)) := by
  induction n generalizing name cname with
  | zero => rfl
  | succ n ih =>
    rw [follow, followed, addrsOf_eq h]
    split
    · rfl
    · rcases find?_eq h name with ⟨halias, hfind⟩ | ⟨target, c, after, halias, hfind, hname⟩
      · rw [halias, hfind]
      · rw [halias, hfind]
        dsimp only
        rw [orInvalid_some (readName_eq hfits hname)]
        exact ih _ _

/-- **The first name with addresses**, where the chain reaches one in time. -/
theorem followed_found {k : ℕ} {m : List Char} (hk : k < n) (hchain : chain rs name k = some m)
    (hsome : addressesOf rs m ≠ [])
    (hfirst : ∀ j < k, ∀ m', chain rs name j = some m' → addressesOf rs m' = [])
    (cname : Option (List Char)) : followed rs n name cname = (addressesOf rs m, none) := by
  induction n generalizing name cname k with
  | zero => exact absurd hk (Nat.not_lt_zero _)
  | succ n ih =>
    rw [followed]
    cases k with
    | zero =>
      obtain rfl := Option.some.inj hchain
      rw [if_pos hsome]
    | succ k =>
      rw [if_neg (not_not.mpr (hfirst 0 (Nat.succ_pos _) name rfl))]
      rw [chain_succ] at hchain
      obtain ⟨target, htarget, hrest⟩ := Option.bind_eq_some_iff.mp hchain
      rw [htarget]
      refine ih (Nat.lt_of_succ_lt_succ hk) hrest (fun j hj m' hm' => ?_) _
      refine hfirst (j + 1) (Nat.succ_lt_succ hj) m' ?_
      rw [chain_succ, htarget]
      exact hm'

/-- **The end of the chain**, where none of the names has addresses. -/
theorem followed_end (hnone : ∀ k < n, ∀ m, chain rs name k = some m → addressesOf rs m = [])
    (cname : Option (List Char)) :
    ∃ k m, k ≤ n ∧ chain rs name k = some m ∧ (k = n ∨ chain rs name (k + 1) = none) ∧
      followed rs n name cname = ([], if k = 0 then cname else some m) := by
  induction n generalizing name cname with
  | zero => exact ⟨0, name, Nat.le_refl _, rfl, .inl rfl, rfl⟩
  | succ n ih =>
    rw [followed, if_neg (not_not.mpr (hnone 0 (Nat.succ_pos _) name rfl))]
    cases halias : aliasOf rs name with
    | none =>
      refine ⟨0, name, Nat.zero_le _, rfl, .inr ?_, rfl⟩
      rw [chain_succ, halias]
      rfl
    | some target =>
      have hshift : ∀ k, chain rs name (k + 1) = chain rs target k := fun k => by
        rw [chain_succ, halias]
        rfl
      obtain ⟨k, m, hk, hm, hlast, heq⟩ := @ih target (fun k hk m hm =>
        hnone (k + 1) (Nat.succ_lt_succ hk) m ((hshift k).trans hm)) (some target)
      refine ⟨k + 1, m, Nat.succ_le_succ hk, (hshift k).trans hm, ?_, ?_⟩
      · rw [hshift]
        exact hlast.imp_left (congrArg _)
      · dsimp only
        rw [heq, if_neg (Nat.succ_ne_zero k)]
        by_cases hk0 : k = 0
        · subst hk0
          rw [if_pos rfl, ← Option.some.inj hm]
        · rw [if_neg hk0]

/-! ### The whole reply -/

theorem parseReply_eq (hfits : Fits bound data) {txId flags : UInt16} {qname : List Char}
    (h : Answers data txId qname flags rs) :
    parseReply bound data txId qname = .ok (.ok
      { rcode := (flags &&& 0xf).toUInt8
        addrs := (followed rs 9 ((stripDot qname).map Char.toLower) none).1
        cname := (followed rs 9 ((stripDot qname).map Char.toLower) none).2 }) := by
  obtain ⟨⟨counts, hcounts, hheader⟩, hfew, hresponse, labels, o, stop, hname, hwant, hquestion,
    hrecords⟩ := h
  have hlen : (replyHeader txId flags rs.length ++ counts).length = 12 := by
    rw [List.length_append, hcounts]
    rfl
  have hslice := @slice_eq bound data hfits 0 12 _ hlen (by rwa [List.drop_zero]) (Nat.zero_le _)
  have hid : u16FromBe ((replyHeader txId flags rs.length ++ counts).getD 0 0)
      ((replyHeader txId flags rs.length ++ counts).getD 1 0) = txId := u16FromBe_u16ToBe txId
  have hflags : u16FromBe ((replyHeader txId flags rs.length ++ counts).getD 2 0)
      ((replyHeader txId flags rs.length ++ counts).getD 3 0) = flags := u16FromBe_u16ToBe flags
  have hone : u16FromBe ((replyHeader txId flags rs.length ++ counts).getD 4 0)
      ((replyHeader txId flags rs.length ++ counts).getD 5 0) = 1 := u16FromBe_u16ToBe 1
  have hcount : (u16FromBe ((replyHeader txId flags rs.length ++ counts).getD 6 0)
      ((replyHeader txId flags rs.length ++ counts).getD 7 0)).toNat = rs.length := by
    have hword : u16FromBe ((replyHeader txId flags rs.length ++ counts).getD 6 0)
        ((replyHeader txId flags rs.length ++ counts).getD 7 0) = UInt16.ofNat rs.length :=
      u16FromBe_u16ToBe (UInt16.ofNat rs.length)
    rw [hword, UInt16.toNat_ofNat', Nat.mod_eq_of_lt (by omega)]
  have ho : o ≤ data.length := by
    have hle := hquestion.length_le
    rw [List.length_drop] at hle
    have hfour : ([0, 1, 0, 1] : List Byte).length = 4 := rfl
    omega
  have hslice4 := @slice_eq bound data hfits o 4 _ rfl hquestion ho
  obtain ⟨cs, hcs, hreads⟩ := readRecords_eq hfits hrecords
  have hmatch : ¬ (txId ≠ txId ∨ flags &&& 0x8000 = 0 ∨ (1 : UInt16) ≠ 1) := by
    rintro (h | h | h)
    · exact h rfl
    · exact hresponse h
    · exact h rfl
  have hasked :
    ¬ (dotted labels ≠ (stripDot qname).map Char.toLower ∨
    ([0, 1, 0, 1] : List Byte) ≠ [0, 1, 0, 1]) := by
    rintro (h | h)
    · exact h hwant
    · exact h rfl
  rw [parseReply, orInvalid_some hslice]
  dsimp only
  rw [hid, hflags, hone, hcount, if_neg hmatch, orInvalid_some (readName_eq hfits hname)]
  dsimp only
  rw [orInvalid_some hslice4, if_neg hasked, Nat.min_eq_left hfew, hcs]
  dsimp only
  rw [follow_eq hfits hreads]

/-- **The wire code of the stub.**  `bound` is how many values an index has; a slice takes at most
half of the address space.

Every name, at every offset of every byte string, is read to an end without a sum that is too large.
What is written for a name in ASCII is read as that name in lower case, without the dot at its end,
with the offset behind it.  And of a well-formed reply with at most 64 records, in any order and
compression, the stub takes the addresses of the first name that has any along the chain of CNAMEs
from the name it asked for, if it is at most 8 CNAMEs away, and else no address and the end of the
chain that was followed, which is the 9th target where the chain goes on. -/
theorem stub_wire_exact :
    (∀ (bound : ℕ) (data : List Byte), Fits bound data → ∀ offset, ∃ r,
      readName bound data offset = .ok r) ∧
    (∀ (bound : ℕ) (name : List Char), (∀ c ∈ name, c.toNat ≤ 0x7f) → ∀ enc,
      encodeNameVec name = some enc →
      ∀ before behind : List Byte, Fits bound (before ++ enc ++ behind) →
      readName bound (before ++ enc ++ behind) before.length =
        .ok (some ((stripDot name).map Char.toLower, before.length + enc.length))) ∧
    ∀ (bound : ℕ) (data : List Byte) (txId flags : UInt16) (qname : List Char) (rs : List Record),
      Fits bound data →
      Answers data txId qname flags rs → ∃ reply, parseReply bound data txId qname = .ok
        (.ok reply) ∧
      reply.rcode = (flags &&& 0xf).toUInt8 ∧
      (∀ k m, k ≤ 8 → chain rs ((stripDot qname).map Char.toLower) k = some m →
        addressesOf rs m ≠ [] →
        (∀ j < k, ∀ m', chain rs ((stripDot qname).map Char.toLower) j = some m' →
          addressesOf rs m' = []) →
        reply.addrs = addressesOf rs m ∧ reply.cname = none) ∧
      ((∀ k ≤ 8, ∀ m, chain rs ((stripDot qname).map Char.toLower) k = some m →
        addressesOf rs m = []) →
        reply.addrs = [] ∧ ∃ k m, k ≤ 9 ∧ chain rs ((stripDot qname).map Char.toLower) k = some m ∧
          (k = 9 ∨ chain rs ((stripDot qname).map Char.toLower) (k + 1) = none) ∧
          reply.cname = if k = 0 then none else some m) := by
  refine ⟨fun bound data hfits offset => readName_total hfits offset,
    fun bound name hascii enc h before behind hfits =>
      readName_encodeNameVec hascii h before behind hfits,
    fun bound data txId flags qname rs hfits h => ⟨_, parseReply_eq hfits h, rfl, ?_, ?_⟩⟩
  · intro k m hk hchain hsome hfirst
    dsimp only
    rw [followed_found (Nat.lt_succ_of_le hk) hchain hsome hfirst]
    exact ⟨rfl, rfl⟩
  · intro hnone
    obtain ⟨k, m, hk, hchain, hlast, heq⟩ :=
      followed_end (fun k hk m hm => hnone k (Nat.le_of_lt_succ hk) m hm) none
    dsimp only
    rw [heq]
    exact ⟨rfl, k, m, hk, hchain, hlast, rfl⟩

/-- A reply with seventeen addresses, in which each name is a pointer to the name before it. -/
def deepReply : List Byte :=
  [0, 9, 0x81, 0x80, 0, 1, 0, 17, 0, 0, 0, 0, 1, 97, 0, 0, 1, 0, 1] ++
    (List.range 17).flatMap fun i =>
    let t := if i = 0 then 12 else 19 + 16 * (i - 1)
    [UInt8.ofNat (0xC0 + t / 256), UInt8.ofNat t, 0, 1, 0, 1, 0, 0, 0, 60, 0, 4, 1, 2, 3,
      UInt8.ofNat i]

theorem spells_deepReply {i : ℕ} (hi : i < 17) :
    Spells deepReply (i + 1) (19 + 16 * i) [[97]] (19 + 16 * i + 2) := by
  induction i with
  | zero =>
    have ha : Spells deepReply 0 12 [[97]] 15 :=
      .label (by decide +kernel) (by decide) (by decide) (by decide +kernel)
        (.root (by decide +kernel))
    exact @Spells.pointer _ 0 19 15 0xC0 12 _ (by decide +kernel) (by decide) (by decide +kernel) ha
  | succ i ih =>
    have hbytes :
      ∀ j < 16, deepReply[19 + 16 * (j + 1)]? = some (UInt8.ofNat (0xC0 + (19 + 16 * j) / 256)) ∧
        deepReply[19 + 16 * (j + 1) + 1]? = some (UInt8.ofNat (19 + 16 * j)) ∧
        (UInt8.ofNat (0xC0 + (19 + 16 * j) / 256)).toNat &&& 0xC0 = 0xC0 ∧
        ((((UInt8.ofNat (0xC0 + (19 + 16 * j) / 256)).toNat &&& 0x3F) <<< 8) |||
          (UInt8.ofNat (19 + 16 * j)).toNat) = 19 + 16 * j := by decide +kernel
    obtain ⟨hhi, hlo, htag, htarget⟩ := hbytes i (by omega)
    have hrest := ih (by omega)
    rw [← htarget] at hrest
    exact Spells.pointer hhi htag hlo hrest

/-- The name of the seventeenth record is read over seventeen pointers, so the reply is refused: its
names are spelled, and all that is wrong with it is how often they point on. -/
theorem deepReply_refused :
    (∀ i < 17, Spells deepReply (i + 1) (19 + 16 * i) [[97]] (19 + 16 * i + 2) ∧
      (⟨[[97]], 1, 1, 60, [1, 2, 3, UInt8.ofNat i], []⟩ : Record).bytes <+: deepReply.drop
      (19 + 16 * i + 2)) ∧
    parseReply 4294967296 deepReply 9 ['a'] = .ok (.error .invalidPacket) := by
  have hrecord : ∀ i < 17, (⟨[[97]], 1, 1, 60, [1, 2, 3, UInt8.ofNat i], []⟩ : Record).bytes <+:
      deepReply.drop (19 + 16 * i + 2) := by decide +kernel
  refine ⟨fun i hi => ⟨spells_deepReply hi, hrecord i hi⟩, ?_⟩
  have hfits : Fits 4294967296 deepReply := ⟨by decide +kernel, by decide⟩
  have hrecords : ∀ k ≤ 16, ∃ rs : List Record, rs.length = k ∧
      RecordsAt deepReply (19 + 16 * (16 - k)) rs (19 + 16 * 16) := by
    intro k hk
    induction k with
    | zero => exact ⟨[], rfl, .nil⟩
    | succ k ih =>
      obtain ⟨rs, hlen, hrs⟩ := ih (by omega)
      refine ⟨⟨[[97]], 1, 1, 60, [1, 2, 3, UInt8.ofNat (16 - (k + 1))], []⟩ :: rs,
        congrArg _ hlen, ?_⟩
      refine .cons (o := 19 + 16 * (16 - (k + 1)) + 2)
        ⟨⟨?_, 16 - (k + 1) + 1, ?_, ?_⟩, ?_, ?_, fun _ => rfl,
        nofun⟩ ?_
      · show 2 ≤ 255
        omega
      · show 16 - (k + 1) + 1 ≤ 16
        omega
      · exact spells_deepReply (by omega)
      · show 4 < 65536
        omega
      · exact hrecord _ (by omega)
      · have hnext : 19 + 16 * (16 - (k + 1)) + 2 + 10 + 4 = 19 + 16 * (16 - k) := by omega
        show RecordsAt deepReply (19 + 16 * (16 - (k + 1)) + 2 + 10 + 4) rs _
        rw [hnext]
        exact hrs
  obtain ⟨rs, hlen, hrs⟩ := hrecords 16 (Nat.le_refl _)
  obtain ⟨cs, hcs, -⟩ := readRecords_append hfits hrs 1 []
  have hlast : readName 4294967296 deepReply (19 + 16 * 16) = .ok none :=
    readNameFrom_deep hfits (spells_deepReply (by omega)) [] none (by decide)
      (by decide) (by decide)
  have hquestion : NameAt deepReply 12 [[97]] 15 :=
    ⟨by decide, 0, by decide, .label (by decide +kernel) (by decide) (by decide) (by decide +kernel)
      (.root (by decide +kernel))⟩
  have hread : readRecords 4294967296 deepReply 17 19 [] = .ok (.error .invalidPacket) := by
    rw [hlen] at hcs
    rw [show (17 : ℕ) = 16 + 1 from rfl]
    refine hcs.trans ?_
    rw [readRecords, readRecord, hlast]
    rfl
  have hheader :
    slice 4294967296 deepReply 0 12 = .ok (some [0, 9, 0x81, 0x80, 0, 1, 0, 17, 0, 0, 0, 0]) :=
    slice_eq hfits rfl (by decide +kernel) (by decide +kernel)
  have htype : slice 4294967296 deepReply 15 4 = .ok (some [0, 1, 0, 1]) :=
    slice_eq hfits rfl (by decide +kernel) (by decide +kernel)
  rw [parseReply, orInvalid_some hheader]
  dsimp only
  rw [if_neg (by decide +kernel), orInvalid_some (readName_eq hfits hquestion)]
  dsimp only
  rw [orInvalid_some htype, if_neg (by decide +kernel)]
  have hcount : min (u16FromBe (([0, 9, 0x81, 0x80, 0, 1, 0, 17, 0, 0, 0, 0] : List Byte).getD 6 0)
      (([0, 9, 0x81, 0x80, 0, 1, 0, 17, 0, 0, 0, 0] : List Byte).getD 7 0)).toNat 64 = 17 := by
        decide +kernel
  rw [hcount, hread]

/-- A reply in which the name is an alias, and everything but the first label of each name is a
pointer. -/
def sampleReply : List Byte :=
  [0, 9, 0x81, 0x80, 0, 1, 0, 2, 0, 0, 0, 0, 4, 99, 104, 97, 116, 4, 114, 105, 110, 103,
    0, 0, 1, 0, 1,
    0xC0, 12, 0, 5, 0, 1, 0, 0, 0, 60, 0, 9, 3, 119, 101, 98, 2, 118, 52, 0xC0, 17,
    0xC0, 39, 0, 1, 0, 1, 0, 0, 1, 44, 0, 4, 100, 68, 0, 10]

/-- `chat.ring` is `web.v4.ring`, which has an address. -/
theorem stub_wire_exact_alias :
    ∃ reply, parseReply 4294967296 sampleReply 9 "chat.ring".toList = .ok (.ok reply) ∧
    reply.addrs = [(⟨100, 68, 0, 10⟩, 300)] ∧ reply.cname = none := by
  have hring : Spells sampleReply 0 17 [[114, 105, 110, 103]] 23 :=
    .label (by decide +kernel) (by decide) (by decide) (by decide +kernel)
      (.root (by decide +kernel))
  have hchat : Spells sampleReply 0 12 [[99, 104, 97, 116], [114, 105, 110, 103]] 23 :=
    .label (by decide +kernel) (by decide) (by decide) (by decide +kernel) hring
  have hrest : Spells sampleReply 1 46 [[114, 105, 110, 103]] 48 :=
    @Spells.pointer _ 0 46 23 0xC0 17 _ (by decide +kernel) (by decide) (by decide +kernel) hring
  have hweb : Spells sampleReply 1 39 [[119, 101, 98], [118, 52], [114, 105, 110, 103]] 48 :=
    .label (by decide +kernel) (by decide) (by decide) (by decide +kernel)
      (.label (by decide +kernel) (by decide) (by decide) (by decide +kernel) hrest)
  have halias : Spells sampleReply 1 27 [[99, 104, 97, 116], [114, 105, 110, 103]] 29 :=
    @Spells.pointer _ 0 27 23 0xC0 12 _ (by decide +kernel) (by decide) (by decide +kernel) hchat
  have htarget : Spells sampleReply 2 48 [[119, 101, 98], [118, 52], [114, 105, 110, 103]] 50 :=
    @Spells.pointer _ 1 48 48 0xC0 39 _ (by decide +kernel) (by decide) (by decide +kernel) hweb
  have hfirst : RecordAt sampleReply 27 ⟨[[99, 104, 97, 116], [114, 105, 110, 103]], 5, 1, 60,
      [3, 119, 101, 98, 2, 118, 52, 0xC0, 17], [[119, 101, 98], [118, 52], [114, 105, 110, 103]]⟩
        29 :=
    ⟨⟨by decide, 1, by decide, halias⟩, by decide, by decide +kernel, nofun,
      fun _ => ⟨by decide, 1, by decide, hweb⟩⟩
  have hsecond :
    RecordAt sampleReply 48 ⟨[[119, 101, 98], [118, 52], [114, 105, 110, 103]], 1, 1, 300,
      [100, 68, 0, 10], []⟩ 50 :=
    ⟨⟨by decide, 2, by decide, htarget⟩, by decide, by decide +kernel, fun _ => rfl, nofun⟩
  obtain ⟨reply, hreply, -, hfound, -⟩ :=
    stub_wire_exact.2.2 4294967296 sampleReply 9 0x8180 "chat.ring".toList
    [⟨[[99, 104, 97, 116], [114, 105, 110, 103]], 5, 1, 60,
      [3, 119, 101, 98, 2, 118, 52, 0xC0, 17], [[119, 101, 98], [118, 52], [114, 105, 110, 103]]⟩,
      ⟨[[119, 101, 98], [118, 52], [114, 105, 110, 103]], 1, 1, 300, [100, 68, 0, 10], []⟩]
        ⟨by decide, by decide⟩
    ⟨⟨[0, 0, 0, 0], rfl, by decide +kernel⟩, by decide, by decide, _, 23, _,
      ⟨by decide, 0, by decide, hchat⟩,
      by decide +kernel, by decide +kernel, .cons hfirst (.cons hsecond .nil)⟩
  obtain ⟨haddrs, hcname⟩ :=
    hfound 1 "web.v4.ring".toList (by decide) (by decide +kernel) (by decide +kernel)
    (by decide +kernel)
  refine ⟨reply, hreply, haddrs.trans ?_, hcname⟩
  decide +kernel

end EvansComputer.Stub
