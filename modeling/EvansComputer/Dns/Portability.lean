import EvansComputer.Dns.NumberRouting

/-!
# Ported numbers

Runs of the numbering administrator: which requests change the carrier of a number, and how often a
code can.

A code is remembered until its block is taken back, and the key of a domain for good.  So a code
that was spent is refused from then on, unless its block is taken back and granted to the same
domain again; where that does not happen, `NoRegrant`, no code moves a number twice.
-/

namespace EvansComputer.Dns

open Text Dns.Numbering

/-- The text of a code. -/
def Numbering.Code.text (hmac : Hmac) (x : Code) : List Char :=
  x.nonce ++ '-' :: tag hmac x.key x.number x.nonce

/-- The administrator, with the codes that were made and those that moved a number. -/
structure Portal where
  numbering : Numbering := {}
  made : List Code := []
  moves : List Code := []

inductive PortalEvent where
  | apply (block domain key freshKey : List Char) (now : UInt64)
  | port (number domain code key : List Char) (now : UInt64)
  | revoke (block : List Char)
  /-- The file is written and read back. -/
  | reload
  /-- A domain makes a code with its key. -/
  | portCode (domain : Name) (number nonce : List Char)

namespace Portal

variable {hmac : Hmac} {cc : List Char} {t : Portal}

def makeCode (n : Numbering) (domain : Name) (number nonce : List Char) : Option Code :=
  (n.keys[domain]?).bind fun k => (unhex16 k.1).map fun key => ⟨key, number, nonce⟩

def step (hmac : Hmac) (cc : List Char) (t : Portal) : PortalEvent → Portal
  | .apply block domain key freshKey now =>
    match t.numbering.apply cc block domain key freshKey now with
    | .ok (numbering, _) => { t with numbering }
    | .error _ => t
  | .port number domain code key now =>
    match t.numbering.port hmac cc number domain code key now with
    | .ok numbering =>
      { t with numbering, moves := t.moves ++ (t.numbering.codeOf hmac cc number code).toList }
    | .error _ => t
  | .revoke block =>
    match t.numbering.revoke cc block with
    | .ok numbering => { t with numbering }
    | .error _ => t
  | .reload => { t with numbering := t.numbering.reload }
  | .portCode domain number nonce =>
    { t with made := t.made ++ (makeCode t.numbering domain number nonce).toList }

def run (hmac : Hmac) (cc : List Char) (t : Portal) (es : List PortalEvent) : Portal :=
  es.foldl (step hmac cc) t

/-- **HMAC is ideal**: the tag of a holder's code is known only from that code. -/
def unforged (hmac : Hmac) (cc : List Char) (t : Portal) : PortalEvent → Bool
  | .port number _ code _ _ => (t.numbering.codeOf hmac cc number code).all fun x =>
    t.made.contains x
  | _ => true

/-- **A block is granted to a domain again**, by whose key codes for its numbers were spent. -/
def regrants (cc : List Char) (t : Portal) : PortalEvent → Bool
  | .apply block domain key freshKey now =>
    match t.numbering.apply cc block domain key freshKey now, parseBlock block cc,
      (checkDomain domain).bind fun d => (t.numbering.keyFor d freshKey).bind unhex16 with
    | .ok _, some b, some key => t.moves.any fun x => blockOf x.number = b && x.key = key
    | _, _, _ => false
  | _ => false

/-- No tag is forged in the run. -/
def Ideal (hmac : Hmac) (cc : List Char) : Portal → List PortalEvent → Prop
  | _, [] => True
  | t, e :: es => t.unforged hmac cc e = true ∧ Ideal hmac cc (t.step hmac cc e) es

/-- No block is granted again in the run. -/
def NoRegrant (hmac : Hmac) (cc : List Char) : Portal → List PortalEvent → Prop
  | _, [] => True
  | t, e :: es => t.regrants cc e = false ∧ NoRegrant hmac cc (t.step hmac cc e) es

/-- Different codes have different tags. -/
def TagsDiffer (hmac : Hmac) (made : List Code) : Prop :=
  ∀ x ∈ made, ∀ y ∈ made, tag hmac x.key x.number x.nonce = tag hmac y.key y.number y.nonce → x = y

instance (hmac : Hmac) (made : List Code) : Decidable (TagsDiffer hmac made) :=
  inferInstanceAs
    (Decidable (∀ x ∈ made, ∀ y ∈ made, tag hmac x.key x.number x.nonce =
    tag hmac y.key y.number y.nonce → x = y))

/-- **What a run keeps**: a code that moved a number is remembered, or its maker does not hold the
block. -/
structure Tracked (cc : List Char) (t : Portal) : Prop where
  kept : t.numbering.Kept cc
  made : ∀ x ∈ t.moves, x ∈ t.made ∧ '-' ∉ x.nonce
  nodup : t.moves.Nodup
  spent : ∀ x ∈ t.moves, t.numbering.used[toLex (x.number, x.nonce)]? = some () ∨
    ∀ v k, t.numbering.blocks[blockOf x.number]? = some v → t.numbering.keys[v.1]? = some k →
      unhex16 k.1 ≠ some x.key

theorem tracked_start : Tracked cc {} where
  kept := kept_empty
  made _ hx := absurd hx List.not_mem_nil
  nodup := List.Pairwise.nil
  spent _ hx := absurd hx List.not_mem_nil

section
variable (hcc : ∀ c ∈ cc, c.isDigit = true)
include hcc

theorem tracked_apply (h : Tracked cc t) {block domain key freshKey : List Char} {now : UInt64}
    {n' : Numbering} {issued : Option (List Char)}
    (hstep : t.numbering.apply cc block domain key freshKey now = .ok (n', issued))
    (hfit : t.regrants cc (.apply block domain key freshKey now) = false) : Tracked cc
    { t with numbering := n' } := by
  refine ⟨kept_apply hcc h.kept hstep, h.made, h.nodup, fun x hx => ?_⟩
  obtain ⟨b, d, k, hb, hd, hkey, hfree, hblocks, -, hused, hkeys⟩ := apply_cases hstep
  rcases h.spent x hx with hspent | hother
  · left
    change n'.used[toLex (x.number, x.nonce)]? = some ()
    rw [hused]
    exact hspent
  right
  intro v k' hv hk'
  change n'.blocks[blockOf x.number]? = some v at hv
  change n'.keys[v.1]? = some k' at hk'
  have hknown : n'.keys[d]? = some k' → k'.1 = k := by
    intro hk'
    rcases hkeys with ⟨⟨time, hk⟩, heq⟩ | ⟨-, -, heq⟩
    · rw [heq, hk] at hk'
      cases hk'
      rfl
    · rw [heq, OrderedMap.getElem?_insert', if_pos rfl] at hk'
      cases hk'
      rfl
  rw [hblocks, OrderedMap.getElem?_insert'] at hv
  split at hv
  · -- the block that is granted: no code of its holder was spent
    rename_i heq
    cases hv
    intro hx'
    rw [hknown hk'] at hx'
    have hgrant : t.regrants cc (.apply block domain key freshKey now) = true := by
      unfold regrants
      dsimp only
      rw [hstep, hb, hd, Option.bind_some, hkey, Option.bind_some, hx']
      exact List.any_eq_true.mpr ⟨x, hx, by simp [heq]⟩
    rw [hgrant] at hfit
    cases hfit
  · -- another block: its holder had a key before
    obtain ⟨k₀, hk₀⟩ := Option.isSome_iff_exists.mp (h.kept.blocks _ v hv).2
    have hsame : k' = k₀ := by
      rcases hkeys with ⟨-, heq⟩ | ⟨hnone, -, heq⟩
      · rw [heq] at hk'
        exact Option.some.inj (hk'.symm.trans hk₀)
      · rw [heq, OrderedMap.getElem?_insert'] at hk'
        split at hk'
        · rename_i hd'
          rw [hd', hk₀] at hnone
          cases hnone
        · exact Option.some.inj (hk'.symm.trans hk₀)
    rw [hsame]
    exact hother v k₀ hv hk₀

theorem tracked_port (h : Tracked cc t) {number domain code key : List Char} {now : UInt64}
    {n' : Numbering} (hstep : t.numbering.port hmac cc number domain code key now = .ok n')
    (hideal : t.unforged hmac cc (.port number domain code key now) = true) :
    Tracked cc { t with numbering := n', moves := t.moves ++
      (t.numbering.codeOf hmac cc number code).toList } := by
  obtain ⟨num, d, owner, time, x, hnum, hd, howner, hx, hxnum, hnonce, hfresh, ⟨k, hk, hkey⟩, hkeys,
    hblocks, hused, -⟩ := port_cases hstep
  have hmade : x ∈ t.made := by
    unfold unforged at hideal
    dsimp only at hideal
    rw [hx] at hideal
    exact List.contains_iff_mem.mp hideal
  have hnew : x ∉ t.moves := by
    intro hmem
    rcases h.spent x hmem with hspent | hother
    · rw [hxnum, hfresh] at hspent
      cases hspent
    · exact hother (owner, time) k (hxnum ▸ howner) hk hkey
  rw [hx, Option.toList_some]
  refine ⟨kept_port hcc h.kept hstep, fun y hy => ?_, ?_, fun y hy => ?_⟩
  · rcases List.mem_append.mp hy with hy | hy
    · exact h.made y hy
    · rw [List.mem_singleton.mp hy]
      exact ⟨hmade, hnonce.2⟩
  · exact List.nodup_append.mpr ⟨h.nodup, List.nodup_singleton x,
      fun y hy z hz heq => hnew (List.mem_singleton.mp hz ▸ heq ▸ hy)⟩
  · change n'.used[toLex (y.number, y.nonce)]? = some () ∨ ∀ v k,
      n'.blocks[blockOf y.number]? = some v → n'.keys[v.1]? = some k → _
    rw [hused, hblocks, hkeys, OrderedMap.getElem?_insert']
    split
    · exact .inl rfl
    · rename_i hne
      rcases List.mem_append.mp hy with hy | hy
      · exact h.spent y hy
      · rw [List.mem_singleton.mp hy, hxnum] at hne
        exact absurd rfl hne

omit hcc in
theorem tracked_revoke (h : Tracked cc t) {block : List Char} {n' : Numbering}
    (hstep : t.numbering.revoke cc block = .ok n') :
    Tracked cc { t with numbering := n' } := by
  refine ⟨kept_revoke h.kept hstep, h.made, h.nodup, fun x hx => ?_⟩
  obtain ⟨b, -, hkeys, hblocks, -, hused⟩ := revoke_cases hstep
  change n'.used[toLex (x.number, x.nonce)]? = some () ∨ ∀ v k,
    n'.blocks[blockOf x.number]? = some v → n'.keys[v.1]? = some k → _
  rw [hused, hblocks, hkeys]
  by_cases hb : blockOf x.number = b
  · right
    intro v k hv
    rw [hb, OrderedMap.getElem?_erase', if_pos rfl] at hv
    cases hv
  · rcases h.spent x hx with hspent | hother
    · left
      rw [Std.ExtTreeMap.getElem?_filter', hspent]
      exact Option.filter_eq_some_iff.mpr ⟨rfl, decide_eq_true hb⟩
    · right
      intro v k hv
      rw [OrderedMap.getElem?_erase', if_neg (Ne.symm hb)] at hv
      exact hother v k hv

theorem tracked_step (h : Tracked cc t) {e : PortalEvent} (hideal : t.unforged hmac cc e = true)
    (hfit : t.regrants cc e = false) :
    Tracked cc (t.step hmac cc e) := by
  cases e with
  | apply block domain key freshKey now =>
    unfold step
    dsimp only
    split
    · rename_i hstep
      exact tracked_apply hcc h hstep hfit
    · exact h
  | port number domain code key now =>
    unfold step
    dsimp only
    split
    · rename_i hstep
      exact tracked_port hcc h hstep hideal
    · exact h
  | revoke block =>
    unfold step
    dsimp only
    split
    · rename_i hstep
      exact tracked_revoke h hstep
    · exact h
  | reload =>
    unfold step
    dsimp only
    rw [reload_eq hcc h.kept]
    exact h
  | portCode domain number nonce =>
    refine ⟨h.kept, fun x hx => ?_, h.nodup, h.spent⟩
    exact ⟨List.mem_append_left _ (h.made x hx).1, (h.made x hx).2⟩

theorem tracked_run (h : Tracked cc t) {es : List PortalEvent} (hideal : Ideal hmac cc t es)
    (hfit : NoRegrant hmac cc t es) :
    Tracked cc (t.run hmac cc es) := by
  unfold run
  induction es generalizing t with
  | nil => exact h
  | cons e es ih => exact ih (tracked_step hcc h hideal.1 hfit.1) hideal.2 hfit.2

end

/-- Codes with the same text are the same. -/
theorem text_injective {x y : Code} {made : List Code} (hdiffer : TagsDiffer hmac made)
    (hx : x ∈ made ∧ '-' ∉ x.nonce) (hy : y ∈ made ∧ '-' ∉ y.nonce)
    (heq : x.text hmac = y.text hmac) : x = y := by
  have hnonce (z : Code) (hz : '-' ∉ z.nonce) : (z.text hmac).takeWhile (· ≠ '-') = z.nonce := by
    unfold Code.text
    rw [List.takeWhile_append_of_pos, List.takeWhile_cons_of_neg (by decide), List.append_nil]
    intro c hc
    exact decide_eq_true fun hdash => hz (hdash ▸ hc)
  have hsame : x.nonce = y.nonce := by rw [← hnonce x hx.2, heq, hnonce y hy.2]
  unfold Code.text at heq
  rw [hsame] at heq
  have htags := (List.cons.inj (List.append_cancel_left heq)).2
  exact hdiffer x hx.1 y hy.1 (hsame ▸ htags)

/-! ## How a carrier changes -/

/-- The request ports the number with a code that the holder of its block made, or takes the block
back. -/
inductive ChangedBy (hmac : Hmac) (cc : List Char) (t : Portal) (num : List Char) :
    PortalEvent → Prop where
  | code {number domain code key : List Char} {now : UInt64} {x : Code}
    (hcode : t.numbering.codeOf hmac cc number code = some x)
      (hnumber : x.number = num) (hmade : x ∈ t.made) :
        ChangedBy hmac cc t num (.port number domain code key now)
  | revoke {block : List Char} (hblock : parseBlock block cc = some (blockOf num)) :
    ChangedBy hmac cc t num (.revoke block)

section
variable (hcc : ∀ c ∈ cc, c.isDigit = true)
include hcc

/-- **What changes the carrier of a number.** -/
theorem changedBy_step (h : t.numbering.Kept cc) {e : PortalEvent}
    (hideal : t.unforged hmac cc e = true) {num : List Char} {d : Name}
    (hbefore : t.numbering.carrier num = some d)
    (hafter : (t.step hmac cc e).numbering.carrier num ≠ some d) :
    ChangedBy hmac cc t num e := by
  obtain ⟨v, hv, hd⟩ := Option.map_eq_some_iff.mp hbefore
  cases e with
  | apply block domain key freshKey now =>
    exfalso
    refine hafter ?_
    unfold step
    dsimp only
    split
    · rename_i n' issued hstep
      obtain ⟨b, _, _, -, -, -, hfree, hblocks, hports, -, -⟩ := apply_cases hstep
      have hother : ¬ b = blockOf num := by
        intro heq
        rw [heq, hv] at hfree
        cases hfree
      change n'.carrier num = some d
      unfold carrier
      rw [hblocks, hports, OrderedMap.getElem?_insert', if_neg hother]
      exact hbefore
    · exact hbefore
  | port number domain code key now =>
    unfold step at hafter
    dsimp only at hafter
    split at hafter
    · rename_i n' hstep
      obtain ⟨num', d', owner, time, x, -, -, -, hx, hxnum, -, -, -, -, hblocks, -, hports⟩ :=
        port_cases hstep
      by_cases hnum : num' = num
      · refine .code hx (hxnum.trans hnum) ?_
        unfold unforged at hideal
        dsimp only at hideal
        rw [hx] at hideal
        exact List.contains_iff_mem.mp hideal
      · exfalso
        refine hafter ?_
        change n'.carrier num = some d
        have hsame : n'.ports[num]? = t.numbering.ports[num]? := by
          rw [hports]
          split
          · rw [OrderedMap.getElem?_erase', if_neg hnum]
          · rw [OrderedMap.getElem?_insert', if_neg hnum]
        unfold carrier
        rw [hblocks, hsame]
        exact hbefore
    · exact absurd hbefore hafter
  | revoke block =>
    unfold step at hafter
    dsimp only at hafter
    split at hafter
    · rename_i n' hstep
      obtain ⟨b, hb, -, hblocks, hports, -⟩ := revoke_cases hstep
      by_cases hnum : b = blockOf num
      · exact .revoke (hnum ▸ hb)
      · exfalso
        refine hafter ?_
        change n'.carrier num = some d
        have hsame : n'.ports[num]? = t.numbering.ports[num]? := by
          rw [hports, Std.ExtTreeMap.getElem?_filter']
          cases t.numbering.ports[num]? with
          | none => rfl
          | some v => exact Option.filter_eq_some_iff.mpr ⟨rfl, decide_eq_true (Ne.symm hnum)⟩
        unfold carrier
        rw [hblocks, hsame, OrderedMap.getElem?_erase', if_neg hnum]
        exact hbefore
    · exact absurd hbefore hafter
  | reload =>
    exfalso
    refine hafter ?_
    change t.numbering.reload.carrier num = some d
    rw [reload_eq hcc h]
    exact hbefore
  | portCode domain number nonce => exact absurd hbefore hafter

/-- **Numbers are ported safely**: in a run without a block that goes to its former holder again, no
code moves a number twice, a number changes its carrier only with a code of the holder or with its
block, and it is found at its carrier. -/
theorem numbers_ported (hmac : Hmac) (es : List PortalEvent) (hideal : Ideal hmac cc {} es)
    (hfit : NoRegrant hmac cc {} es) (hdiffer : TagsDiffer hmac (run hmac cc {} es).made) :
    ((run hmac cc {} es).moves.map (Code.text hmac)).Nodup ∧
      (∀ e, (run hmac cc {} es).unforged hmac cc e = true → ∀ num d,
        (run hmac cc {} es).numbering.carrier num = some d →
        (step hmac cc (run hmac cc {} es) e).numbering.carrier num ≠ some d →
          ChangedBy hmac cc (run hmac cc {} es) num e) ∧
      ∀ serial ns num, IsNumber cc 10 num →
        route ((run hmac cc {} es).numbering.zone serial ns) num =
          ((run hmac cc {} es).numbering.carrier num).map fun d =>
            "sip:".toList ++ num ++ '@' :: d := by
  have h := tracked_run hcc tracked_start hideal hfit
  refine ⟨?_, fun e he num d => changedBy_step hcc h.kept he,
    fun serial ns num hnum => route_zone hcc h.kept hnum serial ns⟩
  exact h.nodup.map_on fun x hx y hy => text_injective hdiffer (h.made x hx) (h.made y hy)

end

/-! ### A code that works again -/

def redKey : List Char := "000102030405060708090a0b0c0d0e0f".toList
def blueKey : List Char := "f0e0d0c0b0a090807060504030201000".toList
def portedNumber : List Char := "+12145550142".toList

def otherNumber : List Char := "+12145550199".toList

/-- HMAC-SHA256 under `redKey` at the codes of `portedNumber` with the nonce `3fa2c1` and of
`otherNumber` with the nonce `00beef`. -/
def hmacAt : Hmac := fun _ message =>
  if message.getLast? = some 0x31 then
    [0xb8, 0x43, 0xa2, 0x6d, 0x34, 0x36, 4, 0x80, 0x79, 0xc4, 0xe1, 0x83, 0xb0, 0x4d, 0xfd, 0x77,
      0x3d, 0x56, 0x64, 0xf3, 0xe3, 0x32, 0x32, 0x12, 0xcf, 0x5f, 0x2a, 0x0f, 0xf4, 5, 0xe8, 0x8f]
  else
    [0xbe, 0xb5, 0x38, 0xe9, 0xce, 0xce, 0xf9, 0x5b, 0x9d, 0x3b, 0x91, 0xdc, 0x8f, 0x62, 0x9f, 0x4e,
      0x74, 7, 0xae, 0xf0, 0x26, 0x13, 0x63, 0x9a, 0xab, 0xc8, 0xe9, 0x8e, 0x35, 0xd0, 0xac, 0x10]

/-- The code moves the number from `cell-red.ecm` to `cell-blue.ecm`. -/
def portedOnce : List PortalEvent :=
  [.apply "+1214555".toList "cell-red.ecm".toList [] redKey 1,
    .apply "214-556".toList "Cell-Blue.ecm".toList [] blueKey 2,
    .portCode "cell-red.ecm".toList portedNumber "3fa2c1".toList,
    .port portedNumber "cell-blue.ecm".toList "3fa2c1-b843a26d".toList blueKey 5]

/-- The block is taken back and granted again, and the code works again. -/
def portedAgain : List PortalEvent :=
  portedOnce ++
    [.revoke "+1214555".toList, .apply "+1214555".toList "cell-red.ecm".toList redKey [] 6,
    .port portedNumber "cell-blue.ecm".toList "3fa2c1-b843a26d".toList blueKey 7]

/-- A second number of the block follows, behind a restart. -/
def portedTwice : List PortalEvent :=
  portedOnce ++ [.portCode "cell-red.ecm".toList otherNumber "00beef".toList, .reload,
    .port otherNumber "cell-blue.ecm".toList "00beef-beb538e9".toList blueKey 6]

/-- Two numbers are ported, each with its code, until their block is taken back. -/
theorem numbers_ported_twice :
    let t := run hmacAt ['1'] {} portedTwice
    t.moves.map (Code.text hmacAt) = ["3fa2c1-b843a26d".toList, "00beef-beb538e9".toList] ∧
      (t.moves.map (Code.text hmacAt)).Nodup ∧
      ChangedBy hmacAt ['1'] t portedNumber (.revoke "+1214555".toList) ∧
      ∀ serial ns, route (t.numbering.zone serial ns) portedNumber =
        some "sip:+12145550142@cell-blue.ecm".toList := by
  intro t
  have hnumber : IsNumber ['1'] 10 portedNumber :=
    ⟨"2145550142".toList, rfl, rfl, List.all_eq_true.mp (by decide)⟩
  have hcarrier : t.numbering.carrier portedNumber = some "cell-blue.ecm".toList := by
    decide +kernel
  have hideal : Ideal hmacAt ['1'] {} portedTwice := by
    repeat' constructor
  have hfit : NoRegrant hmacAt ['1'] {} portedTwice := by
    repeat' constructor
  have hdigit : ∀ c ∈ ['1'], c.isDigit = true := List.all_eq_true.mp (by decide)
  obtain ⟨honce, hchange, hroute⟩ :=
    numbers_ported hdigit hmacAt portedTwice hideal hfit (by decide +kernel)
  refine ⟨by decide +kernel, honce, hchange _ rfl portedNumber _ hcarrier (by decide +kernel),
    fun serial ns => ?_⟩
  rw [hroute serial ns portedNumber hnumber, hcarrier]
  rfl

/-- **A code works again**, when its block was taken back and granted to the same domain. -/
theorem not_numbers_ported :
    ¬ ∀ (hmac : Hmac) (es : List PortalEvent), Ideal hmac ['1'] {} es →
      TagsDiffer hmac (run hmac ['1'] {} es).made →
      ((run hmac ['1'] {} es).moves.map (Code.text hmac)).Nodup := by
  intro h
  have honce := h hmacAt portedAgain
    ⟨by decide +kernel, by decide +kernel, by decide +kernel, by decide +kernel, by decide +kernel, by decide +kernel, by decide +kernel,
      trivial⟩ (by decide +kernel)
  have htwice : ¬ ((run hmacAt ['1'] {} portedAgain).moves.map (Code.text hmacAt)).Nodup := by
    decide +kernel
  exact htwice honce

/-! ## Restarts -/

theorem kept_step (hcc : ∀ c ∈ cc, c.isDigit = true) (h : t.numbering.Kept cc) (e : PortalEvent) :
    (t.step hmac cc e).numbering.Kept cc := by
  cases e with
  | reload =>
    change t.numbering.reload.Kept cc
    rwa [reload_eq hcc h]
  | portCode domain number nonce => exact h
  | _ =>
    unfold step
    dsimp only
    split
    · rename_i heq
      first | exact kept_apply hcc h heq | exact kept_port hcc h heq | exact kept_revoke h heq
    · exact h

/-- **A restart is not seen**: with or without the file being written and read back, a run goes on
in the same way. -/
theorem run_reload (hmac : Hmac) (hcc : ∀ c ∈ cc, c.isDigit = true) (es es' : List PortalEvent) :
    run hmac cc {} (es ++ .reload :: es') = run hmac cc {} (es ++ es') := by
  have hkept : (run hmac cc {} es).numbering.Kept cc :=
    List.foldlRecOn (motive := fun t : Portal => t.numbering.Kept cc) es _ kept_empty fun _ h e _ =>
      kept_step hcc h e
  have hsame : (run hmac cc {} es).step hmac cc .reload = run hmac cc {} es :=
    congrArg (fun numbering => { run hmac cc {} es with numbering }) (reload_eq hcc hkept)
  rw [run, run, List.foldl_append, List.foldl_append, List.foldl_cons]
  exact congrArg (List.foldl _ · es') hsame

theorem run_reload_portedOnce : run hmacAt ['1'] {} (portedOnce ++ .reload :: portedOnce) =
    run hmacAt ['1'] {} (portedOnce ++ portedOnce) :=
  @run_reload ['1'] hmacAt (List.all_eq_true.mp (by decide)) portedOnce portedOnce

end Portal

end EvansComputer.Dns
