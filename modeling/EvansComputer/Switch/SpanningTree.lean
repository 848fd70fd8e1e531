import EvansComputer.Library.ParentTree
import EvansComputer.Switch.Roles

/-!
# The spanning tree

A network of bridges in which nothing changes any more: a run of spanning tree on a bridge leaves
it as it is, every port knows what the designated port at the other end of its link sends, or
only itself, and to be told again what such a port sends changes nothing.

The argument is about four numbers of each bridge: its id, and the root, the cost and the age of
its root vector.  Along any link the root and the cost are no worse than they are at the other
end with the way to it, so that the root is the same in the whole network.  The age grows by one
hop from the bridge that a root vector was heard from, so that these bridges make a tree
(`parentGraph_isTree`), and the costs are the least there are (`isLeast_way`).
-/

namespace EvansComputer.Switch

variable {bp : PortRef} {p : StpPort} {now : ℤ} {b : Bridge}

/-! ## Numbers -/

theorem toNat_addSat32 (a b : UInt32) :
    (addSat32 a b).toNat = min (a.toNat + b.toNat) 4294967295 := by
  unfold addSat32
  rw [UInt32.toNat_ofNat_of_lt' (lt_of_le_of_lt (min_le_right _ _) (by decide))]

theorem toNat_addSat16 (a b : UInt16) : (addSat16 a b).toNat = min (a.toNat + b.toNat) 65535 := by
  unfold addSat16
  rw [UInt16.toNat_ofNat_of_lt' (lt_of_le_of_lt (min_le_right _ _) (by decide))]

theorem toNat_makeBid (priority : UInt16) (mac : MacAddr) :
    (makeBid priority mac).toNat = priority.toNat * 2 ^ 48 + macValue mac := by
  have hprio := priority.toNat_lt
  have hmac := macValue_lt mac
  unfold makeBid
  exact UInt64.toNat_ofNat_of_lt' (by rw [UInt64.size]; omega)

theorem toNat_mac48_makeBid (priority : UInt16) (mac : MacAddr) :
    (mac48 (makeBid priority mac)).toNat = macValue mac := by
  have hmac := macValue_lt mac
  unfold mac48
  rw [UInt64.toNat_and, toNat_makeBid]
  show _ &&& (2 ^ 48 - 1) = _
  rw [Nat.and_two_pow_sub_one_eq_mod]
  omega

theorem toNat_portNumber (h : bp.Valid) :
    (portNumber bp).toNat = match bp with
      | .eth n => n + 1
      | .lag id => 1024 + id.toNat
      | .cpu => 0 := by
  cases bp with
  | eth n =>
    have hn : n < 256 := h
    have hnat : (UInt16.ofNat n).toNat = n := UInt16.toNat_ofNat_of_lt' (by rw [UInt16.size]; omega)
    have hne : UInt16.ofNat n ≠ 65535 := by
      intro heq
      have := congrArg UInt16.toNat heq
      rw [hnat] at this
      have h65535 : (65535 : UInt16).toNat = 65535 := rfl
      omega
    unfold portNumber
    dsimp only
    rw [if_neg hne, UInt16.toNat_and, UInt16.toNat_add, hnat]
    show (n + 1) % 65536 &&& (2 ^ 10 - 1) = n + 1
    rw [Nat.and_two_pow_sub_one_eq_mod]
    omega
  | lag id =>
    have hid : id.toNat ≤ 256 := UInt16.le_iff_toNat_le.mp h
    unfold portNumber
    dsimp only
    rw [UInt16.toNat_or, UInt16.toNat_and]
    show 2 ^ 10 ||| (id.toNat &&& (2 ^ 10 - 1)) = 1024 + id.toNat
    rw [Nat.and_two_pow_sub_one_eq_mod, Nat.mod_eq_of_lt (by omega)]
    exact (Nat.two_pow_add_eq_or_of_lt (show id.toNat < 2 ^ 10 by omega) 1).symm
  | cpu => rfl

theorem portNumber_inj {bq : PortRef} (hp : bp.Valid) (hq : bq.Valid)
    (h : portNumber bp &&& 0x0fff = portNumber bq &&& 0x0fff) : bp = bq := by
  have hmask {n : UInt16} (hn : n.toNat < 4096) : (n &&& 0x0fff).toNat = n.toNat := by
    rw [UInt16.toNat_and]
    show n.toNat &&& (2 ^ 12 - 1) = _
    rw [Nat.and_two_pow_sub_one_eq_mod, Nat.mod_eq_of_lt hn]
  have hnp := toNat_portNumber hp
  have hnq := toNat_portNumber hq
  have hlt {b : PortRef} (hb : b.Valid) : (portNumber b).toNat < 4096 := by
    rw [toNat_portNumber hb]
    cases b with
    | eth n => exact Nat.lt_of_lt_of_le (Nat.succ_lt_succ (show n < 256 from hb)) (by decide)
    | lag id =>
      have hid : id.toNat ≤ 256 := UInt16.le_iff_toNat_le.mp hb
      show 1024 + id.toNat < 4096
      omega
    | cpu => exact hb.elim
  have heq := congrArg UInt16.toNat h
  rw [hmask (hlt hp), hmask (hlt hq), hnp, hnq] at heq
  cases bp with
  | eth n =>
    have hn : n < 256 := hp
    cases bq with
    | eth m => exact congrArg PortRef.eth (Nat.succ.inj heq)
    | lag id => exact absurd heq (by dsimp only; omega)
    | cpu => exact hq.elim
  | lag id =>
    cases bq with
    | eth m =>
      have hm : m < 256 := hq
      exact absurd heq (by dsimp only; omega)
    | lag id' => exact congrArg PortRef.lag (UInt16.toNat_inj.mp (Nat.add_left_cancel heq))
    | cpu => exact hq.elim
  | cpu => exact hp.elim

theorem portId_and (b : Bridge) (bp : PortRef) (num : UInt16) :
    b.portId bp num &&& 0x0fff = num &&& 0x0fff := by
  unfold Bridge.portId
  dsimp only
  apply UInt16.toNat_inj.mp
  generalize (((b.bpStpCfg bp).map fun c : StpPortConfig => c.priority).getD 128).toUInt16 >>> 4 = w
  rw [UInt16.toNat_and, UInt16.toNat_or, UInt16.toNat_shiftLeft, UInt16.toNat_and]
  show ((w.toNat <<< 12) % 2 ^ 16 ||| (num.toNat &&& 4095)) &&& 4095 = num.toNat &&& 4095
  apply Nat.eq_of_testBit_eq
  intro i
  have h4095 : (4095 : ℕ) = 2 ^ 12 - 1 := by decide
  rw [h4095, Nat.testBit_and, Nat.testBit_or, Nat.testBit_and, Nat.testBit_two_pow_sub_one,
    Nat.testBit_mod_two_pow,
    Nat.testBit_shiftLeft]
  by_cases hi : i < 12
  · simp [hi, Nat.not_le.mpr hi]
  · simp [hi]

/-! ## Vectors -/

/-- A vector that is no worse has no worse root, and no worse cost to the same one. -/
theorem key4_le {v w : PrioVec} (h : v.key4 ≤ w.key4) :
    v.root.toNat < w.root.toNat ∨ v.root.toNat = w.root.toNat ∧ v.cost.toNat ≤ w.cost.toNat := by
  rcases Prod.Lex.le_iff.mp h with hlt | ⟨heq, hle⟩
  · exact .inl hlt
  · refine .inr ⟨heq, ?_⟩
    rcases Prod.Lex.le_iff.mp hle with hlt | ⟨heq, -⟩
    · exact le_of_lt hlt
    · exact le_of_eq heq

theorem key_le {v w : PrioVec} (h : v.key ≤ w.key) :
    v.root.toNat < w.root.toNat ∨ v.root.toNat = w.root.toNat ∧ v.cost.toNat ≤ w.cost.toNat := by
  rcases Prod.Lex.le_iff.mp h with hlt | ⟨heq, -⟩
  · exact key4_le (le_of_lt hlt)
  · exact key4_le (le_of_eq heq)

theorem key4_eq {v w : PrioVec} (h : v.key4 = w.key4) :
    v.dbridge = w.dbridge ∧ v.dport = w.dport := by
  have hd : v.dbridge.toNat = w.dbridge.toNat :=
    congrArg (fun k : ℕ ×ₗ ℕ ×ₗ ℕ ×ₗ ℕ => (ofLex (ofLex (ofLex k).2).2).1) h
  have hp : v.dport.toNat = w.dport.toNat :=
    congrArg (fun k : ℕ ×ₗ ℕ ×ₗ ℕ ×ₗ ℕ => (ofLex (ofLex (ofLex k).2).2).2) h
  exact ⟨UInt64.toNat_inj.mp hd, UInt16.toNat_inj.mp hp⟩

/-! ## What a designated port sends -/

theorem fromBits_designated : ∀ n : Fin 256,
    BpduRole.fromBits
      ((((UInt8.ofFin n) &&& ~~~(0x0c : Byte)) ||| (BpduRole.designated.bits <<< 2)) >>> 2) =
      .designated := by
  decide +kernel

theorem role_withRole_designated (body : BpduBody) :
    (body.withRole .designated).role = .designated := by
  have h := fromBits_designated body.flags.toFin
  rwa [UInt8.ofFin_toFin] at h

theorem recordInfo_mine (hinfo : p.info = .mine) {msg : PrioVec} {times : Times}
    (h : (Bridge.recordInfo p msg times now).1.info = .mine) : ¬msg.key4 < p.prio.key4 := by
  intro hlt
  have hsup : msg.superiorTo p.prio = true := by
    unfold PrioVec.superiorTo
    rw [decide_eq_true hlt]
    rfl
  unfold Bridge.recordInfo at h
  rw [if_neg (fun hboth => by rw [hinfo] at hboth; exact nomatch hboth.1), if_pos (.inl hsup)] at h
  split at h
  · cases h
  · cases h

/-- A port that knows only itself has been told nothing better, if it is as it was. -/
theorem rxBody_mine (hinfo : p.info = .mine) {bid : UInt64} {portId : UInt16}
    {tcnGuard isRst : Bool} {body : BpduBody} (hrole : body.role = .designated)
    (h : (Bridge.rxBody p bid portId tcnGuard isRst body now).1.info = .mine) :
    (body.bridgeId = bid ∧ body.portId &&& 0x0fff = portId &&& 0x0fff) ∨
      ¬(Bridge.msgOf body portId).key4 < p.prio.key4 := by
  by_cases hown : body.bridgeId = bid ∧ body.portId &&& 0x0fff = portId &&& 0x0fff
  · exact .inl hown
  right
  unfold Bridge.rxBody at h
  rw [if_neg hown] at h
  have hdes : (if isRst = true then body.role else .designated) = BpduRole.designated := by
    rw [hrole]
    exact ite_self _
  rw [hdes] at h
  dsimp only at h
  rw [if_pos rfl] at h
  have hrecord : (Bridge.recordInfo { p with sendRstp := isRst } (Bridge.msgOf body portId)
      (Bridge.timesOf body) now).1.info = .mine := by
    generalize Bridge.recordInfo { p with sendRstp := isRst } (Bridge.msgOf body portId)
      (Bridge.timesOf body) now = r
      at h ⊢
    obtain ⟨q, better⟩ := r
    dsimp only at h ⊢
    split at h
    · split at h
      · exact h
      · exact h
    · split at h
      · exact h
      · exact h
  exact recordInfo_mine (p := { p with sendRstp := isRst }) hinfo hrecord

namespace Bridge

/-- What the designated port sends: the body, in the version that the port speaks. -/
def bpduOf (y : BPort) (body : BpduBody) : Bpdu :=
  if y.stp.sendRstp then .rst body else .config body

theorem rxPort_mine (hinfo : p.info = .mine) {bid : UInt64} {portId : UInt16} {tcnGuard : Bool}
    {body : BpduBody} {y : BPort} (hrole : body.role = .designated)
    (h : (rxPort p bid portId tcnGuard (bpduOf y body) now).1.info = .mine) :
    (body.bridgeId = bid ∧ body.portId &&& 0x0fff = portId &&& 0x0fff) ∨
      ¬(msgOf body portId).key4 < p.prio.key4 := by
  unfold rxPort bpduOf at h
  dsimp only at h
  split at h
  · rename_i heq
    split at heq <;> cases heq
  · rename_i heq
    split at heq
    · cases heq
    · cases heq
      exact rxBody_mine (p := { p with operEdge := false }) hinfo hrole h
  · rename_i heq
    split at heq
    · cases heq
      exact rxBody_mine (p := { p with operEdge := false }) hinfo hrole h
    · cases heq

end Bridge

/-! ## Networks -/

/-- Bridges, and the links between their ports. -/
structure Network (ι : Type*) where
  bridge : ι → Bridge
  link : ι → PortRef → Option (ι × PortRef)

namespace Network

variable {ι : Type*} (N : Network ι)

def port (i : ι) (bp : PortRef) : Option BPort := (N.bridge i).bports[bp]?

def roleAt (i : ι) (bp : PortRef) : Option StpRole := (N.port i bp).map (·.stp.role)

/-- The bridge at the other end of the link of a port. -/
def next (i : ι) (bp : PortRef) : Option ι := (N.link i bp).map Prod.fst

def weight (i : ι) (bp : PortRef) : ℕ := ((N.bridge i).pathCost bp).toNat

/-- A connected network of links from port to port, on which spanning tree runs. -/
structure WellFormed : Prop where
  up : ∀ i, (N.bridge i).Up
  symm : ∀ i bp j bq, N.link i bp = some (j, bq) → N.link j bq = some (i, bp)
  ne : ∀ i bp, N.link i bp ≠ some (i, bp)
  port : ∀ i bp j bq, N.link i bp = some (j, bq) → (N.port i bp).isSome
  mac : Function.Injective fun i => (N.bridge i).bridgeMac
  connected : ∀ i j, Relation.ReflTransGen (fun i j => ∃ bp, N.next i bp = some j) i j
  cost : ∀ i k vs w, Way N.next N.weight i k vs w → vs.Nodup → w < 2 ^ 32

/-- A port knows what the designated port at the other end sends. -/
def Heard (i : ι) (bp : PortRef) (x : BPort) : Prop :=
  x.stp.info = .received ∧ ∃ j bq y flags body, N.link i bp = some (j, bq) ∧ N.port j bq = some y ∧
    y.stp.role = .designated ∧ (N.bridge j).designatedBody bq flags = some body ∧
    x.stp.prio = Bridge.msgOf body ((N.bridge i).portId bp x.stp.portNum) ∧
      x.stp.times = Bridge.timesOf body

/-- Every port knows itself, or what the designated port at the other end sends. -/
def Informed : Prop := ∀ i bp x, N.port i bp = some x → x.stp.info = .mine ∨ N.Heard i bp x

/-- Nothing changes any more. -/
structure Fixpoint (now : ι → ℤ) : Prop where
  still : ∀ i, (N.bridge i).Still (now i)
  informed : N.Informed
  /-- What was received has not timed out, and is not too old to have been kept. -/
  fresh : ∀ i bp x, N.port i bp = some x → x.stp.info = .received →
    now i < x.stp.rcvdUntil ∧ x.stp.times.msgAge.toNat + 256 ≤ x.stp.times.maxAge.toNat
  /-- To be told again changes nothing. -/
  told : ∀ i bp j bq x y, N.link i bp = some (j, bq) → N.port i bp = some x → N.port j bq = some y →
    y.stp.role = .designated → ∃ flags body x', (N.bridge j).designatedBody bq flags = some body ∧
      ((N.bridge i).stpRx bp (Bridge.bpduOf y body) (now i)).1.bports[bp]? = some x' ∧
        x'.stp.SameInfo x.stp

/-- A port that forwards. -/
def Active (i : ι) (bp : PortRef) : Prop :=
  N.roleAt i bp = some .root ∨ N.roleAt i bp = some .designated

/-- A link both of whose ends forward. -/
def ActiveLink (i : ι) (bp : PortRef) (j : ι) (bq : PortRef) : Prop :=
  N.link i bp = some (j, bq) ∧ N.Active i bp ∧ N.Active j bq

/-- The bridges that such a link joins. -/
def activeGraph : SimpleGraph ι where
  Adj i j := i ≠ j ∧ ((∃ bp bq, N.ActiveLink i bp j bq) ∨ ∃ bp bq, N.ActiveLink j bp i bq)
  symm := ⟨fun _ _ h => ⟨h.1.symm, h.2.symm⟩⟩
  loopless := ⟨fun _ h => h.1 rfl⟩

/-- The ports that forward span the network as a tree, over the least costs from the least
bridge. -/
structure Spans : Prop where
  root : ∃ r, (∀ i, (∀ bp, N.roleAt i bp ≠ some .root) ↔ i = r) ∧
    (∀ i, i ≠ r → (N.bridge r).stp.bridgeId < (N.bridge i).stp.bridgeId) ∧
    (∀ i, i ≠ r → ∃! bp, N.roleAt i bp = some .root) ∧
    ∀ i, (N.bridge i).stp.rootPrio.root = (N.bridge r).stp.bridgeId ∧
      IsLeast {w | ∃ vs, Way N.next N.weight i r vs w} (N.bridge i).stp.rootPrio.cost.toNat
  /-- Exactly one end of a link is designated. -/
  link : ∀ i bp j bq, N.link i bp = some (j, bq) →
    (N.roleAt i bp = some .designated ↔ N.roleAt j bq ≠ some .designated)
  tree : N.activeGraph.IsTree
  /-- No second link closes a cycle between two bridges, or at one. -/
  single : ∀ i bp j bq, N.ActiveLink i bp j bq →
    i ≠ j ∧ ∀ bp' bq', N.ActiveLink i bp' j bq' → bp' = bp ∧ bq' = bq

end Network

namespace Network

variable {ι : Type*} {N : Network ι} {now : ι → ℤ} {i j : ι} {bp bq : PortRef} {x y : BPort}

/-! ## One link -/

section Links

variable (hwf : N.WellFormed) (hfix : N.Fixpoint now)
include hwf hfix

theorem Fixpoint.settled (i : ι) : (N.bridge i).Settled (now i) := by
  refine ⟨hwf.up i, hfix.still i, fun bp x hx => ?_⟩
  rcases hfix.informed i bp x hx with hmine | hheard
  · exact .inl hmine
  · obtain ⟨hrec, _, _, _, _, body, -, -, -, -, hprio, -⟩ := hheard
    refine .inr ⟨hrec, (hfix.fresh i bp x hx hrec).1, ?_⟩
    rw [hprio]
    rfl

omit hwf hfix in
theorem designatedBody_eq {flags : Byte} {body : BpduBody} (hy : b.bports[bq]? = some y)
    (h : b.designatedBody bq flags = some body) :
    body.rootId = b.stp.rootPrio.root ∧ body.rootPathCost = b.stp.rootPrio.cost ∧
      body.bridgeId = b.stp.bridgeId ∧
      body.portId = b.portId bq y.stp.portNum ∧ body.messageAge = b.stp.rootTimes.msgAge ∧
        body.role = .designated := by
  unfold Bridge.designatedBody at h
  rw [hy] at h
  have heq := Option.some.inj h
  refine ⟨?_, ?_, ?_, ?_, ?_, ?_⟩
  all_goals rw [← heq]
  · rfl
  · rfl
  · rfl
  · rfl
  · rfl
  · exact role_withRole_designated _

/-- What a port that has heard something knows of the other end. -/
structure Knows (N : Network ι) (i : ι) (x : BPort) (j : ι) (bq : PortRef) (y : BPort) : Prop where
  root : x.stp.prio.root = (N.bridge j).stp.rootPrio.root
  cost : x.stp.prio.cost = (N.bridge j).stp.rootPrio.cost
  dbridge : x.stp.prio.dbridge = (N.bridge j).stp.bridgeId
  dport : x.stp.prio.dport = (N.bridge j).portId bq y.stp.portNum
  age : x.stp.times.msgAge = (N.bridge j).stp.rootTimes.msgAge
  young : (N.bridge j).stp.rootTimes.msgAge.toNat + 256 ≤ 10240
  mine : y.stp.info = .mine

omit hwf hfix in
theorem toNat_clamp256 (v : UInt16) : (clamp256 v 6 40).toNat ≤ 10240 := by
  have hmin : min v ((40 : UInt16) * 256) ≤ 10240 := by
    show (if v ≤ 40 * 256 then v else 40 * 256) ≤ 10240
    split
    · assumption
    · decide
  have hmax : max ((6 : UInt16) * 256) (min v ((40 : UInt16) * 256)) ≤ 10240 := by
    generalize min v ((40 : UInt16) * 256) = m at hmin
    show (if 6 * 256 ≤ m then m else 6 * 256) ≤ 10240
    split
    · exact hmin
    · decide
  exact UInt16.le_iff_toNat_le.mp hmax

theorem Fixpoint.designated_mine (hy : N.port j bq = some y)
    (hrole : y.stp.role = .designated) : y.stp.info = .mine := by
  rcases hfix.informed j bq y hy with hmine | ⟨hrec, -⟩
  · exact hmine
  · rcases (hfix.settled hwf j).received hy hrec with ⟨-, hroot⟩ | ⟨-, hblocked, -⟩
    · rw [hrole] at hroot
      cases hroot
    · rw [hrole] at hblocked
      rcases hblocked with h | h <;> cases h

theorem Fixpoint.knows (hx : N.port i bp = some x) (hrec : x.stp.info = .received) :
    ∃ j bq y, N.link i bp = some (j, bq) ∧ N.port j bq = some y ∧ N.Knows i x j bq y := by
  rcases hfix.informed i bp x hx with
    hmine | ⟨-, j, bq, y, flags, body, hlink, hy, hrole, hbody, hprio, htimes⟩
  · rw [hmine] at hrec
    cases hrec
  obtain ⟨hroot, hcost, hbid, hport, hage, -⟩ := designatedBody_eq hy hbody
  have hfresh := (hfix.fresh i bp x hx hrec).2
  have hage' : x.stp.times.msgAge = (N.bridge j).stp.rootTimes.msgAge := by rw [htimes]; exact hage
  refine ⟨j, bq, y, hlink, hy, ?_, ?_, ?_, ?_, hage', ?_, hfix.designated_mine hwf hy hrole⟩
  · rw [hprio]
    exact hroot
  · rw [hprio]
    exact hcost
  · rw [hprio]
    exact hbid
  · rw [hprio]
    exact hport
  · rw [← hage']
    refine hfresh.trans ?_
    rw [htimes]
    exact toNat_clamp256 body.maxAge

omit hfix in
theorem bridgeId_inj (h : (N.bridge i).stp.bridgeId = (N.bridge j).stp.bridgeId) : i = j := by
  rw [(hwf.up i).bridgeId, (hwf.up j).bridgeId] at h
  have hmac := congrArg (fun id => (mac48 id).toNat) h
  rw [toNat_mac48_makeBid, toNat_mac48_makeBid] at hmac
  exact hwf.mac (macValue_injective hmac)

omit hfix in
theorem mac48_ne (hne : j ≠ i) :
    mac48 (N.bridge j).stp.bridgeId ≠ mac48 (N.bridge i).stp.bridgeId := by
  intro h
  rw [(hwf.up i).bridgeId, (hwf.up j).bridgeId] at h
  have hmac := congrArg UInt64.toNat h
  rw [toNat_mac48_makeBid, toNat_mac48_makeBid] at hmac
  exact hne (hwf.mac (macValue_injective hmac))

omit hfix in
theorem port_inj (hx : N.port i bp = some x) (hy : N.port i bq = some y)
    (h : (N.bridge i).portId bq y.stp.portNum &&& 0x0fff =
      (N.bridge i).portId bp x.stp.portNum &&& 0x0fff) :
    bp = bq := by
  have hpx := (hwf.up i).ports bp x hx
  have hpy := (hwf.up i).ports bq y hy
  rw [portId_and, portId_and, hpx.portNum, hpy.portNum] at h
  exact (portNumber_inj hpy.valid hpx.valid h).symm

/-- A designated end has been told nothing better by another one. -/
theorem Fixpoint.not_told_better (hlink : N.link i bp = some (j, bq))
    (hx : N.port i bp = some x) (hy : N.port j bq = some y) (hmx : x.stp.info = .mine)
    (hmy : y.stp.info = .mine) :
    ¬y.stp.prio.key4 < x.stp.prio.key4 := by
  obtain ⟨hrole, hprioy⟩ := (hfix.settled hwf j).mine hy hmy
  obtain ⟨flags, body, x', hbody, hx', hsame⟩ := hfix.told i bp j bq x y hlink hx hy hrole
  obtain ⟨hroot, hcost, hbid, hport, -, hdes⟩ := designatedBody_eq hy hbody
  have hbports : (N.bridge i).bports[bp]? = some x := hx
  unfold Bridge.stpRx at hx'
  rw [hbports] at hx'
  dsimp only at hx'
  unfold Bridge.modifyStp at hx'
  dsimp only at hx'
  rw [OrderedMap.getElem?_modify', if_pos rfl, hbports] at hx'
  have hinfo := hsame.info
  rw [← Option.some.inj hx', hmx] at hinfo
  rcases Bridge.rxPort_mine hmx hdes hinfo with ⟨hownid, hownport⟩ | hnot
  · rw [hbid] at hownid
    obtain rfl : j = i := bridgeId_inj hwf hownid
    rw [hport] at hownport
    obtain rfl := port_inj hwf hx hy hownport
    exact absurd hlink (hwf.ne j bp)
  · have hkey :
      (Bridge.msgOf body ((N.bridge i).portId bp x.stp.portNum)).key4 = y.stp.prio.key4 := by
      rw [hprioy]
      unfold Bridge.msgOf PrioVec.key4 Bridge.designatedVec
      dsimp only
      rw [hroot, hcost, hbid, hport]
    rwa [hkey] at hnot

/-- **Not both ends of a link are designated.** -/
theorem Fixpoint.not_both_mine (hlink : N.link i bp = some (j, bq))
    (hx : N.port i bp = some x) (hy : N.port j bq = some y) (hmx : x.stp.info = .mine) :
    y.stp.info ≠ .mine := by
  intro hmy
  have h₁ := hfix.not_told_better hwf hlink hx hy hmx hmy
  have h₂ := hfix.not_told_better hwf (hwf.symm _ _ _ _ hlink) hy hx hmy hmx
  obtain ⟨-, hpx⟩ := (hfix.settled hwf i).mine hx hmx
  obtain ⟨-, hpy⟩ := (hfix.settled hwf j).mine hy hmy
  obtain ⟨hbid, hport⟩ := key4_eq (le_antisymm (not_lt.mp h₁) (not_lt.mp h₂))
  rw [hpx, hpy] at hbid hport
  obtain rfl : i = j := bridgeId_inj hwf hbid
  obtain rfl := port_inj hwf hx hy
    (congrArg (· &&& 0x0fff) (show (N.bridge i).portId bq y.stp.portNum = _ from hport.symm))
  exact hwf.ne i bp hlink

/-! ## Along a link -/

/-- The root that a bridge knows, what it costs to get there, and the hops to it. -/
def root (N : Network ι) (i : ι) : ℕ := (N.bridge i).stp.rootPrio.root.toNat

def cost (N : Network ι) (i : ι) : ℕ := (N.bridge i).stp.rootPrio.cost.toNat

def age (N : Network ι) (i : ι) : ℕ := (N.bridge i).stp.rootTimes.msgAge.toNat

/-- The bridge that the root vector was heard from. -/
def parent (N : Network ι) (now : ι → ℤ) (i : ι) : Option ι :=
  ((N.bridge i).heardOn (now i)).bind (N.next i)

omit hwf hfix in
theorem cost_le (N : Network ι) (i : ι) : N.cost i ≤ 4294967295 := by
  have hlt := (N.bridge i).stp.rootPrio.cost.toNat_lt
  unfold cost
  omega

omit hfix in
/-- What a port has heard from another bridge is a candidate. -/
theorem Fixpoint.candidate (hx : N.port i bp = some x) (hrec : x.stp.info = .received)
    (hknows : N.Knows i x j bq y) (hne : j ≠ i) :
    (N.bridge i).candidate bp x.stp =
      some { x.stp.prio with cost := addSat32 x.stp.prio.cost ((N.bridge i).pathCost bp) } := by
  have hup := (hwf.up i).ports bp x hx
  obtain ⟨c, hc, -, -, -, hguard⟩ := hup.cfg
  have hnoguard : ((N.bridge i).bpStpCfg bp).any (·.rootGuard) = false := by rw [hc]; exact hguard
  unfold Bridge.candidate
  rw [hup.wasOper, hnoguard, hknows.dbridge, hrec, decide_eq_false (mac48_ne hwf hne)]
  rfl

/-- A root port leads to another bridge, whose root it is, one hop and a cost nearer. -/
theorem Fixpoint.heardOn_eq_some (h : (N.bridge i).heardOn (now i) = some bp) :
    ∃ x j bq y, N.port i bp = some x ∧ N.link i bp = some (j, bq) ∧ N.port j bq = some y ∧ j ≠ i ∧
      x.stp.info = .received ∧ y.stp.info = .mine ∧ N.root i = N.root j ∧
      N.cost i = min (N.weight i bp + N.cost j) 4294967295 ∧ N.age j < N.age i := by
  rcases (hfix.settled hwf i).source with ⟨hnone, -⟩ | ⟨bp', x, hx, hsome, hcand, hage⟩
  · rw [hnone] at h
    cases h
  obtain rfl : bp' = bp := Option.some.inj (hsome.symm.trans h)
  have hshape := hcand
  unfold Bridge.candidate at hshape
  split at hshape
  · cases hshape
  rename_i hgate
  simp only [Bool.or_eq_true, not_or, decide_eq_true_eq, not_not] at hgate
  obtain ⟨⟨⟨-, hrec⟩, -⟩, hmac⟩ := hgate
  have hvec := Option.some.inj hshape
  obtain ⟨j, bq, y, hlink, hy, hknows⟩ := hfix.knows hwf hx hrec
  have hne : j ≠ i := by
    rintro rfl
    rw [hknows.dbridge] at hmac
    exact hmac rfl
  refine ⟨x, j, bq, y, hx, hlink, hy, hne, hrec, hknows.mine, ?_, ?_, ?_⟩
  · unfold root
    rw [← hvec, ← hknows.root]
  · unfold cost weight
    rw [← hvec]
    dsimp only
    rw [toNat_addSat32, hknows.cost, Nat.add_comm]
  · have hyoung := hknows.young
    unfold age
    rw [hage, toNat_addSat16, hknows.age]
    show _ < min (_ + 256) 65535
    omega

/-- **Along a link the root vector gets no better** than by the way to it. -/
theorem Fixpoint.le_link (hlink : N.link i bp = some (j, bq)) :
    N.root i < N.root j ∨ N.root i = N.root j ∧ N.cost i ≤ N.weight i bp + N.cost j := by
  by_cases hself : j = i
  · subst hself
    exact .inr ⟨rfl, Nat.le_add_left _ _⟩
  have hback := hwf.symm _ _ _ _ hlink
  obtain ⟨x, hx⟩ := Option.isSome_iff_exists.mp (hwf.port _ _ _ _ hlink)
  obtain ⟨y, hy⟩ := Option.isSome_iff_exists.mp (hwf.port _ _ _ _ hback)
  rcases hfix.informed i bp x hx with hmine | ⟨hrec, -⟩
  · -- the other end has heard this one, and would send nothing better
    have hnot := hfix.not_both_mine hwf hlink hx hy hmine
    have hrec : y.stp.info = .received := by
      rcases hfix.informed j bq y hy with h | ⟨h, -⟩
      · exact absurd h hnot
      · exact h
    obtain ⟨k, bk, z, hlink', hz, hknows⟩ := hfix.knows hwf hy hrec
    obtain ⟨rfl, rfl⟩ := Prod.mk.inj (Option.some.inj (hlink'.symm.trans hback))
    rcases (hfix.settled hwf j).received hy hrec with ⟨hroot, -⟩ | ⟨-, -, hworse⟩
    · obtain ⟨_, i', _, _, -, hlink'', -, -, -, -, hrooteq, hcosteq, -⟩ :=
        hfix.heardOn_eq_some hwf hroot
      obtain rfl : i' = k := congrArg Prod.fst (Option.some.inj (hlink''.symm.trans hback))
      refine .inr ⟨hrooteq.symm, ?_⟩
      have hle := N.cost_le i'
      omega
    · have hle := key4_le (not_lt.mp hworse)
      unfold root cost
      have hroot := congrArg UInt64.toNat hknows.root
      have hcost := congrArg UInt32.toNat hknows.cost
      rw [hroot, hcost] at hle
      rcases hle with hlt | ⟨heq, hle⟩
      · exact .inl hlt
      · exact .inr ⟨heq, hle.trans (Nat.le_add_left _ _)⟩
  · obtain ⟨k, bk, z, hlink', hz, hknows⟩ := hfix.knows hwf hx hrec
    obtain ⟨rfl, rfl⟩ := Prod.mk.inj (Option.some.inj (hlink'.symm.trans hlink))
    have hle :=
      key_le ((hfix.settled hwf i).le_candidate hx (Fixpoint.candidate hwf hx hrec hknows hself))
    unfold root cost weight
    rw [hknows.root, toNat_addSat32, hknows.cost] at hle
    rcases hle with hlt | ⟨heq, hle⟩
    · exact .inl hlt
    · refine .inr ⟨heq, ?_⟩
      have hmin := min_le_left
        ((N.bridge k).stp.rootPrio.cost.toNat + ((N.bridge i).pathCost bp).toNat) 4294967295
      omega

theorem Fixpoint.root_le (i j : ι) : N.root i ≤ N.root j := by
  induction hwf.connected i j with
  | refl => exact le_rfl
  | tail _ hstep ih =>
    obtain ⟨bp, hnext⟩ := hstep
    obtain ⟨⟨k, bq⟩, hlink, rfl⟩ := Option.map_eq_some_iff.mp hnext
    rcases hfix.le_link hwf hlink with hlt | ⟨heq, -⟩
    · exact ih.trans hlt.le
    · exact ih.trans heq.le

theorem Fixpoint.root_eq (i j : ι) : N.root i = N.root j :=
  le_antisymm (hfix.root_le hwf i j) (hfix.root_le hwf j i)

/-! ## The tree -/

theorem Fixpoint.parent_eq_some (h : N.parent now i = some j) :
    ∃ bp bq, (N.bridge i).heardOn (now i) = some bp ∧ N.link i bp = some (j, bq) ∧
      N.age j < N.age i := by
  obtain ⟨bp, hheard, hnext⟩ := Option.bind_eq_some_iff.mp h
  obtain ⟨_, j', bq, _, -, hlink, -, -, -, -, -, -, hage⟩ := hfix.heardOn_eq_some hwf hheard
  obtain ⟨⟨k, bq'⟩, hlink', rfl⟩ := Option.map_eq_some_iff.mp hnext
  obtain ⟨rfl, rfl⟩ := Prod.mk.inj (Option.some.inj (hlink.symm.trans hlink'))
  exact ⟨bp, bq, hheard, hlink, hage⟩

theorem Fixpoint.parent_eq_none : N.parent now i = none ↔ (N.bridge i).heardOn (now i) = none := by
  constructor
  · intro h
    cases hheard : (N.bridge i).heardOn (now i) with
    | none => rfl
    | some bp =>
      obtain ⟨_, j, bq, _, -, hlink, -⟩ := hfix.heardOn_eq_some hwf hheard
      unfold parent next at h
      rw [hheard, Option.bind_some, hlink] at h
      cases h
  · intro h
    unfold parent
    rw [h]
    rfl

/-- A bridge that has heard of no better one is the root. -/
theorem Fixpoint.of_heardOn_eq_none (h : (N.bridge i).heardOn (now i) = none) :
    (N.bridge i).stp.rootPrio.root = (N.bridge i).stp.bridgeId ∧ N.cost i = 0 := by
  rcases (hfix.settled hwf i).source with ⟨-, hown, -⟩ | ⟨bp, x, -, hsome, -⟩
  · unfold cost
    rw [hown]
    exact ⟨rfl, rfl⟩
  · rw [h] at hsome
    cases hsome

theorem Fixpoint.exists_root (i : ι) : ∃ r, (N.bridge r).heardOn (now r) = none := by
  induction hn : N.age i using Nat.strong_induction_on generalizing i with
  | _ n ih =>
    cases hheard : (N.bridge i).heardOn (now i) with
    | none => exact ⟨i, hheard⟩
    | some bp =>
      obtain ⟨_, j, _, _, -, -, -, -, -, -, -, -, hage⟩ := hfix.heardOn_eq_some hwf hheard
      exact ih (N.age j) (hn ▸ hage) j rfl

theorem Fixpoint.root_unique {r : ι}
    (hr : (N.bridge r).heardOn (now r) = none) (hi : (N.bridge i).heardOn (now i) = none) :
    i = r := by
  have hroot := hfix.root_eq hwf i r
  unfold root at hroot
  rw [(hfix.of_heardOn_eq_none hwf hr).1, (hfix.of_heardOn_eq_none hwf hi).1] at hroot
  exact bridgeId_inj hwf (UInt64.toNat_inj.mp hroot)

/-! ## Roles -/

theorem Fixpoint.roleAt_root :
    N.roleAt i bp = some .root ↔ (N.bridge i).heardOn (now i) = some bp := by
  constructor
  · intro h
    obtain ⟨x, hx, hrole⟩ := Option.map_eq_some_iff.mp h
    rcases hfix.informed i bp x hx with hmine | ⟨hrec, -⟩
    · rw [((hfix.settled hwf i).mine hx hmine).1] at hrole
      cases hrole
    · rcases (hfix.settled hwf i).received hx hrec with ⟨hheard, -⟩ | ⟨-, hblocked, -⟩
      · exact hheard
      · rw [hrole] at hblocked
        rcases hblocked with h | h <;> cases h
  · intro h
    obtain ⟨x, _, _, _, hx, -, -, -, hrec, -⟩ := hfix.heardOn_eq_some hwf h
    rcases (hfix.settled hwf i).received hx hrec with ⟨-, hroot⟩ | ⟨hnot, -⟩
    · exact Option.map_eq_some_iff.mpr ⟨x, hx, hroot⟩
    · exact absurd h hnot

theorem Fixpoint.roleAt_designated (hx : N.port i bp = some x) :
    N.roleAt i bp = some .designated ↔ x.stp.info = .mine := by
  have hrole : N.roleAt i bp = some x.stp.role := by
    unfold roleAt
    rw [hx]
    rfl
  rw [hrole, Option.some_inj]
  exact ⟨hfix.designated_mine hwf hx, fun hmine => ((hfix.settled hwf i).mine hx hmine).1⟩

/-- **Exactly one end of a link is designated.** -/
theorem Fixpoint.designated_iff (hlink : N.link i bp = some (j, bq)) :
    N.roleAt i bp = some .designated ↔ N.roleAt j bq ≠ some .designated := by
  have hback := hwf.symm _ _ _ _ hlink
  obtain ⟨x, hx⟩ := Option.isSome_iff_exists.mp (hwf.port _ _ _ _ hlink)
  obtain ⟨y, hy⟩ := Option.isSome_iff_exists.mp (hwf.port _ _ _ _ hback)
  rw [hfix.roleAt_designated hwf hx, ne_eq, hfix.roleAt_designated hwf hy]
  constructor
  · exact fun hmine => hfix.not_both_mine hwf hlink hx hy hmine
  · intro hnot
    rcases hfix.informed i bp x hx with hmine | ⟨hrec, -⟩
    · exact hmine
    · obtain ⟨k, bk, z, hlink', hz, hknows⟩ := hfix.knows hwf hx hrec
      obtain ⟨rfl, rfl⟩ := Prod.mk.inj (Option.some.inj (hlink'.symm.trans hlink))
      obtain rfl : z = y := Option.some.inj (hz.symm.trans hy)
      exact absurd hknows.mine hnot

theorem Fixpoint.activeLink (h : N.ActiveLink i bp j bq) :
    (N.bridge i).heardOn (now i) = some bp ∨ (N.bridge j).heardOn (now j) = some bq := by
  obtain ⟨hlink, hi, hj⟩ := h
  rcases hi with hroot | hdes
  · exact .inl ((hfix.roleAt_root hwf).mp hroot)
  · rcases hj with hroot | hdes'
    · exact .inr ((hfix.roleAt_root hwf).mp hroot)
    · exact absurd hdes' ((hfix.designated_iff hwf hlink).mp hdes)

theorem Fixpoint.activeLink_of_heardOn (h : (N.bridge i).heardOn (now i) = some bp)
    (hlink : N.link i bp = some (j, bq)) : N.ActiveLink i bp j bq := by
  have hroot := (hfix.roleAt_root hwf).mpr h
  refine ⟨hlink, .inl hroot, .inr ?_⟩
  refine (hfix.designated_iff hwf (hwf.symm _ _ _ _ hlink)).mpr ?_
  rw [hroot]
  exact fun heq => nomatch heq

omit hwf hfix in
theorem parent_of_heardOn (h : (N.bridge i).heardOn (now i) = some bp)
    (hlink : N.link i bp = some (j, bq)) :
    N.parent now i = some j := by
  unfold parent next
  rw [h, Option.bind_some, hlink]
  rfl

theorem Fixpoint.activeGraph_eq : N.activeGraph = parentGraph (N.parent now) := by
  ext i j
  constructor
  · rintro ⟨hne, ⟨bp, bq, hactive⟩ | ⟨bp, bq, hactive⟩⟩
    · rcases hfix.activeLink hwf hactive with hi | hj
      · exact ⟨hne, .inl (parent_of_heardOn hi hactive.1)⟩
      · exact ⟨hne, .inr (parent_of_heardOn hj (hwf.symm _ _ _ _ hactive.1))⟩
    · rcases hfix.activeLink hwf hactive with hj | hi
      · exact ⟨hne, .inr (parent_of_heardOn hj hactive.1)⟩
      · exact ⟨hne, .inl (parent_of_heardOn hi (hwf.symm _ _ _ _ hactive.1))⟩
  · rintro ⟨hne, hparent | hparent⟩
    · obtain ⟨bp, bq, hheard, hlink, -⟩ := hfix.parent_eq_some hwf hparent
      exact ⟨hne, .inl ⟨bp, bq, hfix.activeLink_of_heardOn hwf hheard hlink⟩⟩
    · obtain ⟨bp, bq, hheard, hlink, -⟩ := hfix.parent_eq_some hwf hparent
      exact ⟨hne, .inr ⟨bp, bq, hfix.activeLink_of_heardOn hwf hheard hlink⟩⟩

theorem Fixpoint.rank (i j : ι) (h : N.parent now i = some j) : N.age j < N.age i := by
  obtain ⟨-, -, -, -, hage⟩ := hfix.parent_eq_some hwf h
  exact hage

theorem Fixpoint.single (h : N.ActiveLink i bp j bq) :
    i ≠ j ∧ ∀ bp' bq', N.ActiveLink i bp' j bq' → bp' = bp ∧ bq' = bq := by
  have hback := hwf.symm _ _ _ _ h.1
  have hcycle (hi : N.parent now i = some j) (hj : N.parent now j = some i) : False :=
    (hfix.rank hwf i j hi).not_gt (hfix.rank hwf j i hj)
  constructor
  · rcases hfix.activeLink hwf h with hi | hj
    · exact parent_ne (hfix.rank hwf) (parent_of_heardOn hi h.1)
    · exact (parent_ne (hfix.rank hwf) (parent_of_heardOn hj hback)).symm
  · intro bp' bq' h'
    have hback' := hwf.symm _ _ _ _ h'.1
    rcases hfix.activeLink hwf h with hi | hj
    · rcases hfix.activeLink hwf h' with hi' | hj'
      · obtain rfl : bp' = bp := Option.some.inj (hi'.symm.trans hi)
        exact ⟨rfl, (Prod.mk.inj (Option.some.inj (h'.1.symm.trans h.1))).2⟩
      · exact (hcycle (parent_of_heardOn hi h.1) (parent_of_heardOn hj' hback')).elim
    · rcases hfix.activeLink hwf h' with hi' | hj'
      · exact (hcycle (parent_of_heardOn hi' h'.1) (parent_of_heardOn hj hback)).elim
      · obtain rfl : bq' = bq := Option.some.inj (hj'.symm.trans hj)
        exact ⟨(Prod.mk.inj (Option.some.inj (hback'.symm.trans hback))).2, rfl⟩

end Links

/-- **Spanning tree is a spanning tree**: where nothing changes any more, the ports that forward
span the network as a tree, over the least costs from the bridge with the least id. -/
theorem Fixpoint.spans [Finite ι] [Nonempty ι] (N : Network ι) (now : ι → ℤ) (hwf : N.WellFormed)
    (hfix : N.Fixpoint now) : N.Spans := by
  obtain ⟨r, hr⟩ := hfix.exists_root hwf (Classical.arbitrary ι)
  have hparent (i : ι) : N.parent now i = none ↔ i = r := by
    rw [hfix.parent_eq_none hwf]
    exact ⟨hfix.root_unique hwf hr, fun heq => heq ▸ hr⟩
  have hheard (i : ι) (hi : i ≠ r) : ∃ bp, (N.bridge i).heardOn (now i) = some bp := by
    cases h : (N.bridge i).heardOn (now i) with
    | none => exact absurd (hfix.root_unique hwf hr h) hi
    | some bp => exact ⟨bp, rfl⟩
  have hrootid := (hfix.of_heardOn_eq_none hwf hr).1
  refine ⟨⟨r, fun i => ⟨fun hnone => ?_, ?_⟩, fun i hi => ?_, fun i hi => ?_, fun i => ⟨?_, ?_⟩⟩,
    fun i bp j bq =>
    hfix.designated_iff hwf, ?_, fun i bp j bq => hfix.single hwf⟩
  · by_contra hi
    obtain ⟨bp, hbp⟩ := hheard i hi
    exact hnone bp ((hfix.roleAt_root hwf).mpr hbp)
  · rintro rfl bp hrole
    rw [(hfix.roleAt_root hwf).mp hrole] at hr
    cases hr
  · -- the root is not above the bridge's own id, and that is not the root's
    have hle : N.root i ≤ (N.bridge i).stp.bridgeId.toNat := by
      rcases key_le (hfix.settled hwf i).le_own with hlt | ⟨heq, -⟩
      · exact hlt.le
      · exact heq.le
    have hroot : N.root i = (N.bridge r).stp.bridgeId.toNat := by
      rw [hfix.root_eq hwf i r]
      exact congrArg UInt64.toNat hrootid
    rw [hroot] at hle
    refine UInt64.lt_iff_toNat_lt.mpr (lt_of_le_of_ne hle fun heq => ?_)
    exact hi (bridgeId_inj hwf (UInt64.toNat_inj.mp heq)).symm
  · obtain ⟨bp, hbp⟩ := hheard i hi
    refine ⟨bp, (hfix.roleAt_root hwf).mpr hbp, fun bp' hbp' => ?_⟩
    exact Option.some.inj (((hfix.roleAt_root hwf).mp hbp').symm.trans hbp)
  · rw [← hrootid]
    exact UInt64.toNat_inj.mp (hfix.root_eq hwf i r)
  · refine isLeast_way N.age 4294967295 (d := N.cost) (hfix.of_heardOn_eq_none hwf hr).2 ?_ ?_ ?_ i
    · intro i bp j hnext
      obtain ⟨⟨k, bq⟩, hlink, rfl⟩ := Option.map_eq_some_iff.mp hnext
      rcases hfix.le_link hwf hlink with hlt | ⟨-, hle⟩
      · exact absurd (hfix.root_eq hwf i k) hlt.ne
      · exact hle
    · intro i hi
      obtain ⟨bp, hbp⟩ := hheard i hi
      obtain ⟨_, j, bq, _, -, hlink, -, -, -, -, -, hcost, hage⟩ := hfix.heardOn_eq_some hwf hbp
      refine ⟨bp, j, ?_, hage, hcost⟩
      unfold next
      rw [hlink]
      rfl
    · exact fun i k vs w hway hnodup => Nat.le_of_lt_succ (hwf.cost i k vs w hway hnodup)
  · rw [hfix.activeGraph_eq hwf]
    exact parentGraph_isTree (hfix.rank hwf) hparent

end Network

/-! ## Two bridges -/

namespace Network

/-- A fixpoint in which only roles are asked for, and nothing is said twice. -/
structure RolesStill {ι : Type*} (N : Network ι) (now : ι → ℤ) : Prop where
  roles : ∀ i bp x, N.port i bp = some x → ∃ x',
    ((N.bridge i).stpRun (now i)).bports[bp]? = some x' ∧
    x'.stp.role = x.stp.role
  informed : N.Informed

/-- Two bridges with a link between their first ports and one between their second. -/
def pair (b₀ b₁ : Bridge) : Network (Fin 2) where
  bridge i := if i = 0 then b₀ else b₁
  link i bp := if bp ∈ [.eth 0, .eth 1] then some (1 - i, bp) else none

theorem link_pair {b₀ b₁ : Bridge} {i j : Fin 2} {bq : PortRef}
    (h : (pair b₀ b₁).link i bp = some (j, bq)) :
    bp ∈ [.eth 0, .eth 1] ∧ bq = bp ∧ j = 1 - i := by
  unfold pair at h
  dsimp only at h
  split at h
  · rename_i hbp
    cases h
    exact ⟨hbp, rfl, rfl⟩
  · cases h

/-- Ports that are all up, as a check. -/
def upCheck (b : Bridge) : Bool :=
  b.stpCfg.enabled && b.stp.wasEnabled && b.stp.bridgeId = makeBid b.stpCfg.priority b.bridgeMac &&
    b.bports.toList.all fun x =>
      x.1 ∈ [PortRef.eth 0, .eth 1] && x.2.oper && x.2.stp.wasOper && x.2.stp.portNum =
        portNumber x.1 &&
        (b.bpStpCfg x.1).any fun c => c.enabled && !c.adminEdge && !c.bpduGuard && !c.rootGuard

theorem up_of_upCheck (h : upCheck b = true) : b.Up := by
  unfold upCheck at h
  simp only [Bool.and_eq_true, decide_eq_true_eq, List.all_eq_true, Option.any_eq_true,
    Bool.not_eq_true'] at h
  obtain ⟨⟨⟨hen, hwas⟩, hid⟩, hports⟩ := h
  refine ⟨hen, hwas, hid, fun bp x hx => ?_⟩
  obtain ⟨⟨⟨⟨hbp, hoper⟩, hwasOper⟩, hnum⟩, c, hc, ⟨⟨hcen, hedge⟩, hbpdu⟩, hroot⟩ :=
    hports (bp, x) (Std.ExtTreeMap.mem_toList_iff_getElem?_eq_some.mpr hx)
  refine ⟨hoper, hwasOper, hnum, ⟨c, hc, hcen, hedge, hbpdu, hroot⟩, ?_⟩
  rcases List.mem_pair.mp hbp with rfl | rfl
  · exact (by decide : 0 < maxPorts)
  · exact (by decide : 1 < maxPorts)

theorem way_le {ι P : Type*} {next : ι → P → Option ι} {weight : ι → P → ℕ} {c : ℕ}
    (hc : ∀ i p j, next i p = some j → weight i p ≤ c) {i k : ι} {vs : List ι} {w : ℕ}
    (h : Way next weight i k vs w) : w ≤ c * vs.length := by
  induction h with
  | nil i => exact Nat.zero_le _
  | cons hop rest ih =>
    rw [List.length_cons, Nat.mul_succ, Nat.add_comm]
    exact Nat.add_le_add ih (hc _ _ _ hop)

theorem pair_wellFormed {b₀ b₁ : Bridge} (h₀ : upCheck b₀ = true) (h₁ : upCheck b₁ = true)
    (hports : ∀ bp ∈ [PortRef.eth 0, .eth 1], (b₀.bports[bp]?).isSome = true ∧
      (b₁.bports[bp]?).isSome = true)
    (hmac : b₀.bridgeMac ≠ b₁.bridgeMac)
    (hcost : ∀ bp ∈ [PortRef.eth 0, .eth 1], b₀.pathCost bp ≤ 20000 ∧ b₁.pathCost bp ≤ 20000) :
    (pair b₀ b₁).WellFormed where
  up i := by
    fin_cases i
    · exact up_of_upCheck h₀
    · exact up_of_upCheck h₁
  symm i bp j bq h := by
    obtain ⟨hbp, rfl, rfl⟩ := link_pair h
    show (if bq ∈ _ then some (1 - (1 - i), bq) else none) = _
    rw [if_pos hbp, sub_sub_cancel]
  ne i bp h := by
    obtain ⟨-, -, hi⟩ := link_pair h
    revert hi
    fin_cases i <;> decide
  port i bp j bq h := by
    obtain ⟨hbp, rfl, rfl⟩ := link_pair h
    fin_cases i
    · exact (hports bq hbp).1
    · exact (hports bq hbp).2
  mac i j h := by
    fin_cases i <;> fin_cases j
    · rfl
    · exact absurd h hmac
    · exact absurd h.symm hmac
    · rfl
  connected i j := by
    by_cases hij : i = j
    · rw [hij]
    · refine Relation.ReflTransGen.single ⟨.eth 0, ?_⟩
      show some (1 - i) = some j
      revert hij
      fin_cases i <;> fin_cases j <;> decide
  cost i k vs w h hnodup := by
    have hle := way_le (c := 20000) (fun i bp j hop => ?_) h
    · have hlen := hnodup.length_le_card
      rw [Fintype.card_fin] at hlen
      omega
    · obtain ⟨⟨j', bq⟩, hlink, -⟩ := Option.map_eq_some_iff.mp hop
      obtain ⟨hbp, -, -⟩ := link_pair hlink
      fin_cases i
      · exact UInt32.le_iff_toNat_le.mp (hcost bp hbp).1
      · exact UInt32.le_iff_toNat_le.mp (hcost bp hbp).2

/-- A bridge with two ports, whose links have come up. -/
def started (n : Byte) : Bridge :=
  [Call.setPortMode (.eth 0) (.access 1), .setPortMode (.eth 1) (.access 1), .setStpEnabled true,
    .setLink 0 true 0,
    .setLink 1 true 0].foldl Bridge.call
    (.new [⟨0x02, 0, 0, 0, 0, n⟩, ⟨0x02, 0, 0, 0, 2, n⟩] ⟨0x02, 0, 0, 0, 1, n⟩ 0)

theorem of_all_ports {P : PortRef → BPort → Bool}
    (h : b.bports.toList.all (fun x => P x.1 x.2) = true) {x : BPort}
    (hx : b.bports[bp]? = some x) :
    P bp x = true :=
  List.all_eq_true.mp h (bp, x) (Std.ExtTreeMap.mem_toList_iff_getElem?_eq_some.mpr hx)

/-- Each of two bridges that have not heard of each other is a root of its own. -/
theorem rolesStill_not_spans : ¬ ∀ (ι : Type) [Finite ι] [Nonempty ι] (N : Network ι) (now : ι → ℤ),
    N.WellFormed →
    N.RolesStill now → N.Spans := by
  intro h
  have hwf : (pair (started 1) (started 2)).WellFormed :=
    pair_wellFormed (by decide +kernel) (by decide +kernel) (by decide +kernel) (by decide +kernel)
      (by decide +kernel)
  have hcheck : ∀ i, ((pair (started 1) (started 2)).bridge i).bports.toList.all (fun x =>
      x.2.stp.info = .mine && x.2.stp.role ≠ .root &&
        ((((pair (started 1) (started 2)).bridge i).stpRun 0).bports[x.1]?).any fun x' =>
          x'.stp.role = x.2.stp.role) = true := by
    decide +kernel
  have hstill : (pair (started 1) (started 2)).RolesStill fun _ => 0 := by
    constructor
    · intro i bp x hx
      have hport := of_all_ports (P := fun bp x => x.stp.info = .mine && x.stp.role ≠ .root &&
        ((((pair (started 1) (started 2)).bridge i).stpRun 0).bports[bp]?).any fun x' =>
          x'.stp.role = x.stp.role)
        (hcheck i) hx
      rw [Bool.and_eq_true, Option.any_eq_true] at hport
      obtain ⟨-, x', hx', hrole⟩ := hport
      exact ⟨x', hx', of_decide_eq_true hrole⟩
    · intro i bp x hx
      have hport := of_all_ports (P := fun bp x => x.stp.info = .mine && x.stp.role ≠ .root &&
        ((((pair (started 1) (started 2)).bridge i).stpRun 0).bports[bp]?).any fun x' =>
          x'.stp.role = x.stp.role)
        (hcheck i) hx
      rw [Bool.and_eq_true, Bool.and_eq_true] at hport
      exact .inl (of_decide_eq_true hport.1.1)
  have hrootless (i : Fin 2) (bp : PortRef) :
    (pair (started 1) (started 2)).roleAt i bp ≠ some .root := by
    intro hroot
    obtain ⟨x, hx, hrole⟩ := Option.map_eq_some_iff.mp hroot
    have hport := of_all_ports (P := fun bp x => x.stp.info = .mine && x.stp.role ≠ .root &&
      ((((pair (started 1) (started 2)).bridge i).stpRun 0).bports[bp]?).any fun x' =>
        x'.stp.role = x.stp.role)
      (hcheck i) hx
    rw [Bool.and_eq_true, Bool.and_eq_true] at hport
    exact of_decide_eq_true hport.1.2 hrole
  obtain ⟨r, honly, -⟩ := (h (Fin 2) _ _ hwf hstill).root
  have hzero := (honly 0).mp (hrootless 0)
  have hone := (honly 1).mp (hrootless 1)
  exact absurd (hzero.trans hone.symm) (by decide)

/-- The second bridge has heard the first on both links. -/
def informedOf (b₀ b₁ : Bridge) : Bridge :=
  ([PortRef.eth 0, .eth 1].foldl (fun b bp => match b₀.designatedBody bp 0 with
    | some body => (b.stpRx bp (.rst body) 0).1
    | none => b) b₁).stpRun 0

def sameCheck (p q : StpPort) : Bool := p.info = q.info && p.prio = q.prio && p.times = q.times

theorem sameInfo_of_sameCheck {q : StpPort} (h : sameCheck p q = true) : p.SameInfo q := by
  unfold sameCheck at h
  simp only [Bool.and_eq_true, decide_eq_true_eq] at h
  exact ⟨h.1.1, h.1.2, h.2⟩

def stillCheck (b : Bridge) (now : ℤ) : Bool :=
  (b.stpRun now).stp.rootPrio = b.stp.rootPrio && (b.stpRun now).stp.rootTimes = b.stp.rootTimes &&
    b.bports.toList.all fun x =>
      ((b.stpRun now).bports[x.1]?).any fun x' => x'.stp.role = x.2.stp.role &&
        sameCheck x'.stp x.2.stp

theorem still_of_stillCheck (h : stillCheck b now = true) : b.Still now := by
  unfold stillCheck at h
  rw [Bool.and_eq_true, Bool.and_eq_true] at h
  refine ⟨of_decide_eq_true h.1.1, of_decide_eq_true h.1.2, fun bp x hx => ?_⟩
  have hport := of_all_ports (P := fun bp x => ((b.stpRun now).bports[bp]?).any fun x' =>
    x'.stp.role = x.stp.role && sameCheck x'.stp x.stp) h.2 hx
  rw [Option.any_eq_true] at hport
  obtain ⟨x', hx', hsame⟩ := hport
  rw [Bool.and_eq_true] at hsame
  exact ⟨x', hx', of_decide_eq_true hsame.1, sameInfo_of_sameCheck hsame.2⟩

/-- What the second bridge knows, as a check. -/
def heardCheck (b₀ b₁ : Bridge) : Bool :=
  b₁.bports.toList.all fun x =>
    x.1 ∈ [PortRef.eth 0, .eth 1] && x.2.stp.role ≠ .designated && x.2.stp.info = .received && 0 <
      x.2.stp.rcvdUntil &&
      x.2.stp.times.msgAge.toNat + 256 ≤ x.2.stp.times.maxAge.toNat &&
      (b₀.bports[x.1]?).any fun y => y.stp.role = .designated &&
        (b₀.designatedBody x.1 0).any fun body =>
        x.2.stp.prio = Bridge.msgOf body (b₁.portId x.1 x.2.stp.portNum) &&
          x.2.stp.times = Bridge.timesOf body &&
          ((b₁.stpRx x.1 (Bridge.bpduOf y body) 0).1.bports[x.1]?).any fun x' =>
            sameCheck x'.stp x.2.stp

/-- What the check says of a port of the second bridge. -/
theorem of_heardCheck {b₀ b₁ : Bridge} (h : heardCheck b₀ b₁ = true)
    (hx : b₁.bports[bp]? = some x) :
    bp ∈ [PortRef.eth 0, .eth 1] ∧ x.stp.role ≠ .designated ∧ x.stp.info = .received ∧
      0 < x.stp.rcvdUntil ∧
      x.stp.times.msgAge.toNat + 256 ≤ x.stp.times.maxAge.toNat ∧
      ∃ y body x', b₀.bports[bp]? = some y ∧ y.stp.role = .designated ∧
        b₀.designatedBody bp 0 = some body ∧
        x.stp.prio = Bridge.msgOf body (b₁.portId bp x.stp.portNum) ∧
          x.stp.times = Bridge.timesOf body ∧
        (b₁.stpRx bp (Bridge.bpduOf y body) 0).1.bports[bp]? = some x' ∧
          sameCheck x'.stp x.stp = true := by
  have hport :=
    List.all_eq_true.mp h (bp, x) (Std.ExtTreeMap.mem_toList_iff_getElem?_eq_some.mpr hx)
  simp only [Bool.and_eq_true, decide_eq_true_eq, Option.any_eq_true] at hport
  obtain ⟨⟨⟨⟨⟨hbp, hnot⟩, hinfo⟩, hfresh⟩, hyoung⟩, y, hy, hdes, body, hbody, ⟨hprio, htimes⟩, x',
    hx', hsame⟩ := hport
  exact ⟨hbp, hnot, hinfo, hfresh, hyoung, y, body, x', hy, hdes, hbody, hprio, htimes, hx', hsame⟩

theorem pair_fixpoint {b₀ b₁ : Bridge} (h₀ : stillCheck b₀ 0 = true) (h₁ : stillCheck b₁ 0 = true)
    (hmine : b₀.bports.toList.all (fun x => x.2.stp.info = .mine) = true)
    (hheard : heardCheck b₀ b₁ = true) : (pair b₀ b₁).Fixpoint fun _ => 0 := by
  have hmine' {bp : PortRef} {x : BPort} (hx : b₀.bports[bp]? = some x) : x.stp.info = .mine :=
    of_decide_eq_true (of_all_ports (P := fun _ x => x.stp.info = .mine) hmine hx)
  refine ⟨fun i => ?_, fun i bp x hx => ?_, fun i bp x hx hrec => ?_,
    fun i bp j bq x z hlink hx hz hrole => ?_⟩
  · fin_cases i
    · exact still_of_stillCheck h₀
    · exact still_of_stillCheck h₁
  · fin_cases i
    · exact .inl (hmine' hx)
    · obtain ⟨hbp, -, hinfo, -, -, y, body, -, hy, hdes, hbody, hprio, htimes, -⟩ :=
        of_heardCheck hheard hx
      exact .inr ⟨hinfo, 0, bp, y, 0, body, if_pos hbp, hy, hdes, hbody, hprio, htimes⟩
  · fin_cases i
    · rw [hmine' hx] at hrec
      cases hrec
    · obtain ⟨-, -, -, hfresh, hyoung, -⟩ := of_heardCheck hheard hx
      exact ⟨hfresh, hyoung⟩
  · obtain ⟨-, rfl, rfl⟩ := link_pair hlink
    fin_cases i
    · obtain ⟨-, hnot, -⟩ := of_heardCheck hheard hz
      exact absurd hrole hnot
    · obtain ⟨-, -, -, -, -, y, body, x', hy, -, hbody, -, -, hx', hsame⟩ := of_heardCheck hheard hx
      obtain rfl : y = z := Option.some.inj (hy.symm.trans hz)
      exact ⟨0, body, x', hbody, hx', sameInfo_of_sameCheck hsame⟩

/-- Two bridges with two links, the second of which has heard the first and blocks a link. -/
theorem spans_pair :
    (pair (started 1) (informedOf (started 1) (started 2))).Spans ∧
      (pair (started 1) (informedOf (started 1) (started 2))).roleAt 1 (.eth 1) = some .alternate :=
  ⟨Fixpoint.spans _ (fun _ => 0)
    (pair_wellFormed (by decide +kernel) (by decide +kernel) (by decide +kernel) (by decide +kernel)
      (by decide +kernel))
    (pair_fixpoint (by decide +kernel) (by decide +kernel) (by decide +kernel) (by decide +kernel)),
    by decide +kernel⟩

end Network

end EvansComputer.Switch
