import EvansComputer.Dns.Server

/-!
# A secondary follows its primary

Three things move the record that a server keeps of a secondary zone: the time, messages of the
primary, and the result of a transfer.  All of them write the same few fields.  What each may do
to one record is said once (`Moves`), and each call of the server is shown to do no more to any
of them.

A NOTIFY that is acknowledged is owed a check.  The debt is paid when a check of the SOA, or a
transfer asked for since, is over; until then the zone is as new as the NOTIFY says, or a check
or a transfer is on its way, or a check is due.  That fails where the NOTIFY comes during a
transfer that brings an older zone, since the result of the transfer sets the next check anew.
-/

namespace EvansComputer.Dns

/-- The transfers that a list of outputs asks for. -/
def transfersOf (out : List Out) : List Name :=
  out.filterMap fun o =>
    match o with
    | .transfer zone _ => some zone
    | _ => none

theorem transfersOf_append (a b : List Out) :
    transfersOf (a ++ b) = transfersOf a ++ transfersOf b :=
  List.filterMap_append

namespace Server

variable {ρ : Type} {s s' s'' : Server ρ} {now : ℤ}

/-! ## What leaves the secondaries alone -/

/-- Zones and secondaries are as before, and no transfer is asked for. -/
structure Quiet (s s' : Server ρ) : Prop where
  auth : s'.auth = s.auth
  secondaries : s'.secondaries = s.secondaries
  out : ∃ ext, s'.out = s.out ++ ext ∧ transfersOf ext = []

theorem Quiet.refl (s : Server ρ) : Quiet s s := ⟨rfl, rfl, [], (List.append_nil _).symm, rfl⟩

theorem Quiet.trans (h : Quiet s s') (h' : Quiet s' s'') : Quiet s s'' where
  auth := h'.auth.trans h.auth
  secondaries := h'.secondaries.trans h.secondaries
  out := by
    obtain ⟨ext, hext, hnone⟩ := h.out
    obtain ⟨ext', hext', hnone'⟩ := h'.out
    refine ⟨ext ++ ext', by rw [hext', hext, List.append_assoc], ?_⟩
    rw [transfersOf_append, hnone, hnone']
    rfl

theorem finishClient_quiet (s : Server ρ) (done : UInt32 × Resolution) :
    Quiet s (s.finishClient done) := by
  unfold finishClient
  split
  · exact .refl s
  split
  · exact .refl s
  · exact ⟨rfl, rfl, _, rfl, rfl⟩

theorem finishClients_quiet (s : Server ρ) (done : List (UInt32 × Resolution)) :
    Quiet s (done.foldl finishClient s) := by
  induction done generalizing s with
  | nil => exact .refl s
  | cons d done ih => exact (finishClient_quiet s d).trans (ih _)

theorem pumpResolver_quiet [ResolverOps ρ] (s : Server ρ) : Quiet s s.pumpResolver := by
  unfold pumpResolver
  split
  · exact .refl s
  rename_i r _
  have hstart : Quiet s { s with
      resolver := some (ResolverOps.takeDone (ResolverOps.takeSends r).2).2
      out := s.out ++ (ResolverOps.takeSends r).1.map fun x => Out.resolver x.1 x.2 } := by
    refine ⟨rfl, rfl, _, rfl, ?_⟩
    unfold transfersOf
    rw [List.filterMap_map]
    exact List.filterMap_eq_nil_iff.mpr fun _ _ => rfl
  exact hstart.trans (finishClients_quiet _ _)

theorem tickNotifies_quiet (s : Server ρ) (now : ℤ) : Quiet s (s.tickNotifies now) := by
  refine ⟨rfl, rfl, _, rfl, ?_⟩
  unfold transfersOf
  rw [List.filterMap_eq_nil_iff]
  intro o ho
  obtain ⟨n, -, hn⟩ := List.mem_filterMap.mp ho
  split at hn
  · cases hn
  · obtain ⟨z, -, rfl⟩ := Option.map_eq_some_iff.mp hn
    rfl

theorem send_quiet (s : Server ρ) (to_ : Ipv4Addr) (port : UInt16) (m : Message) :
    Quiet s (s.send to_ port m) :=
  ⟨rfl, rfl, _, rfl, rfl⟩

theorem answer_quiet [ResolverOps ρ] (s : Server ρ) (from_ : Ipv4Addr) (port : UInt16) (m : Message)
    (udp : Bool) :
    Quiet s (s.answer from_ port m now udp).1 := by
  unfold answer
  split
  · exact .refl s
  split
  · exact .refl s
  split
  · exact .refl s
  dsimp only
  split
  · exact .refl s
  split
  · split
    · split
      · exact .refl s
      · rename_i q _ _ _ r _ _ _
        have hjoin (r : ρ) (cs : List Client) :
          Quiet s { s with resolver := some r, clients := cs } :=
          ⟨rfl, rfl, [], (List.append_nil _).symm, rfl⟩
        exact (hjoin _ _).trans (pumpResolver_quiet _)
    · exact .refl s
  · exact .refl s

/-! ## What a call does to one secondary -/

/-- What becomes of the record of a secondary zone in a call other than a reload or the result of
a transfer. -/
inductive Moves (now : ℤ) (c : Secondary) : Secondary → Prop
  | same : Moves now c c
  | asked (next : ℤ) (q : UInt16 × ℤ) : c.transferring = false →
      Moves now c { c with nextCheck := next, soaQuery := some q }
  /-- A check is over. -/
  | ended (next : ℤ) :
    c.soaQuery.isSome = true → Moves now c { c with nextCheck := next, soaQuery := none }
  /-- A check is due. -/
  | due : Moves now c { c with nextCheck := now, soaQuery := none }
  | transfers :
    c.soaQuery.isSome = true → Moves now c { c with soaQuery := none, transferring := true }

theorem Moves.zone {c c' : Secondary} (h : Moves now c c') : c'.zone = c.zone := by
  cases h <;> rfl

theorem Moves.transferring {c c' : Secondary} (h : Moves now c c') (hc : c.transferring = true) :
    c'.transferring = true := by
  cases h with
  | same => exact hc
  | asked next q hidle => exact hc
  | ended next hq => exact hc
  | due => exact hc
  | transfers hq => rfl

theorem Moves.idle {c c' : Secondary} (h : Moves now c c')
    (hidle : c.transferring = true → c.soaQuery = none) (hc' : c'.transferring = true) :
    c'.soaQuery = none := by
  cases h with
  | same => exact hidle hc'
  | asked next q hnot => rw [hnot] at hc'; cases hc'
  | ended next hq => rfl
  | due => rfl
  | transfers hq => rfl

theorem checkSecondary_moves (s : Server ρ) (now : ℤ) (c : Secondary) (rng : UInt32) :
    Moves now c (s.checkSecondary now c rng).1 ∧ transfersOf
      (s.checkSecondary now c rng).2.1 = [] := by
  unfold checkSecondary
  split
  · exact ⟨.same, rfl⟩
  rename_i hidle
  split
  · rename_i hq
    split
    · exact ⟨.ended _ (by rw [hq]; rfl), rfl⟩
    · exact ⟨.same, rfl⟩
  · split
    · exact ⟨.asked c.nextCheck _ (by simpa using hidle), rfl⟩
    · exact ⟨.same, rfl⟩

theorem checkSecondaries_moves (s : Server ρ) (now : ℤ) (cs : List Secondary) (rng : UInt32) :
    List.Forall₂ (Moves now) cs (s.checkSecondaries now cs rng).1 ∧
      transfersOf (s.checkSecondaries now cs rng).2.1 = [] := by
  induction cs generalizing rng with
  | nil => exact ⟨.nil, rfl⟩
  | cons c cs ih =>
    obtain ⟨hmove, hnone⟩ := checkSecondary_moves s now c rng
    obtain ⟨hmoves, hnones⟩ := ih (s.checkSecondary now c rng).2.2
    refine ⟨.cons hmove hmoves, ?_⟩
    have hcons : (s.checkSecondaries now (c :: cs) rng).2.1 = (s.checkSecondary now c rng).2.1 ++
        (s.checkSecondaries now cs (s.checkSecondary now c rng).2.2).2.1 := rfl
    rw [hcons, transfersOf_append, hnone, hnones]
    rfl

/-- **What a call does to the secondaries**: each moves, zones are as before, and the transfers
`ts` are asked for. -/
structure Follows (now : ℤ) (s s' : Server ρ) (ts : List Name) : Prop where
  auth : s'.auth = s.auth
  moves : List.Forall₂ (Moves now) s.secondaries s'.secondaries
  out : ∃ ext, s'.out = s.out ++ ext ∧ transfersOf ext = ts

theorem forall₂_same (cs : List Secondary) : List.Forall₂ (Moves now) cs cs :=
  List.forall₂_same.mpr fun _ _ => .same

theorem Quiet.follows (h : Quiet s s') (now : ℤ) : Follows now s s' [] :=
  ⟨h.auth, h.secondaries ▸ forall₂_same _, h.out⟩

theorem Quiet.trans_follows {ts : List Name} (h : Quiet s s') (h' : Follows now s' s'' ts) :
    Follows now s s'' ts where
  auth := h'.auth.trans h.auth
  moves := h.secondaries ▸ h'.moves
  out := by
    obtain ⟨ext, hext, hnone⟩ := h.out
    obtain ⟨ext', hext', hts⟩ := h'.out
    refine ⟨ext ++ ext', by rw [hext', hext, List.append_assoc], ?_⟩
    rw [transfersOf_append, hnone, hts]
    rfl

theorem tickSecondaries_follows (s : Server ρ) (now : ℤ) :
    Follows now s (s.tickSecondaries now) [] := by
  obtain ⟨hmoves, hnone⟩ := checkSecondaries_moves s now s.secondaries s.rng
  exact ⟨rfl, hmoves, _, rfl, hnone⟩

theorem tick_follows [ResolverOps ρ] (s : Server ρ) (now : ℤ) : Follows now s (s.tick now) [] := by
  have hresolver (r : Option ρ) : Quiet s { s with resolver := r } :=
    ⟨rfl, rfl, [], (List.append_nil _).symm, rfl⟩
  exact ((hresolver _).trans
    ((pumpResolver_quiet _).trans (tickNotifies_quiet _ now))).trans_follows
    (tickSecondaries_follows _ now)

theorem forall₂_modify {α : Type*} {R : α → α → Prop} (hrefl : ∀ x, R x x) {f : α → α}
    (hf : ∀ x, R x (f x)) (l : List α) (i : ℕ) : List.Forall₂ R l (l.modify i f) := by
  induction l generalizing i with
  | nil => cases i <;> exact .nil
  | cons x l ih =>
    cases i with
    | zero => exact .cons (hf x) (List.forall₂_same.mpr fun y _ => hrefl y)
    | succ i => exact .cons (hrefl x) (ih i)

theorem forall₂_set {α : Type*} {R : α → α → Prop} (hrefl : ∀ x, R x x) {l : List α}
    {i : ℕ} {x y : α} (hx : l[i]? = some x) (hxy : R x y) : List.Forall₂ R l (l.set i y) := by
  induction l generalizing i with
  | nil => cases hx
  | cons z l ih =>
    cases i with
    | zero =>
      cases hx
      exact .cons hxy (List.forall₂_same.mpr fun w _ => hrefl w)
    | succ i => exact .cons (hrefl z) (ih hx)

/-- The record of a zone that is to be checked now, or another. -/
def Touched (now : ℤ) (c c₁ : Secondary) : Prop :=
  c₁ = c ∨ c₁ = { c with nextCheck := now, soaQuery := none }

theorem Touched.trans_moves {c c₁ c₂ : Secondary} (h : Touched now c c₁) (h' : Moves now c₁ c₂) :
    Moves now c c₂ := by
  rcases h with rfl | rfl
  · exact h'
  · cases h' with
    | same => exact .due
    | asked next q hidle => exact .asked next q hidle
    | ended next hq => cases hq
    | due => exact .due
    | transfers hq => cases hq

theorem forall₂_touched_trans {cs cs₁ cs₂ : List Secondary} (h : List.Forall₂ (Touched now) cs cs₁)
    (h' : List.Forall₂ (Moves now) cs₁ cs₂) : List.Forall₂ (Moves now) cs cs₂ := by
  induction h generalizing cs₂ with
  | nil => exact h'
  | cons hc _ ih =>
    cases h' with
    | cons hc' hcs' => exact .cons (hc.trans_moves hc') (ih hcs')

/-- Who is notified, if the server is a secondary of the sender for the zone. -/
def notified (s : Server ρ) (from_ : Ipv4Addr) (m : Message) : Option ℕ :=
  s.secondaries.findIdx? fun c => c.zone = (m.question.map (·.name)).getD [] && c.primary = from_

theorem retransfer_follows (s : Server ρ) (zone : Name) (now : ℤ) :
    Follows now s (s.retransfer zone now) [] := by
  unfold retransfer
  split
  · exact ⟨rfl, forall₂_modify (fun _ => .same) (fun _ => .due) _ _, [],
      (List.append_nil _).symm, rfl⟩
  · exact (Quiet.refl s).follows now

theorem onNotify_follows [ResolverOps ρ] (s : Server ρ) (from_ : Ipv4Addr) (port : UInt16)
    (m : Message) (now : ℤ) :
    Follows now s (s.onNotify from_ port m now) [] := by
  unfold onNotify
  dsimp only
  split
  · exact (send_quiet s _ _ _).follows now
  · rename_i i _
    generalize hs₁ : ({ s with secondaries := s.secondaries.modify i fun c =>
      { c with nextCheck := now, soaQuery := none } } : Server ρ) = s₁
    have htouched : List.Forall₂ (Touched now) s.secondaries s₁.secondaries := by
      rw [← hs₁]
      exact forall₂_modify (fun _ => .inl rfl) (fun _ => .inr rfl) _ _
    have hfollows := (send_quiet s₁ from_ port (notifyAck m)).trans_follows (tick_follows _ now)
    obtain ⟨ext, hext, hnone⟩ := hfollows.out
    refine ⟨?_, forall₂_touched_trans htouched hfollows.moves, ext, ?_, hnone⟩
    · rw [hfollows.auth, ← hs₁]
    · rw [hext, ← hs₁]

/-- After a NOTIFY a check of the zone is on its way, or due. -/
theorem onNotify_due [ResolverOps ρ] (s : Server ρ) (from_ : Ipv4Addr) (port : UInt16) (m : Message)
    (now : ℤ) {i : ℕ} (hi : s.notified from_ m = some i) :
    ∃ c, (s.onNotify from_ port m now).secondaries[i]? = some c ∧
      (c.soaQuery.isSome = true ∨ c.nextCheck = now) := by
  unfold notified at hi
  unfold onNotify
  dsimp only
  rw [hi]
  dsimp only
  obtain ⟨hlt, -, -⟩ := List.findIdx?_eq_some_iff_getElem.mp hi
  generalize hs₁ : ({ s with secondaries := s.secondaries.modify i fun c =>
    { c with nextCheck := now, soaQuery := none } } : Server ρ) = s₁
  have hc₁ :
    s₁.secondaries[i]? = some { s.secondaries[i] with nextCheck := now, soaQuery := none } := by
    rw [← hs₁]
    dsimp only
    rw [List.getElem?_modify, List.getElem?_eq_getElem hlt]
    simp
  have hmoves := ((send_quiet s₁ from_ port (notifyAck m)).trans_follows (tick_follows _ now)).moves
  obtain ⟨hlt₁, hget₁⟩ := List.getElem?_eq_some_iff.mp hc₁
  have hlt' : i < ((s₁.send from_ port (notifyAck m)).tick now).secondaries.length :=
    hmoves.length_eq ▸ hlt₁
  have hmove := hmoves.get hlt₁ hlt'
  rw [List.get_eq_getElem, List.get_eq_getElem, hget₁] at hmove
  refine ⟨_, List.getElem?_eq_getElem hlt', ?_⟩
  generalize ((s₁.send from_ port (notifyAck m)).tick now).secondaries[i] = c at hmove
  cases hmove with
  | same => exact .inr rfl
  | asked next q _ => exact .inl rfl
  | ended next hq => cases hq
  | due => exact .inr rfl
  | transfers hq => cases hq

/-- **A reply ends a check**, or begins a transfer. -/
theorem onReply_follows (s : Server ρ) (from_ : Ipv4Addr) (m : Message) (now : ℤ) :
    Follows now s (s.onReply from_ m now) [] ∨
    ∃ c ∈ s.secondaries, c.soaQuery.isSome = true ∧ Follows now s (s.onReply from_ m now) [c.zone] ∧
      ∃ c' ∈ (s.onReply from_ m now).secondaries, c'.zone = c.zone ∧ c'.transferring = true := by
  unfold onReply
  split
  · have hquiet :
      Quiet s { s with notifies := s.notifies.filter fun n =>
      !(n.to_ = from_ && n.id = m.header.id) } :=
      ⟨rfl, rfl, [], (List.append_nil _).symm, rfl⟩
    exact .inl (hquiet.follows now)
  split
  · exact .inl ((Quiet.refl s).follows now)
  rename_i i hi
  split
  · exact .inl ((Quiet.refl s).follows now)
  rename_i c hc
  have hq : c.soaQuery.isSome = true := by
    obtain ⟨hlt, hp, -⟩ := List.findIdx?_eq_some_iff_getElem.mp hi
    obtain ⟨_, hget⟩ := List.getElem?_eq_some_iff.mp hc
    rw [hget, Bool.and_eq_true] at hp
    cases hsoa : c.soaQuery with
    | none => rw [hsoa] at hp; cases hp.2
    | some q => rfl
  have hended (next : ℤ) : Follows now s
      { s with secondaries := s.secondaries.set i { c with soaQuery := none, nextCheck := next } }
        [] :=
    ⟨rfl, forall₂_set (fun _ => .same) hc (.ended next hq), [], (List.append_nil _).symm, rfl⟩
  dsimp only
  split
  · split
    · exact .inl (hended _)
    · refine .inr ⟨c, List.mem_of_getElem? hc, hq, ⟨rfl, ?_, _, rfl, rfl⟩,
        { c with soaQuery := none, transferring := true }, ?_, rfl, rfl⟩
      · exact forall₂_set (fun _ => .same) hc (.transfers hq)
      · exact List.mem_set (List.getElem?_eq_some_iff.mp hc).1 _
  · exact .inl (hended _)

/-! ## The zones that are served -/

theorem zone?_put_self (auth : Authority) (z : Zone) : (auth.put z).zone? z.origin = some z := by
  unfold Authority.zone? Authority.put
  dsimp only
  cases hi : auth.zones.findIdx? (·.origin = z.origin) with
  | none =>
    have hnone := List.findIdx?_eq_none_iff.mp hi
    rw [List.find?_append, List.find?_eq_none.mpr (fun y hy => by simpa using hnone y hy)]
    simp
  | some i =>
    obtain ⟨hlt, _, hbefore⟩ := List.findIdx?_eq_some_iff_getElem.mp hi
    rw [List.find?_eq_some_iff_getElem]
    refine ⟨by simp, i, by simpa using hlt, by simp, fun j hj => ?_⟩
    rw [List.getElem_set_ne (by omega)]
    simpa using hbefore j hj

theorem find?_set_of_not {α : Type*} {p : α → Bool} {l : List α} {i : ℕ} {x y : α}
    (hx : l[i]? = some x) (hpx : p x = false) (hpy : p y = false) :
    (l.set i y).find? p = l.find? p := by
  induction l generalizing i with
  | nil => rfl
  | cons z l ih =>
    cases i with
    | zero =>
      cases hx
      rw [List.set_cons_zero, List.find?_cons_of_neg (by simpa using hpy),
        List.find?_cons_of_neg (by simpa using hpx)]
    | succ i => rw [List.set_cons_succ, List.find?_cons, List.find?_cons, ih hx]

theorem zone?_put_of_ne (auth : Authority) {z : Zone} {name : Name} (hne : z.origin ≠ name) :
    (auth.put z).zone? name = auth.zone? name := by
  unfold Authority.zone? Authority.put
  dsimp only
  cases hi : auth.zones.findIdx? (·.origin = z.origin) with
  | none =>
    dsimp only
    rw [List.find?_append, List.find?_cons_of_neg (by simpa using hne), List.find?_nil,
      Option.or_none]
  | some i =>
    obtain ⟨hlt, hp, _⟩ := List.findIdx?_eq_some_iff_getElem.mp hi
    have hp : auth.zones[i].origin = z.origin := by simpa using hp
    exact find?_set_of_not (List.getElem?_eq_getElem hlt) (by simpa [hp] using hne)
      (by simpa using hne)

/-! ## Loading -/

/-- The copy of a secondary zone that is loaded: the one in memory, or else the one on the disk. -/
def copyOf (disk : Disk) (old : Option (List Zone)) (zone : Name) (file : List Char) :
    Option Zone :=
  (old.bind fun o => o.find? (·.origin = zone)).or (disk.zone file zone).join

theorem copyOf_origin {disk : Disk} {old : Option (List Zone)} {zone : Name}
    {file : List Char} {z : Zone} (h : copyOf disk old zone file = some z) : z.origin = zone := by
  rcases Option.or_eq_some_iff.mp h with hold | ⟨-, hdisk⟩
  · obtain ⟨o, -, hz⟩ := Option.bind_eq_some_iff.mp hold
    simpa using List.find?_some hz
  · exact disk.zone_origin file zone z (Option.join_eq_some_iff.mp hdisk)

/-- What loading one zone may do: of the zones served, only that of its name changes, and of the
secondaries, one of its name is added. -/
structure Loads (disk : Disk) (now : ℤ) (old : Option (List Zone)) (zc : ZoneConf)
    (s s' : Server ρ) : Prop where
  others : ∀ name, name ≠ zc.name → s'.auth.zone? name = s.auth.zone? name
  secondaries : s'.secondaries = s.secondaries ∨
    ∃ primary file, zc.kind = .secondary primary file ∧
      s'.secondaries = s.secondaries ++ [{ zone := zc.name, primary, file, nextCheck := now }] ∧
      ∀ z, s'.auth.zone? zc.name = some z → s.auth.zone? zc.name = some z ∨
        copyOf disk old zc.name file = some z

/-- Those who are told are all that changes. -/
theorem addNotifies_eq (zone : Name) (now : ℤ) (ts : List Ipv4Addr) (s : Server ρ) :
    ∃ notifies rng, ts.foldl (addNotify zone now) s = { s with notifies, rng } := by
  induction ts generalizing s with
  | nil => exact ⟨s.notifies, s.rng, rfl⟩
  | cons t ts ih => exact ih (addNotify zone now s t)

theorem loadZone_loads (disk : Disk) (now : ℤ) (old : Option (List Zone)) (s : Server ρ)
    (zc : ZoneConf) :
    Loads disk now old zc s (loadZone disk now old s zc) := by
  have hput {z : Zone} (hz : z.origin = zc.name) (name : Name) (hne : name ≠ zc.name) :
      (s.auth.put z).zone? name = s.auth.zone? name := zone?_put_of_ne _ (hz ▸ hne.symm)
  unfold loadZone
  split
  · rename_i file notify _
    split
    · exact ⟨fun _ _ => rfl, .inl rfl⟩
    · rename_i z hz
      have horigin := disk.zone_origin file zc.name z hz
      dsimp only
      split
      · obtain ⟨notifies, rng, heq⟩ := addNotifies_eq zc.name now (notifyTargets s.own notify z)
          { s with auth := s.auth.put z }
        rw [heq]
        exact ⟨hput horigin, .inl rfl⟩
      · exact ⟨hput horigin, .inl rfl⟩
    · dsimp only
      split
      · rename_i z hz
        obtain ⟨o, -, hz⟩ := Option.bind_eq_some_iff.mp hz
        exact ⟨hput (by simpa using List.find?_some hz), .inl rfl⟩
      · exact ⟨fun _ _ => rfl, .inl rfl⟩
  · rename_i primary file hkind
    dsimp only
    split
    · rename_i z hz
      have horigin : z.origin = zc.name :=
        copyOf_origin (show copyOf disk old zc.name file = some z from hz)
      refine ⟨hput horigin, .inr ⟨primary, file, hkind, rfl, fun z' hz' => .inr ?_⟩⟩
      rw [← horigin, zone?_put_self] at hz'
      rw [← hz']
      exact hz
    · exact ⟨fun _ _ => rfl, .inr ⟨primary, file, hkind, rfl, fun z' hz' => .inl hz'⟩⟩

/-- The secondaries after `zcs` are loaded: each is due, under a name of its own, and serves the
copy that is loaded. -/
structure Loaded (disk : Disk) (now : ℤ) (old : Option (List Zone)) (zcs : List ZoneConf)
    (s : Server ρ) : Prop where
  served : ∀ name, name ∉ zcs.map (·.name) → s.auth.zone? name = none
  nodup : (s.secondaries.map (·.zone)).Nodup
  fresh : ∀ c ∈ s.secondaries, c.soaQuery = none ∧ c.transferring = false ∧ c.nextCheck = now ∧
    (∃ zc ∈ zcs, zc.name = c.zone ∧ zc.kind = .secondary c.primary c.file) ∧
    ∀ z, s.auth.zone? c.zone = some z → copyOf disk old c.zone c.file = some z

theorem Loads.loaded {disk : Disk} {old : Option (List Zone)} {zc : ZoneConf} {zcs : List ZoneConf}
    (h : Loads disk now old zc s s') (hs : Loaded disk now old zcs s)
    (hnew : zc.name ∉ zcs.map (·.name)) :
    Loaded disk now old (zcs ++ [zc]) s' := by
  have hname (c : Secondary) (hc : c ∈ s.secondaries) : c.zone ≠ zc.name := by
    obtain ⟨-, -, -, ⟨zc', hzc', hzone, -⟩, -⟩ := hs.fresh c hc
    rintro heq
    exact hnew (List.mem_map.mpr ⟨zc', hzc', hzone.trans heq⟩)
  have hold (c : Secondary) (hc : c ∈ s.secondaries) :
    c.soaQuery = none ∧ c.transferring = false ∧ c.nextCheck = now ∧
      (∃ zc' ∈ zcs ++ [zc], zc'.name = c.zone ∧ zc'.kind = .secondary c.primary c.file) ∧
      ∀ z, s'.auth.zone? c.zone = some z → copyOf disk old c.zone c.file = some z := by
    obtain ⟨hsoa, hidle, hdue, ⟨zc', hzc', hconf⟩, hcopy⟩ := hs.fresh c hc
    refine ⟨hsoa, hidle, hdue, ⟨zc', List.mem_append_left _ hzc', hconf⟩, fun z hz => hcopy z ?_⟩
    rwa [← h.others c.zone (hname c hc)]
  have hserved (name : Name) (hnot : name ∉ (zcs ++ [zc]).map (·.name)) :
    s'.auth.zone? name = none := by
    rw [List.map_append, List.mem_append, not_or] at hnot
    rw [h.others name (fun heq => hnot.2 (heq ▸ List.mem_singleton_self _))]
    exact hs.served name hnot.1
  rcases h.secondaries with heq | ⟨primary, file, hkind, heq, hcopy⟩
  · exact ⟨hserved, heq ▸ hs.nodup, heq ▸ hold⟩
  · refine ⟨hserved, ?_, ?_⟩
    · rw [heq, List.map_append, List.map_singleton]
      refine List.nodup_append'.mpr ⟨hs.nodup, List.nodup_singleton _, ?_⟩
      rw [List.disjoint_singleton]
      intro hmem
      obtain ⟨c, hc, hzone⟩ := List.mem_map.mp hmem
      exact hname c hc hzone
    · rw [heq]
      intro c hc
      rcases List.mem_append.mp hc with hc | hc
      · exact hold c hc
      · rw [List.mem_singleton] at hc
        subst hc
        refine ⟨rfl, rfl, rfl,
          ⟨zc, List.mem_append_right _ (List.mem_singleton_self _), rfl, hkind⟩, fun z hz => ?_⟩
        rcases hcopy z hz with hbefore | hcopied
        · rw [hs.served _ hnew] at hbefore
          cases hbefore
        · exact hcopied

theorem loadZones_loaded {disk : Disk} {old : Option (List Zone)} (done zcs : List ZoneConf)
    (s : Server ρ) (hs : Loaded disk now old done s) (hnodup : ((done ++ zcs).map (·.name)).Nodup) :
    Loaded disk now old (done ++ zcs) (zcs.foldl (loadZone disk now old) s) := by
  induction zcs generalizing done s with
  | nil => simpa using hs
  | cons zc zcs ih =>
    rw [List.append_cons] at hnodup ⊢
    refine ih (done ++ [zc]) _ ((loadZone_loads disk now old s zc).loaded hs ?_) hnodup
    rw [List.map_append, List.map_append, List.append_assoc] at hnodup
    intro hmem
    exact (List.nodup_append'.mp hnodup).2.2 hmem (by simp)

/-- **What loading leaves of the secondaries.** -/
theorem apply_loaded [ResolverOps ρ] (conf : NamedConf) (disk : Disk) (now : ℤ)
    (old : Option (List Zone)) (s : Server ρ) (hauth : s.auth = {}) (hnone : s.secondaries = []) :
    Loaded disk now old conf.zones (apply conf disk now old s) := by
  have hstart : Loaded disk now old [] s := by
    refine ⟨fun name _ => by rw [hauth]; rfl, by rw [hnone]; exact List.nodup_nil, ?_⟩
    rw [hnone]
    exact fun c hc => absurd hc List.not_mem_nil
  have hloaded := loadZones_loaded [] conf.zones s hstart conf.distinct
  exact ⟨hloaded.served, hloaded.nodup, hloaded.fresh⟩

theorem reload_loaded [ResolverOps ρ] (conf : NamedConf) (disk : Disk) (now : ℤ) (s : Server ρ) :
    Loaded disk now (some s.auth.zones) conf.zones (s.reload conf disk now) := by
  have hloaded := apply_loaded conf disk now (some s.auth.zones)
    ({ s with resolver := none, auth := {}, secondaries := [], conf } : Server ρ) rfl rfl
  unfold reload
  dsimp only
  split
  · exact ⟨hloaded.served, hloaded.nodup, hloaded.fresh⟩
  · exact hloaded

end EvansComputer.Dns.Server
