import EvansComputer.Dns.Secondaries

/-!
# A secondary converges and never goes back

A secondary server in a world of datagrams that are lost, repeated, late or made up, of transfers
that take any time, and of reloads.  Beside the server the world keeps what the primary has
published, which version of a zone each transfer may bring, and the NOTIFYs that the server has
acknowledged and not yet acted on.

Nothing is forgotten and nothing goes back in a run where each transfer brings what was notified
while it was on its way, and where none is left over from before a reload.
-/

namespace EvansComputer.Dns

/-- What comes to a server between transfers and reloads. -/
inductive Input where
  | tick
  | datagram (from_ : Ipv4Addr) (port : UInt16) (data : Datagram)
  | resolverDatagram (from_ : Ipv4Addr) (data : Datagram)
  | retransfer (zone : Name)
  | takeOut

def Input.call (now : ℤ) : Input → ServerCall
  | .tick => .tick now
  | .datagram from_ port data => .onUdp from_ port data now
  | .resolverDatagram from_ data => .onResolverUdp from_ data now
  | .retransfer zone => .retransfer zone now
  | .takeOut => .takeOut

/-! ## The world of a secondary -/

structure World (ρ : Type) where
  server : Server ρ
  clock : ℤ
  /-- Serials of acknowledged NOTIFYs, by zone, with no check and no transfer over since. -/
  owed : Name → List UInt32 := fun _ => []
  /-- Those acknowledged while a transfer was on its way. -/
  missed : Name → List UInt32 := fun _ => []
  /-- The version that the primary has published; version `v` has the serial `v`. -/
  published : Name → ℕ
  /-- The version of the copy that is served. -/
  held : Name → ℕ
  /-- Transfers on their way, with the version published when they were asked for. -/
  inFlight : List (Name × ℕ) := []
  /-- Transfers that were on their way at a reload. -/
  late : List (Name × ℕ) := []

inductive WorldEvent where
  | input (i : Input)
  /-- A reload, and the versions of the copies that it finds. -/
  | reload (conf : NamedConf) (disk : Disk) (copies : Name → ℕ)
  | publish (zone : Name) (version : ℕ)
  /-- A transfer ends: with a version of the zone, or without one. -/
  | finish (zone : Name) (low : ℕ) (result : Option (Zone × ℕ))

/-- The copy is not older than `n`. -/
def Fresh (copy : Option Zone) (n : UInt32) : Prop :=
  ∃ z, copy = some z ∧ serialNewer n z.serial = false

namespace World

variable {ρ : Type} [ResolverOps ρ]

/-- The zone and the serial of a NOTIFY that is acknowledged. -/
def acked (s : Server ρ) : Input → Option (Name × UInt32)
  | .datagram from_ _ (.message m) => do
    if m.header.qr || m.header.opcode ≠ opNotify then none
    else
      let i ← s.notified from_ m
      let c ← s.secondaries[i]?
      let n ← m.answerSerial
      return (c.zone, n)
  | _ => none

def ackedFor (s : Server ρ) (i : Input) (zone : Name) : List UInt32 :=
  (((acked s i).filter (·.1 = zone)).map (·.2)).toList

/-- Is a check of `zone` over, with nothing else on its way or due? -/
def checkOver (s s' : Server ρ) (now : ℤ) (zone : Name) : Bool :=
  (s.secondaries.zip s'.secondaries).any fun p =>
    p.1.zone = zone && p.1.soaQuery.isSome && p.2.soaQuery.isNone && !p.2.transferring && now <
      p.2.nextCheck

def isTransferring (s : Server ρ) (zone : Name) : Bool :=
  s.secondaries.any fun c => c.zone = zone && c.transferring

/-- The transfers that a call asks for. -/
def newTransfers (s s' : Server ρ) : List Name := transfersOf (s'.out.drop s.out.length)

/-- The world after an event at time `now`. -/
def after (w : World ρ) (now : ℤ) : WorldEvent → World ρ
  | .input i =>
    let s := w.server.call (i.call now)
    { w with
      server := s
      clock := now
      owed := fun zone => (if checkOver w.server s now zone then [] else w.owed zone) ++
        ackedFor w.server i zone
      missed := fun zone => w.missed zone ++ if isTransferring w.server zone then ackedFor w.server
        i zone else []
      inFlight := w.inFlight ++ (newTransfers w.server s).map fun zone => (zone, w.published zone) }
  | .reload conf disk copies =>
    { w with
      server := w.server.call (.reload conf disk now)
      clock := now
      missed := fun _ => []
      held := copies
      inFlight := []
      late := w.late ++ w.inFlight }
  | .publish zone version =>
    { w with published := Function.update w.published zone version, clock := now }
  | .finish zone low result =>
    { w with
      server := w.server.call (.onTransfer zone (result.map (·.1)) now)
      clock := now
      owed := Function.update w.owed zone (w.missed zone)
      missed := Function.update w.missed zone []
      held := (result.map fun r => Function.update w.held zone r.2).getD w.held
      inFlight := if (zone, low) ∈ w.inFlight then w.inFlight.erase (zone, low) else w.inFlight
      late := if (zone, low) ∈ w.inFlight then w.late else w.late.erase (zone, low) }

/-- The copies that are loaded are versions of the zones. -/
def Versions (conf : NamedConf) (disk : Disk) (old : Option (List Zone))
    (copies published : Name → ℕ) : Prop :=
  ∀ zc ∈ conf.zones, ∀ primary file, zc.kind = .secondary primary file →
    ∀ z, Server.copyOf disk old zc.name file = some z →
      z.serial = UInt32.ofNat (copies zc.name) ∧ copies zc.name ≤ published zc.name

/-- The copies that are loaded are less than half the ring behind. -/
def Near (conf : NamedConf) (disk : Disk) (old : Option (List Zone)) (copies published : Name → ℕ) :
    Prop :=
  ∀ zc ∈ conf.zones, ∀ primary file, zc.kind = .secondary primary file →
    ∀ z, Server.copyOf disk old zc.name file = some z → published zc.name < copies zc.name + 2 ^ 31

/-- What may happen: time goes on, versions go up, and a transfer brings a version that was
published while it was on its way. -/
def Possible (w : World ρ) (now : ℤ) (e : WorldEvent) : Prop :=
  w.clock ≤ now ∧
    match e with
    | .input _ => True
    | .reload conf disk copies => Versions conf disk (some w.server.auth.zones) copies w.published
    | .publish zone version => w.published zone ≤ version
    | .finish zone low result =>
      ((zone, low) ∈ w.inFlight ∨ (zone, low) ∈ w.late) ∧
        ∀ z v, result = some (z, v) →
          z.origin = zone ∧ z.serial = UInt32.ofNat v ∧ low ≤ v ∧ v ≤ w.published zone

/-- The condition: a transfer is not left over from before a reload, and it brings what was
notified while it was on its way; and the primary is never half the ring ahead of a copy. -/
def Meets (w : World ρ) (_now : ℤ) : WorldEvent → Prop
  | .input _ => True
  | .reload conf disk copies => Near conf disk (some w.server.auth.zones) copies w.published
  | .publish zone version =>
    ((w.server.auth.zone? zone).isSome = true → version < w.held zone + 2 ^ 31) ∧
      ∀ low, (zone, low) ∈ w.inFlight → version < low + 2 ^ 31
  | .finish zone low result =>
    (zone, low) ∈ w.inFlight ∧
      ∀ n ∈ w.missed zone, Fresh ((result.map (·.1)).or (w.server.auth.zone? zone)) n

/-- The worlds that events which meet a condition lead to. -/
inductive Reached (meets : World ρ → ℤ → WorldEvent → Prop) : World ρ → Prop
  | start (conf : NamedConf) (disk : Disk) (own : List Ipv4Addr) (seed : UInt32) (now : ℤ)
      (published held : Name → ℕ) :
      Versions conf disk none held published → Near conf disk none held published →
      Reached meets { server := .load conf disk own seed now, clock := now, published, held }
  | step {w : World ρ} (now : ℤ) (e : WorldEvent) :
    Reached meets w → w.Possible now e → meets w now e →
      Reached meets (w.after now e)

/-- **No acknowledged NOTIFY is forgotten**: until a check or a transfer is over, the copy is as
new as it says, or a check or a transfer is on its way, or a check is due. -/
def Paid (w : World ρ) : Prop :=
  ∀ c ∈ w.server.secondaries, ∀ n ∈ w.owed c.zone,
    Fresh (w.server.auth.zone? c.zone) n ∨ c.soaQuery.isSome = true ∨ c.transferring = true ∨
      c.nextCheck ≤ w.clock

/-- The copies that are served only get newer between two worlds. -/
def Onward (w w' : World ρ) : Prop :=
  ∀ c ∈ w.server.secondaries, ∀ z z', w.server.auth.zone? c.zone = some z →
    w'.server.auth.zone? c.zone = some z' →
    serialNewer z.serial z'.serial = false

/-! ## What an input does -/

variable {w w' : World ρ} {now : ℤ}

omit [ResolverOps ρ] in
theorem newTransfers_eq {s s' : Server ρ} {ts : List Name} (h : Server.Follows now s s' ts) :
    newTransfers s s' = ts := by
  obtain ⟨ext, hext, hts⟩ := h.out
  unfold newTransfers
  rw [hext, List.drop_left, hts]

/-- What an input does to the secondaries of a server. -/
structure Steps (now : ℤ) (s s' : Server ρ) : Prop where
  auth : s'.auth = s.auth
  moves : List.Forall₂ (Server.Moves now) s.secondaries s'.secondaries
  transfers : newTransfers s s' = [] ∨
    ∃ c ∈ s.secondaries, c.soaQuery.isSome = true ∧ newTransfers s s' = [c.zone] ∧
      ∃ c' ∈ s'.secondaries, c'.zone = c.zone ∧ c'.transferring = true

omit [ResolverOps ρ] in
theorem steps_of_follows {s s' : Server ρ} (h : Server.Follows now s s' []) : Steps now s s' :=
  ⟨h.auth, h.moves, .inl (newTransfers_eq h)⟩

theorem onUdp_steps (s : Server ρ) (from_ : Ipv4Addr) (port : UInt16) (data : Datagram) (now : ℤ) :
    Steps now s (s.onUdp from_ port data now) := by
  unfold Server.onUdp
  split
  · exact steps_of_follows ((Server.Quiet.refl s).follows now)
  · exact steps_of_follows ((Server.send_quiet s _ _ _).follows now)
  rename_i m
  split
  · rcases Server.onReply_follows s from_ m now with hquiet | ⟨c, hc, hq, hfollows, hc'⟩
    · exact steps_of_follows hquiet
    · exact ⟨hfollows.auth, hfollows.moves, .inr ⟨c, hc, hq, newTransfers_eq hfollows, hc'⟩⟩
  split
  · exact steps_of_follows (Server.onNotify_follows s from_ port m now)
  split
  · have hquiet : Server.Quiet s (s.answer from_ port m now true).1 :=
      Server.answer_quiet s from_ port m true
    split
    · rename_i s' r heq
      rw [heq] at hquiet
      exact steps_of_follows ((hquiet.trans (Server.send_quiet _ _ _ _)).follows now)
    · rename_i s' heq
      rw [heq] at hquiet
      exact steps_of_follows (hquiet.follows now)
  · exact steps_of_follows ((Server.send_quiet s _ _ _).follows now)

/-- **An input moves each secondary**, and asks for at most one transfer. -/
theorem input_steps (s : Server ρ) (i : Input) (now : ℤ) : Steps now s (s.call (i.call now)) := by
  cases i with
  | tick => exact steps_of_follows (Server.tick_follows s now)
  | datagram from_ port data => exact onUdp_steps s from_ port data now
  | resolverDatagram from_ data =>
    have hresolver (r : Option ρ) : Server.Quiet s { s with resolver := r } :=
      ⟨rfl, rfl, [], (List.append_nil _).symm, rfl⟩
    exact steps_of_follows (((hresolver _).trans (Server.pumpResolver_quiet _)).follows now)
  | retransfer zone => exact steps_of_follows (Server.retransfer_follows s zone now)
  | takeOut =>
    exact ⟨rfl, Server.forall₂_same _,
      .inl (by simp [newTransfers, Server.call, Input.call, Server.takeOut, transfersOf])⟩

omit [ResolverOps ρ] in
theorem Steps.zones {s s' : Server ρ} (h : Steps now s s') :
    s'.secondaries.map (·.zone) = s.secondaries.map (·.zone) := by
  have hmoves := h.moves
  generalize s.secondaries = cs at hmoves
  generalize s'.secondaries = cs' at hmoves
  induction hmoves with
  | nil => rfl
  | cons hc _ ih => rw [List.map_cons, List.map_cons, hc.zone, ih]

theorem exists_zip_of_forall₂ {α : Type*} {R : α → α → Prop} {l l' : List α}
    (h : List.Forall₂ R l l') {y : α} (hy : y ∈ l') : ∃ x ∈ l, R x y ∧ (x, y) ∈ l.zip l' := by
  induction h with
  | nil => cases hy
  | cons hxy _ ih =>
    rcases List.mem_cons.mp hy with rfl | hy
    · exact ⟨_, List.mem_cons_self, hxy, List.mem_cons_self⟩
    · obtain ⟨x, hx, hR, hzip⟩ := ih hy
      exact ⟨x, List.mem_cons_of_mem _ hx, hR, List.mem_cons_of_mem _ hzip⟩

/-- After a NOTIFY that is acknowledged a check is on its way, or due. -/
theorem acked_due (now : ℤ) {s : Server ρ} {i : Input} {zone : Name} {n : UInt32}
    (h : acked s i = some (zone, n)) :
    ∃ c ∈ (s.call (i.call now)).secondaries, c.zone = zone ∧
      (c.soaQuery.isSome = true ∨ c.nextCheck = now) := by
  unfold acked at h
  split at h
  · rename_i from_ port m
    split at h
    · cases h
    rename_i hnotify
    rw [Bool.or_eq_true, not_or] at hnotify
    obtain ⟨j, hj, h⟩ := Option.bind_eq_some_iff.mp h
    obtain ⟨c, hc, h⟩ := Option.bind_eq_some_iff.mp h
    obtain ⟨n', -, h⟩ := Option.bind_eq_some_iff.mp h
    cases h
    obtain ⟨c', hc', hdue⟩ := Server.onNotify_due s from_ port m now hj
    have hcall :
      s.call ((Input.datagram from_ port (.message m)).call now) = s.onNotify from_ port m now := by
      change (if m.header.qr = true then _ else if m.header.opcode = opNotify then _ else _) = _
      rw [if_neg hnotify.1, if_pos (by simpa using hnotify.2)]
    refine ⟨c', by rw [hcall]; exact List.mem_of_getElem? hc', ?_, hdue⟩
    have hzones := congrArg (fun l : List Name => l[j]?)
      (Steps.zones (steps_of_follows (Server.onNotify_follows s from_ port m now)))
    rw [List.getElem?_map, List.getElem?_map, hc, hc'] at hzones
    exact Option.some_inj.mp hzones
  · cases h

/-! ## The invariant -/

structure Inv (w : World ρ) : Prop where
  nodup : (w.server.secondaries.map (·.zone)).Nodup
  /-- No check is on its way beside a transfer. -/
  idle : ∀ c ∈ w.server.secondaries, c.transferring = true → c.soaQuery = none
  paid : w.Paid
  served : ∀ c ∈ w.server.secondaries, ∀ z, w.server.auth.zone? c.zone = some z →
    z.serial = UInt32.ofNat (w.held c.zone) ∧ w.held c.zone ≤ w.published c.zone ∧
      w.published c.zone < w.held c.zone + 2 ^ 31 ∧ ∀ low, (c.zone, low) ∈ w.inFlight →
        w.held c.zone ≤ low
  /-- At most one transfer of a zone is on its way. -/
  single : (w.inFlight.map (·.1)).Nodup
  flying : ∀ zone low, (zone, low) ∈ w.inFlight → low ≤ w.published zone ∧
    w.published zone < low + 2 ^ 31 ∧
    ∀ c ∈ w.server.secondaries, c.zone = zone → c.transferring = true

omit [ResolverOps ρ] in
/-- A server that has just been loaded is due to check each of its zones. -/
theorem inv_of_loaded {w : World ρ} {conf : NamedConf} {disk : Disk} {old : Option (List Zone)}
    (h : Server.Loaded disk w.clock old conf.zones w.server)
    (hversions : Versions conf disk old w.held w.published)
    (hnear : Near conf disk old w.held w.published) (hnone : w.inFlight = []) : w.Inv where
  nodup := h.nodup
  idle c hc _ := (h.fresh c hc).1
  paid c hc n _ := .inr (.inr (.inr (h.fresh c hc).2.2.1.le))
  served c hc z hz := by
    obtain ⟨-, -, -, ⟨zc, hzc, hname, hkind⟩, hcopy⟩ := h.fresh c hc
    have hcopied : Server.copyOf disk old zc.name c.file = some z := hname ▸ hcopy z hz
    obtain ⟨hserial, hheld⟩ := hversions zc hzc c.primary c.file hkind z hcopied
    have hless := hnear zc hzc c.primary c.file hkind z hcopied
    rw [hname] at hserial hheld hless
    refine ⟨hserial, hheld, hless, fun low hlow => ?_⟩
    rw [hnone] at hlow
    cases hlow
  single := by rw [hnone]; exact List.nodup_nil
  flying zone low hlow := by rw [hnone] at hlow; cases hlow

/-! ### An input -/

theorem isSome_of_eq_some {α : Type*} {o : Option α} {x : α} (h : o = some x) :
    o.isSome = true := by
  rw [h]
  rfl

/-- **An input forgets no NOTIFY.** -/
theorem Inv.paid_input (h : w.Inv) (i : Input) (hnow : w.clock ≤ now) :
    (w.after now (.input i)).Paid := by
  have hsteps := input_steps w.server i now
  have hnodup : ((w.server.call (i.call now)).secondaries.map (·.zone)).Nodup :=
    hsteps.zones ▸ h.nodup
  intro c' hc' n hn
  change c' ∈ (w.server.call (i.call now)).secondaries at hc'
  change Fresh ((w.server.call (i.call now)).auth.zone? c'.zone) n ∨ _ ∨ _ ∨ c'.nextCheck ≤ now
  rcases List.mem_append.mp hn with hn | hn
  · obtain ⟨c, hc, hmove, hzip⟩ := exists_zip_of_forall₂ hsteps.moves hc'
    split at hn
    · cases hn
    rename_i hover
    rw [hsteps.auth]
    have hold := h.paid c hc n (hmove.zone ▸ hn)
    rw [← hmove.zone] at hold
    cases hmove with
    | same =>
      rcases hold with hfresh | hq | htransfer | hdue
      · exact .inl hfresh
      · exact .inr (.inl hq)
      · exact .inr (.inr (.inl htransfer))
      · exact .inr (.inr (.inr (hdue.trans hnow)))
    | asked next q hidle => exact .inr (.inl rfl)
    | ended next hq =>
      -- a check that is over leaves the debt to a transfer, or to a check that is due
      by_cases htransfer : c.transferring = true
      · exact .inr (.inr (.inl htransfer))
      · refine .inr (.inr (.inr (not_lt.mp fun hlater => hover ?_)))
        refine List.any_eq_true.mpr ⟨_, hzip, ?_⟩
        simp [hq, htransfer, hlater]
    | due => exact .inr (.inr (.inr le_rfl))
    | transfers hq => exact .inr (.inr (.inl rfl))
  · unfold ackedFor at hn
    obtain ⟨⟨zone, m⟩, hacked, rfl⟩ := Option.map_eq_some_iff.mp (Option.mem_toList.mp hn)
    obtain ⟨hacked, hzone⟩ := Option.filter_eq_some_iff.mp hacked
    obtain ⟨c, hc, hname, hdue⟩ := acked_due now hacked
    have hsame : c = c' :=
      List.inj_on_of_nodup_map hnodup hc hc' (hname.trans (by simpa using hzone))
    subst hsame
    rcases hdue with hq | hdue
    · exact .inr (.inl hq)
    · exact .inr (.inr (.inr hdue.le))

theorem Inv.input (h : w.Inv) (i : Input) (hnow : w.clock ≤ now) :
    (w.after now (.input i)).Inv := by
  have hsteps := input_steps w.server i now
  have hpaid := h.paid_input i hnow
  -- a transfer that is asked for is the only one of its zone
  have hasked : ∀ zone ∈ newTransfers w.server (w.server.call (i.call now)),
      (∀ low, (zone, low) ∉ w.inFlight) ∧ ∃ c' ∈ (w.server.call (i.call now)).secondaries,
        c'.zone = zone ∧ c'.transferring = true := by
    rcases hsteps.transfers with hnone | ⟨c, hc, hq, hone, c', hc', hzone, htransfer⟩
    · rw [hnone]
      exact fun zone hz => absurd hz List.not_mem_nil
    · rw [hone]
      intro zone hz
      rw [List.mem_singleton] at hz
      subst hz
      refine ⟨fun low hlow => ?_, c', hc', hzone, htransfer⟩
      rw [h.idle c hc ((h.flying _ _ hlow).2.2 c hc rfl)] at hq
      cases hq
  have hnodup : ((w.server.call (i.call now)).secondaries.map (·.zone)).Nodup :=
    hsteps.zones ▸ h.nodup
  refine ⟨hnodup, ?_, hpaid, ?_, ?_, ?_⟩
  · intro c' hc' htransfer
    obtain ⟨c, hc, hmove, -⟩ := exists_zip_of_forall₂ hsteps.moves hc'
    exact hmove.idle (h.idle c hc) htransfer
  · intro c' hc' z hz
    obtain ⟨c, hc, hmove, -⟩ := exists_zip_of_forall₂ hsteps.moves hc'
    have hz : w.server.auth.zone? c.zone = some z := by
      rw [← hmove.zone, ← hsteps.auth]
      exact hz
    obtain ⟨hserial, hheld, hnear, hlow⟩ := h.served c hc z hz
    rw [← hmove.zone] at hserial hheld hnear hlow
    refine ⟨hserial, hheld, hnear, fun low hmem => ?_⟩
    rcases List.mem_append.mp hmem with hmem | hmem
    · exact hlow low hmem
    · obtain ⟨zone, -, heq⟩ := List.mem_map.mp hmem
      cases heq
      exact hheld
  · change ((w.inFlight ++ (newTransfers w.server _).map fun zone => (zone, w.published zone)).map
      (·.1)).Nodup
    rw [List.map_append, List.map_map]
    refine List.nodup_append'.mpr ⟨h.single, ?_, ?_⟩
    · rcases hsteps.transfers with hnone | ⟨c, -, -, hone, -⟩
      · rw [hnone]
        exact List.nodup_nil
      · rw [hone]
        exact List.nodup_singleton _
    · intro zone hmem hnew
      obtain ⟨⟨zone', low⟩, hp, rfl⟩ := List.mem_map.mp hmem
      obtain ⟨zone, hz, rfl⟩ := List.mem_map.mp hnew
      exact (hasked _ hz).1 low hp
  · intro zone low hmem
    rcases List.mem_append.mp hmem with hmem | hmem
    · obtain ⟨hlow, hnear, htransfer⟩ := h.flying zone low hmem
      refine ⟨hlow, hnear, fun c' hc' hzone => ?_⟩
      obtain ⟨c, hc, hmove, -⟩ := exists_zip_of_forall₂ hsteps.moves hc'
      exact hmove.transferring (htransfer c hc (hmove.zone ▸ hzone))
    · obtain ⟨zone', hz, heq⟩ := List.mem_map.mp hmem
      cases heq
      obtain ⟨-, c', hc', hname, htransfer⟩ := hasked zone hz
      refine ⟨le_rfl, by change w.published zone < w.published zone + 2 ^ 31; omega,
        fun c hc hzone => ?_⟩
      rwa [List.inj_on_of_nodup_map hnodup hc hc' (hzone.trans hname.symm)]

/-! ### The end of a transfer -/

/-- What the end of a transfer of `zone` does. -/
structure Ends (zone : Name) (result : Option Zone) (s s' : Server ρ) : Prop where
  zones : s'.secondaries.map (·.zone) = s.secondaries.map (·.zone)
  others : ∀ c ∈ s'.secondaries, c.zone ≠ zone → c ∈ s.secondaries
  own : ∀ c ∈ s'.secondaries, c.zone = zone → c.transferring = false ∧
    ∃ c₀ ∈ s.secondaries, c₀.zone = zone ∧ c.soaQuery = c₀.soaQuery
  kept : ∀ name, name ≠ zone → s'.auth.zone? name = s.auth.zone? name
  served : (∃ c ∈ s.secondaries, c.zone = zone) → s'.auth.zone? zone = result.or (s.auth.zone? zone)

omit [ResolverOps ρ] in
theorem onTransfer_ends (s : Server ρ) (zone : Name) (result : Option Zone) (now : ℤ)
    (hnodup : (s.secondaries.map (·.zone)).Nodup)
    (horigin : ∀ z, result = some z → z.origin = zone) :
    Ends zone result s (s.onTransfer zone result now) := by
  unfold Server.onTransfer
  split
  · rename_i hnone
    have hno : ∀ c ∈ s.secondaries, c.zone ≠ zone := by
      simpa using List.findIdx?_eq_none_iff.mp hnone
    exact ⟨rfl, fun c hc _ => hc, fun c hc hz => absurd hz (hno c hc), fun _ _ => rfl,
      fun ⟨c, hc, hz⟩ => absurd hz (hno c hc)⟩
  rename_i i hi
  obtain ⟨hlt, hp, -⟩ := List.findIdx?_eq_some_iff_getElem.mp hi
  have hzone : s.secondaries[i].zone = zone := by simpa using hp
  rw [List.getElem?_eq_getElem hlt]
  have hmem := List.getElem_mem hlt
  -- whatever the result, the record of the zone is all that changes among the secondaries
  have hset (next : ℤ) :
    (s.secondaries.set i { s.secondaries[i] with transferring := false, nextCheck := next }).map
    (·.zone) =
      s.secondaries.map (·.zone) := by
    have hlt' : i < (s.secondaries.map (·.zone)).length := by simpa using hlt
    have hget : (s.secondaries.map (·.zone))[i] = s.secondaries[i].zone := List.getElem_map ..
    rw [List.map_set, ← hget, List.set_getElem_self]
  have hothers (next : ℤ) (c : Secondary)
      (hc : c ∈ s.secondaries.set i
        { s.secondaries[i] with transferring := false, nextCheck := next })
      (hne : c.zone ≠ zone) : c ∈ s.secondaries := by
    rcases List.mem_or_eq_of_mem_set hc with hc | rfl
    · exact hc
    · exact absurd hzone hne
  have hown (next : ℤ) (c : Secondary)
      (hc : c ∈ s.secondaries.set i
        { s.secondaries[i] with transferring := false, nextCheck := next })
      (heq : c.zone = zone) : c.transferring = false ∧ ∃ c₀ ∈ s.secondaries,
        c₀.zone = zone ∧ c.soaQuery = c₀.soaQuery := by
    have hc' := List.inj_on_of_nodup_map ((hset next).symm ▸ hnodup) hc (List.mem_set hlt _)
      (heq.trans hzone.symm)
    rw [hc']
    exact ⟨rfl, _, hmem, hzone, rfl⟩
  dsimp only
  split
  · rename_i z
    refine ⟨hset _, hothers _, hown _, fun name hne => ?_, fun _ => ?_⟩
    · exact Server.zone?_put_of_ne _ (by rw [horigin z rfl]; exact hne.symm)
    · rw [← horigin z rfl]
      exact Server.zone?_put_self _ _
  · exact ⟨hset _, hothers _, hown _, fun _ _ => rfl, fun _ => rfl⟩

theorem serialNewer_of_le {a b : ℕ} (hab : a ≤ b) (hlt : b < a + 2 ^ 31) :
    serialNewer (UInt32.ofNat a) (UInt32.ofNat b) = false := by
  unfold serialNewer
  by_cases heq : UInt32.ofNat a = UInt32.ofNat b
  · simp [heq]
  have hne : a % 2 ^ 32 ≠ b % 2 ^ 32 := fun h => heq (UInt32.toNat_inj.mp (by simpa using h))
  have hfar : ¬ UInt32.ofNat a - UInt32.ofNat b < 0x80000000 := by
    rw [UInt32.lt_iff_toNat_lt, UInt32.toNat_sub]
    simp only [UInt32.toNat_ofNat']
    change ¬ (2 ^ 32 - b % 2 ^ 32 + a % 2 ^ 32) % 2 ^ 32 < 2147483648
    omega
  simp [hfar]

omit [ResolverOps ρ] in
theorem not_mem_erase_of_nodup {l : List (Name × ℕ)} (hnodup : (l.map (·.1)).Nodup) {zone : Name}
    {low low' : ℕ} (h : (zone, low) ∈ l) : (zone, low') ∉ l.erase (zone, low) := by
  intro hmem
  have heq : (zone, low') = (zone, low) :=
    List.inj_on_of_nodup_map hnodup (List.mem_of_mem_erase hmem) h rfl
  rw [heq] at hmem
  exact (hnodup.of_map _).not_mem_erase hmem

variable {zone : Name} {low : ℕ} {result : Option (Zone × ℕ)}

theorem finish_ends (h : w.Inv) (hp : w.Possible now (.finish zone low result)) :
    Ends zone (result.map (·.1)) w.server (w.after now (.finish zone low result)).server := by
  refine onTransfer_ends w.server zone _ now h.nodup fun z hz => ?_
  obtain ⟨⟨z', v⟩, hresult, rfl⟩ := Option.map_eq_some_iff.mp hz
  exact (hp.2.2 z' v hresult).1

/-- **A transfer that brings what was notified meanwhile leaves no debt.** -/
theorem Inv.paid_finish (h : w.Inv) (hp : w.Possible now (.finish zone low result))
    (hm : w.Meets now (.finish zone low result)) :
    (w.after now (.finish zone low result)).Paid := by
  have hends := finish_ends h hp
  intro c hc n hn
  by_cases hzone : c.zone = zone
  · obtain ⟨-, c₀, hc₀, hname, -⟩ := hends.own c hc hzone
    rw [hzone] at hn ⊢
    rw [hends.served ⟨c₀, hc₀, hname⟩]
    change n ∈ Function.update w.owed zone (w.missed zone) zone at hn
    rw [Function.update_self] at hn
    exact .inl (hm.2 n hn)
  · change n ∈ Function.update w.owed zone (w.missed zone) c.zone at hn
    rw [Function.update_of_ne hzone] at hn
    rw [hends.kept c.zone hzone]
    rcases h.paid c (hends.others c hc hzone) n hn with hfresh | hq | htransfer | hdue
    · exact .inl hfresh
    · exact .inr (.inl hq)
    · exact .inr (.inr (.inl htransfer))
    · exact .inr (.inr (.inr (hdue.trans hp.1)))

theorem Inv.finish (h : w.Inv) (hp : w.Possible now (.finish zone low result))
    (hm : w.Meets now (.finish zone low result)) : (w.after now (.finish zone low result)).Inv := by
  have hends := finish_ends h hp
  have hflight : (w.after now (.finish zone low result)).inFlight = w.inFlight.erase (zone, low) :=
    if_pos hm.1
  obtain ⟨hlow, hnear, -⟩ := h.flying zone low hm.1
  refine ⟨hends.zones ▸ h.nodup, ?_, h.paid_finish hp hm, ?_, ?_, ?_⟩
  · intro c hc htransfer
    by_cases hzone : c.zone = zone
    · rw [(hends.own c hc hzone).1] at htransfer
      cases htransfer
    · exact h.idle c (hends.others c hc hzone) htransfer
  · intro c hc z hz
    rw [hflight]
    by_cases hzone : c.zone = zone
    · obtain ⟨-, c₀, hc₀, hname, -⟩ := hends.own c hc hzone
      rw [hzone, hends.served ⟨c₀, hc₀, hname⟩] at hz
      rw [hzone]
      have hgone (low' : ℕ) (hmem : (zone, low') ∈ w.inFlight.erase (zone, low)) :
          (w.after now (.finish zone low result)).held zone ≤ low' :=
            absurd hmem (not_mem_erase_of_nodup h.single hm.1)
      cases hresult : result with
      | none =>
        rw [hresult] at hz hgone
        obtain ⟨hserial, hheld, hless, -⟩ := h.served c₀ hc₀ z (by rw [hname]; exact hz)
        rw [hname] at hserial hheld hless
        exact ⟨hserial, hheld, hless, hgone⟩
      | some r =>
        obtain ⟨z', v⟩ := r
        rw [hresult] at hz hgone hp
        cases hz
        obtain ⟨-, hserial, hlow', hv⟩ := hp.2.2 z' v rfl
        have hupdate : (w.after now (.finish zone low (some (z', v)))).held zone = v :=
          Function.update_self ..
        rw [hupdate]
        rw [hupdate] at hgone
        refine ⟨hserial, hv, ?_, hgone⟩
        change w.published zone < v + 2 ^ 31
        omega
    · rw [hends.kept c.zone hzone] at hz
      obtain ⟨hserial, hheld, hless, hfly⟩ := h.served c (hends.others c hc hzone) z hz
      have hkept : (w.after now (.finish zone low result)).held c.zone = w.held c.zone := by
        cases result with
        | none => rfl
        | some r => exact Function.update_of_ne hzone ..
      rw [hkept]
      exact ⟨hserial, hheld, hless, fun low' hmem => hfly low' (List.mem_of_mem_erase hmem)⟩
  · rw [hflight]
    exact h.single.sublist (List.erase_sublist.map _)
  · intro zone' low' hmem
    rw [hflight] at hmem
    obtain ⟨hle, hless, htransfer⟩ := h.flying zone' low' (List.mem_of_mem_erase hmem)
    refine ⟨hle, hless, fun c hc hzone => htransfer c (hends.others c hc ?_) hzone⟩
    rintro heq
    rw [← hzone, heq] at hmem
    exact not_mem_erase_of_nodup h.single hm.1 hmem

/-- **A transfer never takes a zone back.** -/
theorem Inv.onward_finish (h : w.Inv) (hp : w.Possible now (.finish zone low result))
    (hm : w.Meets now (.finish zone low result)) :
    w.Onward (w.after now (.finish zone low result)) := by
  have hends := finish_ends h hp
  intro c hc z z' hz hz'
  obtain ⟨hserial, hheld, hless, hfly⟩ := h.served c hc z hz
  have hsame (heq : z' = z) : serialNewer z.serial z'.serial = false := by
    rw [heq, hserial]
    exact serialNewer_of_le le_rfl (by omega)
  by_cases hzone : c.zone = zone
  · rw [hzone, hends.served ⟨c, hc, hzone⟩] at hz'
    cases hresult : result with
    | none =>
      rw [hresult] at hz'
      rw [hzone] at hz
      exact hsame (Option.some_inj.mp (hz'.symm.trans hz))
    | some r =>
      obtain ⟨z₁, v⟩ := r
      rw [hresult] at hz' hp
      cases hz'
      obtain ⟨-, hserial', hlow, hv⟩ := hp.2.2 z₁ v rfl
      have hle := hfly low (hzone ▸ hm.1)
      rw [hzone] at hserial hless hle
      rw [hserial, hserial']
      exact serialNewer_of_le (hle.trans hlow) (by omega)
  · rw [hends.kept c.zone hzone] at hz'
    exact hsame (Option.some_inj.mp (hz'.symm.trans hz))

/-! ### Whole runs -/

theorem Inv.publish (h : w.Inv) {version : ℕ} (hp : w.Possible now (.publish zone version))
    (hm : w.Meets now (.publish zone version)) : (w.after now (.publish zone version)).Inv := by
  have hpublished (name : Name) (hne : name ≠ zone) :
      (w.after now (.publish zone version)).published name = w.published name :=
        Function.update_of_ne hne ..
  have hversion : (w.after now (.publish zone version)).published zone = version :=
    Function.update_self ..
  refine ⟨h.nodup, h.idle, ?_, ?_, h.single, ?_⟩
  · intro c hc n hn
    rcases h.paid c hc n hn with hfresh | hq | htransfer | hdue
    · exact .inl hfresh
    · exact .inr (.inl hq)
    · exact .inr (.inr (.inl htransfer))
    · exact .inr (.inr (.inr (hdue.trans hp.1)))
  · intro c hc z hz
    obtain ⟨hserial, hheld, hless, hfly⟩ := h.served c hc z hz
    by_cases hzone : c.zone = zone
    · have hahead := hm.1 (by rw [← hzone]; exact isSome_of_eq_some hz)
      rw [hzone] at hserial hheld hfly ⊢
      rw [hversion]
      exact ⟨hserial, hheld.trans hp.2, hahead, hfly⟩
    · rw [hpublished c.zone hzone]
      exact ⟨hserial, hheld, hless, hfly⟩
  · intro name low hmem
    obtain ⟨hlow, hless, htransfer⟩ := h.flying name low hmem
    by_cases hzone : name = zone
    · subst hzone
      rw [hversion]
      exact ⟨hlow.trans hp.2, hm.2 low hmem, htransfer⟩
    · rw [hpublished name hzone]
      exact ⟨hlow, hless, htransfer⟩

theorem Inv.step (h : w.Inv) {e : WorldEvent} (hp : w.Possible now e) (hm : w.Meets now e) :
    (w.after now e).Inv := by
  cases e with
  | input i => exact h.input i hp.1
  | reload conf disk copies =>
    exact inv_of_loaded (Server.reload_loaded conf disk now w.server) hp.2 hm rfl
  | publish zone version => exact h.publish hp hm
  | finish zone low result => exact h.finish hp hm

theorem Reached.inv (h : Reached Meets w) : w.Inv := by
  induction h with
  | start conf disk own seed now published held hversions hnear =>
    exact inv_of_loaded (Server.apply_loaded conf disk now none _ rfl rfl) hversions hnear rfl
  | step now e _ hp hm ih => exact ih.step hp hm

/-- **A secondary converges and never goes back**, in every run where transfers bring what was
notified while they were on their way, and where none is left over from before a reload. -/
theorem secondary_converges (h : Reached Meets w) :
    w.Paid ∧ ∀ now zone low result, w.Possible now (.finish zone low result) →
      w.Meets now (.finish zone low result) →
      w.Onward (w.after now (.finish zone low result)) :=
  ⟨h.inv.paid, fun _ _ _ _ hp hm => h.inv.onward_finish hp hm⟩

/-! ## A zone that changes in the middle of its transfer -/

/-- A resolver for servers without recursion. -/
instance : ResolverOps Unit where
  new _ _ := ()
  takeCache r _ := r
  resolve r _ _ _ := (0, r)
  onPacket r _ _ _ := r
  tick r _ := r
  takeSends r := ([], r)
  takeDone r := ([], r)

def labName : Name := "lab".toList

def labPrimary : Ipv4Addr := ⟨10, 0, 0, 1⟩

/-- A server that follows the zone `lab` of `10.0.0.1`. -/
def labConf : NamedConf where
  zones := [{ name := labName, kind := .secondary labPrimary "lab.zone".toList }]
  distinct := by decide

theorem emptyDisk_origin (_ : List Char) (name : Name) (z : Zone) (h : none = some (some z)) :
    z.origin = name := by
  cases h

def emptyDisk : Disk where
  zone _ _ := none
  hints _ := none
  zone_origin := emptyDisk_origin

/-- The SOA of a version of the zone `lab`. -/
def labSoa (version : ℕ) : Soa where
  mname := labName
  rname := labName
  serial := UInt32.ofNat version
  refresh := 900
  retry := 60
  expire := 86400
  minimum := 60

def labZone (version : ℕ) : Zone where
  origin := labName
  soaRecord := { name := labName, rtype := typeSoa, ttl := 60, data := .soa (labSoa version) }
  rest := []
  soa := labSoa version
  soa_first := rfl

/-- The answer of the primary to the check with this id. -/
def labReply (id : UInt16) (version : ℕ) : Input :=
  .datagram labPrimary 53
    (.message { (Message.query id labName typeSoa false).responseTo noerror with
    answers := [(labZone version).soaRecord] })

def labNotify (version : ℕ) : Input :=
  .datagram labPrimary 53 (.message (notifyMessage (labZone version) 7))

def labWorld : World Unit where
  server := .load labConf emptyDisk [] 0 0
  clock := 0
  published _ := 1
  held _ := 0

/-- The id of the check that is on its way. -/
def checkId (w : World Unit) : UInt16 :=
  ((w.server.secondaries.head?.bind (·.soaQuery)).map (·.1)).getD 0

def labTransfer : World Unit :=
  let w := labWorld.after 0 (.input .tick)
  w.after 0 (.input (labReply (checkId w) 1))

/-- The zone changes while it is on its way. -/
def labMissed : World Unit :=
  ((labTransfer.after 1 (.publish labName 2)).after 2 (.input (labNotify 2))).after 10
    (.finish labName 1 (some (labZone 1, 1)))

/-- A reload while the zone is on its way, and a transfer of the next version. -/
def labReloaded : World Unit :=
  let w := (labTransfer.after 1 (.reload labConf emptyDisk fun _ => 0)).after 1 (.publish labName 2)
  let w := w.after 2 (.input .tick)
  let w := w.after 2 (.input (labReply (checkId w) 2))
  w.after 3 (.finish labName 2 (some (labZone 2, 2)))

theorem reached_labTransfer {meets : World Unit → ℤ → WorldEvent → Prop}
    (hinput : ∀ w now i, meets w now (.input i)) :
    Reached meets labTransfer := by
  have hcopy (zc : ZoneConf) (file : List Char) :
    Server.copyOf emptyDisk none zc.name file = none := rfl
  have hstart : Reached meets labWorld := by
    refine .start labConf emptyDisk [] 0 0 (fun _ => 1) (fun _ => 0) ?_ ?_
    · exact fun zc _ _ file _ z hz => by rw [hcopy] at hz; cases hz
    · exact fun zc _ _ file _ z hz => by rw [hcopy] at hz; cases hz
  exact (hstart.step 0 (.input .tick) ⟨le_rfl, trivial⟩ (hinput _ _ _)).step 0 _ ⟨le_rfl, trivial⟩
    (hinput _ _ _)

theorem reached_labMissed : Reached (fun _ _ _ => True) labMissed := by
  have hpublish : labTransfer.Possible 1 (.publish labName 2) := ⟨by decide, by decide⟩
  have hfinish :
    ((labTransfer.after 1 (.publish labName 2)).after 2 (.input (labNotify 2))).Possible 10
      (.finish labName 1 (some (labZone 1, 1))) := by
    refine ⟨by decide, .inl (by decide), fun z v hz => ?_⟩
    cases hz
    exact ⟨rfl, rfl, le_rfl, by decide⟩
  have htransfer : Reached (fun _ _ _ => True) labTransfer :=
    reached_labTransfer fun _ _ _ => trivial
  have hnotified :=
    (htransfer.step 1 _ hpublish trivial).step 2 (.input (labNotify 2)) ⟨by decide, trivial⟩ trivial
  exact hnotified.step 10 _ hfinish trivial

theorem reached_labReloaded : Reached (fun _ _ _ => True) labReloaded := by
  have hreload : labTransfer.Possible 1 (.reload labConf emptyDisk fun _ => 0) := by
    refine ⟨by decide, fun zc hzc _ file _ z hz => ?_⟩
    rw [List.mem_singleton.mp hzc] at hz
    cases hz
  have htransfer : Reached (fun _ _ _ => True) labTransfer :=
    reached_labTransfer fun _ _ _ => trivial
  have hreloaded := htransfer.step 1 _ hreload trivial
  have hpublish :
    (labTransfer.after 1 (.reload labConf emptyDisk fun _ => 0)).Possible 1 (.publish labName 2) :=
    ⟨by decide, by decide⟩
  have hasked :=
    ((hreloaded.step 1 _ hpublish trivial).step 2 (.input .tick) ⟨by decide, trivial⟩ trivial)
  refine (hasked.step 2 _ ⟨by decide, trivial⟩ trivial).step 3
    (.finish labName 2 (some (labZone 2, 2))) ?_ trivial
  refine ⟨by decide, .inl (by decide), fun z v hz => ?_⟩
  cases hz
  exact ⟨rfl, rfl, le_rfl, by decide⟩

/-- A NOTIFY is forgotten when the zone changes in the middle of a transfer, and a transfer from
before a reload takes the zone back. -/
theorem not_secondary_converges :
    (¬ ∀ w : World Unit, Reached (fun _ _ _ => True) w → w.Paid) ∧
      ¬ ∀ w : World Unit, Reached (fun _ _ _ => True) w → ∀ now zone low result,
        w.Possible now (.finish zone low result) →
          w.Onward (w.after now (.finish zone low result)) := by
  refine ⟨fun h => ?_, fun h => ?_⟩
  · have hpaid := h labMissed reached_labMissed
    have hone : labMissed.server.secondaries =
        [{ zone := labName, primary := labPrimary, file := "lab.zone".toList,
           nextCheck := 900010 }] := by decide
    have howed : (2 : UInt32) ∈ labMissed.owed labName := by decide
    have hserved : labMissed.server.auth.zone? labName = some (labZone 1) := rfl
    rcases hpaid _ (by rw [hone]; exact List.mem_singleton_self _) 2 howed with
      ⟨z, hz, hold⟩ | hq | htransfer | hdue
    · rw [hserved] at hz
      cases hz
      revert hold
      decide
    · cases hq
    · cases htransfer
    · revert hdue
      decide
  · have hpossible : labReloaded.Possible 4 (.finish labName 1 (some (labZone 1, 1))) := by
      refine ⟨by decide, .inr (by decide), fun z v hz => ?_⟩
      cases hz
      exact ⟨rfl, rfl, le_rfl, by decide⟩
    have honward := h labReloaded reached_labReloaded 4 labName 1 _ hpossible
    have hmem :
      { zone := labName, primary := labPrimary, file := "lab.zone".toList, nextCheck := 900003 } ∈
        labReloaded.server.secondaries := by decide
    have hback := honward _ hmem (labZone 2) (labZone 1) rfl rfl
    revert hback
    decide

/-- The zone is served, and a NOTIFY of its next version brings a check and a transfer. -/
def labChecked : World Unit :=
  let w := labTransfer.after 1 (.finish labName 1 (some (labZone 1, 1)))
  let w := ((w.after 2 (.publish labName 2)).after 3 (.input (labNotify 2))).after 4 (.input .tick)
  w.after 5 (.input (labReply (checkId w) 2))

/-- While it is on its way there is a third version, and a NOTIFY of it. -/
def labNotified : World Unit :=
  (labChecked.after 6 (.publish labName 3)).after 7 (.input (labNotify 3))

theorem reached_labNotified : Reached Meets labNotified := by
  have hfirst : labTransfer.Possible 1 (.finish labName 1 (some (labZone 1, 1))) := by
    refine ⟨by decide, .inl (by decide), fun z v hz => ?_⟩
    cases hz
    exact ⟨rfl, rfl, le_rfl, by decide⟩
  have htransfer : Reached Meets labTransfer := reached_labTransfer fun _ _ _ => trivial
  have hserved := htransfer.step 1 _ hfirst ⟨by decide, fun n hn => by cases hn⟩
  have hnext := hserved.step 2 (.publish labName 2) ⟨by decide, by decide⟩
    ⟨fun _ => by decide, fun low hlow => by cases hlow⟩
  have hnotified :=
    (hnext.step 3 (.input (labNotify 2)) ⟨by decide, trivial⟩ trivial).step 4 (.input .tick)
    ⟨by decide, trivial⟩ trivial
  have hchecked : Reached Meets labChecked :=
    hnotified.step 5 (.input (labReply _ 2)) ⟨by decide, trivial⟩ trivial
  have hthird : labChecked.Meets 6 (.publish labName 3) := by
    refine ⟨fun _ => by decide, fun low hlow => ?_⟩
    have hflight : labChecked.inFlight = [(labName, 2)] := by decide
    rw [hflight] at hlow
    cases List.mem_singleton.mp hlow
    decide
  exact (hchecked.step 6 _ ⟨by decide, by decide⟩ hthird).step 7 (.input (labNotify 3))
    ⟨by decide, trivial⟩ trivial

/-- The transfer brings the version of which the NOTIFY was. -/
theorem secondary_converges_lab :
    labNotified.missed labName = [3] ∧ labNotified.server.auth.zone? labName = some (labZone 1) ∧
      (labNotified.after 10 (.finish labName 2 (some (labZone 3, 3)))).Paid ∧
      labNotified.Onward (labNotified.after 10 (.finish labName 2 (some (labZone 3, 3)))) := by
  have hmissed : labNotified.missed labName = [3] := by decide
  have hpossible : labNotified.Possible 10 (.finish labName 2 (some (labZone 3, 3))) := by
    refine ⟨by decide, .inl (by decide), fun z v hz => ?_⟩
    cases hz
    exact ⟨rfl, rfl, by decide, by decide⟩
  have hmeets : labNotified.Meets 10 (.finish labName 2 (some (labZone 3, 3))) := by
    refine ⟨by decide, fun n hn => ?_⟩
    rw [hmissed] at hn
    rw [List.mem_singleton.mp hn]
    exact ⟨_, rfl, by decide⟩
  obtain ⟨-, honward⟩ := secondary_converges reached_labNotified
  exact ⟨hmissed, rfl, (secondary_converges (reached_labNotified.step 10 _ hpossible hmeets)).1,
    honward 10 labName 2 _ hpossible hmeets⟩

end EvansComputer.Dns.World
