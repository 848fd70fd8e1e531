import EvansComputer.Switch.Bridge

/-!
# Link aggregation

The receive machine, the choice of a partner group and the coupled-control mux of the members
of an aggregate.  What is sent, and when, is left out: none of it is read back.
-/

namespace EvansComputer.Switch

def shortTimeoutMs : ℤ := 3000
def longTimeoutMs : ℤ := 90000
def aggregateWaitMs : ℤ := 2000

/-- What identifies a partner group. -/
def LacpPort.groupKey (lp : LacpPort) : UInt16 × MacAddr × UInt16 :=
  (lp.partner.systemPriority, lp.partner.system, lp.partner.key)

/-- The receive machine of a port, by the time and by whether it runs LACP. -/
def LacpPort.runRx (lp : LacpPort) (enabled : Bool) (now : ℤ) : LacpPort :=
  let expired : LacpPort :=
    { lp with
      rx := .expired
      partner := { lp.partner with state := lp.partner.state ||| stTimeout }
      partnerSync := false
      currentUntil := addSat now shortTimeoutMs }
  if !enabled then
    if lp.rx ≠ .disabled ∨ lp.mux ≠ .detached then {} else lp
  else if lp.rx = .disabled then expired
  else if now ≥ lp.currentUntil then
    match lp.rx with
    | .current => expired
    | .expired =>
      { lp with rx := .defaulted, partner := {}, partnerSync := false, selected := false }
    | _ => lp
  else lp

/-- The mux of a port. -/
def LacpPort.runMux (lp : LacpPort) (now : ℤ) : LacpPort :=
  match lp.mux with
  | .detached =>
    if lp.selected then { lp with mux := .waiting, waitUntil := addSat now aggregateWaitMs } else lp
  | .waiting =>
    if !lp.selected then { lp with mux := .detached }
    else if now ≥ lp.waitUntil then { lp with mux := .attached }
    else lp
  | .attached =>
    if !lp.selected then { lp with mux := .detached }
    else if lp.partnerSync then { lp with mux := .collectingDistributing }
    else lp
  | .collectingDistributing =>
    if !lp.selected || !lp.partnerSync then
      { lp with mux := if lp.selected then .attached else .detached }
    else lp

namespace Bridge

/-- LAG, mode and rate for a member port running LACP right now. -/
def lacpEnabledOn (b : Bridge) (p : ℕ) : Option (UInt16 × LacpMode × LacpRate) := do
  let ep ← b.ports[p]?
  let id ← ep.cfg.lag
  let lag ← b.lags[id]?
  if lag.cfg.mode.isRouted || lag.cfg.lacpMode = .off || !ep.linkUp || !ep.cfg.adminUp then none
  else some (id, lag.cfg.lacpMode, lag.cfg.lacpRate)

def actorInfo (b : Bridge) (p : ℕ) : LacpInfo :=
  match b.ports[p]? with
  | none => {}
  | some ep =>
    let (key, mode, rate) :=
      (ep.cfg.lag.bind fun id => (b.lags[id]?).map fun l =>
        (id, l.cfg.lacpMode, l.cfg.lacpRate)).getD
        (0, .off, .slow)
    let s := stAggregation
    let s := if mode = .active then s ||| stActivity else s
    let s := if rate = .fast ∨ ep.lacp.rx = .expired then s ||| stTimeout else s
    let s :=
      match ep.lacp.mux with
      | .attached => s ||| stSync
      | .collectingDistributing => s ||| stSync ||| stCollecting ||| stDistributing
      | _ => s
    let s := if ep.lacp.rx = .defaulted then s ||| stDefaulted else s
    let s := if ep.lacp.rx = .expired then s ||| stExpired else s
    { systemPriority := 32768, system := b.bridgeMac, key, portPriority := 32768
      port := if UInt16.ofNat p = 65535 then 65535 else UInt16.ofNat p + 1
      state := s }

/-- An LACPDU arrived on a physical port; whether the machines must run. -/
def lacpRx (b : Bridge) (p : ℕ) (pdu : Lacpdu) (now : ℤ) : Bridge × Bool :=
  match b.lacpEnabledOn p, b.ports[p]? with
  | some (_, _, rate), some ep =>
    let lp := ep.lacp
    if lp.rx = .disabled then (b, false)
    else
      let actor := b.actorInfo p
      let np := pdu.actor
      let unselect := lp.rx = .defaulted || !lp.partner.sameIdentity np ||
        (lp.partner.state ^^^ np.state) &&& stAggregation ≠ 0
      let viewOk := pdu.partner.sameIdentity actor &&
        pdu.partner.state &&& stAggregation = actor.state &&& stAggregation
      (b.modifyLacp p fun lp =>
        { lp with
          selected := lp.selected && !unselect
          partner := np
          partnerSync := np.state &&& stSync ≠ 0 && viewOk
          rx := .current
          currentUntil := addSat now (if rate = .fast then shortTimeoutMs else longTimeoutMs) },
            true)
  | _, _ => (b, false)

/-- The members whose partner they could aggregate with. -/
def lacpEligible (b : Bridge) (members : List ℕ) : List (ℕ × UInt16 × MacAddr × UInt16) :=
  members.filterMap fun m =>
    (b.ports[m]?).bind fun ep =>
      let lp := ep.lacp
      if (b.lacpEnabledOn m).isSome && (lp.rx = .current || lp.rx = .expired) &&
          lp.partner.state &&& stAggregation ≠ 0 && lp.partner.system ≠ b.bridgeMac &&
            lp.partner.system ≠ .zero
      then some (m, lp.groupKey) else none

/-- The partner group of a LAG: the one that has selected members, else the largest. -/
def lacpChosen (b : Bridge) (eligible : List (ℕ × UInt16 × MacAddr × UInt16)) :
    Option (UInt16 × MacAddr × UInt16) :=
  let sticky := (eligible.find? fun x => (b.ports[x.1]?).any (·.lacp.selected)).map (·.2)
  let largest := eligible.foldl (fun best x =>
    let count := (eligible.filter (·.2 = x.2)).length
    if best.all fun y => count > y.2 then some (x.2, count) else best)
    (none : Option ((UInt16 × MacAddr × UInt16) × ℕ))
  sticky.or (largest.map (·.1))

/-- Selection for a LAG. -/
def lacpSelect (b : Bridge) (id : UInt16) : Bridge :=
  match b.lags[id]? with
  | none => b
  | some l =>
    if l.cfg.lacpMode = .off then b.modifyLag id fun l => { l with fallbackMember := none }
    else
      let members := b.lagMembers id
      let eligible := b.lacpEligible members
      let chosen := b.lacpChosen eligible
      let b := members.foldl (fun b m =>
        b.modifyLacp m fun lp =>
          { lp with selected := eligible.any fun x => x.1 = m && some x.2 = chosen }) b
      -- fallback only once every running member has given up waiting for a partner
      let running := members.filter fun m => (b.lacpEnabledOn m).isSome
      let allDefaulted := running.all fun m => (b.ports[m]?).any (·.lacp.rx = .defaulted)
      let fb := if l.cfg.fallback && eligible.isEmpty && allDefaulted then running.head? else none
      b.modifyLag id fun l => { l with fallbackMember := fb }

def lacpRun (b : Bridge) (now : ℤ) : Bridge :=
  let ps := List.range b.ports.length
  let b := ps.foldl (fun b p => b.modifyLacp p (·.runRx (b.lacpEnabledOn p).isSome now)) b
  let b := b.lags.keys.foldl lacpSelect b
  ps.foldl (fun b p => if (b.lacpEnabledOn p).isSome then b.modifyLacp p (·.runMux now) else b) b

/-- The egress member for a frame on a LAG. -/
def lagSelectMember (b : Bridge) (id : UInt16) (f : Frame) : Option ℕ :=
  (b.lags[id]?).bind fun lag =>
    let members := (b.lagMembers id).filter b.memberDistributing
    members[(flowHash f lag.cfg.hash).toNat % members.length]?

end EvansComputer.Switch.Bridge
