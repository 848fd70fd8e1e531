import EvansComputer.Router.Cli
import EvansComputer.Library.Traversals

/-!
# Invalid lines change nothing

A context names an entry of the configuration, and the entry is there (`Holds`): it is made
with the context, and no command takes a port, a pool or a rule of a route map away.  So what
the source unwraps is there, and a line that is refused leaves everything as it was, also where
the source has begun to remove before it knows that there is nothing to remove.
-/

namespace EvansComputer.Router

variable {c c' : Config} {s : Session} {invalid : Option Outcome} {v : List String}
    {x name : String} {seq : UInt32}

/-! ## Commands of BGP -/

/-- An error leaves the configuration as it was. -/
def Refuses (c : Config) (r : Option Done) : Prop := ∀ c' e, r = some (c', .error e) → c' = c

theorem refuses_none : Refuses c none := fun _ _ h => nomatch h

theorem refuses_fine : Refuses c (some (fine c')) := fun _ _ h => nomatch h

theorem refuses_wrong {e : String} (hc : c' = c) : Refuses c (some (wrong c' e)) := by
  rintro c'' e' h
  cases h
  exact hc

theorem refuses_target (f : Neighbor → Neighbor) : Refuses c (some (target c x f)) := by
  unfold target
  split
  · split
    · exact refuses_fine
    · exact refuses_wrong rfl
  · split
    · exact refuses_wrong rfl
    · split
      · exact refuses_fine
      · exact refuses_wrong rfl

theorem setBgp_eq {f : BgpConfig → BgpConfig} (h : f c.bgp = c.bgp) : setBgp c f = c := by
  unfold setBgp
  rw [h]

theorem setBgp_filter_listen {p : Bgp.ListenRange → Bool}
    (h : (c.bgp.listen.filter p).length = c.bgp.listen.length) :
    setBgp c (fun b => { b with listen := b.listen.filter p }) = c := by
  refine setBgp_eq ?_
  rw [List.filter_eq_self.mpr (List.length_filter_eq_length_iff.mp h)]

theorem erase_of_not_contains {κ α : Type} [Ord κ] [Std.TransOrd κ] [Std.LawfulEqOrd κ]
    [DecidableEq κ] {t : OrderedMap κ α} {k : κ} (h : ¬ t.contains k = true) : t.erase k = t := by
  refine Std.ExtTreeMap.ext_getElem? fun a => ?_
  rw [OrderedMap.getElem?_erase']
  split_ifs with ha
  · subst ha
    exact (Std.ExtTreeMap.getElem?_eq_none h).symm
  · rfl

theorem refuses_bgpCommand : Refuses c (bgpCommand c v) := by
  unfold bgpCommand
  split
  · -- neighbor NAME peer-group
    split
    · exact refuses_wrong rfl
    · exact refuses_fine
  · -- neighbor IP peer-group NAME
    split
    · exact refuses_wrong rfl
    · exact refuses_wrong rfl
    · exact refuses_fine
  · -- neighbor X remote-as ASN
    split
    · exact refuses_wrong rfl
    · split
      · exact refuses_fine
      · exact refuses_target _
  · exact refuses_target _
  · exact refuses_target _
  · -- neighbor X listen ip-range PREFIX
    split
    · exact refuses_wrong rfl
    · split
      · exact refuses_wrong rfl
      · split
        · exact refuses_wrong rfl
        · exact refuses_fine
  · -- no neighbor X listen ip-range PREFIX
    split
    · exact refuses_wrong rfl
    · dsimp only
      split
      · rename_i hlen
        exact refuses_wrong (setBgp_filter_listen hlen)
      · exact refuses_fine
  · -- bgp listen range PREFIX peer-group NAME
    split
    · exact refuses_wrong rfl
    · split
      · exact refuses_wrong rfl
      · exact refuses_fine
  · -- no bgp listen range PREFIX peer-group NAME
    split
    · exact refuses_wrong rfl
    · exact refuses_fine
  · -- bgp listen limit N
    split
    · exact refuses_fine
    · exact refuses_wrong rfl
  · exact refuses_fine
  · -- no neighbor X
    split
    · dsimp only
      split
      · exact refuses_fine
      · rename_i hmissing
        refine refuses_wrong (setBgp_eq ?_)
        rw [erase_of_not_contains hmissing]
    · dsimp only
      split
      · exact refuses_fine
      · rename_i hmissing
        refine refuses_wrong (setBgp_eq ?_)
        rw [erase_of_not_contains hmissing]
  · exact refuses_none

theorem refuses_familyCommand : Refuses c (familyCommand c v) := by
  unfold familyCommand
  split
  · exact refuses_target _
  · exact refuses_target _
  · exact refuses_target _
  · exact refuses_target _
  · -- neighbor X route-map NAME in|out
    split
    · exact refuses_target _
    · exact refuses_target _
    · exact refuses_wrong rfl
  · -- no neighbor X route-map NAME in|out
    split
    · exact refuses_target _
    · exact refuses_target _
    · exact refuses_wrong rfl
  · -- neighbor X maximum-prefix MAX
    split
    · exact refuses_wrong rfl
    · exact refuses_target _
  · exact refuses_target _
  · exact refuses_none

/-! ## The entry of a context -/

/-- The context names an entry that is there. -/
def Holds (c : Config) : Context → Prop
  | .interface name => name ∈ c.ports
  | .pool name => name ∈ c.pools
  | .routeMap name seq => ∃ rules, c.policy.maps[name]? = some rules ∧ ∃ r ∈ rules, r.seq = seq
  | .exec | .config | .dhcp | .bgp | .family => True

/-- A line is answered, the entry of the context is there, and what is refused changes nothing. -/
def Settled (c : Config) (s : Session) (o : Option Outcome) : Prop :=
  ∃ reply c' s', o = some (reply, c', s') ∧ Holds c' s'.context ∧
    (reply.output.toList.head? = some '%' → c' = c ∧ s' = s)

theorem settled_ok {context : Context} (h : Holds c' context) : Settled c s (ok c' context) :=
  ⟨_, _, _, rfl, h, fun hhead => nomatch hhead⟩

theorem settled_self {reply : Reply} (h : Holds c s.context) : Settled c s (some (reply, c, s)) :=
  ⟨_, _, _, rfl, h, fun _ => ⟨rfl, rfl⟩⟩

theorem settled_answer {context : Context} {r : Option Done} {next : Option Outcome}
    (hr : Refuses c r) (hnext : Settled c ⟨context⟩ next) (hfree : ∀ c, Holds c context) :
    Settled c ⟨context⟩ (answer context r next) := by
  unfold answer
  split
  · exact settled_ok (hfree _)
  · exact ⟨_, _, _, rfl, hfree _, fun _ => ⟨hr _ _ rfl, rfl⟩⟩
  · exact hnext

theorem settled_withPort (h : Holds c (.interface name)) (f : Port → Port) :
    Settled c s (do let c ← withPort c name f; ok c (.interface name)) := by
  have hport : c.ports[name]? = some c.ports[name] := Std.ExtTreeMap.getElem?_eq_some_getElem h
  unfold withPort
  rw [hport]
  exact settled_ok Std.ExtTreeMap.mem_insert_self

theorem settled_withPool (h : Holds c (.pool name)) (f : Pool → Pool) :
    Settled c s (do let c ← withPool c name f; ok c (.pool name)) := by
  have hpool : c.pools[name]? = some c.pools[name] := Std.ExtTreeMap.getElem?_eq_some_getElem h
  unfold withPool
  rw [hpool]
  exact settled_ok Std.ExtTreeMap.mem_insert_self

theorem exists_updateRule {rules : List Bgp.MapRule} (f : Bgp.MapRule → Bgp.MapRule)
    (h : ∃ r ∈ rules, r.seq = seq) :
    ∃ rules', updateRule seq f rules = some rules' := by
  induction rules with
  | nil =>
    obtain ⟨r, hr, -⟩ := h
    cases hr
  | cons r rules ih =>
    unfold updateRule
    by_cases hseq : r.seq = seq
    · rw [if_pos hseq]
      exact ⟨_, rfl⟩
    · obtain ⟨r', hr', hseq'⟩ := h
      have hmem : r' ∈ rules := (List.mem_cons.mp hr').resolve_left fun heq => hseq (heq ▸ hseq')
      obtain ⟨rules', hrules⟩ := ih ⟨r', hmem, hseq'⟩
      rw [if_neg hseq, hrules]
      exact ⟨_, rfl⟩

theorem mem_of_updateRule {f : Bgp.MapRule → Bgp.MapRule} (hf : ∀ r, (f r).seq = r.seq)
    {rules rules' : List Bgp.MapRule} (h : updateRule seq f rules = some rules') :
    ∃ r ∈ rules', r.seq = seq := by
  induction rules generalizing rules' with
  | nil => cases h
  | cons r rules ih =>
    unfold updateRule at h
    split_ifs at h with hseq
    · cases h
      exact ⟨f r, List.mem_cons_self, (hf r).trans hseq⟩
    · obtain ⟨tail, htail, rfl⟩ := Option.map_eq_some_iff.mp h
      obtain ⟨r', hr', hseq'⟩ := ih htail
      exact ⟨r', List.mem_cons_of_mem _ hr', hseq'⟩

theorem withRule_spec {f : Bgp.MapRule → Bgp.MapRule} (hf : ∀ r, (f r).seq = r.seq)
    (h : Holds c (.routeMap name seq)) :
    ∃ c', withRule c name seq f = some c' ∧ Holds c' (.routeMap name seq) := by
  obtain ⟨rules, hmap, hrule⟩ := h
  obtain ⟨rules', hrules⟩ := exists_updateRule f hrule
  refine ⟨setMaps c name rules', ?_, rules', Std.ExtTreeMap.getElem?_insert_self,
    mem_of_updateRule hf hrules⟩
  unfold withRule
  rw [hmap]
  change (updateRule seq f rules).bind _ = _
  rw [hrules]
  rfl

theorem settled_withRule {f : Bgp.MapRule → Bgp.MapRule} (hf : ∀ r, (f r).seq = r.seq)
    (h : Holds c (.routeMap name seq)) :
    Settled c s (do let c ← withRule c name seq f; ok c (.routeMap name seq)) := by
  obtain ⟨c', hc', hholds⟩ := withRule_spec hf h
  rw [hc']
  exact settled_ok hholds

/-! ## The commands of each context -/

section

variable (hinvalid : Settled c s invalid)
include hinvalid

theorem settled_execBgp : Settled c s (execBgp c invalid v) := by
  unfold execBgp
  split
  · -- bgp router-id IP
    split
    · split
      · exact settled_ok trivial
      · exact hinvalid
    · exact hinvalid
  · -- timers bgp KEEPALIVE HOLD
    split
    · split
      · exact settled_ok trivial
      · exact hinvalid
    · exact hinvalid
  · exact settled_ok trivial
  · exact hinvalid

omit hinvalid in
theorem settled_execFamily (hinvalid : Settled c ⟨.family⟩ invalid) :
    Settled c ⟨.family⟩ (execFamily c invalid v) := by
  unfold execFamily
  split
  · -- network PREFIX
    split
    · exact settled_ok trivial
    · exact hinvalid
  · -- redistribute SOURCE
    split
    · exact settled_ok trivial
    · exact settled_ok trivial
    · exact settled_self trivial
  · exact hinvalid

theorem settled_execPrefixList (name seq mode cidr : String) (rest : List String) :
    Settled c s (execPrefixList c invalid name seq mode cidr rest) := by
  unfold execPrefixList
  split
  · split
    · split
      · split
        · exact settled_ok trivial
        · exact hinvalid
      · exact hinvalid
    · exact hinvalid
  · exact hinvalid

theorem settled_execRouteMap (name mode word : String) :
    Settled c s (execRouteMap c invalid name mode word) := by
  unfold execRouteMap
  split
  · rename_i seq _
    refine settled_ok ⟨_, Std.ExtTreeMap.getElem?_insert_self, ?_⟩
    split
    · rename_i hrules
      exact mem_of_updateRule (by intro r; rfl) hrules
    · exact ⟨_, List.mem_append_right _ List.mem_cons_self, rfl⟩
  · exact hinvalid

theorem settled_execRoute (cidr gw dev : String) :
    Settled c s (execRoute c invalid cidr gw dev) := by
  unfold execRoute
  split
  · exact settled_ok trivial
  · exact hinvalid

theorem settled_execForward (proto ip inner outer : String) :
    Settled c s (execForward c invalid proto ip inner outer) := by
  unfold execForward
  split
  · dsimp only
    split
    · exact settled_ok trivial
    · exact hinvalid
  · exact hinvalid

theorem settled_execConfig : Settled c s (execConfig c invalid v) := by
  unfold execConfig
  split
  · -- router bgp ASN
    split
    · exact settled_ok trivial
    · exact hinvalid
  · exact settled_execPrefixList hinvalid ..
  · split
    · exact settled_execRouteMap hinvalid ..
    · exact hinvalid
  · exact settled_ok trivial
  · exact settled_ok trivial
  · -- interface NAME: the port is there afterwards
    split
    · exact settled_ok Std.ExtTreeMap.mem_insert_self
    · exact hinvalid
  · exact settled_execRoute hinvalid ..
  · exact settled_execRoute hinvalid ..
  · exact settled_execForward hinvalid ..
  · exact settled_ok trivial
  · exact hinvalid

omit hinvalid in
theorem settled_execInterface (h : Holds c (.interface name)) (hinvalid : Settled c s invalid) :
    Settled c s (execInterface c invalid name v) := by
  unfold execInterface
  split
  · exact settled_ok h
  · -- ip address CIDR
    split
    · exact settled_withPort h _
    · exact hinvalid
  · exact settled_withPort h _
  · -- ip nat ROLE
    dsimp only
    split
    · exact settled_withPort h _
    · exact hinvalid
  · exact hinvalid

theorem settled_execDhcp : Settled c s (execDhcp c invalid v) := by
  unfold execDhcp
  split
  · exact settled_ok Std.ExtTreeMap.mem_insert_self
  · exact hinvalid

end

theorem settled_execPool (h : Holds c (.pool name)) (hinvalid : Settled c s invalid) :
    Settled c s (execPool c invalid name v) := by
  unfold execPool
  split
  · -- range START END
    split
    · split
      · exact settled_withPool h _
      · exact hinvalid
    · exact hinvalid
  · -- default-router IP
    split
    · exact settled_withPool h _
    · exact hinvalid
  · -- dns-server IP
    split
    · exact settled_withPool h _
    · exact hinvalid
  · -- domain-name NAME
    dsimp only
    split
    · exact settled_withPool h _
    · exact hinvalid
  · exact settled_withPool h _
  · -- lease SECS
    split
    · exact settled_withPool h _
    · exact hinvalid
  · exact settled_withPool h _
  · exact settled_withPool h _
  · exact hinvalid

theorem settled_execRule (h : Holds c (.routeMap name seq))
    (hinvalid : Settled c ⟨.routeMap name seq⟩ invalid) :
    Settled c ⟨.routeMap name seq⟩ (execRule c invalid name seq v) := by
  unfold execRule
  split
  · exact settled_withRule (fun _ => rfl) h
  · -- set FIELD VALUE
    split
    · obtain ⟨c', hc', -⟩ := withRule_spec (f := id) (fun _ => rfl) h
      rw [hc']
      dsimp only [Option.bind_eq_bind, Option.bind_some]
      split
      · exact settled_withRule (fun _ => rfl) h
      · exact settled_withRule (fun _ => rfl) h
      · exact settled_withRule (fun _ => rfl) h
      · exact settled_self h
    · exact hinvalid
  · exact hinvalid

theorem settled_execContext {context : Context} (h : Holds c context)
    (hinvalid : Settled c ⟨context⟩ invalid) :
    Settled c ⟨context⟩ (execContext c context invalid v) := by
  cases context with
  | exec => exact hinvalid
  | config => exact settled_execConfig hinvalid
  | interface name => exact settled_execInterface h hinvalid
  | dhcp => exact settled_execDhcp hinvalid
  | pool name => exact settled_execPool h hinvalid
  | bgp => exact settled_answer refuses_bgpCommand (settled_execBgp hinvalid) fun _ => trivial
  | family =>
    exact settled_answer refuses_familyCommand (settled_execFamily hinvalid) fun _ => trivial
  | routeMap name seq => exact settled_execRule h hinvalid

/-! ## Lines -/

/-- **Every line is answered, and one that is refused changes nothing.** -/
theorem settled_exec (h : Holds c s.context) (line : String) : Settled c s (s.exec c line) := by
  unfold Session.exec
  dsimp only
  split
  · exact settled_ok h
  · split
    · exact settled_ok trivial
    · exact settled_ok trivial
    · exact settled_ok trivial
    · -- exit
      split
      · exact settled_self h
      · refine settled_ok ?_
        cases s.context <;> trivial
    · exact settled_self h
    · exact settled_self h
    · exact settled_self h
    · exact settled_self h
    · exact settled_self h
    · exact settled_execContext h (settled_self h)

/-- A line, and what it leaves. -/
def step (st : Config × Session) (line : String) : Option (Config × Session) :=
  (st.2.exec st.1 line).map Prod.snd

/-- Line after line from the defaults. -/
def run (lines : List String) : Option (Config × Session) := lines.foldlM step ({}, Session.new)

theorem foldlM_step_holds (st : Config × Session) (h : Holds st.1 st.2.context)
    (lines : List String) :
    ∃ st', lines.foldlM step st = some st' ∧ Holds st'.1 st'.2.context := by
  induction lines generalizing st with
  | nil => exact ⟨st, rfl, h⟩
  | cons line lines ih =>
    obtain ⟨reply, c', s', hexec, hholds, -⟩ := settled_exec h line
    have hstep : step st line = some (c', s') := by
      unfold step
      rw [hexec]
      rfl
    rw [List.foldlM_cons, hstep]
    exact ih _ hholds

/-- **No run of lines unwraps what is not there, and a refused line leaves configuration and
context as they were.** -/
theorem invalid_lines_change_nothing (lines : List String) :
    ∃ c s, run lines = some (c, s) ∧ ∀ line, ∃ reply c' s', s.exec c line = some (reply, c', s') ∧
      (reply.output.toList.head? = some '%' → c' = c ∧ s' = s) := by
  obtain ⟨⟨c, s⟩, hrun, hholds⟩ := foldlM_step_holds ({}, Session.new) trivial lines
  refine ⟨c, s, hrun, fun line => ?_⟩
  obtain ⟨reply, c', s', hexec, -, hrefused⟩ := settled_exec hholds line
  exact ⟨reply, c', s', hexec, hrefused⟩

end EvansComputer.Router
