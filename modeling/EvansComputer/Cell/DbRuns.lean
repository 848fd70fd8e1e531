import EvansComputer.Cell.DbMoves
import EvansComputer.Cell.DbText

/-!
# What the database of a run is

A core is over a database that was read from a file, and whatever happens to it, its
database is one that could have been read from a file (`Run.valid_db`).  Two things follow.

The file that is written is read back as the same database, but for one (`reloads_iff`): the
domain of an IMS bearer that was given none is made from the id of the carrier, which may
have a `_` in it, and a domain may not.

What was distinct stays distinct (`identities_kept`): addresses, IMS addresses and numbers.  Nobody
checks in a file that no address is given twice, nor that the two pools do not overlap, so
that the first has to be so at the beginning, and the second whenever the core does something.
-/

namespace EvansComputer.Cell.Core

open Text

variable {prim : Primitives} {text : Str} {db : Db} {cfg : CoreConfig} {entropy : List Byte}
    {core₀ core : Core}
  {ok : Core → Input → Prop} {n : ℕ}

theorem valid_new (hvalid : db.Valid) (hnew : Core.new prim db cfg entropy = .ok core₀) :
    core₀.db.Valid :=
  Db.Writes.valid (writes_new hnew) hvalid

theorem Run.valid_db (hrun : Run ok core₀ n core) (hvalid : core₀.db.Valid) : core.db.Valid :=
  (hrun.db_induction hvalid trivial fun _ _ _ _ _ _ _ => trivial).1

/-! ## The file -/

/-- **The file is read back** as the database that it was written from, unless the domain of
the IMS bearer is made from a carrier id with a `_`. -/
theorem reloads_iff (hparse : Db.parse text = .ok db)
    (hnew : Core.new prim db cfg entropy = .ok core₀) (hrun : Run (fun _ _ => True) core₀ n core) :
    (Db.parse db.toText = .ok db ↔ db.DomainReadable) ∧
      (Db.parse core.db.toText = .ok core.db ↔ core.db.DomainReadable) := by
  have hvalid := Db.valid_of_parse hparse
  exact ⟨Db.parse_toText_iff hvalid, Db.parse_toText_iff (hrun.valid_db (valid_new hvalid hnew))⟩

/-- A carrier with one subscriber, and an IMS bearer if `ims` is its line. -/
def oneSubDb (carrier ims : String) : Str :=
  "version 1\ncarrier ".toList ++ carrier.toList ++
    "\npool 10.8.0.0/24\ngateway 10.8.0.1\n".toList ++ ims.toList ++
    "sub 111111 key=00112233445566778899aabbccddeeff ip=10.8.0.5\n".toList

/-- A carrier gives its subscriber a number, and the file still is read back. -/
theorem reloads_oneSubDb :
    ∃ core, (∃ db core₀ n, Db.parse (oneSubDb "c" "ims pool=10.9.0.0/24\n") = .ok db ∧
      Core.new .plain db {} (List.replicate 20 1) = .ok core₀ ∧
        Run (fun _ _ => True) core₀ n core) ∧
      (core.db.subs["111111".toList]?).map (·.ims.msisdn) = some "+12145550142".toList ∧
      (Db.parse core.db.toText = .ok core.db ↔ core.db.DomainReadable) := by
  have hruns : ((scenario .plain (oneSubDb "c" "ims pool=10.9.0.0/24\n") (List.replicate 20 1)
      [.admin "number 111111 +12145550142".toList]).toOption.any fun core =>
        (core.db.subs["111111".toList]?).map (·.ims.msisdn) = some "+12145550142".toList) =
          true := by
    decide +kernel
  obtain ⟨core, hcore, hnumber⟩ := Exec.exists_of_any hruns
  obtain ⟨db, core₀, n, hparse, hnew, hrun, -⟩ :=
    run_of_scenario (fun _ _ => True) rfl (fun _ _ _ => trivial) hcore
  exact ⟨core, ⟨db, core₀, n, hparse, hnew, hrun⟩, of_decide_eq_true hnumber,
    (reloads_iff hparse hnew hrun).2⟩

/-- The carrier's id is `cell_red`, and the file is not read back. -/
theorem not_reloads_cell_red :
    ∃ (text : Str) (db : Db), Db.parse text = .ok db ∧ Db.parse db.toText ≠ .ok db := by
  have hlost : (match Db.parse (oneSubDb "cell_red" "ims pool=10.9.0.0/24\n") with
      | .ok db => (match Db.parse db.toText with
          | .ok _ => false
          | .error _ => true)
      | .error _ => false) = true := by decide +kernel
  cases hparse : Db.parse (oneSubDb "cell_red" "ims pool=10.9.0.0/24\n") with
  | error e => rw [hparse] at hlost; cases hlost
  | ok db =>
    refine ⟨_, db, hparse, fun hreload => ?_⟩
    rw [hparse] at hlost
    dsimp only at hlost
    rw [hreload] at hlost
    cases hlost

/-! ## The identities of the subscribers -/

/-- The non-empty numbers are distinct. -/
def NumbersDistinct (db : Db) : Prop :=
  ∀ (a b : Str) s t, db.subs[a]? = some s → db.subs[b]? = some t → s.ims.msisdn ≠ [] →
    s.ims.msisdn = t.ims.msisdn → a = b

/-- **What a change of a valid database keeps**, of what its subscribers are known by. -/
structure Identities (db : Db) : Prop where
  data : db.Distinct (·.ip)
  ims : db.Distinct (·.ims.imsIp)

theorem Identities.change {db' : Db} (h : Identities db) (hvalid : db.Valid)
    (hc : Db.Change db db') :
    Identities db' where
  data := hc.distinct hvalid (fun hs x hx => (hs.ip x hx).imp_right And.right) h.data
  ims := hc.distinct hvalid (fun hs x hx => (hs.imsIp x hx).imp_right And.right) h.ims

theorem Identities.writes {db' : Db} (h : Identities db) (hvalid : db.Valid)
    (hw : Db.Writes db db') :
    Identities db' := by
  refine hw.induction hvalid h fun db₁ imsi s _ _ _ _ _ _ h₁ hs => ⟨?_, ?_⟩
  · exact h₁.data.setSub fun x hx => (hs.ip x hx).imp_right And.right
  · exact h₁.ims.setSub fun x hx => (hs.imsIp x hx).imp_right And.right

/-- **What was distinct stays distinct**, in every run.  Where the IMS pool shares no address
with the data pool in any state of the run, and no address of the one was recorded as an
address of the other, nobody's IMS address is anybody's address, or the gateway's. -/
theorem identities_kept (hparse : Db.parse text = .ok db) (hdata : db.Distinct (·.ip))
    (hims : db.Distinct (·.ims.imsIp)) (hnew : Core.new prim db cfg entropy = .ok core₀)
    (hrun : Run ok core₀ n core) :
    core.db.Distinct (·.ip) ∧ core.db.Distinct (·.ims.imsIp) ∧ NumbersDistinct core.db ∧
      (∀ (a : Str) s, core.db.subs[a]? = some s → s.ip ≠ some core.db.gateway) ∧
      (db.Apart → db.PoolsApart → (∀ core i, ok core i → core.db.PoolsApart) →
        ∀ (a : Str) s x, core.db.subs[a]? = some s → s.ims.imsIp = some x → x ≠ core.db.gateway ∧
          ∀ (b : Str) t, core.db.subs[b]? = some t → t.ip ≠ some x) ∧
      db.Granted core₀.db ∧ ∀ i now core', core.step i now = .ok core' →
        core.db.Granted core'.db := by
  have hvalid := Db.valid_of_parse hparse
  have hvalid₀ := valid_new hvalid hnew
  obtain ⟨hcore, hids⟩ := hrun.db_induction (P := Identities) hvalid₀
    (Identities.writes ⟨hdata, hims⟩ hvalid (writes_new hnew)) fun core i db _ hv h hc =>
      h.change hv hc
  refine ⟨hids.data, hids.ims, hcore.numbers, fun a s hs hip =>
    (hcore.ip a s _ hs hip).2 rfl, ?_, ?_, ?_⟩
  · intro hapart hpools hok a s x hs hx
    have hapart₀ : core₀.db.Apart := by
      refine (writes_new hnew).induction hvalid hapart
        fun db₁ imsi s hims₁ hpool hplen _ _ _ h₁ hset => ?_
      refine h₁.setSub ?_ hset
      unfold Db.PoolsApart
      rw [hims₁, hpool, hplen]
      exact hpools
    have hout :=
      (hrun.db_induction hvalid₀ hapart₀ fun core i db hi hv h hc => hc.apart hv (hok core i hi)
      h).2 a s x hs hx
    constructor
    · rintro rfl
      exact Bool.false_ne_true (hout.symm.trans hcore.gateway)
    · intro b t ht hip
      exact Bool.false_ne_true (hout.symm.trans (hcore.ip b t x ht hip).1)
  · rw [db_new hnew]
    exact Db.granted_fillNumbers hvalid
  · exact fun i now core' hstep => (change_of_step hstep).granted hcore

instance {α : Type} [DecidableEq α] {f : Subscriber → Option α} {db : Db} :
    Decidable (db.Distinct f) :=
  decidable_of_iff (∀ r ∈ db.subs.toList, ∀ r' ∈ db.subs.toList, f r.2 = none ∨ f r.2 ≠ f r'.2 ∨
    r.1 = r'.1) <| by
    constructor
    · intro h a b s t x ha hb hs ht
      have hmem {a : Str} {s : Subscriber} :=
        (Std.ExtTreeMap.mem_toList_iff_getElem?_eq_some (t := db.subs)
        (k := a) (v := s)).mpr
      rcases h _ (hmem ha) _ (hmem hb) with hnone | hne | heq
      · cases hs.symm.trans hnone
      · exact absurd (hs.trans ht.symm) hne
      · exact heq
    · intro h r hr r' hr'
      have hget := Std.ExtTreeMap.mem_toList_iff_getElem?_eq_some.mp hr
      have hget' := Std.ExtTreeMap.mem_toList_iff_getElem?_eq_some.mp hr'
      rw [or_iff_not_imp_left, or_iff_not_imp_left, not_not]
      intro hsome hsame
      obtain ⟨x, hx⟩ := Option.ne_none_iff_exists'.mp hsome
      exact h _ _ _ _ x hget hget' hx (hsame ▸ hx)

/-- The check that the pools are of one size and begin apart. -/
def poolsApart (db : Db) : Bool :=
  db.ims.all fun i => i.prefixLen = db.prefixLen && !inSubnet i.pool db.pool db.prefixLen

theorem poolsApart_of_check (h : poolsApart db) : db.PoolsApart := by
  intro ims hims x hx
  rw [poolsApart, hims, Option.all_some, Bool.and_eq_true, Bool.not_eq_true'] at h
  obtain ⟨hlen, hapart⟩ := h
  rw [of_decide_eq_true hlen] at hx
  unfold inSubnet at hx hapart ⊢
  rw [decide_eq_false_iff_not] at hapart ⊢
  exact fun hin => hapart ((of_decide_eq_true hx).symm.trans hin)

/-- A carrier with two subscribers that have an address of either pool. -/
def twoSubsDb : Str :=
  oneSubDb "c" "ims pool=10.9.0.0/24\n" ++
    "sub 222222 key=00112233445566778899aabbccddeeff ip=10.8.0.6 ims_ip=10.9.0.5\n".toList

/-- A third subscriber is added, and two are given a number. -/
theorem identities_twoSubsDb :
    ∃ core, (∃ db core₀ n, Db.parse twoSubsDb = .ok db ∧ Core.new .plain db {}
      (List.replicate 20 1) = .ok core₀ ∧
      Run (fun core _ => core.db.PoolsApart) core₀ n core) ∧
      (core.db.subs.values.map fun s => (s.ip, s.ims.msisdn)) =
        [(some ⟨10, 8, 0, 5⟩, "+12145550142".toList), (some ⟨10, 8, 0, 6⟩, "+12145550143".toList),
          (none, [])] ∧
      core.db.Distinct (·.ip) ∧ core.db.Distinct (·.ims.imsIp) ∧ NumbersDistinct core.db ∧
      ∀ (a : Str) s x, core.db.subs[a]? = some s → s.ims.imsIp = some x → x ≠ core.db.gateway ∧
        ∀ (b : Str) t, core.db.subs[b]? = some t → t.ip ≠ some x := by
  have hruns :
    ((scenarioIf (fun core _ => poolsApart core.db) .plain twoSubsDb (List.replicate 20 1)
      [.admin "number 111111 +12145550142".toList, .admin "number 222222 +12145550143".toList,
        .admin "add 333333 00112233445566778899aabbccddeeff".toList]).toOption.any fun core =>
      (core.db.subs.values.map fun s => (s.ip, s.ims.msisdn)) =
        [(some ⟨10, 8, 0, 5⟩, "+12145550142".toList), (some ⟨10, 8, 0, 6⟩, "+12145550143".toList),
          (none, [])]) = true := by decide +kernel
  have hfile : ((Db.parse twoSubsDb).toOption.any fun db =>
      (poolsApart db && decide (db.Distinct (·.ip) ∧ db.Distinct (·.ims.imsIp))) &&
        db.subs.values.all fun s =>
        s.ims.imsIp.all fun x => !inSubnet x db.pool db.prefixLen) = true := by decide +kernel
  obtain ⟨core, hcore, hsubs⟩ := Exec.exists_of_any hruns
  obtain ⟨db, core₀, n, hparse, hnew, hrun, -⟩ :=
    run_of_scenario (fun core _ => core.db.PoolsApart) rfl (fun _ _ => poolsApart_of_check) hcore
  rw [hparse] at hfile
  obtain ⟨hchecks, hapart⟩ := Bool.and_eq_true_iff.mp hfile
  obtain ⟨hpoolsApart, hdistinct⟩ := Bool.and_eq_true_iff.mp hchecks
  obtain ⟨hdata, hims⟩ := of_decide_eq_true hdistinct
  obtain ⟨hip, himsIp, hnumbers, -, hpools, -⟩ := identities_kept hparse hdata hims hnew hrun
  refine ⟨core, ⟨db, core₀, n, hparse, hnew, hrun⟩, of_decide_eq_true hsubs, hip, himsIp, hnumbers,
    hpools (fun a s x ha hx => ?_) (poolsApart_of_check hpoolsApart) fun _ _ h => h⟩
  have hmem := List.all_eq_true.mp hapart s (OrderedMap.mem_values_of_getElem? ha)
  rw [hx, Option.all_some, Bool.not_eq_true'] at hmem
  exact hmem

/-- A carrier that holds no block gives any number. -/
theorem not_in_block :
    ∃ (prim : Primitives) (text : Str) (db : Db) (cfg : CoreConfig) (entropy : List Byte) (core₀ core : Core)
      (n : ℕ), Db.parse text = .ok db ∧ Core.new prim db cfg entropy = .ok core₀ ∧
        Run (fun _ _ => True) core₀ n core ∧
          (∀ (a : Str) t, db.subs[a]? = some t → t.ims.msisdn = []) ∧
        ∃ (imsi : Str) (s : Subscriber), core.db.subs[imsi]? = some s ∧ s.ims.msisdn ≠ [] ∧
          s.ims.ported = false ∧ core.db.blockOf s.ims.msisdn = none := by
  have hgiven : ((scenario .plain (oneSubDb "c" "") (List.replicate 20 1)
      [.admin "number 111111 +12145550142".toList]).toOption.any fun core =>
        (core.db.subs["111111".toList]?).any fun s => s.ims.msisdn ≠ [] && !s.ims.ported &&
          (core.db.blockOf s.ims.msisdn).isNone) = true := by decide +kernel
  have hnone : ((Db.parse (oneSubDb "c" "")).toOption.any fun db =>
      db.subs.values.all fun t => t.ims.msisdn = []) = true := by decide +kernel
  obtain ⟨core, hcore, hgiven⟩ := Exec.exists_of_any hgiven
  obtain ⟨db, core₀, n, hparse, hnew, hrun, -⟩ :=
    run_of_scenario (fun _ _ => True) rfl (fun _ _ _ => trivial) hcore
  rw [hparse] at hnone
  rw [Option.any_eq_true] at hgiven
  obtain ⟨s, hs, hnumber⟩ := hgiven
  simp only [Bool.and_eq_true, decide_eq_true_eq, Bool.not_eq_true',
    Option.isNone_iff_eq_none] at hnumber
  refine ⟨.plain, oneSubDb "c" "", db, {}, List.replicate 20 1, core₀, core, n, hparse, hnew, hrun,
    fun a t ht => ?_,
    "111111".toList, s, hs, hnumber.1.1, hnumber.1.2, hnumber.2⟩
  exact of_decide_eq_true (List.all_eq_true.mp hnone t (OrderedMap.mem_values_of_getElem? ht))

end EvansComputer.Cell.Core
