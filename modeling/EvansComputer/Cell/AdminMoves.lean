import EvansComputer.Cell.SiteMoves
import EvansComputer.Cell.Admin
import EvansComputer.Cell.DbValid
import EvansComputer.Library.Cursor

/-!
# What an operator does is moves

A command can end sessions, close sites and change who may attach.  Only `add` and
`unrevoke` let someone in who was kept out, and they have a label.

The commands assert that the subscriber they have just found is there, and `ims` that the
file it has rebuilt has an `ims` line: it has, as it was put there, and the parser took the
file.

The last section is about the commands that fail, and says exactly which of them change nothing.
-/

namespace EvansComputer.Cell

open Text

variable {db : Db} {imsi : Str}

/-! ## The `ims` line -/

theorem ims_of_parseWords {st st' : Parse} {l : Str} {kvs : List Str}
    (h : parseWords st l ("ims".toList :: kvs) = .ok st') :
    ∃ p line, st' = { st with ims := some (p, line) } := by
  cases kvs with
  | nil => cases h
  | cons w ws =>
    rw [parseWords_ims] at h
    obtain ⟨p, line, hst, -⟩ := imsWords_ok h
    exact ⟨p, line, hst⟩

/-- A line that starts with the word is read as it, whatever follows. -/
theorem words_ims (y : Str) : ∃ kvs, words (trim ("ims ".toList ++ y)) = "ims".toList :: kvs := by
  have hword : IsWord "ims".toList := by decide
  have htrim :
    trim ("ims ".toList ++ y) = ((y.reverse ++ " smi".toList).dropWhile isSpace).reverse := by
    rw [trim, show ("ims ".toList ++ y).dropWhile isSpace = "ims ".toList ++ y from rfl,
      List.reverse_append]
    rfl
  rw [htrim, List.dropWhile_append]
  split_ifs with hempty
  · exact ⟨[], words_word hword⟩
  · rw [List.reverse_append]
    exact ⟨_, words_word_space hword _⟩

theorem ims_of_parseLine {st st' : Parse} {n : ℕ} {y : Str}
    (h : parseLine st (n, "ims ".toList ++ y) = .ok st') :
    ∃ p line, st' = { st with ims := some (p, line) } := by
  obtain ⟨kvs, hkvs⟩ := words_ims (y.takeWhile (· ≠ '#'))
  unfold parseLine at h
  dsimp only at h
  rw [show ("ims ".toList ++ y).takeWhile (· ≠ '#') = "ims ".toList ++
    y.takeWhile (· ≠ '#') from rfl] at h
  split_ifs at h with hnil
  · rw [hnil] at hkvs
    cases hkvs
  · rw [hkvs] at h
    cases hwords :
      parseWords st (trim ("ims ".toList ++ y.takeWhile (· ≠ '#'))) ("ims".toList :: kvs) with
    | error e => rw [hwords] at h; cases h
    | ok st₁ =>
      rw [hwords] at h
      obtain rfl : st₁ = st' := by cases h; rfl
      exact ims_of_parseWords hwords

theorem ims_of_finish {st : Parse} (h : st.finish = .ok db) (hims : st.ims ≠ none) :
    db.ims ≠ none := by
  obtain ⟨-, carrier, pool, gateway, -, -, -, -, rfl, -⟩ := finish_ok_iff.mp h
  obtain ⟨i, hi⟩ := Option.ne_none_iff_exists'.mp hims
  rw [Parse.made, hi]
  exact Option.some_ne_none _

/-- A file that ends in an `ims` line has IMS. -/
theorem ims_of_parse {ls : List Str} {y : Str} (hy : IsLine y)
    (h : Db.parse (ls.flatMap (fun l => l ++ ['\n']) ++ ("ims ".toList ++ y) ++ ['\n']) = .ok db) :
    db.ims ≠ none := by
  have hline : lines (("ims ".toList ++ y) ++ ['\n']) = ["ims ".toList ++ y] := by
    have hims : IsLine "ims ".toList := ⟨by decide, by decide⟩
    have hflat := lines_flatMap fun l (hl : l ∈ ["ims ".toList ++ y]) =>
      List.mem_singleton.mp hl ▸ hims.append hy
    rwa [List.flatMap_cons, List.flatMap_nil, List.append_nil] at hflat
  rw [List.append_assoc, Db.parse, lines_flatMap_append, hline] at h
  rw [List.zipIdx_append, List.foldlM_append] at h
  cases hfold : ((lines (ls.flatMap fun l => l ++ ['\n'])).zipIdx 1).foldlM
      (fun st l => parseLine st (l.2, l.1)) ({} : Parse) with
  | error e => rw [hfold] at h; cases h
  | ok st =>
    rw [hfold] at h
    rw [List.zipIdx_singleton] at h
    generalize 1 + (lines (ls.flatMap fun l => l ++ ['\n'])).length = n at h
    have hone : (Except.ok st >>= fun init =>
        [("ims ".toList ++ y, n)].foldlM (fun st l => parseLine st (l.2, l.1)) init) =
        parseLine st (n, "ims ".toList ++ y) := by
      change (parseLine st (n, "ims ".toList ++ y)).bind (fun st => .ok st) = _
      cases parseLine st (n, "ims ".toList ++ y) <;> rfl
    rw [hone] at h
    cases hlast : parseLine st (n, "ims ".toList ++ y) with
    | error e => rw [hlast] at h; cases h
    | ok st' =>
      rw [hlast] at h
      dsimp only at h
      cases hfinish : st'.finish with
      | error msg => rw [hfinish] at h; cases h
      | ok db' =>
        rw [hfinish] at h
        cases h
        obtain ⟨p, line, rfl⟩ := ims_of_parseLine hlast
        exact ims_of_finish hfinish (Option.some_ne_none _)

theorem isLine_intercalate {ws : List Str} (h : ∀ w ∈ ws, IsWord w) :
    IsLine (List.intercalate [' '] ws) := by
  have hunwords : List.intercalate [' '] ws = unwords ws := by
    clear h
    induction ws with
    | nil => rfl
    | cons w ws ih =>
      cases ws with
      | nil => simp [unwords]
      | cons v ws =>
        rw [unwords, ← ih]
        · simp [List.intercalate]
        · exact fun h => List.cons_ne_nil _ _ h
  rw [hunwords]
  exact isLine_unwords h

namespace Core

open Carrier Exec

variable {core : Core} {allowed : Carrier → Label → Prop} {safe : Prop}

/-! ## What a command changes -/

theorem carrier_done (now : ℕ) (answer : Str) :
    (core.done now answer).1.carrier = core.carrier := by
  change ((core.log _).save now).carrier = _
  rw [carrier_save, carrier_log]

/-- A database that lets in no one who was kept out. -/
theorem moves_barring (hq : ∀ v, allowed v .quiet)
    (h : ∀ imsi : Str, core.carrier.Barred imsi → (db.subs[imsi]?).map (·.revoked) ≠ some false) :
    Moves allowed core.carrier { core with db }.carrier :=
  Moves.single (.barring (fun imsi => (db.subs[imsi]?).map (·.revoked)) h) (hq _)

theorem moves_unbarred (hu : ∀ v, allowed v (.unbarred imsi))
    (h : ∀ imsi' : Str, imsi' ≠ imsi → core.carrier.Barred imsi' →
      (db.subs[imsi']?).map (·.revoked) ≠ some false) :
    Moves allowed core.carrier { core with db }.carrier :=
  Moves.single (.unbarred (fun imsi => (db.subs[imsi]?).map (·.revoked)) imsi h) (hu _)

theorem meets_subAt (h : core.db.subs[imsi]? ≠ none) :
    Meets safe (core.subAt imsi) fun sub => core.db.subs[imsi]? = some sub :=
  meets_expect (fun _ => h) fun _ h => h

/-- A subscriber that is there is changed, and is there afterwards as are all others. -/
theorem meets_changeSub (h : core.db.subs[imsi]? ≠ none) (f : Subscriber → Subscriber) :
    Meets safe (core.changeSub imsi f) fun core' => ∃ sub, core.db.subs[imsi]? = some sub ∧
      core' = { core with db := { core.db with subs := core.db.subs.insert imsi (f sub) } } := by
  refine Meets.bind (meets_subAt h) fun sub hsub => meets_pure ⟨sub, hsub, rfl⟩

/-- A change of a subscriber that says nothing about revocation. -/
theorem meets_changeSub_quiet (h : core.db.subs[imsi]? ≠ none) {f : Subscriber → Subscriber}
    (hf : ∀ s, (f s).revoked = s.revoked) :
    Meets safe (core.changeSub imsi f) fun core' => core'.carrier = core.carrier ∧
      ∀ imsi' : Str, core'.db.subs[imsi']? = none ↔ core.db.subs[imsi']? = none := by
  refine (meets_changeSub h f).mono ?_
  rintro _ ⟨sub, hsub, rfl⟩
  have hlookup : ∀ imsi' : Str, (core.db.subs.insert imsi (f sub))[imsi']? =
      if imsi = imsi' then some (f sub) else core.db.subs[imsi']? :=
        fun _ => OrderedMap.getElem?_insert'
  constructor
  · refine carrier_db fun imsi' => ?_
    dsimp only
    rw [hlookup]
    split_ifs with heq
    · rw [← heq, hsub, Option.map_some, Option.map_some, hf]
    · rfl
  · intro imsi'
    dsimp only
    rw [hlookup]
    split_ifs with heq
    · rw [← heq, hsub]
      simp only [reduceCtorEq]
    · rfl

theorem sub_of_contains (h : ¬ (!core.db.subs.contains imsi) = true) :
    core.db.subs[imsi]? ≠ none := by
  rw [Bool.not_eq_true', Bool.not_eq_false, Std.ExtTreeMap.contains_eq_isSome_getElem?] at h
  exact fun hnone => by rw [hnone] at h; cases h

theorem sub_of_byNumber {num : Str} (h : db.byNumber num = some imsi) : db.subs[imsi]? ≠ none := by
  obtain ⟨⟨imsi', sub⟩, hfound, rfl⟩ := Option.map_eq_some_iff.mp h
  have hsub := Std.ExtTreeMap.mem_toList_iff_getElem?_eq_some.mp (List.mem_of_find?_eq_some hfound)
  exact fun hnone => Option.some_ne_none _ (hsub.symm.trans hnone)

/-- Who is found is there. -/
theorem sub_of_imsiOf {who : Str} (h : core.imsiOf who = some imsi) :
    core.db.subs[imsi]? ≠ none := by
  unfold imsiOf at h
  split_ifs at h with hplus hcontains
  · exact sub_of_byNumber h
  · obtain rfl := Option.some.inj h
    exact sub_of_contains (by rw [hcontains]; exact Bool.false_ne_true)
  · split at h
    next x heq =>
      obtain rfl := Option.some.inj h
      have hmem : x ∈ core.db.subs.toList :=
        (List.mem_filter.mp (by rw [heq]; exact List.mem_singleton_self x)).1
      have hsub := Std.ExtTreeMap.mem_toList_iff_getElem?_eq_some.mp hmem
      exact fun hnone => Option.some_ne_none _ (hsub.symm.trans hnone)
    · cases h

theorem moves_endSessionsOf (hq : ∀ v, allowed v .quiet) (imsi : Str) (cause : Cause) (now : ℕ) :
    Moves allowed core.carrier (core.endSessionsOf imsi cause now).carrier := by
  rw [endSessionsOf, carrier_foldl_endSession]
  exact moves_foldl_ended hq _ _

theorem revoked_assignNumber {db' : Db} {requested : Option Str} {ported : Bool} {n : Str}
    (h : db.assignNumber imsi requested ported = .ok (db', n)) (imsi' : Str) :
    (db'.subs[imsi']?).map (·.revoked) = (db.subs[imsi']?).map (·.revoked) := by
  unfold Db.assignNumber at h
  split_ifs at h
  obtain ⟨n', -, h⟩ := exists_of_bind_eq_ok h
  cases h
  refine revoked_modifySub db imsi ?_ imsi'
  exact fun _ => rfl

theorem revoked_fillNumbers (db : Db) (imsi : Str) :
    (db.fillNumbers.1.subs[imsi]?).map (·.revoked) = (db.subs[imsi]?).map (·.revoked) :=
  Db.fillNumbers_induction
    (P := fun db' => (db'.subs[imsi]?).map (·.revoked) = (db.subs[imsi]?).map (·.revoked)) rfl
    fun _ _ _ _ h hassign => (revoked_assignNumber hassign imsi).trans h

/-! ## The commands -/

/-- What a command comes to, where it is moves. -/
def Kept (allowed : Carrier → Label → Prop) (safe : Prop) (core : Core) (x : Exec Reply) : Prop :=
  Meets safe x fun r => Moves allowed core.carrier r.1.carrier

theorem kept_failed (why : Str) : Kept allowed safe core (.ok (core.failed why)) := Moves.refl

theorem kept_done {core' : Core} (h : Moves allowed core.carrier core'.carrier) (now : ℕ)
    (answer : Str) :
    Kept allowed safe core (.ok (core'.done now answer)) := by
  refine meets_ok ?_
  rw [carrier_done]
  exact h

/-- A command that leaves the core as it is where it fails, and stops at no number. -/
def Spotless (core : Core) (x : Exec Reply) : Prop :=
  (∀ core' why, x = .ok (core', .error why) → core' = core) ∧ x ≠ .error .overflow

theorem spotless_failed (why : Str) : core.Spotless (.ok (core.failed why)) := by
  refine ⟨fun core' why' h => ?_, fun h => nomatch h⟩
  cases h
  rfl

/-- A command that succeeds. -/
theorem spotless_ok (core' : Core) (answer : Str) : core.Spotless (.ok (core', .ok answer)) :=
  ⟨fun _ _ h => (nomatch h), fun h => nomatch h⟩

theorem spotless_done (core' : Core) (now : ℕ) (answer : Str) :
    core.Spotless (.ok (core'.done now answer)) :=
  spotless_ok _ answer

/-- A sequence whose beginning stops at no number. -/
theorem spotless_bind {α : Type} {x : Exec α} {f : α → Exec Reply} (hx : x ≠ .error .overflow)
    (hf : ∀ a, x = .ok a → core.Spotless (f a)) : core.Spotless (x >>= f) := by
  cases x with
  | error e => exact ⟨fun _ _ h => (nomatch h), fun h => hx (by cases h; rfl)⟩
  | ok a => exact hf a rfl

theorem expect_ne_overflow {α : Type} (o : Option α) : Exec.expect o ≠ .error .overflow := by
  cases o <;> exact fun h => nomatch h

theorem changeSub_ne_overflow (imsi : Str) (f : Subscriber → Subscriber) :
    core.changeSub imsi f ≠ .error .overflow := by
  unfold changeSub subAt
  cases (core.db.subs[imsi]? : Option Subscriber) <;> exact fun h => nomatch h

theorem random_ne_overflow (n : ℕ) : core.random n ≠ .error .overflow := by
  unfold random
  split <;> exact fun h => nomatch h

/-- How a command ends: it is moves, and leaves the core as it is where it fails. -/
def Ends (allowed : Carrier → Label → Prop) (safe : Prop) (core : Core) (x : Exec Reply) : Prop :=
  Kept allowed safe core x ∧ core.Spotless x

theorem ends_failed (why : Str) : Ends allowed safe core (.ok (core.failed why)) :=
  ⟨kept_failed why, spotless_failed why⟩

theorem ends_done {core' : Core} (h : Moves allowed core.carrier core'.carrier) (now : ℕ)
    (answer : Str) :
    Ends allowed safe core (.ok (core'.done now answer)) :=
  ⟨kept_done h now answer, spotless_done core' now answer⟩

theorem ends_bind {α : Type} {x : Exec α} {Q : α → Prop} {f : α → Exec Reply} (h : Meets safe x Q)
    (hx : x ≠ .error .overflow) (hf : ∀ a, Q a → Ends allowed safe core (f a)) :
    Ends allowed safe core (x >>= f) :=
  ⟨Meets.bind h fun a ha => (hf a ha).1, spotless_bind hx fun a ha => (hf a (h.ok ha)).2⟩

theorem ends_subAt (h : core.db.subs[imsi]? ≠ none) {f : Subscriber → Exec Reply}
    (hf : ∀ sub, Ends allowed safe core (f sub)) :
    Ends allowed safe core (core.subAt imsi >>= f) :=
  ends_bind (meets_subAt h) (expect_ne_overflow _) fun sub _ => hf sub

/-- A change of a subscriber that says nothing about revocation, and an answer. -/
theorem ends_changeSub {core₁ : Core} (hcore : core₁.carrier = core.carrier)
    (h : core₁.db.subs[imsi]? ≠ none) {f : Subscriber → Subscriber}
    (hf : ∀ s, (f s).revoked = s.revoked) (now : ℕ) (answer : Str) :
    Ends allowed safe core (do
      let core ← core₁.changeSub imsi f
      return core.done now answer) :=
  ends_bind (meets_changeSub_quiet h hf) (changeSub_ne_overflow imsi f) fun _ hcarrier =>
    ends_done (Moves.of_eq (hcarrier.1.trans hcore).symm) now answer

/-- The list of the blocks, or a number that does not fit. -/
theorem meets_blocks {Q : Reply → Prop} (h : ∀ answer, Q (core, .ok answer)) :
    Meets safe (core.blocks.map fun answer => (core, .ok answer)) Q := by
  have hblocks : Meets safe core.blocks fun _ => True := by
    refine meets_foldlM trivial fun text b _ _ => Meets.bind (Q := fun _ => True) ?_ fun _ _ =>
      meets_pure trivial
    unfold freeOf
    split_ifs
    · exact meets_ok trivial
    · exact meets_overflow
  exact Meets.bind hblocks fun answer _ => meets_pure (h answer)

theorem ends_add (hu : ∀ v, allowed v (.unbarred imsi)) (key : Str) (quota label : Option Str)
    (now : ℕ) : Ends allowed safe core (.ok (core.add imsi key quota label now)) := by
  unfold add
  split
  · exact ends_failed _
  split
  · exact ends_failed _
  split
  · exact ends_failed _
  split
  · exact ends_failed _
  split
  · exact ends_failed _
  · refine ends_done (moves_unbarred hu fun imsi' hne hbarred => ?_) now _
    dsimp only
    rw [OrderedMap.getElem?_insert', if_neg (Ne.symm hne)]
    exact hbarred

theorem ends_siteRemove (hq : ∀ v, allowed v .quiet) (id : Str) (now : ℕ) :
    Ends allowed safe core (.ok (core.siteRemove id now)) := by
  unfold siteRemove
  split_ifs
  · exact ends_failed _
  · refine ends_done ?_ now _
    exact moves_close { core with db := { core.db with sites := core.db.sites.erase id } } hq
      (fun _ _ => carrier_push rfl) _ now

theorem ends_remove (hq : ∀ v, allowed v .quiet) (imsi : Str) (now : ℕ) :
    Ends allowed safe core (.ok (core.remove imsi now)) := by
  unfold remove
  split_ifs
  · exact ends_failed _
  · refine ends_done
      ((moves_endSessionsOf hq imsi .admin now).trans (moves_barring hq fun imsi' hbarred => ?_))
      now _
    dsimp only
    rw [OrderedMap.getElem?_erase']
    split_ifs
    · exact fun h => nomatch h
    · exact hbarred

/-- Barring a subscriber, or letting one in. -/
theorem ends_setRevoked (hq : ∀ v, allowed v .quiet) (imsi : Str) {revoke : Bool}
    (hu : revoke = false → ∀ v, allowed v (.unbarred imsi)) (now : ℕ) :
    Ends allowed safe core (core.setRevoked imsi revoke now) := by
  unfold setRevoked
  by_cases hsub : (!core.db.subs.contains imsi) = true
  · rw [if_pos hsub]
    exact ends_failed _
  rw [if_neg hsub]
  refine ends_bind (meets_changeSub (sub_of_contains hsub) _) (changeSub_ne_overflow imsi _) ?_
  rintro core₁ ⟨sub, hlookup, hcore₁⟩
  have hother : ∀ imsi', imsi' ≠ imsi → core.carrier.Barred imsi' →
      ((core.db.subs.insert imsi { sub with revoked := revoke })[imsi']?).map (·.revoked) ≠
        some false := by
    intro imsi' hne hbarred
    rw [OrderedMap.getElem?_insert', if_neg (Ne.symm hne)]
    exact hbarred
  cases revoke with
  | true =>
    have hmoves : Moves allowed core.carrier core₁.carrier := by
      rw [hcore₁]
      refine moves_barring hq fun imsi' hbarred => ?_
      by_cases hne : imsi' = imsi
      · dsimp only
        rw [hne, OrderedMap.getElem?_insert', if_pos rfl]
        exact fun h => nomatch h
      · exact hother imsi' hne hbarred
    have hsent : ((core₁.siteConns fun _ => true).foldl (fun core c => core.send c (.revoked imsi))
        core₁).carrier = core₁.carrier := carrier_foldl _ fun _ _ _ => carrier_send_quiet rfl
    rw [if_pos rfl]
    refine ends_done (hmoves.trans ?_) now _
    rw [← hsent]
    exact moves_endSessionsOf hq imsi .revoked now
  | false =>
    rw [if_neg Bool.false_ne_true]
    exact ends_done (hcore₁ ▸ moves_unbarred (hu rfl) hother) now _

theorem ends_release (hq : ∀ v, allowed v .quiet) (imsi : Str) (now : ℕ) :
    Ends allowed safe core (.ok (core.release imsi now)) := by
  unfold release
  split_ifs
  · exact ends_failed _
  · exact ends_done (moves_endSessionsOf hq imsi .admin now) now _

theorem ends_number (who : Str) (requested : Option Str) (ported : Bool) (now : ℕ) :
    Ends allowed safe core (.ok (core.number who requested ported now)) := by
  unfold number
  split
  · exact ends_failed _
  · split
    · exact ends_failed _
    next heq => exact ends_done (Moves.of_eq (carrier_db (revoked_assignNumber heq)).symm) now _

theorem ends_blockAdd (b : Str) (now : ℕ) : Ends allowed safe core (.ok (core.blockAdd b now)) := by
  unfold blockAdd
  split_ifs
  · exact ends_failed _
  · exact ends_failed _
  · exact ends_done (Moves.of_eq (carrier_db fun imsi =>
      revoked_fillNumbers { core.db with blocks := core.db.blocks ++ [b] } imsi).symm) now _

theorem ends_blockRemove (b : Str) (now : ℕ) :
    Ends allowed safe core (.ok (core.blockRemove b now)) := by
  unfold blockRemove
  split
  · exact ends_failed _
  split
  · exact ends_failed _
  · refine ends_done ?_ now _
    exact Moves.refl

theorem ends_siteAdd (id secret : Str) (now : ℕ) :
    Ends allowed safe core (.ok (core.siteAdd id secret now)) := by
  unfold siteAdd
  split
  · exact ends_failed _
  · split_ifs
    · exact ends_failed _
    · refine ends_done ?_ now _
      exact Moves.refl

theorem ends_setEnumKey (k : Str) (now : ℕ) :
    Ends allowed safe core (.ok (core.setEnumKey k now)) := by
  unfold setEnumKey
  split
  · exact ends_failed _
  · refine ends_done ?_ now _
    exact Moves.refl

theorem ends_setLabel (imsi l : Str) (now : ℕ) :
    Ends allowed safe core (core.setLabel imsi l now) := by
  unfold setLabel
  split_ifs with hsub
  · exact ends_failed _
  · exact ends_failed _
  · refine ends_changeSub rfl (sub_of_contains hsub) ?_ now _
    exact fun _ => rfl

theorem ends_setQuota (imsi q : Str) (now : ℕ) :
    Ends allowed safe core (core.setQuota imsi q now) := by
  unfold setQuota
  split_ifs with hsub
  · exact ends_failed _
  split
  · exact ends_failed _
  · refine ends_changeSub rfl (sub_of_contains hsub) ?_ now _
    exact fun _ => rfl

theorem ends_resetUsage (imsi : Str) (now : ℕ) :
    Ends allowed safe core (core.resetUsage imsi now) := by
  unfold resetUsage
  split_ifs with hsub
  · exact ends_failed _
  · refine ends_changeSub rfl (sub_of_contains hsub) ?_ now _
    exact fun _ => rfl

theorem kept_numberRelease (who : Str) (now : ℕ) :
    Kept allowed safe core (core.numberRelease who now) := by
  unfold numberRelease
  split
  · exact kept_failed _
  next imsi heq =>
    have hsub := sub_of_imsiOf heq
    refine Meets.bind (meets_subAt hsub) fun sub _ => ?_
    refine Meets.bind (meets_changeSub_quiet hsub (by exact fun _ => rfl)) ?_
    rintro core' ⟨hcarrier, -⟩
    split_ifs
    · exact meets_pure (Moves.of_eq hcarrier.symm)
    · refine meets_pure (Moves.of_eq ?_)
      rw [carrier_done, hcarrier]

theorem ends_numberMove (num dst : Str) (now : ℕ) :
    Ends allowed safe core (core.numberMove num dst now) := by
  unfold numberMove
  split
  · exact ends_failed _
  next source hsource =>
    split
    · exact ends_failed _
    next target htarget =>
      have hs := sub_of_byNumber hsource
      have ht := sub_of_imsiOf htarget
      refine ends_subAt ht fun sub => ?_
      dsimp only
      split_ifs
      · exact ends_failed _
      refine ends_subAt hs fun sub' => ?_
      refine ends_bind (meets_changeSub_quiet hs (by exact fun _ => rfl))
        (changeSub_ne_overflow _ _) ?_
      rintro core₁ ⟨hcarrier₁, hsubs₁⟩
      refine ends_changeSub hcarrier₁ (mt (hsubs₁ target).mp ht) ?_ now _
      exact fun _ => rfl

theorem ends_feature (who key value : Str) (now : ℕ) :
    Ends allowed safe core (core.feature who key value now) := by
  unfold feature
  split
  · exact ends_failed _
  next imsi heq =>
    have hsub := sub_of_imsiOf heq
    refine ends_subAt hsub fun sub => ?_
    split
    · exact ends_failed _
    · refine ends_changeSub rfl hsub ?_ now _
      exact fun _ => rfl

theorem ends_setPortCode (who code : Str) (now : ℕ) :
    Ends allowed safe core (core.setPortCode who code now) := by
  unfold setPortCode
  split
  · exact ends_failed _
  next imsi heq =>
    split_ifs
    · exact ends_failed _
    · refine ends_changeSub rfl (sub_of_imsiOf heq) ?_ now _
      exact fun _ => rfl

theorem ends_issuePortCode (who : Str) (now : ℕ) :
    Ends allowed safe core (core.issuePortCode who now) := by
  unfold issuePortCode
  split
  · exact ends_failed _
  next imsi heq =>
    have hsub := sub_of_imsiOf heq
    split
    · exact ends_failed _
    refine ends_subAt hsub fun sub => ?_
    dsimp only
    split_ifs
    · exact ends_failed _
    · exact ends_failed _
    refine ends_bind meets_random (random_ne_overflow 3) ?_
    rintro ⟨core₁, nonce⟩ ⟨entropy, rfl⟩
    have hsub₁ : ({ core with entropy } : Core).db.subs[imsi]? ≠ none := hsub
    refine ends_changeSub (by rfl) hsub₁ ?_ now _
    exact fun _ => rfl

-- the parser would be run on the rebuilt file wherever the type of a proof about it is looked at
attribute [local irreducible] Db.parse

/-- The file that `ims` has rebuilt has an `ims` line. -/
theorem ends_setIms {rest : List Str} (hrest : ∀ w ∈ rest, IsWord w) (now : ℕ) :
    Ends allowed safe core (core.setIms rest now) := by
  unfold setIms
  dsimp only
  split
  · exact ends_failed _
  next db heq =>
    rw [List.append_assoc (_ : Str) "ims ".toList] at heq
    have hims := ims_of_parse (isLine_intercalate hrest) heq
    refine ends_bind (meets_expect (fun _ => hims) fun _ h => h) (expect_ne_overflow _) fun i _ =>
      ends_done ?_ now _
    exact Moves.refl

theorem of_ite {α : Type} {p : Prop} [Decidable p] {o o' : Option α} {y : α}
    (h : (if p then o else o') = some y) : p ∧ o = some y ∨ o' = some y := by
  split_ifs at h with hp
  · exact .inl ⟨hp, h⟩
  · exact .inr h

/-- One arm of a table of commands, or the arms behind it. -/
theorem of_ite_some {α : Type} {p : Prop} [Decidable p] {x y : α} {o : Option α}
    (h : (if p then some x else o) = some y) : p ∧ x = y ∨ o = some y :=
  (of_ite h).imp_left fun ⟨hp, hx⟩ => ⟨hp, Option.some.inj hx⟩

/-- What is known of whatever a command may do. -/
structure Arms (core : Core) (name : Str) (args : List Str) (now : ℕ) (P : Exec Reply → Prop) :
    Prop where
  shown : ∀ answer, P (.ok (core, .ok answer))
  blocks : name = "blocks".toList → args = [] → P (core.blocks.map fun answer => (core, .ok answer))
  imsOff : ∀ answer, P (.ok ({ core with db := { core.db with ims := none } }.done now answer))
  siteRemove : ∀ a ∈ args, P (.ok (core.siteRemove a now))
  remove : ∀ a ∈ args, P (.ok (core.remove a now))
  revoke : ∀ a ∈ args, P (core.setRevoked a true now)
  unrevoke : ∀ a, name = "unrevoke".toList → args = [a] → P (core.setRevoked a false now)
  resetUsage : ∀ a ∈ args, P (core.resetUsage a now)
  release : ∀ a ∈ args, P (.ok (core.release a now))
  blockAdd : ∀ a ∈ args, P (.ok (core.blockAdd a now))
  blockRemove : ∀ a ∈ args, P (.ok (core.blockRemove a now))
  number : ∀ a ∈ args, ∀ requested ported, P (.ok (core.number a requested ported now))
  numberRelease : ∀ a, name = "number-release".toList → args = [a] → P (core.numberRelease a now)
  numberMove : ∀ a ∈ args, ∀ b, P (core.numberMove a b now)
  ims : P (core.setIms args now)
  issuePortCode : ∀ a ∈ args, P (core.issuePortCode a now)
  setPortCode : ∀ a ∈ args, ∀ b, P (core.setPortCode a b now)
  enumKey : ∀ a ∈ args, P (.ok (core.setEnumKey a now))
  add : ∀ a rest, name = "add".toList → args = a :: rest →
    ∀ key quota label, P (.ok (core.add a key quota label now))
  siteAdd : ∀ a ∈ args, ∀ b, P (.ok (core.siteAdd a b now))
  label : ∀ a ∈ args, ∀ b, P (core.setLabel a b now)
  quota : ∀ a ∈ args, ∀ b, P (core.setQuota a b now)
  feature : ∀ a ∈ args, ∀ b c, P (core.feature a b c now)

/-- **A command is one of the arms.** -/
theorem Arms.of_command {P : Exec Reply → Prop} {name : Str} {args : List Str} {now : ℕ}
    {x : Exec Reply} (h : core.Arms name args now P) (hx : core.command name args now = some x) :
    P x := by
  rcases args with _ | ⟨a, _ | ⟨b, _ | ⟨c, _ | ⟨d, rest⟩⟩⟩⟩
  · dsimp only [command] at hx
    iterate 3
      rcases of_ite_some hx with ⟨-, rfl⟩ | hx
      · exact h.shown _
    rcases of_ite_some hx with ⟨hname, rfl⟩ | hx
    · exact h.blocks (of_decide_eq_true hname) rfl
    rcases of_ite_some hx with ⟨-, rfl⟩ | hx
    · exact h.shown _
    rcases of_ite_some hx with ⟨-, rfl⟩ | hx
    · exact h.imsOff _
    cases hx
  · have ha : a ∈ [a] := List.mem_cons_self
    dsimp only [command] at hx
    rcases of_ite_some hx with ⟨-, rfl⟩ | hx
    · exact h.siteRemove a ha
    rcases of_ite_some hx with ⟨-, rfl⟩ | hx
    · exact h.remove a ha
    rcases of_ite_some hx with ⟨-, rfl⟩ | hx
    · exact h.revoke a ha
    rcases of_ite_some hx with ⟨hname, rfl⟩ | hx
    · exact h.unrevoke a (of_decide_eq_true hname) rfl
    rcases of_ite_some hx with ⟨-, rfl⟩ | hx
    · exact h.resetUsage a ha
    rcases of_ite_some hx with ⟨-, rfl⟩ | hx
    · exact h.release a ha
    rcases of_ite_some hx with ⟨-, rfl⟩ | hx
    · exact h.blockAdd a ha
    rcases of_ite_some hx with ⟨-, rfl⟩ | hx
    · exact h.blockRemove a ha
    rcases of_ite_some hx with ⟨-, rfl⟩ | hx
    · exact h.number a ha none false
    rcases of_ite_some hx with ⟨hname, rfl⟩ | hx
    · exact h.numberRelease a (of_decide_eq_true hname) rfl
    rcases of_ite_some hx with ⟨-, rfl⟩ | hx
    · exact h.ims
    rcases of_ite_some hx with ⟨-, rfl⟩ | hx
    · exact h.issuePortCode a ha
    rcases of_ite_some hx with ⟨-, rfl⟩ | hx
    · exact h.enumKey a ha
    cases hx
  · have ha : a ∈ [a, b] := List.mem_cons_self
    dsimp only [command] at hx
    rcases of_ite_some hx with ⟨hname, rfl⟩ | hx
    · exact h.add a [b] (of_decide_eq_true hname) rfl b none none
    rcases of_ite_some hx with ⟨-, rfl⟩ | hx
    · exact h.siteAdd a ha b
    rcases of_ite_some hx with ⟨-, rfl⟩ | hx
    · exact h.label a ha b
    rcases of_ite_some hx with ⟨-, rfl⟩ | hx
    · exact h.quota a ha b
    rcases of_ite_some hx with ⟨-, rfl⟩ | hx
    · exact h.number a ha (some b) false
    rcases of_ite_some hx with ⟨-, rfl⟩ | hx
    · exact h.numberMove a ha b
    rcases of_ite_some hx with ⟨-, rfl⟩ | hx
    · exact h.setPortCode a ha b
    rcases of_ite_some hx with ⟨-, rfl⟩ | hx
    · exact h.ims
    cases hx
  · have ha : a ∈ [a, b, c] := List.mem_cons_self
    dsimp only [command] at hx
    rcases of_ite_some hx with ⟨hname, rfl⟩ | hx
    · exact h.add a [b, c] (of_decide_eq_true hname) rfl b (some c) none
    rcases of_ite hx with ⟨-, hx⟩ | hx
    · rcases of_ite_some hx with ⟨-, rfl⟩ | hx
      · exact h.number a ha (some b) true
      cases hx
    rcases of_ite_some hx with ⟨-, rfl⟩ | hx
    · exact h.feature a ha b c
    rcases of_ite_some hx with ⟨-, rfl⟩ | hx
    · exact h.ims
    cases hx
  · dsimp only [command] at hx
    rcases of_ite hx with ⟨hname, hx⟩ | hx
    · rcases of_ite_some hx with ⟨-, rfl⟩ | hx
      · exact h.add a (b :: c :: d :: rest) (of_decide_eq_true hname) rfl b (some c) (some d)
      cases hx
    rcases of_ite_some hx with ⟨-, rfl⟩ | hx
    · exact h.ims
    cases hx

/-- What every arm of a line is, the line is. -/
theorem Arms.of_admin {P : Exec Reply → Prop} {line : Str} {now : ℕ}
    (hfailed : ∀ why, P (.ok (core.failed why))) (h : ∀ name args, words line = name :: args →
      core.Arms name args now P) : P (core.admin line now) := by
  unfold admin
  cases hwords : words line with
  | nil => exact hfailed _
  | cons name args =>
    cases hx : core.command name args now with
    | none =>
      dsimp only
      rw [hx]
      exact hfailed _
    | some x =>
      dsimp only
      rw [hx]
      exact (h name args hwords).of_command hx

/-- A line that lets a subscriber in. -/
def Admits (line imsi : Str) : Prop :=
  (∃ rest, words line = "add".toList :: imsi :: rest) ∨ words line = ["unrevoke".toList, imsi]

/-- What the labels of an operator's line may be. -/
inductive AdminLets (line : Str) : Carrier → Label → Prop
  | quiet (v : Carrier) : AdminLets line v .quiet
  | unbarred {imsi : Str} (h : Admits line imsi) (v : Carrier) : AdminLets line v (.unbarred imsi)

/-! ## Commands that fail -/

/-- The list of the blocks fails only where more lines of a block are in use than are handed out. -/
theorem blocks_eq_overflow_iff :
    core.blocks = .error .overflow ↔ ∃ b ∈ core.db.blocks,
      9999 + 1 - Db.firstLine < core.usedOf b := by
  unfold blocks
  generalize ([] : Str) = text
  generalize core.db.blocks = l
  induction l generalizing text with
  | nil =>
    constructor
    · exact fun h => nomatch h
    · rintro ⟨b, hb, -⟩
      cases hb
  | cons b l ih =>
    rw [List.foldlM_cons, List.exists_mem_cons_iff]
    by_cases hfits : core.usedOf b ≤ 9999 + 1 - Db.firstLine
    · have hfree : core.freeOf b = .ok (9999 + 1 - Db.firstLine - core.usedOf b) := if_pos hfits
      rw [blockLine, hfree, or_iff_right (not_lt.mpr hfits)]
      exact ih _
    · have hfree : core.freeOf b = .error .overflow := if_neg hfits
      rw [blockLine, hfree]
      exact iff_of_true rfl (.inl (not_le.mp hfits))

/-- A line that releases the number of a subscriber who has none, and is on record as one whose
number was ported in. -/
def ReleasesNone (core : Core) (line : Str) : Prop :=
  ∃ (who imsi : Str) (sub : Subscriber), words line = ["number-release".toList, who] ∧
    core.imsiOf who = some imsi ∧ core.db.subs[imsi]? = some sub ∧ sub.ims.msisdn = [] ∧
      sub.ims.ported = true

/-- A line that lists the blocks while more lines of one are in use than are handed out. -/
def Overdrawn (core : Core) (line : Str) : Prop :=
  words line = ["blocks".toList] ∧ ∃ b ∈ core.db.blocks, 9999 + 1 - Db.firstLine < core.usedOf b

/-- What a command comes to where it changes nothing if it fails, and does not panic. -/
def Unharmed (core : Core) (x : Exec Reply) : Prop :=
  (∀ core' why, x = .ok (core', .error why) →
    core'.db = core.db ∧ core'.sessions = core.sessions ∧ core'.conns = core.conns ∧
      core'.out = core.out) ∧
  x ≠ .error .panic ∧ x ≠ .error .overflow

/-- A subscriber whose number has been released. -/
def withoutNumber (sub : Subscriber) : Subscriber :=
  { sub with ims := { sub.ims with msisdn := [], ported := false } }

/-- What a release comes to where there is a subscriber. -/
theorem numberRelease_eq {who : Str} {sub : Subscriber} (hwho : core.imsiOf who = some imsi)
    (hsub : core.db.subs[imsi]? = some sub) (now : ℕ) : core.numberRelease who now =
      .ok (if sub.ims.msisdn = [] then
        { core with db :=
          { core.db with subs := core.db.subs.insert imsi (withoutNumber sub) } }.failed
          (imsi ++ " has no number".toList)
      else
        { core with db := { core.db with subs := core.db.subs.insert imsi (withoutNumber sub) }
          }.done now
          (imsi ++ " released ".toList ++ sub.ims.msisdn)) := by
  unfold numberRelease
  rw [hwho]
  have hat : core.subAt imsi = .ok sub := by
    rw [subAt, hsub]
    rfl
  dsimp only [changeSub]
  rw [hat]
  change (if sub.ims.msisdn = [] then _ else _) = _
  split_ifs
  · rfl
  · rfl

/-- Putting back what is there changes nothing. -/
theorem insert_same {sub : Subscriber} (h : core.db.subs[imsi]? = some sub) :
    core.db.subs.insert imsi sub = core.db.subs := by
  refine Std.ExtTreeMap.ext_getElem? fun k => ?_
  rw [OrderedMap.getElem?_insert']
  split_ifs with hk
  · rw [← hk, h]
  · rfl

theorem spotless_numberRelease {who : Str} (now : ℕ)
    (h : ∀ (imsi : Str) (sub : Subscriber), core.imsiOf who = some imsi →
      core.db.subs[imsi]? = some sub →
      sub.ims.msisdn = [] → sub.ims.ported = false) : core.Spotless
        (core.numberRelease who now) := by
  cases hwho : core.imsiOf who with
  | none =>
    unfold numberRelease
    rw [hwho]
    exact spotless_failed _
  | some imsi =>
    obtain ⟨sub, hsub⟩ := Option.ne_none_iff_exists'.mp (sub_of_imsiOf hwho)
    rw [numberRelease_eq hwho hsub]
    split_ifs with hnone
    · have hported := h imsi sub hwho hsub hnone
      have hsame : withoutNumber sub = sub := by
        rw [withoutNumber, ← hnone, ← hported]
      rw [hsame, insert_same hsub]
      exact spotless_failed _
    · exact spotless_done _ now _

/-- **An operator's line is moves**, and what fails changes nothing, but where there is no number
to release. -/
theorem ends_admin (line : Str) (now : ℕ) : Kept (AdminLets line) safe core (core.admin line now) ∧
    (¬ core.ReleasesNone line → ¬ core.Overdrawn line → core.Spotless (core.admin line now)) := by
  have hq : ∀ v, AdminLets line v .quiet := .quiet
  have hends {x : Exec Reply} (h : Ends (AdminLets line) safe core x) :
    Kept (AdminLets line) safe core x ∧
      (¬ core.ReleasesNone line → ¬ core.Overdrawn line → core.Spotless x) := ⟨h.1, fun _ _ => h.2⟩
  refine Arms.of_admin (P := fun x => Kept _ safe core x ∧ (_ → _ → core.Spotless x))
    (fun why => hends (ends_failed why))
    fun name args hwords => ?_
  have hargs : ∀ w ∈ args, IsWord w := fun w hw =>
    isWord_of_mem_words (hwords ▸ List.mem_cons_of_mem _ hw)
  exact
    { shown := fun answer => ⟨Moves.refl, fun _ _ => spotless_ok core answer⟩
      blocks := by
        rintro rfl rfl
        refine ⟨meets_blocks fun _ => Moves.refl, fun _ hblocks => ?_⟩
        refine spotless_bind (fun h => hblocks ⟨hwords, blocks_eq_overflow_iff.mp h⟩)
          fun answer _ => ?_
        exact spotless_ok core answer
      imsOff := fun answer => hends (ends_done (by exact Moves.refl) now answer)
      siteRemove := fun a _ => hends (ends_siteRemove hq a now)
      remove := fun a _ => hends (ends_remove hq a now)
      revoke := fun a _ => hends (ends_setRevoked hq a (fun h => absurd h Bool.noConfusion) now)
      unrevoke := by
        rintro a rfl rfl
        exact hends (ends_setRevoked hq a (fun _ => .unbarred (.inr hwords)) now)
      resetUsage := fun a _ => hends (ends_resetUsage a now)
      release := fun a _ => hends (ends_release hq a now)
      blockAdd := fun a _ => hends (ends_blockAdd a now)
      blockRemove := fun a _ => hends (ends_blockRemove a now)
      number := fun a _ requested ported => hends (ends_number a requested ported now)
      numberRelease := by
        rintro a rfl rfl
        refine ⟨kept_numberRelease a now, fun hnone _ =>
          spotless_numberRelease now fun imsi sub hwho hsub hempty => ?_⟩
        exact Bool.eq_false_iff.mpr fun hported =>
          hnone ⟨a, imsi, sub, hwords, hwho, hsub, hempty, hported⟩
      numberMove := fun a _ b => hends (ends_numberMove a b now)
      ims := hends (ends_setIms hargs now)
      issuePortCode := fun a _ => hends (ends_issuePortCode a now)
      setPortCode := fun a _ b => hends (ends_setPortCode a b now)
      enumKey := fun a _ => hends (ends_setEnumKey a now)
      add := by
        rintro a rest rfl rfl key quota label
        exact hends (ends_add (.unbarred (.inl ⟨rest, hwords⟩)) key quota label now)
      siteAdd := fun a _ b => hends (ends_siteAdd a b now)
      label := fun a _ b => hends (ends_setLabel a b now)
      quota := fun a _ b => hends (ends_setQuota a b now)
      feature := fun a _ b c => hends (ends_feature a b c now) }

theorem kept_admin (line : Str) (now : ℕ) : Kept (AdminLets line) safe core (core.admin line now) :=
  (ends_admin line now).1

/-- **Exactly when a command that fails changes nothing.**  Whatever has become of the core, an
operator's line does not panic and changes nothing where it fails, but for a release of a
number that is not there from a subscriber on record as ported in, and for the list of the
blocks while more lines of one are in use than are handed out. -/
theorem admin_unharmed_iff (core : Core) (line : Str) (now : ℕ) :
    core.Unharmed (core.admin line now) ↔ ¬ core.ReleasesNone line ∧ ¬ core.Overdrawn line := by
  constructor
  · rintro ⟨hsame, -, hfits⟩
    constructor
    · rintro ⟨who, imsi, sub, hwords, hwho, hsub, hnone, hported⟩
      have hadmin : core.admin line now = core.numberRelease who now := by
        unfold admin
        rw [hwords]
        rfl
      rw [hadmin, numberRelease_eq hwho hsub, if_pos hnone] at hsame
      have hdb := (hsame _ _ rfl).1
      have hsubs := congrArg (fun db : Db => (db.subs[imsi]?).map (·.ims.ported)) hdb
      dsimp only at hsubs
      rw [OrderedMap.getElem?_insert', if_pos rfl, hsub] at hsubs
      rw [Option.map_some, Option.map_some, hported] at hsubs
      cases hsubs
    · rintro ⟨hwords, hover⟩
      refine hfits ?_
      unfold admin
      rw [hwords]
      change core.blocks.map _ = _
      rw [blocks_eq_overflow_iff.mpr hover]
      rfl
  · rintro ⟨hnone, hblocks⟩
    obtain ⟨hkept, hspotless⟩ : Kept _ True core _ ∧ _ := ends_admin line now
    obtain ⟨hsame, hfits⟩ := hspotless hnone hblocks
    refine ⟨fun core' why h => ?_, hkept.no_panic trivial, hfits⟩
    rw [hsame core' why h]
    exact ⟨rfl, rfl, rfl, rfl⟩

/-- A database in which a subscriber without a number is on record as one whose number was
ported in. -/
def portedDb : Str :=
  ("version 1\ncarrier c\npool 10.8.0.0/24\ngateway 10.8.0.1\n" ++
    "sub 111111 key=00112233445566778899aabbccddeeff ported=1\n").toList

theorem runs_portedDb : (match Db.parse portedDb with
    | .error _ => false
    | .ok db =>
      match Core.new .plain db {} (List.replicate 4 1) with
      | .error _ => false
      | .ok core =>
        match core.admin "number-release 111111".toList 0 with
        | .ok (core', .error _) =>
          decide ((core.db.subs["111111".toList]?).map (·.ims.ported) = some true) &&
            decide ((core'.db.subs["111111".toList]?).map (·.ims.ported) = some false)
        | _ => false) = true := by decide +kernel

/-- The parser takes such a file, and a release from that subscriber fails and changes what is on
record. -/
theorem not_unharmed_portedDb :
    ∃ (prim : Primitives) (db : Db) (cfg : CoreConfig) (entropy : List Byte) (core core' : Core) (why : Str),
      Db.parse portedDb = .ok db ∧ Core.new prim db cfg entropy = .ok core ∧
        core.admin "number-release 111111".toList 0 = .ok (core', .error why) ∧ core'.db ≠ core.db ∧
        ¬ core.Unharmed (core.admin "number-release 111111".toList 0) := by
  have hrun := runs_portedDb
  split at hrun
  · cases hrun
  rename_i db hparse
  split at hrun
  · cases hrun
  rename_i core hnew
  split at hrun
  · rename_i core' why hadmin
    obtain ⟨hbefore, hafter⟩ := Bool.and_eq_true_iff.mp hrun
    have hne : core'.db ≠ core.db := by
      intro heq
      have hafter := of_decide_eq_true hafter
      rw [heq, of_decide_eq_true hbefore] at hafter
      cases hafter
    refine ⟨.plain, db, {}, List.replicate 4 1, core, core', why, hparse, hnew, hadmin, hne,
      fun h => ?_⟩
    exact hne (h.1 core' why hadmin).1
  · cases hrun

end EvansComputer.Cell.Core
