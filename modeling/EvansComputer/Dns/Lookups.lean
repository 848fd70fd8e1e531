import EvansComputer.Dns.Resolver

/-!
# Lookups of a resolver

What the calls inside a resolver may do to the queries that it was given.  A query is with its
task until its resolution is done, under its own id, name and type; tasks in between only change
what they know, and tasks that are dropped were started for another.
-/

namespace EvansComputer.Dns

namespace Task

/-- What never changes in a task. -/
def key (t : Task) : UInt32 × Option UInt32 × Name × UInt16 := (t.id, t.parent, t.orig, t.qtype)

end Task

/-- A query: its id, and the name and the type asked for. -/
abbrev Ask := UInt32 × Option (Name × UInt16)

/-- The queries that tasks were started for. -/
def tops (tasks : List Task) : List Ask :=
  (tasks.filter (·.parent.isNone)).map fun t => (t.id, some (t.orig, t.qtype))

/-- The queries that are done. -/
def asksOf (done : List (UInt32 × Resolution)) : List Ask :=
  done.map fun d => (d.1, some (d.2.qname, d.2.qtype))

theorem tops_eq_of_key {ts ts' : List Task} (h : ts'.map Task.key = ts.map Task.key) :
    tops ts' = tops ts := by
  have hkeys (l : List Task) : tops l =
      ((l.map Task.key).filter fun k => k.2.1.isNone).map fun k =>
        (k.1, some (k.2.2.1, k.2.2.2)) := by
    rw [List.filter_map, List.map_map]
    rfl
  rw [hkeys, hkeys, h]

theorem ids_eq_of_key {ts ts' : List Task} (h : ts'.map Task.key = ts.map Task.key) :
    ts'.map (·.id) = ts.map (·.id) := by
  have hkeys (l : List Task) : l.map (·.id) = (l.map Task.key).map (·.1) := by
    rw [List.map_map]
    rfl
  rw [hkeys, hkeys, h]

namespace Resolver

/-! ## Ids -/

/-- How many lookups get different ids. -/
def maxStarted : ℕ := 2 ^ 32 - 1

/-- Each task has an id of its own, given when it was started. -/
structure Ids (r : Resolver) : Prop where
  nodup : (r.tasks.map (·.id)).Nodup
  given : ∀ id ∈ r.tasks.map (·.id), ∃ n < r.started, id = idOf n

/-- **What the calls of one event may do to the queries**: each stays with its task, or is done. -/
structure Goes (r r' : Resolver) : Prop where
  started : r.started ≤ r'.started
  keeps : r'.started ≤ maxStarted → Ids r →
    Ids r' ∧ ∃ fin, r'.done = r.done ++ fin ∧ (tops r.tasks).Perm (tops r'.tasks ++ asksOf fin)

variable {r r' r'' : Resolver} {t t' : Task} {now : ℤ} {id : UInt32}

theorem goes_of_key (hkey : r'.tasks.map Task.key = r.tasks.map Task.key)
    (hstarted : r'.started = r.started) (hdone : r'.done = r.done) : Goes r r' where
  started := hstarted.ge
  keeps _ h := by
    refine ⟨⟨ids_eq_of_key hkey ▸ h.nodup, ?_⟩, [], by rw [hdone, List.append_nil], ?_⟩
    · rw [ids_eq_of_key hkey, hstarted]
      exact h.given
    · rw [tops_eq_of_key hkey]
      exact (List.append_nil _).symm ▸ List.Perm.refl _

theorem Goes.refl (r : Resolver) : Goes r r := goes_of_key rfl rfl rfl

theorem asksOf_append (a b : List (UInt32 × Resolution)) : asksOf (a ++ b) = asksOf a ++ asksOf b :=
  List.map_append

theorem Goes.trans (h : Goes r r') (h' : Goes r' r'') : Goes r r'' where
  started := h.started.trans h'.started
  keeps hmax hids := by
    obtain ⟨hids', fin, hdone, hperm⟩ := h.keeps (h'.started.trans hmax) hids
    obtain ⟨hids'', fin', hdone', hperm'⟩ := h'.keeps hmax hids'
    refine ⟨hids'', fin ++ fin', by rw [hdone', hdone, List.append_assoc], hperm.trans ?_⟩
    rw [asksOf_append]
    calc (tops r'.tasks ++ asksOf fin).Perm ((tops r''.tasks ++ asksOf fin') ++ asksOf fin) := hperm'.append_right _
      _ = tops r''.tasks ++ (asksOf fin' ++ asksOf fin) := List.append_assoc ..
      (tops r''.tasks ++ (asksOf fin' ++ asksOf fin)).Perm
        (tops r''.tasks ++ (asksOf fin ++ asksOf fin')) :=
        List.Perm.append_left _ List.perm_append_comm

/-! ## What tasks do -/

theorem cancel_sublist (r : Resolver) (q : UInt32) : (r.cancel q).tasks.Sublist r.tasks := by
  unfold cancel
  generalize 2 * r.tasks.length + 1 = fuel
  generalize [q] = kill
  dsimp only
  generalize r.tasks = tasks
  induction fuel generalizing kill tasks with
  | zero => exact .refl _
  | succ fuel ih =>
    cases kill with
    | nil => exact .refl _
    | cons id kill => exact (ih _ _).trans List.filter_sublist

end EvansComputer.Dns.Resolver
