import Mathlib.Order.Compare
import Mathlib.Tactic.Common
import Mathlib.Data.List.Nodup
import Mathlib.Data.List.Perm.Basic

/-!
# Ordered maps

A map that is iterated in the order of its keys is `Std.ExtTreeMap`, with the
comparison of a linear order.  Two maps with the same entries are equal, so that
a comparison of maps in a program is a comparison of values here.

The lemmas below are those of the standard library with the comparison replaced
by equality of keys, and the rules for maps that differ only in what a function
does not look at.
-/

namespace EvansComputer

/-- A map ordered by its keys. -/
abbrev OrderedMap (κ α : Type*) [Ord κ] := Std.ExtTreeMap κ α compare

namespace OrderedMap

/-! ## Keys of a linear order

A type of keys takes its two instances from here.  They are not instances for
every linear order, which would send each search for a comparison through the
hierarchy of orders. -/

theorem transOrd {κ : Type*} [LinearOrder κ] : Std.TransOrd κ :=
  instLawfulBCmpCompare_mathlib.toTransCmp

theorem lawfulEqOrd {κ : Type*} [LinearOrder κ] : Std.LawfulEqOrd κ where
  eq_of_compare := compare_eq_iff_eq.mp

/-! ## Lookups -/

variable {κ α β : Type*} [Ord κ] [Std.TransOrd κ] [Std.LawfulEqOrd κ]
  {t t' : OrderedMap κ α} {k a : κ} {v : α}

theorem getElem?_insert' [DecidableEq κ] :
    (t.insert k v)[a]? = if k = a then some v else t[a]? := by
  rw [Std.ExtTreeMap.getElem?_insert]
  by_cases h : k = a
  · rw [if_pos (Std.LawfulEqCmp.compare_eq_iff_eq.mpr h), if_pos h]
  · rw [if_neg (mt Std.LawfulEqCmp.compare_eq_iff_eq.mp h), if_neg h]

theorem getElem?_erase' [DecidableEq κ] :
    (t.erase k)[a]? = if k = a then none else t[a]? := by
  rw [Std.ExtTreeMap.getElem?_erase]
  by_cases h : k = a
  · rw [if_pos (Std.LawfulEqCmp.compare_eq_iff_eq.mpr h), if_pos h]
  · rw [if_neg (mt Std.LawfulEqCmp.compare_eq_iff_eq.mp h), if_neg h]

theorem getElem?_modify' [DecidableEq κ] {f : α → α} :
    (t.modify k f)[a]? = if k = a then t[a]?.map f else t[a]? := by
  rw [Std.ExtTreeMap.getElem?_modify]
  by_cases h : k = a
  · rw [if_pos (Std.LawfulEqCmp.compare_eq_iff_eq.mpr h), if_pos h, h]
  · rw [if_neg (mt Std.LawfulEqCmp.compare_eq_iff_eq.mp h), if_neg h]

theorem nodup_keys : t.keys.Nodup := by
  have h := Std.ExtTreeMap.distinct_keys (t := t)
  refine h.imp fun hne heq => hne ?_
  rw [heq]
  exact Std.ReflCmp.compare_self

theorem nodup_map_fst_toList : (t.toList.map Prod.fst).Nodup := by
  rw [Std.ExtTreeMap.map_fst_toList_eq_keys]
  exact nodup_keys

theorem nodup_toList : t.toList.Nodup := nodup_map_fst_toList.of_map

theorem getElem?_foldl_insert [DecidableEq κ] {l : List (κ × α)} (hnodup : (l.map Prod.fst).Nodup) :
    (l.foldl (fun t x => t.insert x.1 x.2) t)[a]? =
    ((l.find? (·.1 = a)).map Prod.snd).or t[a]? := by
  induction l generalizing t with
  | nil => rfl
  | cons x l ih =>
    rw [List.map_cons, List.nodup_cons] at hnodup
    rw [List.foldl_cons, ih hnodup.2, getElem?_insert', List.find?_cons]
    by_cases hx : x.1 = a
    · have hnone : l.find? (fun y => decide (y.1 = a)) = none := by
        rw [List.find?_eq_none]
        intro y hy hya
        exact hnodup.1 (List.mem_map.mpr ⟨y, hy, by rw [of_decide_eq_true hya, hx]⟩)
      rw [hnone, if_pos hx, decide_eq_true hx]
      rfl
    · rw [if_neg hx, decide_eq_false hx]

omit [Std.LawfulEqOrd κ] in
theorem values_eq : t.values = t.toList.map Prod.snd := by
  rcases t with ⟨⟨t⟩⟩
  induction t using Quotient.ind with
  | _ t =>
    rcases t with ⟨t, h⟩
    show t.values = (Std.DTreeMap.Internal.Impl.Const.toList t).map Prod.snd
    rw [Std.DTreeMap.Internal.Impl.values_eq_map_snd,
      Std.DTreeMap.Internal.Impl.Const.toList_eq_toListModel_map, List.map_map]
    rfl

theorem mem_values_of_getElem? (h : t[k]? = some v) : v ∈ t.values := by
  rw [values_eq]
  exact List.mem_map.mpr ⟨(k, v), Std.ExtTreeMap.mem_toList_iff_getElem?_eq_some.mpr h, rfl⟩

/-- The entries for one key. -/
theorem filter_toList [DecidableEq κ] :
    t.toList.filter (fun x => x.1 = k) = t[k]?.toList.map fun v => (k, v) := by
  have hnodup := nodup_toList (t := t)
  have hmem (x : κ × α) : x ∈ t.toList.filter (fun x => x.1 = k) ↔ x.1 = k ∧ t[k]? = some x.2 := by
    rw [List.mem_filter, decide_eq_true_eq]
    constructor
    · rintro ⟨hx, rfl⟩
      exact ⟨rfl, Std.ExtTreeMap.mem_toList_iff_getElem?_eq_some.mp hx⟩
    · rintro ⟨rfl, hx⟩
      exact ⟨Std.ExtTreeMap.mem_toList_iff_getElem?_eq_some.mpr hx, rfl⟩
  cases hv : t[k]? with
  | none =>
    refine List.eq_nil_iff_forall_not_mem.mpr fun x hx => ?_
    cases ((hmem x).mp hx).2.symm.trans hv
  | some v =>
    refine List.perm_singleton.mp ?_
    refine (List.perm_ext_iff_of_nodup (hnodup.filter _) (List.nodup_singleton _)).mpr fun x => ?_
    rw [hmem, hv, List.mem_singleton, Option.some_inj, Prod.ext_iff, eq_comm (a := v)]

/-- **A table is what its entries come to.** -/
theorem foldl_insert_toList [DecidableEq κ] :
    t.toList.foldl (fun (t : OrderedMap κ α) x => t.insert x.1 x.2) ∅ = t := by
  apply Std.ExtTreeMap.ext_getElem?
  intro a
  rw [getElem?_foldl_insert nodup_map_fst_toList, ← List.head?_filter, filter_toList,
    Std.ExtTreeMap.getElem?_empty, Option.or_none]
  cases t[a]? <;> rfl

/-- A table read in order, of which only some entries say anything. -/
theorem flatMap_toList_congr {f : κ → α → List β}
    (h : ∀ a : κ, t[a]?.elim [] (f a) = t'[a]?.elim [] (f a)) :
    t.toList.flatMap (fun x => f x.1 x.2) = t'.toList.flatMap fun x => f x.1 x.2 := by
  -- Both are read off the table of what the entries say.
  let said (t : OrderedMap κ α) : OrderedMap κ (List β) :=
    t.filterMap fun a v => if (f a v).isEmpty then none else some (f a v)
  have hsaid (t : OrderedMap κ α) :
      t.toList.flatMap (fun x => f x.1 x.2) = (said t).toList.flatMap Prod.snd := by
    rw [Std.ExtTreeMap.toList_filterMap]
    induction t.toList with
    | nil => rfl
    | cons x l ih =>
      rw [List.flatMap_cons, ih, List.filterMap_cons]
      by_cases hx : (f x.1 x.2).isEmpty = true
      · rw [if_pos hx, List.isEmpty_iff.mp hx, List.nil_append]
        rfl
      · rw [if_neg hx, Option.map_some, List.flatMap_cons]
  rw [hsaid, hsaid]
  congr 2
  apply Std.ExtTreeMap.ext_getElem?
  intro a
  rw [Std.ExtTreeMap.getElem?_filterMap', Std.ExtTreeMap.getElem?_filterMap']
  have hlookup (o : Option α) :
      (o.bind fun v => if (f a v).isEmpty then none else some (f a v)) =
        if (o.elim [] (f a)).isEmpty then none else some (o.elim [] (f a)) := by
    cases o <;> rfl
  rw [hlookup, hlookup, h]

/-- A change of one value that `g` does not look at. -/
theorem map_modify {f : α → α} {g : κ → α → β} (h : ∀ a v, g a (f v) = g a v) :
    (t.modify k f).map g = t.map g := by
  classical
  apply Std.ExtTreeMap.ext_getElem?
  intro a
  rw [Std.ExtTreeMap.getElem?_map, Std.ExtTreeMap.getElem?_map, getElem?_modify']
  split_ifs
  · cases t[a]? with
    | none => rfl
    | some v => exact congrArg some (h a v)
  · rfl

end EvansComputer.OrderedMap
