import Mathlib.Combinatorics.SimpleGraph.Acyclic

/-!
# Trees of parents, and least ways

Vertices that choose a parent each, with a rank that falls from child to parent, make a tree of
the pairs that they form, if one of them has none (`parentGraph_isTree`).

Where every vertex also keeps a cost, which is at most that of any neighbour with the way to it
and is equal to it for the parent, the costs are the least of all ways (`isLeast_way`).  The
costs that the vertices keep may be cut off at a bound: it is enough that no way without a
repetition reaches the bound.
-/

namespace EvansComputer

variable {ι P : Type*}

/-! ## The tree -/

/-- The pairs of a child and its parent. -/
def parentGraph (parent : ι → Option ι) : SimpleGraph ι where
  Adj i j := i ≠ j ∧ (parent i = some j ∨ parent j = some i)
  symm := ⟨fun _ _ h => ⟨h.1.symm, h.2.symm⟩⟩
  loopless := ⟨fun _ h => h.1 rfl⟩

section Tree

variable {parent : ι → Option ι} {rank : ι → ℕ} {r : ι}

section

variable (hrank : ∀ i j, parent i = some j → rank j < rank i)
include hrank

theorem parent_ne {i j : ι} (h : parent i = some j) : i ≠ j :=
  fun heq => (hrank i j h).ne (congrArg rank heq.symm)

theorem reachable_root (hroot : ∀ i, parent i = none → i = r) (i : ι) :
    (parentGraph parent).Reachable i r := by
  induction hn : rank i using Nat.strong_induction_on generalizing i with
  | _ n ih =>
    cases hi : parent i with
    | none => rw [hroot i hi]
    | some j =>
      have hlt := hrank i j hi
      have hadj : (parentGraph parent).Adj i j := ⟨parent_ne hrank hi, .inl hi⟩
      exact hadj.reachable.trans (ih (rank j) (hn ▸ hlt) j rfl)

/-- The edge of a vertex that has a parent. -/
def parentEdge (hrank : ∀ i j, parent i = some j → rank j < rank i) (i : {i // (parent i).isSome}) :
    (parentGraph parent).edgeSet :=
  ⟨s(i.1, (parent i.1).get i.2), by
    have hi : parent i.1 = some ((parent i.1).get i.2) := (Option.some_get i.2).symm
    exact (SimpleGraph.mem_edgeSet _).mpr ⟨parent_ne hrank hi, .inl hi⟩⟩

theorem parentEdge_bijective : Function.Bijective (parentEdge hrank) := by
  constructor
  · intro i j h
    have hi : parent i.1 = some ((parent i.1).get i.2) := (Option.some_get i.2).symm
    have hj : parent j.1 = some ((parent j.1).get j.2) := (Option.some_get j.2).symm
    rcases Sym2.eq_iff.mp (congrArg Subtype.val h) with ⟨heq, -⟩ | ⟨h₁, h₂⟩
    · exact Subtype.ext heq
    · -- each would be the parent of the other
      rw [h₂] at hi
      rw [← h₁] at hj
      exact absurd (hrank _ _ hi) (hrank _ _ hj).not_gt
  · rintro ⟨e, he⟩
    induction e using Sym2.ind with
    | _ i j =>
      rcases ((SimpleGraph.mem_edgeSet _).mp he).2 with hi | hj
      · refine ⟨⟨i, by rw [hi]; rfl⟩, Subtype.ext ?_⟩
        show s(i, (parent i).get _) = s(i, j)
        simp only [hi, Option.get_some]
      · refine ⟨⟨j, by rw [hj]; rfl⟩, Subtype.ext ?_⟩
        show s(j, (parent j).get _) = s(i, j)
        simp only [hj, Option.get_some]
        exact Sym2.eq_swap

/-- **Parents make a tree.** -/
theorem parentGraph_isTree [Finite ι] (hroot : ∀ i, parent i = none ↔ i = r) :
    (parentGraph parent).IsTree := by
  rw [SimpleGraph.isTree_iff_connected_and_card]
  constructor
  · refine (SimpleGraph.connected_iff _).mpr ⟨fun i j => ?_, ⟨r⟩⟩
    have hreach := reachable_root hrank fun i => (hroot i).mp
    exact (hreach i).trans (hreach j).symm
  · rw [← Nat.card_eq_of_bijective _ (parentEdge_bijective hrank)]
    have hsome (i : ι) : (parent i).isSome ↔ i ≠ r := by
      rw [← not_iff_not, Bool.not_eq_true, Option.isSome_eq_false_iff,
        Option.isNone_iff_eq_none, not_ne_iff]
      exact hroot i
    rw [Nat.card_congr (Equiv.subtypeEquivRight hsome)]
    have := Fintype.ofFinite ι
    classical
    rw [Nat.card_eq_fintype_card, Nat.card_eq_fintype_card, Fintype.card_subtype_compl,
      Fintype.card_subtype_eq]
    have hpos : 0 < Fintype.card ι := Fintype.card_pos_iff.mpr ⟨r⟩
    omega

end

end Tree

/-! ## Ways -/

/-- A way from one vertex to another, over the exits of the vertices, with the vertices that it
visits and what it costs. -/
inductive Way (next : ι → P → Option ι) (weight : ι → P → ℕ) : ι → ι → List ι → ℕ → Prop where
  | nil (i : ι) : Way next weight i i [i] 0
  | cons {i j k : ι} {p : P} {vs : List ι} {w : ℕ} (hop : next i p = some j)
    (rest : Way next weight j k vs w) :
      Way next weight i k (i :: vs) (weight i p + w)

section Way

variable {next : ι → P → Option ι} {weight : ι → P → ℕ} {r : ι} {d : ι → ℕ}

/-- No way is cheaper than the cost that is kept. -/
theorem le_of_way (hroot : d r = 0) (hle : ∀ i p j, next i p = some j → d i ≤ weight i p + d j)
    {i : ι} {vs : List ι} {w : ℕ} (h : Way next weight i r vs w) : d i ≤ w := by
  induction h with
  | nil k => exact hroot.le
  | cons hop rest ih => exact (hle _ _ _ hop).trans (Nat.add_le_add_left (ih hroot) _)

/-- The way over the parents. -/
theorem exists_way (rank : ι → ℕ) (bound : ℕ) (hroot : d r = 0)
    (hstep : ∀ i, i ≠ r → ∃ p j, next i p = some j ∧ rank j < rank i ∧
      d i = min (weight i p + d j) bound)
    (hbound : ∀ i k vs w, Way next weight i k vs w → vs.Nodup → w ≤ bound) (i : ι) :
    ∃ vs, Way next weight i r vs (d i) ∧ vs.Nodup ∧ ∀ v ∈ vs, rank v ≤ rank i := by
  induction hn : rank i using Nat.strong_induction_on generalizing i with
  | _ n ih =>
    by_cases hi : i = r
    · subst hi
      refine ⟨[i], hroot.symm ▸ Way.nil i, List.nodup_singleton i, fun v hv => ?_⟩
      rw [List.mem_singleton.mp hv, hn]
    · obtain ⟨p, j, hop, hlt, hd⟩ := hstep i hi
      obtain ⟨vs, hway, hnodup, hrank⟩ := ih (rank j) (hn ▸ hlt) j rfl
      have hnew : (i :: vs).Nodup :=
        List.nodup_cons.mpr ⟨fun hmem => (hrank i hmem).not_gt hlt, hnodup⟩
      have hcons := Way.cons hop hway
      refine ⟨i :: vs, ?_, hnew, fun v hv => ?_⟩
      · rw [hd, min_eq_left (hbound i r _ _ hcons hnew)]
        exact hcons
      · rcases List.mem_cons.mp hv with rfl | hv
        · exact hn.le
        · exact ((hrank v hv).trans_lt hlt).le.trans hn.le

/-- **The costs that are kept are those of the least ways.** -/
theorem isLeast_way (rank : ι → ℕ) (bound : ℕ) (hroot : d r = 0)
    (hle : ∀ i p j, next i p = some j → d i ≤ weight i p + d j)
    (hstep : ∀ i, i ≠ r → ∃ p j, next i p = some j ∧ rank j < rank i ∧
      d i = min (weight i p + d j) bound)
    (hbound : ∀ i k vs w, Way next weight i k vs w → vs.Nodup → w ≤ bound) (i : ι) :
    IsLeast {w | ∃ vs, Way next weight i r vs w} (d i) := by
  obtain ⟨vs, hway, -, -⟩ := exists_way rank bound hroot hstep hbound i
  exact ⟨⟨vs, hway⟩, fun w ⟨_, hw⟩ => le_of_way hroot hle hw⟩

end Way

end EvansComputer
