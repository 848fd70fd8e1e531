import Mathlib.Data.List.Basic
import Mathlib.Tactic.Common

/-!
# A list through a function that may fail

`List.mapM` with values in `Option`: it succeeds where every entry does, and then with a
value of the function for each entry.  `List.foldlM` succeeds where every step does from the
states that a fold reaches.
-/

namespace EvansComputer

variable {α β σ : Type}

theorem mapM_eq_some {f : α → Option β} {g : α → β} {l : List α} (h : ∀ x ∈ l, f x = some (g x)) :
    l.mapM f = some (l.map g) := by
  induction l with
  | nil => rfl
  | cons x l ih =>
    rw [List.mapM_cons, h x List.mem_cons_self, ih fun y hy => h y (List.mem_cons_of_mem _ hy)]
    rfl

/-- Every value comes from an entry. -/
theorem exists_mem_of_mapM {f : α → Option β} {l : List α} {r : List β} (h : l.mapM f = some r)
    {y : β} (hy : y ∈ r) :
    ∃ x ∈ l, f x = some y := by
  induction l generalizing r with
  | nil =>
    cases h
    exact absurd hy List.not_mem_nil
  | cons x l ih =>
    rw [List.mapM_cons] at h
    obtain ⟨z, hz, h⟩ := Option.bind_eq_some_iff.mp h
    obtain ⟨r', hr', h⟩ := Option.bind_eq_some_iff.mp h
    cases h
    rcases List.mem_cons.mp hy with rfl | hy
    · exact ⟨x, List.mem_cons_self, hz⟩
    · obtain ⟨w, hw, hf⟩ := ih hr' hy
      exact ⟨w, List.mem_cons_of_mem _ hw, hf⟩

/-- Entries that are read back from what is written of them. -/
theorem mapM_map_eq_pure {m : Type → Type} [Monad m] [LawfulMonad m] {f : β → m α} {g : α → β}
    {l : List α} (h : ∀ x ∈ l, f (g x) = pure x) : (l.map g).mapM f = pure l := by
  induction l with
  | nil => rfl
  | cons x l ih =>
    rw [List.map_cons, List.mapM_cons, h x List.mem_cons_self,
      ih fun y hy => h y (List.mem_cons_of_mem _ hy),
      pure_bind, pure_bind]

/-- A fold whose steps succeed as long as the state is as it should be. -/
theorem foldlM_eq_some {f : σ → α → Option σ} {g : σ → α → σ} {P : σ → Prop} {l : List α}
    {s : σ} (hs : P s) (h : ∀ x ∈ l, ∀ s, P s → f s x = some (g s x) ∧ P (g s x)) :
    l.foldlM f s = some (l.foldl g s) ∧ P (l.foldl g s) := by
  induction l generalizing s with
  | nil => exact ⟨rfl, hs⟩
  | cons x l ih =>
    obtain ⟨hstep, hnext⟩ := h x List.mem_cons_self s hs
    rw [List.foldlM_cons, hstep]
    exact ih hnext fun y hy => h y (List.mem_cons_of_mem _ hy)

/-- A fold whose steps always succeed. -/
theorem foldlM_some {f : σ → α → Option σ} {g : σ → α → σ} {l : List α}
    (h : ∀ x ∈ l, ∀ s, f s x = some (g s x)) (s : σ) : l.foldlM f s = some (l.foldl g s) :=
  (foldlM_eq_some (P := fun _ => True) trivial fun x hx s _ => ⟨h x hx s, trivial⟩).1

end EvansComputer
