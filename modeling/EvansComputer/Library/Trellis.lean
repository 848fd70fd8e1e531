import Mathlib

/-!
# Paths of greatest weight through a trellis

A machine takes one symbol after another, and beside it a list of observations weighs each of
its steps.  `Survivors` says of a table with a value for each state, and a path for each, that
the value is the greatest weight of a path into the state, and that the path has it; a state
that no path reaches has no value, `⊥`.

A table over one observation more comes from a choice of a predecessor for each state, where the
choice beats every other step into the state (`Survivors.step`).  That is all an algorithm in
the manner of Viterbi has to be matched with.

A potential on the states bounds the cost of a path from below, when no step lowers the
potential by more than the step costs (`potential_le`).
-/

namespace EvansComputer

variable {σ β ρ : Type}

/-- A machine whose steps are weighed by observations. -/
structure Trellis (σ β ρ : Type) where
  start : σ
  next : σ → β → σ
  weight : ρ → σ → β → ℤ

namespace Trellis

variable (T : Trellis σ β ρ)

/-- The state behind a path. -/
def reach (bits : List β) : σ := bits.foldl T.next T.start

/-- What a path weighs from a state on. -/
def scoreFrom : σ → List ρ → List β → ℤ
  | s, r :: rs, b :: bits => T.weight r s b + scoreFrom (T.next s b) rs bits
  | _, _, _ => 0

def score (rs : List ρ) (bits : List β) : ℤ := T.scoreFrom T.start rs bits

variable {T} {rs : List ρ} {bits : List β} {M M' : σ → WithBot ℤ} {path : σ → List β} {r : ρ}

theorem reach_append_singleton (b : β) : T.reach (bits ++ [b]) = T.next (T.reach bits) b := by
  rw [reach, List.foldl_append]
  rfl

theorem scoreFrom_append_singleton (s : σ) (h : bits.length = rs.length) (r : ρ) (b : β) :
    T.scoreFrom s (rs ++ [r]) (bits ++ [b]) = T.scoreFrom s rs bits + T.weight r
      (bits.foldl T.next s) b := by
  induction rs generalizing s bits with
  | nil =>
    rw [List.eq_nil_of_length_eq_zero h]
    exact (Int.add_comm _ _).trans rfl
  | cons x rs ih =>
    cases bits with
    | nil => cases h
    | cons y bits =>
      change T.weight x s y + T.scoreFrom (T.next s y) (rs ++ [r]) (bits ++ [b]) = _
      rw [ih _ (Nat.succ.inj h)]
      exact (Int.add_assoc _ _ _).symm

theorem score_append_singleton (h : bits.length = rs.length) (r : ρ) (b : β) :
    T.score (rs ++ [r]) (bits ++ [b]) = T.score rs bits + T.weight r (T.reach bits) b :=
  scoreFrom_append_singleton T.start h r b

/-- The greatest weights into the states, and paths that have them. -/
structure Survivors (T : Trellis σ β ρ) (rs : List ρ) (M : σ → WithBot ℤ) (path : σ → List β) :
    Prop where
  greatest : ∀ bits : List β, bits.length = rs.length →
    (T.score rs bits : WithBot ℤ) ≤ M (T.reach bits)
  attained : ∀ s, M s ≠ ⊥ → (path s).length = rs.length ∧ T.reach (path s) = s ∧
    (T.score rs (path s) : WithBot ℤ) = M s

theorem survivors_nil {M : σ → WithBot ℤ} (hstart : M T.start = 0)
    (hother : ∀ s, M s ≠ ⊥ → s = T.start) :
    T.Survivors [] M fun _ => [] where
  greatest bits h := by
    rw [List.eq_nil_of_length_eq_zero h]
    exact hstart.ge
  attained s hs := by
    cases hother s hs
    exact ⟨rfl, rfl, hstart.symm⟩

/-- **One observation more.**  Each state that is reached takes a step into it that no other
beats. -/
theorem Survivors.step (h : T.Survivors rs M path) {pred : σ → σ} {bit : σ → β}
    (hchosen : ∀ s, M' s ≠ ⊥ → T.next (pred s) (bit s) = s ∧
      M' s = M (pred s) + (T.weight r (pred s) (bit s) : ℤ))
    (hbest : ∀ s b, M s ≠ ⊥ → M s + (T.weight r s b : ℤ) ≤ M' (T.next s b)) :
    T.Survivors (rs ++ [r]) M' fun s => path (pred s) ++ [bit s] where
  greatest bits hlen := by
    rcases List.eq_nil_or_concat' bits with rfl | ⟨front, b, rfl⟩
    · rw [List.length_append] at hlen
      cases hlen
    · have hfront : front.length = rs.length := by
        rw [List.length_append, List.length_append] at hlen
        exact Nat.succ.inj hlen
      have hle := h.greatest front hfront
      have hne : M (T.reach front) ≠ ⊥ := fun hbot => absurd (hbot ▸ hle) (by simp)
      rw [reach_append_singleton, score_append_singleton hfront, WithBot.coe_add]
      exact (add_le_add_left hle _).trans (hbest _ b hne)
  attained s hs := by
    obtain ⟨hnext, hvalue⟩ := hchosen s hs
    have hpred : M (pred s) ≠ ⊥ := by
      intro hbot
      rw [hbot, WithBot.bot_add] at hvalue
      exact hs hvalue
    obtain ⟨hlen, hreach, hscore⟩ := h.attained _ hpred
    refine ⟨?_, ?_, ?_⟩
    · rw [List.length_append, List.length_append, hlen]
      rfl
    · rw [reach_append_singleton, hreach, hnext]
    · rw [score_append_singleton hlen, hreach, hvalue, ← hscore]
      rfl

/-- A path that survives weighs as much as any into its state. -/
theorem Survivors.score_le (h : T.Survivors rs M path) (hlen : bits.length = rs.length) :
    T.reach (path (T.reach bits)) = T.reach bits ∧ (path (T.reach bits)).length = rs.length ∧
      T.score rs bits ≤ T.score rs (path (T.reach bits)) := by
  have hle := h.greatest bits hlen
  have hne : M (T.reach bits) ≠ ⊥ := fun hbot => absurd (hbot ▸ hle) (by simp)
  obtain ⟨hpath, hreach, hscore⟩ := h.attained _ hne
  refine ⟨hreach, hpath, ?_⟩
  rw [← hscore] at hle
  exact WithBot.coe_le_coe.mp hle

end Trellis

/-! ## Potentials -/

/-- What the steps of a path cost together. -/
def costFrom (next : σ → β → σ) (cost : σ → β → ℕ) : σ → List β → ℕ
  | _, [] => 0
  | s, b :: bits => cost s b + costFrom next cost (next s b) bits

/-- **No path is cheaper than the potential falls.** -/
theorem potential_le {next : σ → β → σ} {cost : σ → β → ℕ} {V : σ → ℕ}
    (h : ∀ s b, V s ≤ cost s b + V (next s b)) (s : σ) (bits : List β) :
    V s ≤ costFrom next cost s bits + V (bits.foldl next s) := by
  induction bits generalizing s with
  | nil => exact Nat.le_add_left _ _
  | cons b bits ih =>
    have hstep := h s b
    have hrest := ih (next s b)
    rw [costFrom, List.foldl_cons]
    omega

end EvansComputer
