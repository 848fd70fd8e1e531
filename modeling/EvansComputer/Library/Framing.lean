import Mathlib.Tactic.Common

/-!
# Reading a stream that comes in pieces

A receiver keeps what it has been given and not yet used, and takes messages off
the front of that buffer until the rest is no whole message.  How the stream was
cut into pieces should make no difference.

`Reader` is such a receiver, with a state that each message may change: a turn
either waits for more, or takes some entries and goes on, or ends the reading for
good.  Its two laws are what a framing has to keep: a turn that does not wait takes
at least one entry and no more than there are, and it does the same when more
entries follow.  `drain_append` is the independence of the cut.
-/

namespace EvansComputer

variable {σ δ β : Type*}

/-- What a receiver does with its buffer. -/
inductive Turn (σ δ : Type*) where
  | wait
  | halt (d : δ)
  | next (s : σ) (n : ℕ)

/-- A receiver whose turns do not depend on what follows a message. -/
structure Reader (σ δ β : Type*) where
  turn : σ → List β → Turn σ δ
  consumes : ∀ {s b s' n}, turn s b = .next s' n → 0 < n ∧ n ≤ b.length
  stable : ∀ {s b} (c : List β), turn s b ≠ .wait → turn s (b ++ c) = turn s b

namespace Reader

variable (R : Reader σ δ β)

/-- Turns until one waits or ends the reading; no result where the fuel does not
last. -/
def drain : ℕ → σ → List β → Option (δ ⊕ σ × List β)
  | 0, _, _ => none
  | fuel + 1, s, b =>
    match R.turn s b with
    | .wait => some (.inr (s, b))
    | .halt d => some (.inl d)
    | .next s' n => drain fuel s' (b.drop n)

variable {R} {s s' : σ} {b b' c : List β} {d : δ} {fuel fuel' : ℕ} {r : δ ⊕ σ × List β}

/-- The length of the buffer bounds the turns. -/
theorem exists_drain (h : b.length < fuel) : ∃ r, R.drain fuel s b = some r := by
  induction fuel generalizing s b with
  | zero => exact absurd h (Nat.not_lt_zero _)
  | succ fuel ih =>
    unfold drain
    cases hturn : R.turn s b with
    | wait => exact ⟨_, rfl⟩
    | halt d => exact ⟨_, rfl⟩
    | next s' n =>
      obtain ⟨hpos, hle⟩ := R.consumes hturn
      refine ih ?_
      rw [List.length_drop]
      omega

theorem drain_mono (h : R.drain fuel s b = some r) (hle : fuel ≤ fuel') :
    R.drain fuel' s b = some r := by
  induction fuel generalizing s b fuel' with
  | zero => cases h
  | succ fuel ih =>
    obtain ⟨fuel', rfl⟩ := Nat.exists_eq_succ_of_ne_zero (by omega : fuel' ≠ 0)
    unfold drain at h ⊢
    cases hturn : R.turn s b with
    | wait =>
      rw [hturn] at h
      exact h
    | halt d =>
      rw [hturn] at h
      exact h
    | next s' n =>
      rw [hturn] at h
      exact ih h (by omega)

/-- Enough fuel gives one result, however much it is. -/
theorem drain_unique (h : R.drain fuel s b = some r) {r' : δ ⊕ σ × List β}
    (h' : R.drain fuel' s b = some r') : r = r' := by
  rcases Nat.le_total fuel fuel' with hle | hle
  · exact Option.some.inj ((drain_mono h hle).symm.trans h')
  · exact Option.some.inj (h.symm.trans (drain_mono h' hle))

/-- What is left in the buffer of a receiver that waits is no whole message. -/
theorem turn_of_drain (h : R.drain fuel s b = some (.inr (s', b'))) : R.turn s' b' = .wait := by
  induction fuel generalizing s b with
  | zero => cases h
  | succ fuel ih =>
    unfold drain at h
    cases hturn : R.turn s b with
    | wait =>
      rw [hturn] at h
      cases h
      exact hturn
    | halt d =>
      rw [hturn] at h
      cases h
    | next s₁ n =>
      rw [hturn] at h
      exact ih h

/-- **The cut makes no difference.**  A receiver that waits after one piece does
with the next what it would have done with both at once. -/
theorem drain_append (h : R.drain fuel s b = some (.inr (s', b')))
    (h' : R.drain fuel' s' (b' ++ c) = some r) :
    ∃ fuel'', R.drain fuel'' s (b ++ c) = some r := by
  induction fuel generalizing s b with
  | zero => cases h
  | succ fuel ih =>
    unfold drain at h
    cases hturn : R.turn s b with
    | wait =>
      rw [hturn] at h
      cases h
      exact ⟨fuel', h'⟩
    | halt d =>
      rw [hturn] at h
      cases h
    | next s₁ n =>
      rw [hturn] at h
      obtain ⟨fuel'', hrest⟩ := ih h
      refine ⟨fuel'' + 1, ?_⟩
      have hsame : R.turn s (b ++ c) = .next s₁ n := by
        rw [R.stable c (by rw [hturn]; exact fun h => nomatch h), hturn]
      unfold drain
      rw [hsame]
      dsimp only
      rw [List.drop_append_of_le_length (R.consumes hturn).2, hrest]

end EvansComputer.Reader
