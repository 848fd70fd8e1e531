import Mathlib.Data.List.Basic
import Mathlib.Tactic.Common

/-!
# Readers and what they read

A reader takes a value off the front of its input or fails.  `Reads r x b` says that `r`
finds `x` in exactly `b`, whatever follows, and that no beginning of `b` will do: a field
that is cut off is an error, never another value.

Both halves go through a bind together (`Reads.bind`), so a message is read field by field,
and a message that is cut off anywhere is refused.

`Finds r P` says of a reader what holds of whatever it finds, on any input at all.
-/

namespace EvansComputer

variable {β ε α γ : Type} {r : StateT (List β) (Except ε) α} {f : α → StateT (List β) (Except ε) γ}
  {x : α} {y : γ} {b c : List β}

/-- A reader finds a value in exactly these entries. -/
structure Reads (r : StateT (List β) (Except ε) α) (x : α) (b : List β) : Prop where
  whole : ∀ rest, r (b ++ rest) = .ok (x, rest)
  cut : ∀ p q, b = p ++ q → q ≠ [] → ∃ e, r p = .error e

namespace Reads

theorem cast (h : Reads r x b) (hb : b = c) : Reads r x c := hb ▸ h

theorem pure (x : α) : Reads (Pure.pure x : StateT (List β) (Except ε) α) x [] where
  whole _ := rfl
  cut _ _ h hq := absurd (List.append_eq_nil_iff.mp h.symm).2 hq

/-- **One field after another.** -/
theorem bind (hr : Reads r x b) (hf : Reads (f x) y c) : Reads (r >>= f) y (b ++ c) where
  whole rest := by
    change (r (b ++ c ++ rest)).bind (fun s => f s.1 s.2) = _
    rw [List.append_assoc, hr.whole]
    exact hf.whole rest
  cut p q h hq := by
    have hlate : ∀ p', p = b ++ p' → c = p' ++ q → ∃ e, (r >>= f) p = .error e := by
      intro p' hp hc
      obtain ⟨e, he⟩ := hf.cut p' q hc hq
      refine ⟨e, ?_⟩
      change (r p).bind (fun s => f s.1 s.2) = _
      rw [hp, hr.whole]
      exact he
    rcases List.append_eq_append_iff.mp h with ⟨p', hp, hc⟩ | ⟨q', hb, hq'⟩
    · exact hlate p' hp hc
    · by_cases hnil : q' = []
      · rw [hnil, List.append_nil] at hb
        rw [hnil, List.nil_append] at hq'
        exact hlate [] (by rw [hb, List.append_nil]) hq'.symm
      · obtain ⟨e, he⟩ := hr.cut p q' hb hnil
        refine ⟨e, ?_⟩
        change (r p).bind (fun s => f s.1 s.2) = _
        rw [he]
        rfl

/-- The last field, and what is made of it. -/
theorem map (hr : Reads r x b) {g : α → γ} : Reads (r >>= fun x => Pure.pure (g x)) (g x) b := by
  have h := hr.bind (f := fun x => Pure.pure (g x)) (pure (g x))
  rwa [List.append_nil] at h

/-- A check that passes. -/
theorem check {p : Prop} [Decidable p] {e : StateT (List β) (Except ε) α} (hp : ¬ p)
    (h : Reads r x b) :
    Reads (if p then e else r) x b := by
  rw [if_neg hp]
  exact h

/-- What is read is one value. -/
theorem unique {b' c' : List β} {x' : α} (h : Reads r x b) (h' : Reads r x' b')
    (heq : b ++ c = b' ++ c') :
    x = x' ∧ c = c' := by
  have hr := h.whole c
  rw [heq, h'.whole] at hr
  obtain ⟨hx, hc⟩ := Prod.mk.inj (Except.ok.inj hr)
  exact ⟨hx.symm, hc.symm⟩

end Reads

/-- Whatever a reader finds has this property. -/
def Finds (r : StateT (List β) (Except ε) α) (P : α → Prop) : Prop :=
  ∀ b x rest, r b = .ok (x, rest) → P x

namespace Finds

variable {P : α → Prop} {Q : γ → Prop}

theorem any (r : StateT (List β) (Except ε) α) : Finds r fun _ => True := fun _ _ _ _ => trivial

theorem pure (h : P x) : Finds (Pure.pure x : StateT (List β) (Except ε) α) P := by
  intro b y rest hy
  cases hy
  exact h

/-- **What the second reader finds may rest on what the first one found.** -/
theorem bind (hr : Finds r P) (hf : ∀ x, P x → Finds (f x) Q) : Finds (r >>= f) Q := by
  intro b y rest hy
  change (r b).bind (fun s => f s.1 s.2) = _ at hy
  cases hb : r b with
  | error e =>
    rw [hb] at hy
    cases hy
  | ok s =>
    rw [hb] at hy
    exact hf s.1 (hr b s.1 s.2 hb) s.2 y rest hy

/-- A reader that fails finds nothing. -/
theorem fails (hr : ∀ b, ∃ e, r b = .error e) : Finds r P := by
  intro b x rest hx
  obtain ⟨e, he⟩ := hr b
  rw [he] at hx
  cases hx

/-- What comes behind a check may rest on it. -/
theorem check {p : Prop} [Decidable p] {r' : StateT (List β) (Except ε) α}
    (hr' : ∀ b, ∃ e, r' b = .error e) (h : ¬ p → Finds r P) : Finds (if p then r' else r) P := by
  split_ifs with hp
  · exact fails hr'
  · exact h hp

end EvansComputer.Finds
