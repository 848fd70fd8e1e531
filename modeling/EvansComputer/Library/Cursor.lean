import Mathlib.Data.List.Basic

/-!
# Reading a byte string item by item

A decoder walks over its input with an index: it takes ranges off the front and
fails when one is not there.  Here the index is what is left of the input.
`splitOff` takes a range off, and `readAll` is the loop that reads items until
nothing is left, threading a state through them.

The loop runs on fuel, which the length of the input bounds: every item takes at
least one element.  `readAll_step` and `readAll_flatMap` are the only ways the
rest of the development executes the loop, and `readAll_invariant` is its
induction rule.
-/

namespace EvansComputer

variable {α σ ε : Type*}

/-- The first `n` elements and the rest, where there are as many. -/
def splitOff (n : ℕ) (l : List α) : Option (List α × List α) :=
  if n ≤ l.length then some (l.take n, l.drop n) else none

theorem splitOff_append (d rest : List α) : splitOff d.length (d ++ rest) = some (d, rest) := by
  unfold splitOff
  rw [if_pos (by simp), List.take_left, List.drop_left]

theorem splitOff_eq_some {n : ℕ} {l d rest : List α} (h : splitOff n l = some (d, rest)) :
    l = d ++ rest ∧ d.length = n := by
  unfold splitOff at h
  split_ifs at h with hn
  obtain ⟨rfl, rfl⟩ := Prod.mk.inj (Option.some.inj h)
  exact ⟨(List.take_append_drop n l).symm, List.length_take_of_le hn⟩

/-- A computation that ends well has come through its first step. -/
theorem exists_of_bind_eq_ok {β γ : Type*} {x : Except ε β} {f : β → Except ε γ} {c : γ}
    (h : x.bind f = .ok c) : ∃ b, x = .ok b ∧ f b = .ok c := by
  cases x with
  | error e => cases h
  | ok b => exact ⟨b, rfl, h⟩

/-- The loop of `readAll`. -/
def readLoop (item : σ → List α → Except ε (σ × List α)) : ℕ → σ → List α → Except ε σ
  | 0, s, _ => .ok s
  | _ + 1, s, [] => .ok s
  | fuel + 1, s, a :: l =>
    match item s (a :: l) with
    | .error e => .error e
    | .ok (s', rest) => readLoop item fuel s' rest

/-- Read items until nothing is left. -/
def readAll (item : σ → List α → Except ε (σ × List α)) (s : σ) (l : List α) : Except ε σ :=
  readLoop item l.length s l

/-- Every item takes something off the input. -/
def Consumes (item : σ → List α → Except ε (σ × List α)) : Prop :=
  ∀ s l s' rest, item s l = .ok (s', rest) → rest.length < l.length

variable {item : σ → List α → Except ε (σ × List α)}

/-- Any two amounts of fuel that the input does not exceed do the same. -/
theorem readLoop_fuel (hc : Consumes item) {fuel fuel' : ℕ} {s : σ} {l : List α}
    (hf : l.length ≤ fuel) (hf' : l.length ≤ fuel') :
    readLoop item fuel s l = readLoop item fuel' s l := by
  induction fuel generalizing fuel' s l with
  | zero =>
    rw [List.eq_nil_of_length_eq_zero (Nat.le_zero.mp hf)]
    cases fuel' <;> rfl
  | succ fuel ih =>
    cases l with
    | nil => cases fuel' <;> rfl
    | cons a l =>
      obtain ⟨fuel', rfl⟩ := Nat.exists_eq_succ_of_ne_zero
        (Nat.ne_of_gt (Nat.lt_of_lt_of_le (Nat.succ_pos _) hf'))
      rw [readLoop, readLoop]
      cases hitem : item s (a :: l) with
      | error e => rfl
      | ok r =>
        have hlt := hc s (a :: l) r.1 r.2 hitem
        exact ih (by omega) (by omega)

/-- **One turn of the loop.** -/
theorem readAll_step (hc : Consumes item) {s s' : σ} {l rest : List α}
    (h : item s l = .ok (s', rest)) : readAll item s l = readAll item s' rest := by
  have hlt := hc _ _ _ _ h
  cases l with
  | nil => exact absurd hlt (Nat.not_lt_zero _)
  | cons a l =>
    rw [List.length_cons] at hlt
    rw [readAll, List.length_cons, readLoop, h]
    exact readLoop_fuel hc (by omega) (Nat.le_refl _)

/-- The loop that ends well on some input has read an item of it. -/
theorem exists_of_readAll (hc : Consumes item) {s s' : σ} {l : List α}
    (h : readAll item s l = .ok s') (hl : l ≠ []) :
    ∃ s₁ rest, item s l = .ok (s₁, rest) ∧ readAll item s₁ rest = .ok s' := by
  cases hitem : item s l with
  | error e =>
    cases l with
    | nil => exact absurd rfl hl
    | cons a l =>
      rw [readAll, List.length_cons, readLoop, hitem] at h
      cases h
  | ok r => exact ⟨r.1, r.2, rfl, readAll_step hc hitem ▸ h⟩

@[simp] theorem readAll_nil (s : σ) : readAll item s [] = .ok s := rfl

/-- **Reading back what was written item by item.** -/
theorem readAll_flatMap {β : Type*} (hc : Consumes item) (write : β → List α) (step : σ → β → σ)
    (xs : List β) (rest : List α)
    (h : ∀ s, ∀ x ∈ xs, ∀ rest, item s (write x ++ rest) = .ok (step s x, rest)) (s : σ) :
    readAll item s (xs.flatMap write ++ rest) = readAll item (xs.foldl step s) rest := by
  induction xs generalizing s with
  | nil => rfl
  | cons x xs ih =>
    rw [List.flatMap_cons, List.append_assoc,
      readAll_step hc (h s x List.mem_cons_self _), List.foldl_cons]
    exact ih (fun s y hy => h s y (List.mem_cons_of_mem x hy)) _

/-- **The induction rule of the loop**: what every item keeps holds at the end. -/
theorem readAll_invariant {P : σ → Prop}
    (hstep : ∀ s l s' rest, P s → item s l = .ok (s', rest) → P s') {s s' : σ} {l : List α}
    (hs : P s) (h : readAll item s l = .ok s') : P s' := by
  have hloop (fuel : ℕ) : ∀ s l, P s → readLoop item fuel s l = .ok s' → P s' := by
    induction fuel with
    | zero =>
      rintro s l hs h
      rw [← Except.ok.inj h]
      exact hs
    | succ fuel ih =>
      rintro s (_ | ⟨a, l⟩) hs h
      · rw [← Except.ok.inj h]
        exact hs
      · rw [readLoop] at h
        cases hitem : item s (a :: l) with
        | error e =>
          rw [hitem] at h
          cases h
        | ok r =>
          rw [hitem] at h
          exact ih r.1 r.2 (hstep s (a :: l) r.1 r.2 hs hitem) h
  exact hloop l.length s l hs h

end EvansComputer
