import EvansComputer.Cell.WireReads

/-!
# The slots of a grant

A grant allows the slots of its window whose place in the period, counted from its offset,
is before its length.  The place is a `u64` sum, which can be more than a `u64` holds; then
the answer is `none`, for an addition that overflows is an error of the program.  Slots are
numbers below `2 ^ 64`.

Of any slots in a row that are as many as the period, one has the first place
(`exists_place_zero`): that is why the search for the next run ends.
-/

namespace EvansComputer.Cell

namespace Grant

/-- `(slot + period - offset) % period` -/
def place (g : Grant) (slot : ℕ) : ℕ := (slot + g.period.toNat - g.offset.toNat) % g.period.toNat

/-- The same, where no step of it fails. -/
def phase (g : Grant) (slot : ℕ) : Option ℕ :=
  if slot + g.period.toNat < 2 ^ 64 ∧ g.offset.toNat ≤ slot + g.period.toNat ∧ g.period ≠ 0 then
    some (g.place slot)
  else none

/-- May a frame start in `slot`? -/
def allows (g : Grant) (slot : ℕ) : Option Bool :=
  if g.fromSlot.toNat ≤ slot ∧ slot < g.toSlot.toNat then do
    let ph ← g.phase slot
    return ph < g.len.toNat
  else some false

/-- The loop of `nextRun`. -/
def nextRunFrom (g : Grant) : ℕ → ℕ → Option (Option (ℕ × ℕ))
  | 0, _ => some none
  | n + 1, s =>
    if s ≥ g.toSlot.toNat then some none
    else do
      let ph ← g.phase s
      if ph < g.len.toNat then return some (s, min (g.len.toNat - ph) (g.toSlot.toNat - s))
      g.nextRunFrom n (s + 1)

/-- The first slot from `slot` on that this grant allows, with how many consecutive slots the
run has left from there. -/
def nextRun (g : Grant) (slot : ℕ) : Option (Option (ℕ × ℕ)) :=
  g.nextRunFrom (g.period.toNat + 1) (max slot g.fromSlot.toNat)

/-- Every slot of the window and a period more is a `u64`. -/
def Fits (g : Grant) : Prop := g.fromSlot < g.toSlot → g.toSlot.toNat + g.period.toNat ≤ 2 ^ 64

variable {g : Grant} {slot s n : ℕ}

section

variable (h : g.WellFormed)
include h

theorem WellFormed.period_pos : 0 < g.period.toNat :=
  Nat.pos_of_ne_zero fun hz => h.period (UInt16.toNat_inj.mp hz)

theorem WellFormed.len_pos : 0 < g.len.toNat :=
  Nat.pos_of_ne_zero fun hz => h.len (UInt16.toNat_inj.mp hz)

theorem WellFormed.len_le : g.len.toNat ≤ g.period.toNat := UInt16.le_iff_toNat_le.mp h.fits

theorem WellFormed.offset_lt : g.offset.toNat < g.period.toNat := UInt16.lt_iff_toNat_lt.mp h.offset

theorem WellFormed.phase_eq (hslot : slot + g.period.toNat < 2 ^ 64) :
    g.phase slot = some (g.place slot) := by
  have hoffset := h.offset_lt
  exact if_pos ⟨hslot, by omega, h.period⟩

omit h in
theorem phase_eq_none (hslot : 2 ^ 64 ≤ slot + g.period.toNat) : g.phase slot = none :=
  if_neg fun h => absurd h.1 (Nat.not_lt.mpr hslot)

omit h in
/-- A slot of the window can be asked for. -/
theorem Fits.lt (h : g.Fits) (hfrom : g.fromSlot.toNat ≤ slot) (hto : slot < g.toSlot.toNat) :
    slot + g.period.toNat < 2 ^ 64 := by
  have := h (UInt64.lt_iff_toNat_lt.mpr (by omega))
  omega

theorem WellFormed.allows_eq (hfits : g.Fits) (hfrom : g.fromSlot.toNat ≤ slot)
    (hto : slot < g.toSlot.toNat) : g.allows slot = some (decide (g.place slot < g.len.toNat)) := by
  rw [allows, if_pos ⟨hfrom, hto⟩, h.phase_eq (hfits.lt hfrom hto)]
  rfl

omit h in
theorem allows_outside (h : ¬ (g.fromSlot.toNat ≤ slot ∧ slot < g.toSlot.toNat)) :
    g.allows slot = some false :=
  if_neg h

/-- The next slot has the next place, within a period. -/
theorem WellFormed.place_add {d : ℕ} (hd : g.place slot + d < g.period.toNat) :
    g.place (slot + d) = g.place slot + d := by
  have hoffset := h.offset_lt
  unfold place at hd ⊢
  rw [show slot + d + g.period.toNat - g.offset.toNat = slot + g.period.toNat -
    g.offset.toNat + d by omega,
    Nat.add_mod, Nat.mod_eq_of_lt (show d < g.period.toNat by omega), Nat.mod_eq_of_lt hd]

/-- **One of any slots in a row, as many as the period, has the first place.** -/
theorem WellFormed.exists_place_zero (a : ℕ) :
    ∃ s, a ≤ s ∧ s < a + g.period.toNat ∧ g.place s = 0 := by
  have hoffset := h.offset_lt
  have hpos := h.period_pos
  have hmod := Nat.mod_lt (a + g.period.toNat - g.offset.toNat) hpos
  by_cases hzero : g.place a = 0
  · exact ⟨a, le_rfl, by omega, hzero⟩
  · have hlt : g.place a < g.period.toNat := hmod
    refine ⟨a + (g.period.toNat - g.place a), by omega, by omega, ?_⟩
    have hsum : a + (g.period.toNat - g.place a) + g.period.toNat - g.offset.toNat =
        (a + g.period.toNat - g.offset.toNat) + (g.period.toNat - g.place a) := by omega
    have hdiv := Nat.div_add_mod (a + g.period.toNat - g.offset.toNat) g.period.toNat
    have hplace : (a + g.period.toNat - g.offset.toNat) % g.period.toNat = g.place a := rfl
    rw [hplace] at hdiv
    rw [place, hsum, ← hdiv, Nat.add_assoc, Nat.mul_add_mod,
      show g.place a + (g.period.toNat - g.place a) =
      g.period.toNat by omega, Nat.mod_self]

/-! ## The next run -/

/-- What the search for the next run promises: the first slot that is allowed, and a run of
slots that are; and nothing only where no slot is allowed any more. -/
def Answers (g : Grant) (slot : ℕ) : Option (ℕ × ℕ) → Prop
  | some (s, run) =>
    slot ≤ s ∧ 0 < run ∧ (∀ t, s ≤ t → t < s + run → g.allows t = some true) ∧
      ∀ t, slot ≤ t → t < s → g.allows t = some false
  | none => ∀ t, slot ≤ t → t < 2 ^ 64 → g.allows t = some false

/-- The search from slot `s` on, when nothing from `slot` to there is allowed. -/
theorem WellFormed.nextRunFrom_spec (hfits : g.Fits) (hfrom : g.fromSlot.toNat ≤ s)
    (hslot : slot ≤ s) (hbefore : ∀ t, slot ≤ t → t < s → g.allows t = some false) :
    ∃ r, g.nextRunFrom n s = some r ∧
      ((r = none ∧ s + n ≤ g.toSlot.toNat ∧ ∀ t, s ≤ t → t < s + n → g.allows t = some false) ∨
        g.Answers slot r) := by
  induction n generalizing s with
  | zero =>
    by_cases hend : s ≤ g.toSlot.toNat
    · exact ⟨none, rfl, .inl ⟨rfl, hend, fun t _ _ => by omega⟩⟩
    · refine ⟨none, rfl, .inr fun t ht _ => ?_⟩
      by_cases hts : t < s
      · exact hbefore t ht hts
      · exact allows_outside fun hin => by omega
  | succ n ih =>
    unfold nextRunFrom
    by_cases hend : s ≥ g.toSlot.toNat
    · rw [if_pos hend]
      refine ⟨none, rfl, .inr fun t ht _ => ?_⟩
      by_cases hts : t < s
      · exact hbefore t ht hts
      · exact allows_outside fun hin => by omega
    · rw [if_neg hend, h.phase_eq (hfits.lt hfrom (by omega))]
      change ∃ r, (if g.place s < g.len.toNat then _ else _ : Option _) = some r ∧ _
      by_cases hin : g.place s < g.len.toNat
      · rw [if_pos hin]
        have hlen := h.len_le
        refine ⟨_, rfl, .inr ⟨hslot, by omega, fun t hst hts => ?_, hbefore⟩⟩
        have hplace : g.place (s + (t - s)) = g.place s + (t - s) := h.place_add (by omega)
        rw [h.allows_eq hfits (by omega) (by omega), show t = s + (t - s) by omega, hplace]
        exact congrArg some (decide_eq_true (by omega))
      · rw [if_neg hin]
        have hs : g.allows s = some false := by
          rw [h.allows_eq hfits hfrom (by omega), decide_eq_false hin]
        have hnext (t : ℕ) (ht : slot ≤ t) (hts : t < s + 1) : g.allows t = some false := by
          rcases Nat.lt_succ_iff_lt_or_eq.mp hts with hlt | rfl
          · exact hbefore t ht hlt
          · exact hs
        obtain ⟨r, hr, hspec⟩ := ih (by omega) (by omega) hnext
        refine ⟨r, hr, hspec.imp_left ?_⟩
        rintro ⟨rfl, hfuel, hall⟩
        refine ⟨rfl, by omega, fun t hst hts => ?_⟩
        by_cases hts' : t = s
        · rw [hts', hs]
        · exact hall t (by omega) (by omega)

/-- **The search finds the first run that is left**, when the slots of the window fit. -/
theorem WellFormed.nextRun_spec (hfits : g.Fits) (slot : ℕ) :
    ∃ r, g.nextRun slot = some r ∧ g.Answers slot r := by
  have hbefore (t : ℕ) (ht : slot ≤ t) (hts : t < max slot g.fromSlot.toNat) :
    g.allows t = some false :=
    allows_outside fun hin => by omega
  obtain ⟨r, hr, hspec⟩ := h.nextRunFrom_spec (n := g.period.toNat + 1) hfits (le_max_right slot _)
    (le_max_left slot _) hbefore
  refine ⟨r, hr, hspec.resolve_left ?_⟩
  -- a whole period of slots would be refused, and one of them has the first place
  rintro ⟨-, hend, hall⟩
  obtain ⟨s, hle, hlt, hzero⟩ := h.exists_place_zero (max slot g.fromSlot.toNat)
  have hs := hall s hle (by omega)
  rw [h.allows_eq hfits (by omega) (by omega), hzero, decide_eq_true h.len_pos] at hs
  cases hs

/-- The search keeps its promise for every slot exactly when the slots of the window fit. -/
theorem WellFormed.nextRun_iff :
    (∀ slot < 2 ^ 64, ∃ r, g.nextRun slot = some r ∧ g.Answers slot r) ↔ g.Fits := by
  refine ⟨fun hall hlt => ?_, fun hfits slot _ => h.nextRun_spec hfits slot⟩
  have hlt' := UInt64.lt_iff_toNat_lt.mp hlt
  have hto := g.toSlot.toNat_lt
  by_contra hover
  -- the last slot of the window cannot be asked for
  obtain ⟨r, hr, -⟩ := hall (g.toSlot.toNat - 1) (by omega)
  rw [nextRun, nextRunFrom, Nat.max_eq_left (by omega), if_neg (by omega),
    phase_eq_none (by omega)] at hr
  cases hr

end

end EvansComputer.Cell.Grant
