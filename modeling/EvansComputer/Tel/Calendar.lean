import Mathlib

/-!
# The calendar of the game clock

Days are counted from 1970-01-01 and milliseconds from the in-game epoch, 2000-01-01.  A date is
computed with years that begin in March, so that the day of a leap year comes last: `yearStart`
counts the days before such a year, and a date is a year and a day of it (`civil_spec`).

The divisions of the source round to zero, and those here downwards; they divide what is not
negative, apart from those by `div_euclid`.
-/

namespace EvansComputer.Tel

/-- The time of a text: two digits of the year, and the quarters of an hour that its zone is
ahead. -/
structure Timestamp where
  year : ℕ
  month : ℕ
  day : ℕ
  hour : ℕ
  minute : ℕ
  second : ℕ
  tzQuarters : ℤ
  deriving DecidableEq

/-- Days from 1970-01-01 to 2000-01-01, the in-game clock epoch. -/
def epoch2000Days : ℤ := 10957

def civilFromDays (z : ℤ) : ℤ × ℤ × ℤ :=
  let z := z + 719468
  let era := z / 146097
  let doe := z % 146097
  let yoe := (doe - doe / 1460 + doe / 36524 - doe / 146096) / 365
  let doy := doe - (365 * yoe + yoe / 4 - yoe / 100)
  let mp := (5 * doy + 2) / 153
  let d := doy - (153 * mp + 2) / 5 + 1
  let m := if mp < 10 then mp + 3 else mp - 9
  (yoe + era * 400 + (if m ≤ 2 then 1 else 0), m, d)

def daysFromCivil (y m d : ℤ) : ℤ :=
  let y := if m ≤ 2 then y - 1 else y
  let era := y / 400
  let yoe := y - era * 400
  let mp := (m + 9) % 12
  let doy := (153 * mp + 2) / 5 + d - 1
  let doe := yoe * 365 + yoe / 4 - yoe / 100 + doy
  era * 146097 + doe - 719468

namespace Timestamp

/-- `as u8`. -/
def asU8 (v : ℤ) : ℕ := (v % 256).toNat

/-- The calendar time `ms` milliseconds after the in-game epoch. -/
def fromGameMillis (ms : ℕ) : Timestamp :=
  let secs := ms / 1000
  let days := secs / 86400
  let sod := secs % 86400
  let (y, m, d) := civilFromDays (days + epoch2000Days)
  { year := asU8 (y % 100)
    month := asU8 m
    day := asU8 d
    hour := asU8 (sod / 3600)
    minute := asU8 (sod / 60 % 60)
    second := asU8 (sod % 60)
    tzQuarters := 0 }

/-- Milliseconds after the epoch, the year read as 20YY and the offset removed. -/
def toGameMillis (t : Timestamp) : ℕ :=
  let days := daysFromCivil (2000 + t.year) t.month t.day - epoch2000Days
  let secs := days * 86400 + t.hour * 3600 + t.minute * 60 + t.second - t.tzQuarters * 900
  (max secs 0).toNat * 1000

end Timestamp

/-- Minutes that a relative validity period stands for. -/
def relativeMinutes (vp : UInt8) : ℕ :=
  if vp.toNat ≤ 143 then (vp.toNat + 1) * 5
  else if vp.toNat ≤ 167 then 720 + (vp.toNat - 143) * 30
  else if vp.toNat ≤ 196 then (vp.toNat - 166) * 1440
  else (vp.toNat - 192) * 10080

/-- The smallest relative period that lasts at least `minutes`. -/
def relativeFromMinutes (minutes : UInt32) : UInt8 :=
  (((List.range 256).map UInt8.ofNat).find? fun vp => relativeMinutes vp ≥ minutes.toNat).getD 0xFF

/-! ## The Gregorian calendar -/

def IsLeap (y : ℤ) : Prop := y % 4 = 0 ∧ (y % 100 ≠ 0 ∨ y % 400 = 0)

instance (y : ℤ) : Decidable (IsLeap y) := inferInstanceAs (Decidable (_ ∧ _))

def monthLength (y m : ℤ) : ℤ :=
  if m = 2 then if IsLeap y then 29 else 28
  else if m = 4 ∨ m = 6 ∨ m = 9 ∨ m = 11 then 30
  else 31

structure ValidDate (y m d : ℤ) : Prop where
  month : 1 ≤ m ∧ m ≤ 12
  day : 1 ≤ d ∧ d ≤ monthLength y m

/-- One date is before another. -/
def Before (a b : ℤ × ℤ × ℤ) : Prop :=
  a.1 < b.1 ∨ a.1 = b.1 ∧ (a.2.1 < b.2.1 ∨ a.2.1 = b.2.1 ∧ a.2.2 < b.2.2)

/-- The days before the year that begins in March. -/
def yearStart (y : ℤ) : ℤ := 365 * y + y / 4 - y / 100 + y / 400

theorem yearStart_lt {y y' : ℤ} (h : y < y') : yearStart y + 365 ≤ yearStart y' := by
  have hcent (n : ℤ) : n / 100 = n / 4 / 25 := by omega
  have hquarter : y / 4 ≤ y' / 4 := Int.ediv_le_ediv (by decide) h.le
  have hera : y / 400 ≤ y' / 400 := Int.ediv_le_ediv (by decide) h.le
  unfold yearStart
  rw [hcent y, hcent y']
  generalize y / 4 = k at hquarter ⊢
  generalize y' / 4 = k' at hquarter ⊢
  omega

/-- The year that begins in March is longer by a day when the next has one. -/
theorem yearStart_succ (y : ℤ) :
    yearStart (y + 1) = yearStart y + if IsLeap (y + 1) then 366 else 365 := by
  unfold yearStart IsLeap
  split_ifs <;> omega

/-- **The year of the era**: leap days let the years be counted by a division. -/
theorem yoe_spec {doe : ℤ} (h0 : 0 ≤ doe) (h1 : doe < 146097) :
    let yoe := (doe - doe / 1460 + doe / 36524 - doe / 146096) / 365
    0 ≤ yoe ∧ yoe < 400 ∧ yearStart yoe ≤ doe ∧ doe < yearStart (yoe + 1) := by
  intro yoe
  obtain ⟨y, hy⟩ : ∃ y, y = yoe := ⟨_, rfl⟩
  rw [← hy]
  generalize hq : doe / 1460 = q
  generalize hb : doe / 36524 = b
  generalize hc : doe / 146096 = c
  have hyear : 365 * y ≤ doe - q + b - c ∧ doe - q + b - c < 365 * (y + 1) := by
    simp only [yoe, hq, hb, hc] at hy
    omega
  have hqb : 25 * b ≤ q := by omega
  have hlast : c = 0 ∨ c = 1 ∧ doe = 146096 := by omega
  clear hy
  clear_value yoe
  unfold yearStart
  refine ⟨by omega, by omega, ?_, ?_⟩
  · by_contra hlt
    have hby : b ≤ y / 100 := by omega
    have hshort : doe < 1460 * (y / 4) := by omega
    omega
  · by_contra hge
    have hquarter : 25 * ((y + 1) / 100) ≤ (y + 1) / 4 := by omega
    have hera : 0 ≤ (y + 1) / 400 := by omega
    have hby : (y + 1) / 100 ≤ b := by omega
    rcases hlast with hlast | ⟨hlast, hdoe⟩
    · have hqy : (y + 1) / 4 < q := by omega
      omega
    · omega

/-- **What a date is computed from**: a year that begins in March, and a day of it. -/
theorem civil_spec (z : ℤ) : ∃ y doy : ℤ, z + 719468 = yearStart y + doy ∧ 0 ≤ doy ∧
    yearStart y + doy < yearStart (y + 1) ∧
    civilFromDays z = (y + (if (5 * doy + 2) / 153 < 10 then 0 else 1),
      (if (5 * doy + 2) / 153 < 10 then (5 * doy + 2) / 153 + 3 else (5 * doy + 2) / 153 - 9),
      doy - (153 * ((5 * doy + 2) / 153) + 2) / 5 + 1) := by
  generalize hz : z + 719468 = n
  have hdoe := Int.emod_nonneg n (by decide : (146097 : ℤ) ≠ 0)
  have hdoe' := Int.emod_lt_of_pos n (by decide : (0 : ℤ) < 146097)
  have hdiv := Int.emod_add_mul_ediv n 146097
  obtain ⟨h0, h400, hle, hlt⟩ := yoe_spec hdoe hdoe'
  unfold civilFromDays
  simp only [hz]
  generalize n / 146097 = era at hdiv ⊢
  generalize n % 146097 = doe at *
  generalize (doe - doe / 1460 + doe / 36524 - doe / 146096) / 365 = yoe at *
  have hstart (k : ℤ) : yearStart (k + era * 400) = yearStart k + era * 146097 := by
    unfold yearStart
    omega
  have hyoe : yearStart yoe = 365 * yoe + yoe / 4 - yoe / 100 := by
    unfold yearStart
    omega
  rw [hyoe] at hle
  refine ⟨yoe + era * 400, doe - (365 * yoe + yoe / 4 - yoe / 100), ?_, by omega, ?_, ?_⟩
  · rw [hstart, hyoe]
    omega
  · rw [hstart, show yoe + era * 400 + 1 = yoe + 1 + era * 400 by omega, hstart, hyoe]
    omega
  · have hday : 0 ≤ doe - (365 * yoe + yoe / 4 - yoe / 100) := by omega
    have hshort : doe - (365 * yoe + yoe / 4 - yoe / 100) < 366 := by
      have hlength := yearStart_succ yoe
      split_ifs at hlength <;> omega
    generalize doe - (365 * yoe + yoe / 4 - yoe / 100) = doy at *
    generalize hmp : (5 * doy + 2) / 153 = mp
    rw [Prod.mk.injEq]
    refine ⟨?_, rfl⟩
    split_ifs <;> omega

/-- **Every day has a valid date.** -/
theorem validDate_civil (z : ℤ) :
    ValidDate (civilFromDays z).1 (civilFromDays z).2.1 (civilFromDays z).2.2 := by
  obtain ⟨y, doy, -, hday, hshort, hcivil⟩ := civil_spec z
  have hlength := yearStart_succ y
  rw [hcivil]
  dsimp only
  generalize hmp : (5 * doy + 2) / 153 = mp
  have hmp' : 0 ≤ mp ∧ mp ≤ 11 := by
    split_ifs at hlength <;> omega
  refine ⟨by split_ifs <;> omega, by omega, ?_⟩
  unfold monthLength
  obtain ⟨hlow, hhigh⟩ := hmp'
  by_cases hfeb : mp = 11
  · subst hfeb
    simp only [show ¬ (11 : ℤ) < 10 by decide, if_false]
    rw [if_pos (by decide)]
    split_ifs at hlength ⊢ <;> omega
  · interval_cases mp <;> simp <;> omega

theorem days_civil (z : ℤ) :
    daysFromCivil (civilFromDays z).1 (civilFromDays z).2.1 (civilFromDays z).2.2 = z := by
  obtain ⟨y, doy, hz, hday, hshort, hcivil⟩ := civil_spec z
  have hlength := yearStart_succ y
  rw [hcivil]
  unfold daysFromCivil
  dsimp only
  generalize hmp : (5 * doy + 2) / 153 = mp
  have hmp' : 0 ≤ mp ∧ mp ≤ 11 := by
    split_ifs at hlength <;> omega
  have hback : (if (if mp < 10 then mp + 3 else mp - 9) ≤ 2 then y + (if mp < 10 then 0 else 1) - 1
      else y + (if mp < 10 then 0 else 1)) = y := by
    split_ifs <;> omega
  have hmonth : ((if mp < 10 then mp + 3 else mp - 9) + 9) % 12 = mp := by
    split_ifs <;> omega
  rw [hback, hmonth]
  unfold yearStart at hz
  omega

/-- **Dates are strictly increasing.** -/
theorem civil_before {z z' : ℤ} (h : z < z') : Before (civilFromDays z) (civilFromDays z') := by
  obtain ⟨y, doy, hz, hday, hshort, hcivil⟩ := civil_spec z
  obtain ⟨y', doy', hz', hday', hshort', hcivil'⟩ := civil_spec z'
  have hyear : y < y' ∨ y = y' ∧ doy < doy' := by
    rcases lt_trichotomy y y' with hlt | rfl | hgt
    · exact .inl hlt
    · exact .inr ⟨rfl, by omega⟩
    · have hnext : yearStart (y' + 1) ≤ yearStart y := by
        rcases eq_or_lt_of_le (show y' + 1 ≤ y from hgt) with heq | hlt
        · rw [heq]
        · have := yearStart_lt hlt
          omega
      omega
  have hlength := yearStart_succ y
  have hlength' := yearStart_succ y'
  have hlong : doy < 366 := by split_ifs at hlength <;> omega
  have hlong' : doy' < 366 := by split_ifs at hlength' <;> omega
  rw [hcivil, hcivil']
  unfold Before
  dsimp only
  generalize hmp : (5 * doy + 2) / 153 = mp
  generalize hmp' : (5 * doy' + 2) / 153 = mp'
  rcases hyear with hyear | ⟨rfl, hdoy⟩
  · split_ifs <;> omega
  · have hle : mp ≤ mp' := by omega
    split_ifs <;> omega

/-! ## The game clock -/

namespace Timestamp

theorem asU8_of_lt {v : ℤ} (h0 : 0 ≤ v) (h : v < 256) : (asU8 v : ℤ) = v := by
  unfold asU8
  omega

theorem game_year {days : ℤ} (h0 : 0 ≤ days) (h : days < daysFromCivil 2100 1 1 - epoch2000Days) :
    2000 ≤ (civilFromDays (days + epoch2000Days)).1 ∧
      (civilFromDays (days + epoch2000Days)).1 < 2100 := by
  have hfirst : civilFromDays epoch2000Days = (2000, 1, 1) := by decide
  have hend : civilFromDays (daysFromCivil 2100 1 1) = (2100, 1, 1) := by decide
  obtain ⟨hmonth, hday⟩ := validDate_civil (days + epoch2000Days)
  constructor
  · rcases eq_or_lt_of_le h0 with rfl | hpos
    · rw [zero_add, hfirst]
    · have hbefore := civil_before (show epoch2000Days < days + epoch2000Days by omega)
      rw [hfirst] at hbefore
      unfold Before at hbefore
      omega
  · have hbefore := civil_before (show days + epoch2000Days < daysFromCivil 2100 1 1 by omega)
    rw [hend] at hbefore
    unfold Before at hbefore
    dsimp only at hbefore
    omega

/-- **The time of the game clock**, and back. -/
theorem game_time {ms : ℕ} (h : (ms : ℤ) < (daysFromCivil 2100 1 1 - epoch2000Days) * 86400000) :
    ValidDate (2000 + (fromGameMillis ms).year) (fromGameMillis ms).month (fromGameMillis ms).day ∧
      (fromGameMillis ms).hour < 24 ∧ (fromGameMillis ms).minute < 60 ∧
      (fromGameMillis ms).second < 60 ∧
      (fromGameMillis ms).toGameMillis = ms / 1000 * 1000 := by
  have hnonneg : (0 : ℤ) ≤ (ms / 1000 / 86400 : ℕ) := by omega
  obtain ⟨hfrom, hto⟩ := game_year hnonneg (by omega)
  have hvalid := validDate_civil ((ms / 1000 / 86400 : ℕ) + epoch2000Days)
  have hback := days_civil ((ms / 1000 / 86400 : ℕ) + epoch2000Days)
  have hdays : ms / 1000 = 86400 * (ms / 1000 / 86400) + ms / 1000 % 86400 :=
    (Nat.div_add_mod _ _).symm
  have hsod : ms / 1000 % 86400 < 86400 := Nat.mod_lt _ (by decide)
  unfold toGameMillis fromGameMillis
  dsimp only
  generalize ms / 1000 % 86400 = sod at *
  generalize civilFromDays ((ms / 1000 / 86400 : ℕ) + epoch2000Days) = date at *
  obtain ⟨y, m, d⟩ := date
  obtain ⟨hmonth, hday⟩ := hvalid
  have hlong : monthLength y m ≤ 31 := by
    unfold monthLength
    split_ifs <;> decide
  dsimp only at *
  have hy : (2000 + (asU8 (y % 100) : ℤ)) = y := by
    rw [asU8_of_lt (by omega) (by omega)]
    omega
  have hhour := asU8_of_lt (v := sod / 3600) (by omega) (by omega)
  have hminute := asU8_of_lt (v := sod / 60 % 60) (by omega) (by omega)
  have hsecond := asU8_of_lt (v := sod % 60) (by omega) (by omega)
  rw [hy, asU8_of_lt (v := m) (by omega) (by omega),
    asU8_of_lt (v := d) (by omega) (by omega), hback]
  refine ⟨⟨hmonth, hday⟩, by omega, by omega, by omega, ?_⟩
  rw [hhour, hminute, hsecond]
  generalize (epoch2000Days : ℤ) = epoch
  generalize hdays' : ms / 1000 / 86400 = days at *
  clear * - hdays
  have hsecs : ((days : ℤ) + epoch - epoch) * 86400 + (sod : ℤ) / 3600 * 3600 + (sod : ℤ) / 60 %
    60 * 60 + (sod : ℤ) % 60 - 0 * 900 =
      (ms / 1000 : ℕ) := by
    omega
  rw [hsecs, max_eq_left (Int.natCast_nonneg _), Int.toNat_natCast]

end Timestamp

/-- **Validity periods**: the least code that lasts long enough. -/
theorem relativeFromMinutes_spec {minutes : UInt32} (h : ∃ vp, minutes.toNat ≤ relativeMinutes vp) :
    minutes.toNat ≤ relativeMinutes (relativeFromMinutes minutes) ∧
      ∀ vp, minutes.toNat ≤ relativeMinutes vp → relativeFromMinutes minutes ≤ vp := by
  unfold relativeFromMinutes
  cases hfind : ((List.range 256).map UInt8.ofNat).find? fun vp =>
    relativeMinutes vp ≥ minutes.toNat with
  | none =>
    obtain ⟨vp, hvp⟩ := h
    have hno := List.find?_eq_none.mp hfind vp
      (List.mem_map.mpr ⟨vp.toNat, List.mem_range.mpr vp.toNat_lt, UInt8.ofNat_toNat⟩)
    exact absurd (decide_eq_true hvp) hno
  | some first =>
    obtain ⟨hfirst, i, hi, rfl, hbefore⟩ := List.find?_eq_some_iff_getElem.mp hfind
    refine ⟨of_decide_eq_true hfirst, fun vp hvp => ?_⟩
    rw [List.length_map, List.length_range] at hi
    rw [List.getElem_map, List.getElem_range, Option.getD_some, UInt8.le_iff_toNat_le,
      UInt8.toNat_ofNat', Nat.mod_eq_of_lt hi]
    by_contra hlt
    have hno := hbefore vp.toNat (not_le.mp hlt)
    rw [List.getElem_map, List.getElem_range, UInt8.ofNat_toNat] at hno
    simp [hvp] at hno

/-- **Calendar arithmetic.** -/
theorem game_calendar :
    (∀ ms : ℕ, (ms : ℤ) < (daysFromCivil 2100 1 1 - epoch2000Days) * 86400000 →
      let t := Timestamp.fromGameMillis ms
      ValidDate (2000 + t.year) t.month t.day ∧ t.hour < 24 ∧ t.minute < 60 ∧ t.second < 60 ∧
        t.toGameMillis = ms / 1000 * 1000) ∧
      (∀ z, daysFromCivil (civilFromDays z).1 (civilFromDays z).2.1 (civilFromDays z).2.2 = z) ∧
      (∀ z z', z < z' → Before (civilFromDays z) (civilFromDays z')) ∧
      ∀ minutes : UInt32, (∃ vp, minutes.toNat ≤ relativeMinutes vp) →
        minutes.toNat ≤ relativeMinutes (relativeFromMinutes minutes) ∧
          ∀ vp, minutes.toNat ≤ relativeMinutes vp → relativeFromMinutes minutes ≤ vp :=
  ⟨fun _ h => Timestamp.game_time h, days_civil, fun _ _ => civil_before,
    fun _ => relativeFromMinutes_spec⟩

/-- The first millisecond of 2024-02-29. -/
theorem game_leapDay : (Timestamp.fromGameMillis 762480000001).toGameMillis = 762480000000 :=
  (game_calendar.1 762480000001 (by decide)).2.2.2.2

end EvansComputer.Tel
