import Mathlib.Data.List.Basic
import Mathlib.Data.List.Infix

/-!
# Slices of a log that only grows

A reader that follows a growing log `W` holds pieces of it, each with the index
it starts at.  `SliceAt W i d` says that `d` is what `W` has at `i`.  Slices pass
to their own prefixes and suffixes, adjacent slices join, and a slice of a log
is a slice of every later log; a slice at the end of the log is empty.
-/

namespace EvansComputer

variable {α : Type*} {W W' d e : List α} {i j : ℕ}

/-- The list `d` stands in `W` at index `i`. -/
def SliceAt (W : List α) (i : ℕ) (d : List α) : Prop := d <+: W.drop i

namespace SliceAt

theorem take (h : SliceAt W i d) (j : ℕ) : SliceAt W i (d.take j) :=
  (List.take_prefix j d).trans h

theorem drop (h : SliceAt W i d) (j : ℕ) : SliceAt W (i + j) (d.drop j) := by
  have hd := List.IsPrefix.drop h j
  rwa [List.drop_drop] at hd

/-- Two slices, the second starting where the first ends. -/
theorem append (h : SliceAt W i d) (h' : SliceAt W (i + d.length) e) : SliceAt W i (d ++ e) := by
  obtain ⟨rest, hrest⟩ := h
  have hdrop : W.drop (i + d.length) = rest := by
    rw [← List.drop_drop, ← hrest, List.drop_left]
  obtain ⟨rest', hrest'⟩ := h'
  refine ⟨rest', ?_⟩
  rw [List.append_assoc, hrest', hdrop, hrest]

/-- The log may have grown since. -/
theorem mono (h : SliceAt W i d) (hW : W <+: W') : SliceAt W' i d :=
  List.IsPrefix.trans h (hW.drop i)

theorem length_le (h : SliceAt W i d) : d.length ≤ W.length - i := by
  have hl := List.IsPrefix.length_le h
  rwa [List.length_drop] at hl

/-- A prefix of the log, continued by the slice that follows it. -/
theorem append_prefix (hd : d <+: W) (h : SliceAt W d.length e) : d ++ e <+: W := by
  have hd' : SliceAt W 0 d := by rwa [SliceAt, List.drop_zero]
  have hjoin := hd'.append (by rwa [Nat.zero_add])
  rwa [SliceAt, List.drop_zero] at hjoin

end EvansComputer.SliceAt
