import Mathlib.Data.List.Basic
import Mathlib.Data.List.Infix

/-!
# Buffers of fixed length

A program that rewrites a packet in place reads ranges of a buffer and copies
over ranges of it, and stops with a bounds failure when a range does not lie
inside.  `slice` and `copyInto` return `none` exactly there, so that a function
written with them is `some _` precisely on the inputs it does not fail on.

A proof about a sequence of copies never takes the buffer apart.  It obtains the
result of each operation from `exists_slice` or `exists_copyInto`, and reads it
byte by byte.
-/

namespace EvansComputer

variable {α : Type*} {l d : List α} {i j : ℕ}

/-- The range `l[i..j]`. -/
def slice (l : List α) (i j : ℕ) : Option (List α) :=
  if i ≤ j ∧ j ≤ l.length then some ((l.take j).drop i) else none

/-- The buffer `l` with `d` in place of what stood at `i`. -/
def overwrite (l : List α) (i : ℕ) (d : List α) : List α :=
  l.take i ++ d ++ l.drop (i + d.length)

/-- `l[i..j].copy_from_slice(d)`: the range lies in the buffer and has the
length of `d`. -/
def copyInto (l : List α) (i j : ℕ) (d : List α) : Option (List α) :=
  if i ≤ j ∧ j ≤ l.length ∧ d.length = j - i then some (overwrite l i d) else none

theorem length_overwrite (h : i + d.length ≤ l.length) : (overwrite l i d).length = l.length := by
  simp only [overwrite, List.length_append, List.length_take, List.length_drop]
  omega

/-- **A copy, byte by byte**: the new bytes inside its range, the old ones
outside. -/
theorem getElem?_overwrite (h : i + d.length ≤ l.length) (k : ℕ) :
    (overwrite l i d)[k]? = if i ≤ k ∧ k < i + d.length then d[k - i]? else l[k]? := by
  have hlen : (l.take i).length = i := by rw [List.length_take]; omega
  rw [overwrite, List.append_assoc]
  by_cases hik : k < i
  · rw [if_neg (by omega), List.getElem?_append_left (by omega), List.getElem?_take_of_lt hik]
  · rw [List.getElem?_append_right (by omega), hlen]
    by_cases hkd : k < i + d.length
    · rw [if_pos ⟨by omega, hkd⟩, List.getElem?_append_left (by omega)]
    · rw [if_neg (by omega), List.getElem?_append_right (by omega), List.getElem?_drop]
      congr 1
      omega

/-- What a range inside the buffer holds. -/
theorem exists_slice (l : List α) (hij : i ≤ j) (hj : j ≤ l.length) :
    ∃ s, slice l i j = some s ∧ s.length = j - i ∧ ∀ k, i + k < j → s[k]? = l[i + k]? := by
  refine ⟨(l.take j).drop i, if_pos ⟨hij, hj⟩, ?_, ?_⟩
  · rw [List.length_drop, List.length_take]
    omega
  · intro k hk
    rw [List.getElem?_drop, List.getElem?_take_of_lt hk]

/-- What a copy inside the buffer leaves. -/
theorem exists_copyInto (l : List α) (hd : i + d.length = j) (hj : j ≤ l.length) :
    ∃ l', copyInto l i j d = some l' ∧ l'.length = l.length ∧
      ∀ k, l'[k]? = if i ≤ k ∧ k < j then d[k - i]? else l[k]? := by
  subst hd
  exact ⟨_, if_pos ⟨by omega, hj, by omega⟩, length_overwrite hj, getElem?_overwrite hj⟩

end EvansComputer
