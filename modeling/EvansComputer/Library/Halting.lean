import Mathlib.Tactic.Common

/-!
# Computations that may halt

A program that reads from outside and asserts what it believes ends in one of four
ways: with a value, at a failed assertion, waiting for input that is not there, or at a
number that does not fit its type, where a checked build stops.  `Exec` is such a
computation and `Exec.Meets safe x Q` the specification of one: where it ends with a value,
`Q` holds of it, and where `safe` holds beforehand no assertion fails.  Nothing is said of
a computation that waits, which is the beginning of one that goes on with more input, nor
of a number that does not fit.

The rules follow the shape of a program: one for a value, one for a sequence, one for
an assertion, one for a loop.
-/

namespace EvansComputer

/-- How a computation ends without a value. -/
inductive Halt where
  /-- An assertion failed. -/
  | panic
  /-- There was no more input. -/
  | starved
  /-- A number did not fit its type. -/
  | overflow
  deriving DecidableEq

/-- A computation that may halt. -/
abbrev Exec (α : Type*) := Except Halt α

namespace Exec

universe u

variable {α β : Type u} {safe : Prop} {x : Exec α} {Q R : α → Prop}

/-- `expect` -/
def expect : Option α → Exec α
  | some a => .ok a
  | none => .error .panic

/-- `x` ends in `Q`, and where `safe` holds no assertion fails on the way. -/
def Meets (safe : Prop) (x : Exec α) (Q : α → Prop) : Prop :=
  match x with
  | .ok a => Q a
  | .error .panic => ¬ safe
  | .error .starved => True
  | .error .overflow => True

theorem Meets.mono (h : Meets safe x Q) (hQ : ∀ a, Q a → R a) : Meets safe x R := by
  match x, h with
  | .ok a, h => exact hQ a h
  | .error .panic, h => exact h
  | .error .starved, _ => trivial
  | .error .overflow, _ => trivial

/-- A computation that ended with a value ended in `Q`. -/
theorem Meets.ok {a : α} (h : Meets safe x Q) (hx : x = .ok a) : Q a := by
  subst hx
  exact h

/-- Where `safe` holds, no assertion failed. -/
theorem Meets.no_panic (h : Meets safe x Q) (hs : safe) : x ≠ .error .panic := by
  rintro rfl
  exact h hs

/-- The value of which a check of what came out says something. -/
theorem exists_of_any {α ε : Type*} {x : Except ε α} {f : α → Bool} (h : x.toOption.any f) :
    ∃ a, x = .ok a ∧ f a := by
  cases x with
  | error e => cases h
  | ok a => exact ⟨a, rfl, h⟩

/-! ## The rules -/

theorem meets_ok {a : α} (h : Q a) : Meets safe (.ok a) Q := h

theorem meets_pure {a : α} (h : Q a) : Meets safe (pure a) Q := h

theorem meets_starved : Meets safe (.error .starved) Q := trivial

theorem meets_overflow : Meets safe (.error .overflow) Q := trivial

/-- Nothing is asked of a computation. -/
theorem meets_any : Meets False x fun _ => True := by
  match x with
  | .ok _ => trivial
  | .error .panic => exact not_false
  | .error .starved => trivial
  | .error .overflow => trivial

/-- A sequence. -/
theorem Meets.bind {f : α → Exec β} {R : β → Prop} (h : Meets safe x Q)
    (hf : ∀ a, Q a → Meets safe (f a) R) : Meets safe (x >>= f) R := by
  match x, h with
  | .ok a, h => exact hf a h
  | .error .panic, h => exact h
  | .error .starved, _ => trivial
  | .error .overflow, _ => trivial

/-- An assertion that something is there. -/
theorem meets_expect {o : Option α} (hsafe : safe → o ≠ none) (hQ : ∀ a, o = some a → Q a) :
    Meets safe (expect o) Q := by
  cases o with
  | none => exact fun hs => hsafe hs rfl
  | some a => exact hQ a rfl

/-- A loop over a list, with what every turn keeps. -/
theorem meets_foldlM {f : β → α → Exec β} {I : β → Prop} {l : List α} {b : β} (hb : I b)
    (hf : ∀ b, ∀ a ∈ l, I b → Meets safe (f b a) I) : Meets safe (l.foldlM f b) I := by
  induction l generalizing b with
  | nil => exact hb
  | cons a l ih =>
    rw [List.foldlM_cons]
    refine (hf b a List.mem_cons_self hb).bind fun b' hb' => ih hb' fun b a' ha' => ?_
    exact hf b a' (List.mem_cons_of_mem _ ha')

end EvansComputer.Exec
