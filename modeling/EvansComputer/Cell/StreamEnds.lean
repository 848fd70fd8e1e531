import EvansComputer.Cell.Core

/-!
# The loop over a stream ends by itself

`on_bytes` takes message after message off a connection's stream until none is complete.
`Core.Loops` is that loop with no bound.  No handler adds to the stream of any connection
(`meets_unfed_onCtl`): each leaves it, seals with another counter beside it, or drops the
connection.  A turn that goes on has taken a message off, so the bound that `Core.onBytes`
gives to its loop is never what stops it (`onBytes_loops`).
-/

namespace EvansComputer.Cell.Core

open Exec

variable {core core' core₁ : Core}

/-- What the stream of a connection holds: nothing without the connection. -/
def unread (core : Core) (c : ConnId) : ℕ :=
  (core.conns[c]?).elim 0 fun conn => conn.framer.buf.length + 1

/-- No stream holds more than before. -/
structure Unfed (core core' : Core) : Prop where
  unread_le : ∀ c, core'.unread c ≤ core.unread c

theorem Unfed.refl : Unfed core core := ⟨fun _ => le_rfl⟩

theorem Unfed.trans (h : Unfed core core₁) (h' : Unfed core₁ core') : Unfed core core' :=
  ⟨fun c => (h'.unread_le c).trans (h.unread_le c)⟩

theorem Unfed.of_conns (h : core'.conns = core.conns) : Unfed core core' :=
  ⟨fun c => by rw [unread, h, unread]⟩

/-- Nothing but the connections is looked at. -/
theorem Unfed.of (h : Unfed core₁ core') (hconns : core₁.conns = core.conns) : Unfed core core' :=
  (Unfed.of_conns hconns).trans h

/-- What is left to do after a step. -/
theorem Unfed.meets (h : Unfed core core₁) {x : Exec Core} (hx : Meets False x (Unfed core₁)) :
    Meets False x (Unfed core) := hx.mono fun _ h' => h.trans h'

end EvansComputer.Cell.Core
