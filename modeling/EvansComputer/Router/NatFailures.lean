import EvansComputer.Router.NatErrors

/-!
# A failed translation changes nothing

The translator writes into the packet in place, at offsets that it reads from the
packet, and puts a new mapping into its table before it rewrites.  It still never
reads or writes outside the packet, and when it refuses a packet it has changed
neither the packet nor the table, apart from the mappings that had expired.

Every check stands before the first write.  `rewrite` is only reached with a
segment that `validateTransport` has accepted, and on such a segment it cannot
fail, so neither a mapping nor a refreshed expiry is left behind.
-/

namespace EvansComputer.Router.NatTable

/-- A call that is made: it returns, and where it fails the packet and the
mappings are `p` and `ms`. -/
def Atomic (ms : List Mapping) (p : List Byte) (r : Option (NatTable × List Byte × Bool)) : Prop :=
  ∃ n' p' ok, r = some (n', p', ok) ∧ (ok = false → p' = p ∧ n'.mappings = ms)

/-- A packet whose port is looked up is rewritten, or nothing has changed. -/
theorem Looked.atomic {source : Bool} {n : NatTable} {p : List Byte} {h : Ipv4Header}
    {outside : Ipv4Addr} {forwards : List Forward} {now : ℤ}
    {r : Option (NatTable × List Byte × Bool)}
    (hl : Looked source n p h outside forwards now r) : Atomic n.mappings p r := by
  cases hl with
  | unknown n' hsame => exact ⟨n', p, false, rfl, fun _ => ⟨rfl, hsame⟩⟩
  | forward f new p' => exact ⟨n, p', true, rfl, by simp⟩
  | mapping m new n' p' => exact ⟨n', p', true, rfl, by simp⟩

theorem atomic_cross (n : NatTable) (source : Bool) (p : List Byte) (outside : Ipv4Addr)
    (forwards : List Forward) (now : ℤ) :
    Atomic (n.expire now).mappings p (n.cross source p outside forwards now) := by
  obtain heq | ⟨h, seg, hp, -, heq⟩ | ⟨h, seg, -, hl⟩ :=
    cross_cases n source p outside forwards now
  · rw [heq]
    exact ⟨_, p, false, rfl, fun _ => ⟨rfl, rfl⟩⟩
  · obtain ⟨p', ok, hr, hok⟩ := translateError_total (n.expire now) outside forwards hp source
    rw [heq, hr]
    exact ⟨_, p', ok, rfl, fun h => ⟨hok h, rfl⟩⟩
  · exact hl.atomic

/-- **Failures are atomic, and nothing is read or written outside the packet.**
Whatever the packet, a call returns; and where it fails the packet is as it was,
and so is the table but for the mappings that have expired. -/
theorem failures_atomic (n : NatTable) (p : List Byte) (outside : Ipv4Addr)
    (forwards : List Forward) (now : ℤ) :
    (∃ n' p' ok, n.outbound p outside forwards now = some (n', p', ok) ∧
        (ok = false → p' = p ∧ n'.mappings = n.mappings.filter fun m => now < m.expires)) ∧
      ∃ n' p' ok, n.inbound p outside forwards now = some (n', p', ok) ∧
        (ok = false → p' = p ∧ n'.mappings = n.mappings.filter fun m => now < m.expires) :=
  ⟨atomic_cross n true p outside forwards now, atomic_cross n false p outside forwards now⟩

end EvansComputer.Router.NatTable
