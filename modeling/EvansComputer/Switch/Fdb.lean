import EvansComputer.Switch.Types

/-!
# The filtering database

Which port an address of a VLAN was last seen on.  The table is bounded: learning a new
address in a full one evicts the dynamic entry that was not seen for longest, and where every
entry is static the address is not learned.  Beside the table is the order of its dynamic
entries by age.
-/

namespace EvansComputer.Switch

def fdbCapacity : ℕ := 1024

/-- Where an address is. -/
structure FdbEntry where
  port : PortRef
  isStatic : Bool
  lastSeenMs : ℤ
  deriving DecidableEq

/-- An address in a VLAN. -/
structure FdbKey where
  vlan : UInt16
  mac : MacAddr
  deriving DecidableEq

/-- The bytes of an address as a number. -/
def macValue (m : MacAddr) : ℕ :=
  ((((m.a.toNat * 256 + m.b.toNat) * 256 + m.c.toNat) * 256 + m.d.toNat) * 256 + m.e.toNat) *
    256 + m.f.toNat

theorem macValue_lt (m : MacAddr) : macValue m < 2 ^ 48 := by
  have ha := m.a.toNat_lt; have hb := m.b.toNat_lt; have hc := m.c.toNat_lt
  have hd := m.d.toNat_lt; have he := m.e.toNat_lt; have hf := m.f.toNat_lt
  unfold macValue
  omega

theorem macValue_injective : Function.Injective macValue := by
  intro x y h
  have h₁ := x.a.toNat_lt; have h₂ := x.b.toNat_lt; have h₃ := x.c.toNat_lt
  have h₄ := x.d.toNat_lt; have h₅ := x.e.toNat_lt; have h₆ := x.f.toNat_lt
  have g₁ := y.a.toNat_lt; have g₂ := y.b.toNat_lt; have g₃ := y.c.toNat_lt
  have g₄ := y.d.toNat_lt; have g₅ := y.e.toNat_lt; have g₆ := y.f.toNat_lt
  obtain ⟨xa, xb, xc, xd, xe, xf⟩ := x
  obtain ⟨ya, yb, yc, yd, ye, yf⟩ := y
  simp only [macValue] at h
  simp only [MacAddr.mk.injEq, ← UInt8.toNat_inj]
  simp only at *
  omega

theorem FdbKey.value_injective :
    Function.Injective fun k : FdbKey => k.vlan.toNat * 2 ^ 48 + macValue k.mac := by
  intro k k' h
  have hk := macValue_lt k.mac
  have hk' := macValue_lt k'.mac
  dsimp only at h
  have hvlan : k.vlan = k'.vlan := UInt16.toNat_inj.mp (by omega)
  have hmac : k.mac = k'.mac := macValue_injective (by omega)
  obtain ⟨v, m⟩ := k
  obtain ⟨v', m'⟩ := k'
  simp only at hvlan hmac
  rw [hvlan, hmac]

/-- The derived order: the VLAN, then the bytes of the address. -/
instance : LinearOrder FdbKey :=
  LinearOrder.lift' (fun k => k.vlan.toNat * 2 ^ 48 + macValue k.mac) FdbKey.value_injective

instance : Std.TransOrd FdbKey := OrderedMap.transOrd
instance : Std.LawfulEqOrd FdbKey := OrderedMap.lawfulEqOrd
instance : Std.TransOrd (ℤ ×ₗ FdbKey) := OrderedMap.transOrd
instance : Std.LawfulEqOrd (ℤ ×ₗ FdbKey) := OrderedMap.lawfulEqOrd

/-- The addresses by VLAN. -/
structure Fdb where
  map : OrderedMap FdbKey FdbEntry := ∅
  /-- Dynamic entries ordered by when they were last seen. -/
  byAge : OrderedMap (ℤ ×ₗ FdbKey) Unit := ∅

namespace Fdb

/-- Where an address was learned. -/
def lookup (t : Fdb) (mac : MacAddr) (vlan : UInt16) : Option PortRef :=
  (t.map[(⟨vlan, mac⟩ : FdbKey)]?).map (·.port)

/-- The table without its oldest dynamic entry, if it has one. -/
def evictOldestDynamic (t : Fdb) : Option Fdb :=
  t.byAge.minKey?.map fun a => { map := t.map.erase (ofLex a).2, byAge := t.byAge.erase a }

/-- Room for one more entry, where there can be some. -/
def makeRoom (t : Fdb) : Option Fdb :=
  if t.map.size ≥ fdbCapacity then t.evictOldestDynamic else some t

/-- An address was seen at a port. -/
def learn (t : Fdb) (mac : MacAddr) (vlan : UInt16) (port : PortRef) (now : ℤ) : Fdb :=
  let key : FdbKey := ⟨vlan, mac⟩
  match t.map[key]? with
  | some e =>
    if e.isStatic then t
    else
      { map := t.map.insert key { e with port, lastSeenMs := now }
        byAge := (t.byAge.erase (toLex (e.lastSeenMs, key))).insert (toLex (now, key)) () }
  | none =>
    match t.makeRoom with
    | none => t
    | some t =>
      { map := t.map.insert key { port, isStatic := false, lastSeenMs := now }
        byAge := t.byAge.insert (toLex (now, key)) () }

/-- Insert or convert an entry to static, where there is room. -/
def addStatic (t : Fdb) (mac : MacAddr) (vlan : UInt16) (port : PortRef) (now : ℤ) : Option Fdb :=
  let key : FdbKey := ⟨vlan, mac⟩
  let new : FdbEntry := { port, isStatic := true, lastSeenMs := now }
  match t.map[key]? with
  | some e =>
    some { map := t.map.insert key new
           byAge := if e.isStatic then t.byAge else t.byAge.erase (toLex (e.lastSeenMs, key)) }
  | none => t.makeRoom.map fun t => { t with map := t.map.insert key new }

def removeStatic (t : Fdb) (mac : MacAddr) (vlan : UInt16) (port : PortRef) : Option Fdb :=
  let key : FdbKey := ⟨vlan, mac⟩
  match t.map[key]? with
  | some e => if e.isStatic && e.port = port then some { t with map := t.map.erase key } else none
  | none => none

/-- One entry less. -/
def drop (t : Fdb) (k : FdbKey) (e : FdbEntry) : Fdb :=
  { map := t.map.erase k
    byAge := if e.isStatic then t.byAge else t.byAge.erase (toLex (e.lastSeenMs, k)) }

/-- Remove every entry (static too) matching `pred`. -/
def removeAllWhere (t : Fdb) (pred : FdbKey → FdbEntry → Bool) : Fdb :=
  (t.map.toList.filter fun x => pred x.1 x.2).foldl (fun t x => t.drop x.1 x.2) t

/-- Remove dynamic entries matching `pred`. -/
def removeDynamicWhere (t : Fdb) (pred : FdbKey → FdbEntry → Bool) : Fdb :=
  t.removeAllWhere fun k e => !e.isStatic && pred k e

def flushPort (t : Fdb) (port : PortRef) : Fdb := t.removeDynamicWhere fun _ e => e.port = port

def flushExcept (t : Fdb) (port : PortRef) : Fdb := t.removeDynamicWhere fun _ e => e.port ≠ port

/-- Drop dynamic entries not seen for `ageMs`, the oldest first. -/
def age (t : Fdb) (now ageMs : ℤ) : Fdb :=
  (t.byAge.keys.takeWhile fun a => subSat now (ofLex a).1 > ageMs).foldl
    (fun t a => { map := t.map.erase (ofLex a).2, byAge := t.byAge.erase a }) t

end EvansComputer.Switch.Fdb
