import EvansComputer.Library.OrderedMap
import EvansComputer.Switch.Frame
import Mathlib

/-!
# Ports, modes and configuration

What an interface of the switch is configured as.  A port of the bridge is a physical port
that stands alone, an aggregate of some, or the switch's own stack; they are ordered in that
way, and the maps over them are iterated in that order.
-/

namespace EvansComputer.Switch

def minVid : UInt16 := 1
def maxVid : UInt16 := 4094
def defaultVid : UInt16 := 1
def minLagId : UInt16 := 1
def maxLagId : UInt16 := 256
def maxLagMembers : ℕ := 8
def maxPorts : ℕ := 256

/-- An interface, or a port of the bridge. -/
inductive PortRef where
  | eth (n : ℕ)
  | lag (id : UInt16)
  | cpu
  deriving DecidableEq

def PortRef.key : PortRef → ℕ ×ₗ ℕ
  | eth n => toLex (0, n)
  | lag id => toLex (1, id.toNat)
  | cpu => toLex (2, 0)

theorem PortRef.key_injective : Function.Injective PortRef.key := by
  intro p q h
  have hpair : ofLex p.key = ofLex q.key := congrArg ofLex h
  cases p with
  | eth n =>
    cases q with
    | eth m => exact congrArg eth (congrArg Prod.snd hpair : (n : ℕ) = m)
    | lag id => exact absurd (congrArg Prod.fst hpair) (show (0 : ℕ) ≠ 1 by decide)
    | cpu => exact absurd (congrArg Prod.fst hpair) (show (0 : ℕ) ≠ 2 by decide)
  | lag id =>
    cases q with
    | eth m => exact absurd (congrArg Prod.fst hpair) (show (1 : ℕ) ≠ 0 by decide)
    | lag id' =>
      exact congrArg lag (UInt16.toNat_inj.mp (congrArg Prod.snd hpair : id.toNat = id'.toNat))
    | cpu => exact absurd (congrArg Prod.fst hpair) (show (1 : ℕ) ≠ 2 by decide)
  | cpu =>
    cases q with
    | eth m => exact absurd (congrArg Prod.fst hpair) (show (2 : ℕ) ≠ 0 by decide)
    | lag id => exact absurd (congrArg Prod.fst hpair) (show (2 : ℕ) ≠ 1 by decide)
    | cpu => rfl

/-- The derived order. -/
instance : LinearOrder PortRef := LinearOrder.lift' PortRef.key PortRef.key_injective

instance : Std.TransOrd PortRef := OrderedMap.transOrd
instance : Std.LawfulEqOrd PortRef := OrderedMap.lawfulEqOrd

/-- Allowed VLANs of a trunk. -/
inductive AllowedList where
  /-- Every VLAN in the database, including ones created later. -/
  | all
  | only (vids : List UInt16)
  deriving DecidableEq

def AllowedList.allows (l : AllowedList) (vid : UInt16) : Bool :=
  match l with
  | all => true
  | only s => s.contains vid

/-- What a port does with VLANs. -/
inductive PortMode where
  /-- L3: not a bridge member. -/
  | routed
  /-- One untagged VLAN. -/
  | access (vid : UInt16)
  | trunk (native : UInt16) (nativeTag : Bool) (allowed : AllowedList)
  deriving DecidableEq

def PortMode.isRouted : PortMode → Bool
  | routed => true
  | _ => false

/-- Spanning-tree configuration of a port. -/
structure StpPortConfig where
  enabled : Bool := true
  priority : UInt8 := 128
  cost : UInt32 := 20000
  adminEdge : Bool := false
  bpduGuard : Bool := false
  rootGuard : Bool := false
  tcnGuard : Bool := false
  deriving DecidableEq

/-- The settings of a port. -/
structure EthConfig where
  mode : PortMode := .routed
  adminUp : Bool := true
  stp : StpPortConfig := {}
  lag : Option UInt16 := none
  deriving DecidableEq

inductive LacpMode where
  | active
  | passive
  /-- Static: every link-up member distributes. -/
  | off
  deriving DecidableEq

inductive LacpRate where
  | fast
  | slow
  deriving DecidableEq

/-- The settings of an aggregate. -/
structure LagConfig where
  mode : PortMode := .routed
  adminUp : Bool := true
  stp : StpPortConfig := {}
  lacpMode : LacpMode := .off
  lacpRate : LacpRate := .slow
  hash : HashMode := .l3
  fallback : Bool := false
  deriving DecidableEq

/-- The settings of the spanning tree. -/
structure StpConfig where
  enabled : Bool := false
  priority : UInt16 := 32768
  helloSecs : UInt32 := 2
  forwardDelaySecs : UInt32 := 15
  maxAgeSecs : UInt32 := 20

/-! ## Time -/

/-- `i64::MIN` -/
def minInstant : ℤ := -2 ^ 63

/-- `i64::saturating_add` -/
def addSat (a b : ℤ) : ℤ := max minInstant (min (2 ^ 63 - 1) (a + b))

def subSat (a b : ℤ) : ℤ := addSat a (-b)

end EvansComputer.Switch
