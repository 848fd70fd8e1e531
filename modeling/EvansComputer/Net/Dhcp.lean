import EvansComputer.Net.AddrText
import Mathlib.Data.List.Range

/-!
# The lease table of the DHCP server

`LeaseDb.handle` takes one message of a client and returns the reply to send, if
any.  The table it changes holds bound leases, offers and parked addresses: a
declined address is a lease of the hardware address zero.

The clock is an integer number of milliseconds.  The saved form of the table is the
text of its bound leases, one a line.
-/

namespace EvansComputer.Dhcp

open Text

/-! ## Messages -/

abbrev discover : Byte := 1
abbrev offer : Byte := 2
abbrev request : Byte := 3
abbrev decline : Byte := 4
abbrev ack : Byte := 5
abbrev nak : Byte := 6
abbrev release : Byte := 7
abbrev inform : Byte := 8

structure Message where
  reply : Bool
  xid : UInt32
  mac : MacAddr
  kind : Byte
  ciaddr : Ipv4Addr
  yiaddr : Ipv4Addr
  relay : Ipv4Addr
  server : Option Ipv4Addr
  requested : Option Ipv4Addr
  mask : Option Ipv4Addr
  router : Option Ipv4Addr
  dns : Option Ipv4Addr
  domain : Option (List Char)
  leaseSecs : UInt32
  t1Secs : UInt32
  t2Secs : UInt32
  deriving DecidableEq

def Message.new (kind : Byte) (xid : UInt32) (mac : MacAddr) : Message where
  reply := false
  xid := xid
  mac := mac
  kind := kind
  ciaddr := .zero
  yiaddr := .zero
  relay := .zero
  server := none
  requested := none
  mask := none
  router := none
  dns := none
  domain := none
  leaseSecs := 0
  t1Secs := 0
  t2Secs := 0

/-! ## Pools -/

/-- How long an OFFER reserves its address for the client. -/
def offerHoldMs : ℤ := 60000

/-- How long a DECLINEd address is kept out of use. -/
def declineHoldMs : ℤ := 600000

/-- Largest pool range (addresses). -/
def maxPoolSize : UInt32 := 65536

/-- Upper bound on stored leases (restore stops there). -/
def maxLeases : ℕ := 65536

structure PoolSpec where
  name : List Char
  start : Ipv4Addr
  «end» : Ipv4Addr
  /-- Subnet prefix handed out with the lease. -/
  prefixLen : UInt8
  router : Option Ipv4Addr
  dns : Option Ipv4Addr
  domain : Option (List Char)
  leaseSecs : UInt32

namespace PoolSpec

/-- Range inside one subnet, of bounded size, and a lease long enough for its timers. -/
def isValid (pool : PoolSpec) : Bool :=
  let s := pool.start.toU32
  let e := pool.end.toU32
  !pool.start.isUnspecified && s ≤ e && e - s < maxPoolSize &&
    (1 ≤ pool.prefixLen && pool.prefixLen ≤ 30) &&
    pool.start.sameSubnetPrefix pool.end pool.prefixLen && 4 ≤ pool.leaseSecs

def inRange (pool : PoolSpec) (a : Ipv4Addr) : Bool :=
  pool.start.toU32 ≤ a.toU32 && a.toU32 ≤ pool.end.toU32

/-- A usable host address of the pool's subnet. -/
def inSubnet (pool : PoolSpec) (a : Ipv4Addr) : Bool :=
  a.sameSubnetPrefix pool.start pool.prefixLen && a ≠ pool.start.networkAddr pool.prefixLen &&
    a ≠ pool.start.broadcastAddr pool.prefixLen

/-- The addresses of the range, in order. -/
def range (pool : PoolSpec) : List Ipv4Addr :=
  let s := pool.start.toU32.toNat
  let e := pool.end.toU32.toNat
  (List.range' s (e + 1 - s)).map fun n => .fromU32 (UInt32.ofNat n)

end PoolSpec

/-- A fixed address for one hardware address. -/
structure Reservation where
  mac : MacAddr
  address : Ipv4Addr
  deriving DecidableEq

/-! ## Leases -/

structure Lease where
  pool : List Char
  /-- Zero for a declined (parked) address. -/
  mac : MacAddr
  address : Ipv4Addr
  expires : ℤ
  /-- Only offered (not yet ACKed); not persisted. -/
  offered : Bool
  deriving DecidableEq

/-- Every lease of every pool. -/
structure LeaseDb where
  leases : List Lease
  /-- Bound leases changed since the caller last persisted them. -/
  dirty : Bool
  deriving DecidableEq

namespace LeaseDb

def new : LeaseDb := ⟨[], false⟩

/-- Drop expired leases and offers; how many bound leases expired. -/
def expire (db : LeaseDb) (now : ℤ) : LeaseDb × ℕ :=
  let before := (db.leases.filter (!·.offered)).length
  let leases := db.leases.filter (now < ·.expires)
  let gone := before - (leases.filter (!·.offered)).length
  (⟨leases, if 0 < gone then true else db.dirty⟩, gone)

/-- The live lease (bound or offered) of `mac` in `pool`. -/
def leaseOf (db : LeaseDb) (pool : List Char) (mac : MacAddr) : Option Lease :=
  db.leases.find? fun l => l.pool = pool ∧ l.mac = mac

def reply (kind : Byte) (m : Message) (pool : PoolSpec) (server : Ipv4Addr) : Message :=
  let r := { Message.new kind m.xid m.mac with reply := true, server := some server }
  if kind ≠ nak then
    { r with
      mask := some (.maskFromPrefix pool.prefixLen)
      router := pool.router
      dns := pool.dns
      domain := pool.domain }
  else r

/-- The address kept for a client. -/
def reservedFor (pool : PoolSpec) (reservations : List Reservation) (mac : MacAddr) :
    Option Ipv4Addr :=
  (reservations.find? fun r => r.mac = mac ∧ pool.inSubnet r.address).map (·.address)

/-- The closure `available` of `handle`. -/
def available (db : LeaseDb) (pool : PoolSpec) (reservations : List Reservation) (mac : MacAddr)
    (server a : Ipv4Addr) : Bool :=
  pool.inSubnet a && a ≠ server &&
    (pool.inRange a || reservedFor pool reservations mac = some a) &&
    !reservations.any (fun r => r.address = a ∧ r.mac ≠ mac) &&
    !db.leases.any (fun l => l.address = a ∧ l.pool = pool.name ∧ l.mac ≠ mac)

/-- The address a message asks for. -/
def wanted (m : Message) : Option Ipv4Addr :=
  m.requested.or (if m.ciaddr.isUnspecified then none else some m.ciaddr)

/-- The address of the reply to a DISCOVER. -/
def choose (db : LeaseDb) (pool : PoolSpec) (reservations : List Reservation) (m : Message)
    (server : Ipv4Addr) : Option Ipv4Addr :=
  let available := db.available pool reservations m.mac server
  match reservedFor pool reservations m.mac with
  | some r => (some r).filter available
  | none =>
    (((wanted m).filter available).or
      (((db.leaseOf pool.name m.mac).map (·.address)).filter available)).or
      (pool.range.find? available)

/-- The reply that hands out an address. -/
def grant (kind : Byte) (m : Message) (pool : PoolSpec) (server address : Ipv4Addr) : Message :=
  let t1 := pool.leaseSecs / 2
  let t2 := pool.leaseSecs / 8 * 7
  { reply kind m pool server with
    yiaddr := address
    leaseSecs := pool.leaseSecs
    t1Secs := t1
    t2Secs := if t2 ≤ t1 then t1 + 1 else t2 }

/-- The table after an address was handed out. -/
def bind (db : LeaseDb) (pool : PoolSpec) (mac : MacAddr) (address : Ipv4Addr) (isOffer : Bool)
    (now : ℤ) : LeaseDb :=
  let wasBound := db.leases.any fun l => l.mac = mac ∧ l.pool = pool.name ∧ ¬ l.offered
  -- An OFFER never shortens a bound lease (a bound client may DISCOVER again).
  if isOffer && wasBound then db
  else
    { leases := db.leases.filter (fun l => ¬ (l.mac = mac ∧ l.pool = pool.name)) ++
        [{ pool := pool.name
           mac := mac
           address := address
           expires := now +
             if isOffer then offerHoldMs else (pool.leaseSecs.toNat : ℤ) * 1000
           offered := isOffer }]
      dirty := if isOffer then db.dirty else true }

/-- The first lease that satisfies `p`, changed. -/
def modifyFirst (p : Lease → Bool) (f : Lease → Lease) : List Lease → List Lease
  | [] => []
  | l :: ls => if p l then f l :: ls else l :: modifyFirst p f ls

/-- Answer one client message for `pool`, as server `server`. -/
def handle (db : LeaseDb) (pool : PoolSpec) (reservations : List Reservation) (m : Message)
    (server : Ipv4Addr) (now : ℤ) : LeaseDb × Option Message :=
  if m.reply || !m.relay.isUnspecified || server.isUnspecified || !pool.isValid then (db, none)
  else
    let db := (db.expire now).1
    if m.server.any (· ≠ server) then
      -- The client chose another server: withdraw our offer.
      if m.kind = request then
        ({ db with
          leases := db.leases.filter fun l =>
            ¬ (l.offered ∧ l.mac = m.mac ∧ l.pool = pool.name) }, none)
      else (db, none)
    else if m.kind = release then
      let leases := db.leases.filter fun l =>
        ¬ (l.mac = m.mac ∧ l.address = m.ciaddr ∧ l.pool = pool.name)
      (⟨leases, if leases.length ≠ db.leases.length then true else db.dirty⟩, none)
    else if m.kind = decline then
      let mine := fun l : Lease =>
        decide (l.mac = m.mac ∧ some l.address = m.requested ∧ l.pool = pool.name)
      (⟨modifyFirst mine
          (fun l => { l with mac := .zero, offered := false, expires := now + declineHoldMs })
          db.leases,
        if db.leases.any mine then true else db.dirty⟩, none)
    else if m.kind = inform then
      if pool.inSubnet m.ciaddr then
        (db, some { reply ack m pool server with yiaddr := .zero })
      else (db, none)
    else if m.kind = discover then
      match db.choose pool reservations m server with
      | none => (db, none)
      | some address =>
        (db.bind pool m.mac address true now, some (grant offer m pool server address))
    else if m.kind = request then
      match wanted m with
      | none => (db, some (reply nak m pool server))
      | some a =>
        if db.available pool reservations m.mac server a ∧
            (reservedFor pool reservations m.mac).all (· = a) then
          (db.bind pool m.mac a false now, some (grant ack m pool server a))
        else (db, some (reply nak m pool server))
    else (db, none)

/-! ## The saved form -/

/-- A line of the saved form: `<pool> <mac> <ip> <expires-ms>`. -/
def renderLease (l : Lease) : List Char :=
  unwords [l.pool, l.mac.display, l.address.display, signed l.expires]

/-- Bound leases, one per line. -/
def render (db : LeaseDb) : List Char :=
  (db.leases.filter (!·.offered)).flatMap fun l => renderLease l ++ ['\n']

/-- A line of the saved form, unless it is malformed. -/
def readLease (line : List Char) : Option Lease :=
  match words line with
  | [pool, mac, ip, expires] =>
    match MacAddr.parse mac, Ipv4Addr.parse ip, readSigned expires with
    | some mac, some ip, some expires => some ⟨pool, mac, ip, expires, false⟩
    | _, _, _ => none
  | _ => none

/-- A saved lease takes the place of what the table has for its address. -/
def restoreLease (now : ℤ) (leases : List Lease) (line : List Char) : List Lease :=
  if maxLeases ≤ leases.length then leases
  else
    match readLease line with
    | none => leases
    | some l =>
      if now < l.expires then
        leases.filter (fun k => ¬ (k.pool = l.pool ∧ k.address = l.address)) ++ [l]
      else leases

/-- Load what `render` put out, skipping malformed or expired lines. -/
def restore (db : LeaseDb) (text : List Char) (now : ℤ) : LeaseDb :=
  { db with leases := (lines text).foldl (restoreLease now) db.leases }

end EvansComputer.Dhcp.LeaseDb
