import EvansComputer.Library.Halting
import Mathlib

/-!
# What a receiver counts of a stream

A packet has 16 bits of its number.  A receiver believes a source after two packets in a row,
and from then on keeps the highest number with its cycles, so that it knows how many packets
there should have been.

The numbers of the packets are natural numbers here, of which `RxStats` sees the last 16 bits.
`Counted` says what the statistics stand for: the highest number, from the cycle of the first on,
and how many packets came.  A packet in the bands keeps it, as long as the highest number
fits in 32 bits.
-/

namespace EvansComputer.Rtp

open Exec

/-- How many sequence numbers there are. -/
def rtpSeqMod : UInt32 := 65536

def maxDropout : UInt16 := 3000

def maxMisorder : UInt16 := 100

def minSequential : UInt32 := 2

/-- `+`, where a checked build stops. -/
def plus (a b : UInt32) : Exec UInt32 :=
  if a.toNat + b.toNat < UInt32.size then .ok (a + b) else .error .overflow

/-- A receiver's statistics for one source. -/
structure RxStats where
  clockRate : UInt32
  started : Bool := false
  maxSeq : UInt16 := 0
  cycles : UInt32 := 0
  baseSeq : UInt32 := 0
  badSeq : UInt32 := rtpSeqMod + 1
  probation : UInt32 := 0
  received : UInt32 := 0
  expectedPrior : UInt32 := 0
  receivedPrior : UInt32 := 0
  /-- The last relative transit time. -/
  transit : Option UInt32 := none
  /-- Jitter, scaled by 16. -/
  jitterQ4 : UInt32 := 0
  deriving DecidableEq

/-- One reception report block. -/
structure ReportBlock where
  ssrc : UInt32
  fractionLost : UInt8
  cumulativeLost : ℤ
  highestSeq : UInt32
  jitter : UInt32
  lsr : UInt32
  dlsr : UInt32
  deriving DecidableEq

namespace RxStats

/-- Nothing has come yet. -/
def new (clockRate : UInt32) : RxStats := { clockRate := max clockRate 1 }

/-- Counting begins at `seq`. -/
def initSeq (s : RxStats) (seq : UInt16) : RxStats :=
  { s with
    baseSeq := seq.toUInt32
    maxSeq := seq
    badSeq := rtpSeqMod + 1
    cycles := 0
    received := 0
    receivedPrior := 0
    expectedPrior := 0 }

/-- A packet that is counted. -/
def count (s : RxStats) : Exec (RxStats × Bool) := do
  let received ← plus s.received 1
  return ({ s with received }, true)

/-- The cycles, with a packet that may have begun another. -/
def cyclesAt (s : RxStats) (seq : UInt16) : Exec UInt32 :=
  if seq < s.maxSeq then plus s.cycles rtpSeqMod else .ok s.cycles

/-- Is the packet with this sequence number counted? -/
def updateSeq (s : RxStats) (seq : UInt16) : Exec (RxStats × Bool) :=
  let udelta := seq - s.maxSeq
  if s.probation > 0 then
    if seq = s.maxSeq + 1 then
      let s := { s with probation := s.probation - 1, maxSeq := seq }
      if s.probation = 0 then (s.initSeq seq).count else .ok (s, false)
    else .ok ({ s with probation := minSequential - 1, maxSeq := seq }, false)
  else if udelta < maxDropout then do
    let cycles ← s.cyclesAt seq
    { s with cycles, maxSeq := seq }.count
  else if udelta.toUInt32 ≤ rtpSeqMod - maxMisorder.toUInt32 then
    -- two sequential packets after a big jump: the other side restarted
    if seq.toUInt32 = s.badSeq then { s.initSeq seq with transit := none }.count
    else .ok ({ s with badSeq := (seq.toUInt32 + 1) &&& (rtpSeqMod - 1) }, false)
  -- a duplicate or a reordered packet
  else s.count

/-- The jitter, with the next packet. -/
def jitterAfter (q4 : UInt32) (d : ℕ) : UInt32 :=
  let j : ℤ := q4.toNat + d - ((q4.toNat + 8) >>> 4 : ℕ)
  UInt32.ofNat (max 0 (min j 4294967295)).toNat

/-- The interarrival jitter. -/
def measure (s : RxStats) (timestamp : UInt32) (arrivalMs : UInt64) : RxStats :=
  let arrival := UInt32.ofNat (arrivalMs.toNat * s.clockRate.toNat / 1000)
  let transit := arrival - timestamp
  match s.transit with
  | some last =>
    { s with
      transit := some transit
      jitterQ4 := jitterAfter s.jitterQ4 (transit - last).toInt32.toInt.natAbs }
  | none => { s with transit := some transit }

/-- The first packet of a source. -/
def start (s : RxStats) (seq : UInt16) : RxStats :=
  if s.started then s
  else { { s with started := true }.initSeq seq with maxSeq := seq - 1, probation := minSequential }

/-- A packet arrives.  Is it counted? -/
def onPacket (s : RxStats) (seq : UInt16) (timestamp : UInt32) (arrivalMs : UInt64) :
    Exec (RxStats × Bool) := do
  let (s, counted) ← (s.start seq).updateSeq seq
  return if counted then (s.measure timestamp arrivalMs, true) else (s, false)

/-- Extended highest sequence number. -/
def extendedMax (s : RxStats) : UInt32 := s.cycles + s.maxSeq.toUInt32

/-- Packets expected since the source was believed. -/
def expected (s : RxStats) : UInt32 :=
  if !s.started || s.probation > 0 then 0 else s.extendedMax - s.baseSeq + 1

/-- Cumulative packets lost (negative with duplicates). -/
def lost (s : RxStats) : ℤ := s.expected.toNat - s.received.toNat

/-- The interarrival jitter, in units of the clock. -/
def jitter (s : RxStats) : UInt32 := s.jitterQ4 >>> 4

/-- Packets expected since the last report. -/
def expectedInterval (s : RxStats) : UInt32 := s.expected - s.expectedPrior

/-- Packets received since the last report. -/
def receivedInterval (s : RxStats) : UInt32 := s.received - s.receivedPrior

/-- The fraction lost of an interval, in 256ths. -/
def fractionLost (expectedInterval receivedInterval : UInt32) : UInt8 :=
  let lostInterval : ℤ := expectedInterval.toNat - receivedInterval.toNat
  if expectedInterval = 0 ∨ lostInterval ≤ 0 then 0
  else UInt8.ofNat (min (lostInterval.toNat * 256 / expectedInterval.toNat) 255)

/-- The report block for this source, with which a new interval begins. -/
def reportBlock (s : RxStats) (ssrc : UInt32) : RxStats × ReportBlock :=
  ({ s with expectedPrior := s.expected, receivedPrior := s.received },
    { ssrc
      fractionLost := fractionLost s.expectedInterval s.receivedInterval
      cumulativeLost := max (-0x800000) (min s.lost 0x7fffff)
      highestSeq := s.extendedMax
      jitter := s.jitter
      lsr := 0
      dlsr := 0 })

end RxStats

/-! ## Runs -/

/-- What happens at a receiver.  A packet is given with its true number. -/
inductive RxEvent where
  | packet (number : ℕ) (timestamp : UInt32) (arrivalMs : UInt64)
  | report (ssrc : UInt32)
  deriving DecidableEq

/-- The 16 bits of its number that a packet has, where it is one. -/
def RxEvent.seq : RxEvent → Option UInt16
  | .packet number .. => some (UInt16.ofNat number)
  | .report _ => none

/-- The statistics, and the intervals of the reports so far: expected and received. -/
structure RxRun where
  stats : RxStats
  intervals : List (UInt32 × UInt32) := []
  deriving DecidableEq

namespace RxRun

/-- A packet or a report. -/
def step (r : RxRun) : RxEvent → Exec RxRun
  | .packet number timestamp arrivalMs => do
    let (stats, _) ← r.stats.onPacket (UInt16.ofNat number) timestamp arrivalMs
    return { r with stats }
  | .report ssrc => .ok
      { stats := (r.stats.reportBlock ssrc).1
        intervals := r.intervals ++ [(r.stats.expectedInterval, r.stats.receivedInterval)] }

def steps (r : RxRun) (l : List RxEvent) : Exec RxRun := l.foldlM step r

def start (clockRate : UInt32) : RxRun := { stats := .new clockRate }

end RxRun

/-- Each packet is less than 3000 above the highest so far or less than 100 below it. -/
def InBand (highest : ℕ) : List RxEvent → Prop
  | [] => True
  | .packet number .. :: l => number < highest + 3000 ∧ highest < number + 100 ∧
    InBand (max highest number) l
  | .report _ :: l => InBand highest l

/-- The highest number, with those of the packets to come. -/
def highestOf (highest : ℕ) : List RxEvent → ℕ
  | [] => highest
  | .packet number .. :: l => highestOf (max highest number) l
  | .report _ :: l => highestOf highest l

/-- How many packets there are. -/
def packets (l : List RxEvent) : ℕ := (l.filterMap RxEvent.seq).length

/-! ## Before a source is believed -/

namespace RxStats

variable {s : RxStats} {seq : UInt16}

theorem updateSeq_of_first (hpos : s.probation > 0) (hseq : seq = s.maxSeq + 1)
    (hmore : s.probation - 1 ≠ 0) :
    s.updateSeq seq = .ok ({ s with probation := s.probation - 1, maxSeq := seq }, false) := by
  unfold updateSeq
  dsimp only
  rw [if_pos hpos, if_pos hseq, if_neg hmore]

theorem updateSeq_of_gap (hpos : s.probation > 0) (hseq : seq ≠ s.maxSeq + 1) :
    s.updateSeq seq = .ok ({ s with probation := 1, maxSeq := seq }, false) := by
  unfold updateSeq
  dsimp only
  rw [if_pos hpos, if_neg hseq]
  rfl

theorem updateSeq_of_second (hpos : s.probation > 0) (hseq : seq = s.maxSeq + 1)
    (hlast : s.probation - 1 = 0) :
    s.updateSeq seq =
      .ok ({ { s with probation := s.probation - 1, maxSeq := seq }.initSeq seq with received := 1
        }, true) := by
  unfold updateSeq
  dsimp only
  rw [if_pos hpos, if_pos hseq, if_pos hlast]
  rfl

theorem onPacket_of_updateSeq {s' : RxStats} (h : (s.start seq).updateSeq seq = .ok (s', false))
    (timestamp : UInt32) (arrivalMs : UInt64) :
    s.onPacket seq timestamp arrivalMs = .ok (s', false) := by
  unfold onPacket
  rw [h]
  rfl

theorem onPacket_of_counted {s' : RxStats} (h : (s.start seq).updateSeq seq = .ok (s', true))
    (timestamp : UInt32) (arrivalMs : UInt64) :
    s.onPacket seq timestamp arrivalMs = .ok (s'.measure timestamp arrivalMs, true) := by
  unfold onPacket
  rw [h]
  rfl

theorem start_of_started (h : s.started = true) (seq : UInt16) : s.start seq = s := if_pos h

/-- Nothing has been counted, and `last` was the last packet. -/
structure Doubted (s : RxStats) (last : Option UInt16) : Prop where
  started : s.started = last.isSome
  probation : s.started = true → s.probation = 1
  last : ∀ seq ∈ last, s.maxSeq = seq
  received : s.received = 0
  expectedPrior : s.expectedPrior = 0
  receivedPrior : s.receivedPrior = 0

theorem doubted_new (clockRate : UInt32) : (new clockRate).Doubted none :=
  ⟨rfl, fun h => (nomatch h), fun _ h => (nomatch h), rfl, rfl, rfl⟩

theorem Doubted.expected {last : Option UInt16} (h : s.Doubted last) : s.expected = 0 := by
  unfold RxStats.expected
  cases hstarted : s.started with
  | false => rfl
  | true =>
    rw [h.probation hstarted]
    rfl

theorem Doubted.packet {last : Option UInt16} (h : s.Doubted last) (hseq : ∀ q ∈ last, seq ≠ q + 1)
    (timestamp : UInt32) (arrivalMs : UInt64) :
    ∃ s', s.onPacket seq timestamp arrivalMs = .ok (s', false) ∧ s'.Doubted (some seq) := by
  cases last with
  | none =>
    have hstart : s.start seq = { { s with started := true }.initSeq seq with
        maxSeq := seq - 1, probation := minSequential } := by
      refine if_neg ?_
      rw [h.started]
      exact Bool.false_ne_true
    have hprobation : (s.start seq).probation = 2 := congrArg RxStats.probation hstart
    have hmax : (s.start seq).maxSeq = seq - 1 := congrArg RxStats.maxSeq hstart
    have hupdate := @updateSeq_of_first (s.start seq) seq (by rw [hprobation]; decide)
      (by rw [hmax]; exact (UInt16.sub_add_cancel seq 1).symm) (by rw [hprobation]; decide)
    refine ⟨_, onPacket_of_updateSeq hupdate timestamp arrivalMs, congrArg RxStats.started hstart,
      fun _ => ?_,
      fun _ hq => Option.some.inj hq, congrArg RxStats.received hstart,
        congrArg RxStats.expectedPrior hstart,
      congrArg RxStats.receivedPrior hstart⟩
    change (s.start seq).probation - 1 = 1
    rw [hprobation]
    rfl
  | some q =>
    have hstarted : s.started = true := h.started
    have hupdate :
      (s.start seq).updateSeq seq = .ok ({ s with probation := 1, maxSeq := seq }, false) := by
      rw [start_of_started hstarted]
      refine updateSeq_of_gap ?_ ?_
      · rw [h.probation hstarted]
        decide
      · rw [h.last q rfl]
        exact hseq q rfl
    refine ⟨_, onPacket_of_updateSeq hupdate timestamp arrivalMs, ?_⟩
    exact ⟨h.started, fun _ => rfl, fun _ hq => Option.some.inj hq, h.received, h.expectedPrior,
      h.receivedPrior⟩

theorem Doubted.report {last : Option UInt16} (h : s.Doubted last) (ssrc : UInt32) :
    (s.reportBlock ssrc).1.Doubted last ∧ s.expectedInterval = 0 ∧ s.receivedInterval = 0 := by
  refine ⟨⟨h.started, h.probation, h.last, h.received, h.expected, h.received⟩, ?_, ?_⟩
  · rw [expectedInterval, h.expected, h.expectedPrior]
    rfl
  · rw [receivedInterval, h.received, h.receivedPrior]
    rfl

/-! ## A source that is believed -/

/-- **What the statistics stand for**: the first number and the highest one, and how many packets
came. -/
structure Counted (s : RxStats) (base highest n : ℕ) : Prop where
  started : s.started = true
  probation : s.probation = 0
  le : base ≤ highest
  baseSeq : s.baseSeq.toNat = base % 65536
  maxSeq : s.maxSeq.toNat = highest % 65536
  cycles : s.cycles.toNat = 65536 * (highest / 65536 - base / 65536)
  received : s.received.toNat = n

variable {base highest number n : ℕ}

theorem Counted.extendedMax (h : s.Counted base highest n)
    (hfits : highest < 65536 * (base / 65536) + 2 ^ 32) :
    s.extendedMax.toNat = highest - 65536 * (base / 65536) := by
  have hle := h.le
  rw [RxStats.extendedMax, UInt32.toNat_add, h.cycles, UInt16.toNat_toUInt32, h.maxSeq]
  omega

theorem Counted.expected (h : s.Counted base highest n)
    (hfits : highest < 65536 * (base / 65536) + 2 ^ 32) (hlt : highest + 1 - base < 2 ^ 32) :
    s.expected.toNat = highest + 1 - base := by
  have hle := h.le
  have hmax := h.extendedMax hfits
  have hexpected : s.expected = s.extendedMax - s.baseSeq + 1 := by
    unfold RxStats.expected
    rw [h.started, h.probation]
    rfl
  rw [hexpected, UInt32.toNat_add, UInt32.toNat_sub, hmax, h.baseSeq, UInt32.toNat_one]
  omega

theorem Counted.measure (h : s.Counted base highest n) (timestamp : UInt32) (arrivalMs : UInt64) :
    (s.measure timestamp arrivalMs).Counted base highest n := by
  unfold RxStats.measure
  dsimp only
  split
  · exact ⟨h.started, h.probation, h.le, h.baseSeq, h.maxSeq, h.cycles, h.received⟩
  · exact ⟨h.started, h.probation, h.le, h.baseSeq, h.maxSeq, h.cycles, h.received⟩

theorem priors_measure (s : RxStats) (timestamp : UInt32) (arrivalMs : UInt64) :
    (s.measure timestamp arrivalMs).expectedPrior = s.expectedPrior ∧
      (s.measure timestamp arrivalMs).receivedPrior = s.receivedPrior := by
  unfold RxStats.measure
  dsimp only
  split
  · exact ⟨rfl, rfl⟩
  · exact ⟨rfl, rfl⟩

theorem plus_of_lt {a b : UInt32} (h : a.toNat + b.toNat < UInt32.size) :
    plus a b = .ok (a + b) ∧ (a + b).toNat = a.toNat + b.toNat := by
  refine ⟨if_pos h, ?_⟩
  rw [UInt32.toNat_add]
  exact Nat.mod_eq_of_lt h

theorem count_of_lt (h : s.received.toNat + 1 < UInt32.size) :
    s.count = .ok ({ s with received := s.received + 1 }, true) ∧
      (s.received + 1).toNat = s.received.toNat + 1 := by
  obtain ⟨hplus, hsum⟩ := @plus_of_lt s.received 1 h
  refine ⟨?_, hsum⟩
  unfold count
  rw [hplus]
  rfl

/-- **A packet in the bands** is counted, and is the highest if its number is. -/
theorem Counted.updateSeq (h : s.Counted base highest n) (hup : number < highest + 3000)
    (hdown : highest < number + 100) (hfits : number < 65536 * (base / 65536) + 2 ^ 32)
    (hn : n + 1 < 2 ^ 32) :
    ∃ s', s.updateSeq (UInt16.ofNat number) = .ok (s', true) ∧
      s'.Counted base (max highest number) (n + 1) ∧
      s'.expectedPrior = s.expectedPrior ∧ s'.receivedPrior = s.receivedPrior := by
  have hle := h.le
  have hmax := h.maxSeq
  have hcycles := h.cycles
  have hseq : (UInt16.ofNat number).toNat = number % 65536 := UInt16.toNat_ofNat'
  have hdelta : (UInt16.ofNat number - s.maxSeq).toNat =
    (65536 - highest % 65536 + number % 65536) % 65536 := by
    rw [UInt16.toNat_sub, hseq, hmax]
  have hreceived : s.received.toNat + 1 < UInt32.size := by
    rw [h.received]
    exact hn
  have hnotProbation : ¬ s.probation > 0 := by
    rw [h.probation]
    decide
  unfold RxStats.updateSeq
  dsimp only
  rw [if_neg hnotProbation]
  rcases Nat.le_total highest number with hge | hlt
  · have hdropout : UInt16.ofNat number - s.maxSeq < maxDropout := by
      rw [UInt16.lt_iff_toNat_lt, hdelta]
      change _ < 3000
      omega
    rw [if_pos hdropout, max_eq_right hge]
    have hwraps : UInt16.ofNat number < s.maxSeq ↔ number / 65536 = highest / 65536 + 1 := by
      rw [UInt16.lt_iff_toNat_lt, hseq, hmax]
      omega
    obtain ⟨cycles, hok, hsum⟩ : ∃ cycles, s.cyclesAt (UInt16.ofNat number) = .ok cycles ∧
        cycles.toNat = 65536 * (number / 65536 - base / 65536) := by
      unfold cyclesAt
      split_ifs with hwrap
      · have hnext := hwraps.mp hwrap
        have hsize : s.cycles.toNat + rtpSeqMod.toNat < UInt32.size := by
          rw [hcycles]
          change _ + 65536 < 2 ^ 32
          omega
        obtain ⟨hplus, hsum⟩ := plus_of_lt hsize
        refine ⟨_, hplus, ?_⟩
        rw [hsum, hcycles]
        change _ + 65536 = _
        omega
      · have hsame := mt hwraps.mpr hwrap
        refine ⟨_, rfl, ?_⟩
        rw [hcycles]
        omega
    rw [hok]
    obtain ⟨hcount, hone⟩ := @count_of_lt { s with cycles, maxSeq := UInt16.ofNat number } hreceived
    refine ⟨_, hcount, ⟨h.started, h.probation, hle.trans hge, h.baseSeq, hseq, hsum, ?_⟩, rfl, rfl⟩
    exact hone.trans (congrArg (· + 1) h.received)
  · rcases Nat.eq_or_lt_of_le hlt with rfl | hlt
    · -- the highest again, as above
      have hdropout : UInt16.ofNat number - s.maxSeq < maxDropout := by
        rw [UInt16.lt_iff_toNat_lt, hdelta]
        change _ < 3000
        omega
      have hnotWrap : ¬ UInt16.ofNat number < s.maxSeq := by
        rw [UInt16.lt_iff_toNat_lt, hseq, hmax]
        exact Nat.lt_irrefl _
      have hok : s.cyclesAt (UInt16.ofNat number) = .ok s.cycles := if_neg hnotWrap
      rw [if_pos hdropout, hok, max_self]
      obtain ⟨hcount, hone⟩ := @count_of_lt { s with maxSeq := UInt16.ofNat number } hreceived
      refine ⟨_, hcount, ⟨h.started, h.probation, hle, h.baseSeq, hseq, hcycles, ?_⟩, rfl, rfl⟩
      exact hone.trans (congrArg (· + 1) h.received)
    · have hdropout : ¬ UInt16.ofNat number - s.maxSeq < maxDropout := by
        rw [UInt16.lt_iff_toNat_lt, hdelta]
        change ¬ _ < 3000
        omega
      have hmisorder :
        ¬ (UInt16.ofNat number - s.maxSeq).toUInt32 ≤ rtpSeqMod - maxMisorder.toUInt32 := by
        rw [UInt32.le_iff_toNat_le, UInt16.toNat_toUInt32, hdelta]
        change ¬ _ ≤ 65436
        omega
      rw [if_neg hdropout, if_neg hmisorder, max_eq_left hlt.le]
      obtain ⟨hcount, hone⟩ := count_of_lt hreceived
      refine ⟨_, hcount, ⟨h.started, h.probation, hle, h.baseSeq, hmax, hcycles, ?_⟩, rfl, rfl⟩
      exact hone.trans (congrArg (· + 1) h.received)

theorem Counted.packet (h : s.Counted base highest n) (hup : number < highest + 3000)
    (hdown : highest < number + 100) (hfits : number < 65536 * (base / 65536) + 2 ^ 32)
    (hn : n + 1 < 2 ^ 32) (timestamp : UInt32) (arrivalMs : UInt64) :
    ∃ s', s.onPacket (UInt16.ofNat number) timestamp arrivalMs = .ok (s', true) ∧
      s'.Counted base (max highest number) (n + 1) ∧ s'.expectedPrior = s.expectedPrior ∧
      s'.receivedPrior = s.receivedPrior := by
  obtain ⟨s', hupdate, hcounted, hexpected, hreceived⟩ := h.updateSeq hup hdown hfits hn
  have hstart := start_of_started h.started (UInt16.ofNat number)
  obtain ⟨hexpected', hreceived'⟩ := priors_measure s' timestamp arrivalMs
  refine ⟨_, onPacket_of_counted (hstart.symm ▸ hupdate) timestamp arrivalMs,
    hcounted.measure timestamp arrivalMs,
    hexpected'.trans hexpected, hreceived'.trans hreceived⟩

theorem Doubted.second (h : s.Doubted (some (UInt16.ofNat number))) (timestamp : UInt32)
    (arrivalMs : UInt64) :
    ∃ s', s.onPacket (UInt16.ofNat (number + 1)) timestamp arrivalMs = .ok (s', true) ∧
      s'.Counted (number + 1) (number + 1) 1 ∧ s'.expectedPrior = 0 ∧ s'.receivedPrior = 0 := by
  have hstarted : s.started = true := h.started
  have hprobation := h.probation hstarted
  have hnext : UInt16.ofNat (number + 1) = s.maxSeq + 1 := by
    rw [h.last _ rfl, UInt16.ofNat_add]
    rfl
  have hlast : s.probation - 1 = 0 := by
    rw [hprobation]
    rfl
  have hpos : s.probation > 0 := by
    rw [hprobation]
    decide
  have hseq : (UInt16.ofNat (number + 1)).toNat = (number + 1) % 65536 := UInt16.toNat_ofNat'
  have hbase : (UInt16.ofNat (number + 1)).toUInt32.toNat = (number + 1) % 65536 := by
    rw [UInt16.toNat_toUInt32, hseq]
  have hcycles : (0 : UInt32).toNat = 65536 * ((number + 1) / 65536 - (number + 1) / 65536) := by
    rw [Nat.sub_self]
    rfl
  obtain ⟨s', hupdate, hcounted, hexpected, hreceived⟩ :
    ∃ s', s.updateSeq (UInt16.ofNat (number + 1)) = .ok (s', true) ∧
      s'.Counted (number + 1) (number + 1) 1 ∧ s'.expectedPrior = 0 ∧ s'.receivedPrior = 0 :=
    ⟨_, updateSeq_of_second hpos hnext hlast,
      ⟨hstarted, hlast, le_refl _, hbase, hseq, hcycles, rfl⟩, rfl, rfl⟩
  rw [← start_of_started hstarted (UInt16.ofNat (number + 1))] at hupdate
  obtain ⟨hexpected', hreceived'⟩ := priors_measure s' timestamp arrivalMs
  exact ⟨_, onPacket_of_counted hupdate timestamp arrivalMs, hcounted.measure timestamp arrivalMs,
    hexpected'.trans hexpected, hreceived'.trans hreceived⟩

end RxStats

/-! ## Whole streams -/

theorem le_highestOf (highest : ℕ) (l : List RxEvent) : highest ≤ highestOf highest l := by
  induction l generalizing highest with
  | nil => exact le_refl _
  | cons e l ih =>
    cases e with
    | packet number timestamp arrivalMs => exact (le_max_left _ _).trans (ih _)
    | report ssrc => exact ih _

theorem seqs_packet (number : ℕ) (timestamp : UInt32) (arrivalMs : UInt64) (l : List RxEvent) :
    (RxEvent.packet number timestamp arrivalMs :: l).filterMap RxEvent.seq =
      UInt16.ofNat number :: l.filterMap RxEvent.seq := rfl

theorem seqs_report (ssrc : UInt32) (l : List RxEvent) :
    (RxEvent.report ssrc :: l).filterMap RxEvent.seq = l.filterMap RxEvent.seq := rfl

namespace RxRun

variable {r : RxRun} {base highest n : ℕ}

theorem steps_cons {r' : RxRun} {e : RxEvent} (h : r.step e = .ok r') (l : List RxEvent) :
    r.steps (e :: l) = r'.steps l := by
  rw [steps, List.foldlM_cons, h]
  rfl

theorem step_packet {number : ℕ} {timestamp : UInt32} {arrivalMs : UInt64} {x : RxStats × Bool}
    (h : r.stats.onPacket (UInt16.ofNat number) timestamp arrivalMs = .ok x) :
    r.step (.packet number timestamp arrivalMs) = .ok { r with stats := x.1 } := by
  change r.stats.onPacket (UInt16.ofNat number) timestamp arrivalMs >>= _ = _
  rw [h]
  rfl

/-- Nothing has been counted, and nothing reported. -/
structure Doubted (r : RxRun) (last : Option UInt16) : Prop where
  stats : r.stats.Doubted last
  expected : (r.intervals.map (·.1.toNat)).sum = 0
  received : (r.intervals.map (·.2.toNat)).sum = 0

/-- **No source is believed before two packets in a row.** -/
theorem Doubted.steps {last : Option UInt16} {l : List RxEvent} (h : r.Doubted last)
    (hl : (last.toList ++ l.filterMap RxEvent.seq).IsChain fun a b => b ≠ a + 1) :
    ∃ r', r.steps l = .ok r' ∧ r'.Doubted (last.toList ++ l.filterMap RxEvent.seq).getLast? := by
  induction l generalizing r last with
  | nil =>
    refine ⟨r, rfl, ?_⟩
    cases last with
    | none => exact h
    | some q => exact h
  | cons e l ih =>
    cases e with
    | packet number timestamp arrivalMs =>
      rw [seqs_packet] at hl ⊢
      have hfollows : ∀ q ∈ last, UInt16.ofNat number ≠ q + 1 := by
        rintro q rfl
        exact (List.isChain_cons_cons.mp hl).1
      have hrest : ((some (UInt16.ofNat number)).toList ++ l.filterMap RxEvent.seq).IsChain
          fun a b => b ≠ a + 1 := hl.right_of_append
      obtain ⟨s', hok, hdoubted⟩ := h.stats.packet hfollows timestamp arrivalMs
      obtain ⟨r', hsteps, hr'⟩ :=
        ih (r := { r with stats := s' }) ⟨hdoubted, h.expected, h.received⟩ hrest
      refine ⟨r', (steps_cons (step_packet hok) l).trans hsteps, ?_⟩
      rwa [List.getLast?_append_of_ne_nil _ (List.cons_ne_nil _ _)]
    | report ssrc =>
      rw [seqs_report] at hl ⊢
      obtain ⟨hdoubted, hexpected, hreceived⟩ := h.stats.report ssrc
      obtain ⟨r', hsteps, hr'⟩ := @ih ⟨(r.stats.reportBlock ssrc).1,
        r.intervals ++ [(r.stats.expectedInterval, r.stats.receivedInterval)]⟩ last ⟨hdoubted, by
          simp [h.expected, hexpected], by simp [h.received, hreceived]⟩ hl
      exact ⟨r', hsteps, hr'⟩

/-- **What a run stands for**: the statistics, and the intervals, which are what was there at the
last report. -/
structure Counted (r : RxRun) (base highest n : ℕ) : Prop where
  stats : r.stats.Counted base highest n
  expected : (r.intervals.map (·.1.toNat)).sum = r.stats.expectedPrior.toNat
  expected_le : r.stats.expectedPrior.toNat ≤ highest + 1 - base
  received : (r.intervals.map (·.2.toNat)).sum = r.stats.receivedPrior.toNat
  received_le : r.stats.receivedPrior.toNat ≤ n

/-- The intervals, with the one that ends now, are all that there was. -/
theorem Counted.intervals (h : r.Counted base highest n)
    (hfits : highest < 65536 * (base / 65536) + 2 ^ 32) (hlt : highest + 1 - base < 2 ^ 32) :
    ((r.intervals ++ [(r.stats.expectedInterval, r.stats.receivedInterval)]).map (·.1.toNat)).sum =
        r.stats.expected.toNat ∧
      ((r.intervals ++ [(r.stats.expectedInterval, r.stats.receivedInterval)]).map
        (·.2.toNat)).sum =
        r.stats.received.toNat := by
  have hexpected := h.stats.expected hfits hlt
  have hle : r.stats.expectedPrior ≤ r.stats.expected := by
    rw [UInt32.le_iff_toNat_le, hexpected]
    exact h.expected_le
  have hle' : r.stats.receivedPrior ≤ r.stats.received := by
    rw [UInt32.le_iff_toNat_le, h.stats.received]
    exact h.received_le
  rw [List.map_append, List.map_append, List.sum_append, List.sum_append, h.expected, h.received]
  constructor
  · rw [List.map_singleton, List.sum_singleton, RxStats.expectedInterval,
      UInt32.toNat_sub_of_le _ _ hle]
    exact Nat.add_sub_cancel' (UInt32.le_iff_toNat_le.mp hle)
  · rw [List.map_singleton, List.sum_singleton, RxStats.receivedInterval,
      UInt32.toNat_sub_of_le _ _ hle']
    exact Nat.add_sub_cancel' (UInt32.le_iff_toNat_le.mp hle')

/-- **A stream in the bands is counted.** -/
theorem Counted.steps {l : List RxEvent} (h : r.Counted base highest n) (hl : InBand highest l)
    (hfits : highestOf highest l < 65536 * (base / 65536) + 2 ^ 32)
    (hlt : highestOf highest l + 1 - base < 2 ^ 32) (hn : n + packets l < 2 ^ 32) :
    ∃ r', r.steps l = .ok r' ∧ r'.Counted base (highestOf highest l) (n + packets l) := by
  induction l generalizing r highest n with
  | nil => exact ⟨r, rfl, h⟩
  | cons e l ih =>
    cases e with
    | packet number timestamp arrivalMs =>
      obtain ⟨hup, hdown, hrest⟩ := hl
      have hpackets : packets (.packet number timestamp arrivalMs :: l) = 1 + packets l :=
        Nat.add_comm ..
      rw [hpackets] at hn ⊢
      have hle := (le_max_right highest number).trans (le_highestOf (max highest number) l)
      obtain ⟨s', hok, hcounted, hexpected, hreceived⟩ :=
        h.stats.packet hup hdown (hle.trans_lt hfits) (by omega) timestamp arrivalMs
      have hnext : Counted { r with stats := s' } base (max highest number) (n + 1) := by
        refine ⟨hcounted, ?_, ?_, ?_, ?_⟩
        · rw [hexpected]
          exact h.expected
        · rw [hexpected]
          have := h.expected_le
          have := le_max_left highest number
          omega
        · rw [hreceived]
          exact h.received
        · rw [hreceived]
          exact h.received_le.trans (Nat.le_succ n)
      obtain ⟨r', hsteps, hr'⟩ := ih hnext hrest hfits hlt (by omega)
      refine ⟨r', (steps_cons (step_packet hok) l).trans hsteps, ?_⟩
      rwa [← Nat.add_assoc]
    | report ssrc =>
      have hle := le_highestOf highest l
      have hfits' : highest < 65536 * (base / 65536) + 2 ^ 32 := hle.trans_lt hfits
      have hlt' : highest + 1 - base < 2 ^ 32 :=
        (Nat.sub_le_sub_right (Nat.succ_le_succ hle) base).trans_lt hlt
      obtain ⟨hexpected, hreceived⟩ := h.intervals hfits' hlt'
      exact ih (r := ⟨(r.stats.reportBlock ssrc).1,
          r.intervals ++ [(r.stats.expectedInterval, r.stats.receivedInterval)]⟩)
        ⟨⟨h.stats.started, h.stats.probation, h.stats.le, h.stats.baseSeq, h.stats.maxSeq,
          h.stats.cycles,
          h.stats.received⟩, hexpected, (h.stats.expected hfits' hlt').le, hreceived,
            h.stats.received.le⟩
        hl hfits hlt hn

/-- What the statistics of a source are to be: the highest number, from the cycle of the first on,
how many packets there were and how many are missing, and intervals of the reports that make
up the whole. -/
def Exact (x : Exec RxRun) (base highest n : ℕ) : Prop :=
  ∃ r, x = .ok r ∧ r.stats.extendedMax.toNat = highest - 65536 * (base / 65536) ∧
    r.stats.received.toNat = n ∧
    r.stats.expected.toNat = highest + 1 - base ∧
      r.stats.lost = ((highest + 1 - base : ℕ) : ℤ) - n ∧
    ((r.intervals ++ [(r.stats.expectedInterval, r.stats.receivedInterval)]).map (·.1.toNat)).sum =
      r.stats.expected.toNat ∧
    ((r.intervals ++ [(r.stats.expectedInterval, r.stats.receivedInterval)]).map (·.2.toNat)).sum =
      r.stats.received.toNat

end RxRun

open RxRun

/-- **Exactly while the highest number fits are the statistics exact.**  The source is believed at
the first two packets in a row, and what comes after is in the bands. -/
theorem rxStats_exact_iff (clockRate : UInt32) {before after : List RxEvent} {number : ℕ}
    {timestamp : UInt32} {arrivalMs : UInt64}
    (hbefore : (before.filterMap RxEvent.seq).IsChain fun a b => b ≠ a + 1)
    (hfirst : (before.filterMap RxEvent.seq).getLast? = some (UInt16.ofNat number))
    (hafter : InBand (number + 1) after) (hn : 1 + packets after < 2 ^ 32) :
    Exact ((RxRun.start clockRate).steps
      (before ++ .packet (number + 1) timestamp arrivalMs :: after))
        (number + 1) (highestOf (number + 1) after) (1 + packets after) ↔
      highestOf (number + 1) after < 65536 * ((number + 1) / 65536) + 2 ^ 32 ∧
        highestOf (number + 1) after + 1 - (number + 1) < 2 ^ 32 := by
  constructor
  · rintro ⟨r, -, hmax, -, hexpected, -⟩
    have hmax' := r.stats.extendedMax.toNat_lt
    have hexpected' := r.stats.expected.toNat_lt
    rw [hmax] at hmax'
    rw [hexpected] at hexpected'
    exact ⟨by omega, hexpected'⟩
  · rintro ⟨hfits, hlt⟩
    have hstart : (RxRun.start clockRate).Doubted none := ⟨RxStats.doubted_new clockRate, rfl, rfl⟩
    obtain ⟨r₁, hsteps₁, h₁⟩ := hstart.steps (l := before) hbefore
    rw [show (none : Option UInt16).toList ++ before.filterMap RxEvent.seq =
      before.filterMap RxEvent.seq from rfl,
      hfirst] at h₁
    obtain ⟨s₂, hok, hcounted, hexpected, hreceived⟩ := h₁.stats.second timestamp arrivalMs
    have h₂ : Counted { r₁ with stats := s₂ } (number + 1) (number + 1) 1 := by
      refine ⟨hcounted, ?_, ?_, ?_, ?_⟩
      · rw [hexpected]
        exact h₁.expected
      · rw [hexpected]
        exact Nat.zero_le _
      · rw [hreceived]
        exact h₁.received
      · rw [hreceived]
        exact Nat.zero_le _
    obtain ⟨r, hsteps, h⟩ := h₂.steps hafter hfits hlt hn
    obtain ⟨hsum, hsum'⟩ := h.intervals hfits hlt
    have htotal := h.stats.expected hfits hlt
    refine ⟨r, ?_, h.stats.extendedMax hfits, h.stats.received, htotal, ?_, hsum, hsum'⟩
    · rw [RxRun.steps, List.foldlM_append]
      change (RxRun.start clockRate).steps before >>= _ = _
      rw [hsteps₁]
      exact (steps_cons (step_packet hok) after).trans hsteps
    · rw [RxStats.lost, htotal, h.stats.received]

/-- Two packets in a row over the end of a cycle, a duplicate, a report and one that overtakes. -/
theorem rxStats_exact_wrap :
    Exact ((RxRun.start 8000).steps ([.packet 65534 0 0] ++
        .packet 65535 160 20 ::
          [.packet 65537 480 60, .report 1, .packet 65536 320 61, .packet 65537 480 62]))
      65535 65537 4 :=
  (@rxStats_exact_iff 8000 [.packet 65534 0 0]
    [.packet 65537 480 60, .report 1, .packet 65536 320 61, .packet 65537 480 62] 65534 160 20
    (List.isChain_singleton _) rfl (by simp [InBand]) (by decide)).mpr (by decide)

/-! ## A stream that climbs -/

/-- Packets as far above each other as the bands let them be. -/
def climb (highest : ℕ) : ℕ → List RxEvent
  | 0 => []
  | k + 1 => .packet (highest + 2999) 0 0 :: climb (highest + 2999) k

theorem climb_spec (highest k : ℕ) :
    InBand highest (climb highest k) ∧ highestOf highest (climb highest k) = highest + 2999 * k ∧
      packets (climb highest k) = k := by
  induction k generalizing highest with
  | zero => exact ⟨trivial, rfl, rfl⟩
  | succ k ih =>
    obtain ⟨hband, hhighest, hpackets⟩ := ih (highest + 2999)
    have hmax : max highest (highest + 2999) = highest + 2999 := max_eq_right (Nat.le_add_right _ _)
    refine ⟨⟨by omega, by omega, ?_⟩, ?_, congrArg (· + 1) hpackets⟩
    · rw [hmax]
      exact hband
    · rw [climb, highestOf, hmax, hhighest, Nat.mul_succ]
      omega

/-- With less than 2 ^ 32 packets the highest number need not fit: the cycles do not. -/
theorem not_exact_climb :
    ∃ (clockRate : UInt32) (before after : List RxEvent) (number : ℕ),
      ((before.filterMap RxEvent.seq).IsChain fun a b => b ≠ a + 1) ∧
        (before.filterMap RxEvent.seq).getLast? = some (UInt16.ofNat number) ∧
          InBand (number + 1) after ∧
        before.length + 1 + packets after < 2 ^ 32 ∧
        ¬ Exact ((RxRun.start clockRate).steps (before ++ .packet (number + 1) 0 0 :: after))
          (number + 1)
          (highestOf (number + 1) after) (1 + packets after) := by
  obtain ⟨after, hband, hhighest, hpackets⟩ :
    ∃ after, InBand 1 after ∧ highestOf 1 after = 1 + 2999 * 1500000 ∧
      packets after = 1500000 := ⟨_, climb_spec 1 1500000⟩
  refine ⟨8000, [.packet 0 0 0], after, 0, List.isChain_singleton _, rfl, hband, ?_, ?_⟩
  · rw [hpackets]
    decide
  · rintro ⟨r, -, hmax, -⟩
    have hlt := r.stats.extendedMax.toNat_lt
    rw [hmax, hhighest] at hlt
    omega

end EvansComputer.Rtp
